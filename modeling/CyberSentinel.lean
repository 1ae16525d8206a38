import CyberSentinel.BlockCapacity
import CyberSentinel.ByteJump
import CyberSentinel.ByteMap
import CyberSentinel.CitedEvidence
import CyberSentinel.ContentChains
import CyberSentinel.ContentModifiers
import CyberSentinel.ContentPatterns
import CyberSentinel.CorrelationLimits
import CyberSentinel.Cuts
import CyberSentinel.DecodeRanges
import CyberSentinel.DefragCounts
import CyberSentinel.DetectionState
import CyberSentinel.EmptyPorts
import CyberSentinel.EventlogDepth
import CyberSentinel.EventlogShutdown
import CyberSentinel.EvtxForgery
import CyberSentinel.FimDelivery
import CyberSentinel.FimHistory
import CyberSentinel.FimMissingRoots
import CyberSentinel.FimOverflow
import CyberSentinel.FlowAccounts
import CyberSentinel.FlowCeiling
import CyberSentinel.FlowStates
import CyberSentinel.FlowbitOrder
import CyberSentinel.FragmentFrames
import CyberSentinel.HeaderCopies
import CyberSentinel.HttpRequests
import CyberSentinel.IncidentTiming
import CyberSentinel.Independence
import CyberSentinel.LineEndings
import CyberSentinel.LogPolling
import CyberSentinel.LogSource
import CyberSentinel.MainLoop
import CyberSentinel.Negations
import CyberSentinel.OutOfWindow
import CyberSentinel.PathSpelling
import CyberSentinel.PolicyLookup
import CyberSentinel.ProcessStat
import CyberSentinel.ProcessSweeps
import CyberSentinel.RangeBufferAccounts
import CyberSentinel.ReplayExact
import CyberSentinel.RespelledRequests
import CyberSentinel.RuleLoader
import CyberSentinel.SensorTrace
import CyberSentinel.SentPatterns
import CyberSentinel.SentRequests
import CyberSentinel.SpanningRules
import CyberSentinel.Straddling
import CyberSentinel.StreamAnchor
import CyberSentinel.Tails
import CyberSentinel.Thresholds
import CyberSentinel.Timestamps
import CyberSentinel.UsnRoundTrip
