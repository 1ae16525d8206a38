import CyberSentinel.Net
import CyberSentinel.RangeBuffer
import Mathlib.Data.List.Sort

/-!
# Configuration

The sections of the configuration that the modelled code reads, with their defaults and their
checks. Counts and sizes are naturals, durations of the file are whole seconds. A refused value is
reported with the text that names its key; where the text quotes a value, the error carries the
value.
-/

namespace CyberSentinel

structure HostPolicy where
  network : IpNetwork
  policy : OverlapPolicy
  deriving DecidableEq

theorem defaultStreamBytes_lt : 2 ^ 20 < 2 ^ 64 := by decide

structure ReassemblyConfig where
  overlapPolicy : OverlapPolicy := .first
  hostPolicies : List HostPolicy := []
  maxFragmentSets : ℕ := 4096
  maxFragmentBytesTotal : ℕ := 32 * 2 ^ 20
  fragmentTimeoutSecs : ℕ := 60
  maxStreamBytesPerFlow : ℕ := 2 ^ 20
  maxStreamBytesTotal : ℕ := 256 * 2 ^ 20
  deliveryFlushBytes : ℕ := 64 * 2 ^ 10
  /-- It is a `usize`, and a direction adds it to an offset. -/
  maxStreamBytesPerFlow_lt : maxStreamBytesPerFlow < 2 ^ 64 := by
    first
    | exact defaultStreamBytes_lt
    | exact @of_decide_eq_true _ (Nat.decLt _ _) rfl
  deriving DecidableEq

structure NormalizeConfig where
  decodeRounds : ℕ := 2
  collapsePath : Bool := true
  backslashIsSeparator : Bool := false
  deriving DecidableEq, Repr

structure DetectConfig where
  enabled : Bool := true
  regexSizeLimit : ℕ := 2 ^ 20
  regexDfaSizeLimit : ℕ := 2 ^ 20
  maxFlowStates : ℕ := 65536
  maxFlowbitsPerFlow : ℕ := 64
  inspectionWindow : ℕ := 64 * 2 ^ 10
  maxThresholdEntries : ℕ := 65536
  deriving DecidableEq, Repr

structure PreventConfig where
  enabled : Bool
  mode : String
  failMode : String
  allowList : List String
  sourceBlockSecs : ℕ
  maxBlockedFlows : ℕ
  maxBlockedSources : ℕ
  deriving DecidableEq, Repr

/-- The sections and fields that `check` reads. -/
structure Config where
  loggingQueueCapacity : ℕ
  loggingLevel : String
  statsEnabled : Bool
  statsIntervalSecs : ℕ
  fileOutputEnabled : Bool
  fileOutputPath : String
  webhookEnabled : Bool
  webhookUrl : Option String
  captureSnaplen : ℕ
  flowMaxFlows : ℕ
  flowTimeoutSecs : ℕ
  reassembly : ReassemblyConfig
  fimEnabled : Bool
  fimRescanIntervalSecs : ℕ
  fimMaxEntries : ℕ
  processEnabled : Bool
  processIntervalSecs : ℕ
  prevent : PreventConfig
  correlationEnabled : Bool
  correlationWindowSecs : ℕ
  detect : DetectConfig
  normalize : NormalizeConfig
  deriving DecidableEq

inductive ConfigError
  | invalid (message : String)
  /-- `reassembly.host-policies lists {network} more than once` -/
  | hostPolicyTwice (network : IpNetwork)
  /-- ``prevent.mode must be `detect` or `prevent`, not {mode}`` -/
  | preventMode (mode : String)
  /-- ``prevent.fail-mode must be `open` or `closed`, not {mode}`` -/
  | preventFailMode (mode : String)
  /-- `prevent.allow-list entry {entry} is not an address or network` -/
  | allowListEntry (entry : String)
  /-- `logging.level must be one of error|warn|info|debug|trace, got {level}` -/
  | loggingLevel (level : String)
  deriving DecidableEq

/-- Refuse with `message` when `bad` holds. -/
def refuseIf (bad : Bool) (message : String) : Except ConfigError Unit :=
  if bad then .error (.invalid message) else .ok ()

def firstListedTwice : List IpNetwork → List HostPolicy → Option IpNetwork
  | _, [] => none
  | seen, entry :: rest =>
    if entry.network ∈ seen then some entry.network
    else firstListedTwice (entry.network :: seen) rest

def ReassemblyConfig.check (c : ReassemblyConfig) : Except ConfigError Unit := do
  refuseIf (c.maxFragmentSets == 0) "reassembly.max-fragment-sets must be at least 1"
  refuseIf (c.fragmentTimeoutSecs == 0) "reassembly.fragment-timeout-secs must be at least 1"
  refuseIf (c.maxStreamBytesPerFlow == 0)
    "reassembly.max-stream-bytes-per-flow must be at least 1"
  refuseIf (c.maxStreamBytesTotal < c.maxStreamBytesPerFlow)
    ("reassembly.max-stream-bytes-total must be at least reassembly.max-stream-bytes-per-flow, " ++
      "or no single flow could ever reach its own limit")
  refuseIf (c.deliveryFlushBytes == 0) "reassembly.delivery-flush-bytes must be at least 1"
  refuseIf (c.maxStreamBytesPerFlow < c.deliveryFlushBytes)
    ("reassembly.delivery-flush-bytes must not exceed reassembly.max-stream-bytes-per-flow, " ++
      "or the per-flow cap would be hit before un-acknowledged data was ever flushed")
  match firstListedTwice [] c.hostPolicies with
  | some network => .error (.hostPolicyTwice network)
  | none => .ok ()

/-- Whether an allow-list entry reads as a network is decided by `isNetwork`. -/
def PreventConfig.check (isNetwork : String → Bool) (c : PreventConfig) :
    Except ConfigError Unit := do
  if c.mode ≠ "detect" ∧ c.mode ≠ "prevent" then .error (.preventMode c.mode)
  if c.failMode ≠ "open" ∧ c.failMode ≠ "closed" then .error (.preventFailMode c.failMode)
  match c.allowList.find? (fun entry => !isNetwork entry) with
  | some entry => .error (.allowListEntry entry)
  | none => .ok ()
  refuseIf (c.enabled && c.sourceBlockSecs == 0)
    "prevent.source-block-secs must be at least 1: a zero-length block blocks nothing"

def Config.check (isNetwork : String → Bool) (c : Config) : Except ConfigError Unit := do
  refuseIf (c.loggingQueueCapacity == 0) "logging.queue-capacity must be at least 1"
  refuseIf (c.statsEnabled && c.statsIntervalSecs == 0)
    "stats.interval-secs must be at least 1 when stats are enabled"
  refuseIf (c.fileOutputEnabled && c.fileOutputPath == "")
    "outputs.file.path must be set when outputs.file.enabled is true"
  refuseIf (c.webhookEnabled && c.webhookUrl.isNone)
    "outputs.webhook.url must be set when outputs.webhook.enabled is true"
  refuseIf (c.captureSnaplen == 0) "capture.snaplen must be at least 1"
  refuseIf (c.flowMaxFlows == 0) "flow.max-flows must be at least 1"
  refuseIf (c.flowTimeoutSecs == 0) "flow.timeout-secs must be at least 1"
  c.reassembly.check
  refuseIf (c.fimEnabled && c.fimRescanIntervalSecs == 0)
    "hids.fim.rescan-interval-secs must be at least 1 when FIM is enabled"
  refuseIf (c.fimEnabled && c.fimMaxEntries == 0)
    "hids.fim.max-entries must be at least 1 when FIM is enabled"
  refuseIf (c.processEnabled && c.processIntervalSecs == 0)
    "hids.process.interval-secs must be at least 1 when process monitoring is enabled"
  c.prevent.check isNetwork
  refuseIf (c.correlationEnabled && c.correlationWindowSecs == 0)
    "correlation.window-secs must be at least 1 when correlation is enabled"
  refuseIf (c.detect.inspectionWindow == 0) "detect.inspection-window must be at least 1"
  refuseIf (c.detect.maxFlowStates == 0) "detect.max-flow-states must be at least 1"
  refuseIf (8 < c.normalize.decodeRounds)
    "normalize.decode-rounds above 8 is a denial of service, not a setting"
  if c.loggingLevel.toLower ∈ ["error", "warn", "info", "debug", "trace"] then .ok ()
  else .error (.loggingLevel c.loggingLevel.toLower)

structure PolicyResolver where
  defaultPolicy : OverlapPolicy
  entries : List (IpNetwork × OverlapPolicy)

namespace PolicyResolver

def new (defaultPolicy : OverlapPolicy) (overrides : List HostPolicy) : PolicyResolver where
  defaultPolicy := defaultPolicy
  entries := (overrides.map (fun entry => (entry.network, entry.policy))).insertionSort
    (fun a b => b.1.prefixLen ≤ a.1.prefixLen)

def ofConfig (c : ReassemblyConfig) : PolicyResolver := new c.overlapPolicy c.hostPolicies

def forDestination (r : PolicyResolver) (address : IpAddr) : OverlapPolicy :=
  ((r.entries.find? (fun entry => entry.1.contains address)).map Prod.snd).getD r.defaultPolicy

end PolicyResolver
end CyberSentinel
