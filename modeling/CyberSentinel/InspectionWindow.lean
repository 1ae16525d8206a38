import CyberSentinel.EngineRuns

/-!
# What the inspection window lets through

A delivery of `n` bytes after `T` others leads to the inspection of the last
`min window (n + min overlap T)` bytes of the stream. The bytes in front of the window are dropped
before the inspection. So a run inspects every byte, and every pattern up to the longest one in one
piece, exactly when each delivery fits the window together with the overlap before it; a larger one
pushes bytes out that nothing has looked at.
-/

namespace CyberSentinel.Detect

open Rules Tables Bytes

variable {R : Regex} {A : AhoCorasick}

/-- The buffer holds the last `window` bytes of the stream, and all of them have been inspected. -/
structure Follows (window : ℕ) (stream : List UInt8) (b : InspectionBuffer) : Prop where
  data : b.data = stream.drop (stream.length - window)
  scanned : b.scanned = b.data.length

theorem follows_empty (window : ℕ) : Follows window [] {} := ⟨by simp, rfl⟩

/-- The inspection that delivering `bytes` after `stream` leads to. -/
def expectedScan (window overlap : ℕ) (stream bytes : List UInt8) : Scan where
  region := (stream ++ bytes).drop
    (stream.length + bytes.length - min window (bytes.length + min overlap stream.length))
  dropped := (stream.length + bytes.length - window) - (stream.length - window)

theorem Follows.append_data {window : ℕ} {stream : List UInt8} {b : InspectionBuffer}
    (h : Follows window stream b) (bytes : List UInt8) (overlap : ℕ) :
    (b.append bytes overlap window).buffer.data =
      (stream ++ bytes).drop (stream.length + bytes.length - window) := by
  simp only [InspectionBuffer.append, h.data]
  rw [← List.drop_append_of_le_length (Nat.sub_le _ _), List.drop_drop, List.length_drop,
    List.length_append]
  congr 1
  omega

theorem Follows.append {window : ℕ} {stream : List UInt8} {b : InspectionBuffer}
    (h : Follows window stream b) (bytes : List UInt8) (overlap : ℕ) :
    Follows window (stream ++ bytes) (b.append bytes overlap window).buffer where
  data := by rw [h.append_data, List.length_append]
  scanned := rfl

theorem Follows.append_scan {window : ℕ} {stream : List UInt8} {b : InspectionBuffer}
    (h : Follows window stream b) (bytes : List UInt8) (overlap : ℕ) :
    (⟨(b.append bytes overlap window).buffer.data.drop (b.append bytes overlap window).start,
      (b.append bytes overlap window).dropped⟩ : Scan) =
      expectedScan window overlap stream bytes := by
  have hexcess : (b.data ++ bytes).length - window =
      (stream.length + bytes.length - window) - (stream.length - window) := by
    rw [h.data, List.length_append, List.length_drop]
    omega
  have hstart : (b.append bytes overlap window).start =
      (stream.length - (stream.length - window) -
        ((stream.length + bytes.length - window) - (stream.length - window))) - overlap := by
    simp only [InspectionBuffer.append, h.scanned]
    rw [hexcess, h.data, List.length_drop]
  rw [h.append_data, hstart, expectedScan, Scan.mk.injEq, List.drop_drop]
  constructor
  · congr 1
    omega
  · exact hexcess

/-- The inspections of the deliveries of a run to one direction of a flow. -/
def scans (flowId : UInt64) (toServer : Bool) (calls : List Call) (outputs : List Output) :
    List Scan :=
  (calls.zip outputs).filterMap (fun p =>
    if (p.1.delivery flowId toServer).isEmpty then none else p.2.scan)

def expectedScans (window overlap : ℕ) : List UInt8 → List (List UInt8) → List Scan
  | _, [] => []
  | stream, bytes :: rest =>
    expectedScan window overlap stream bytes :: expectedScans window overlap (stream ++ bytes) rest

namespace Engine

/-- The region of a delivery, fixed before the first rule is evaluated. -/
theorem extendWindow_scan {e : Engine R A} {order : HashOrder UInt64} {flowId : UInt64}
    {toServer : Bool} {stream : List UInt8}
    (hwindow : Follows e.limits.inspectionWindow stream (e.windowOf flowId toServer))
    (hroom : flowId ∉ (e.makeRoom order).2) (bytes : List UInt8) (timestamp : Instant) :
    ((e.makeRoom order).1.extendWindow flowId toServer bytes timestamp).2 =
      expectedScan e.limits.inspectionWindow (e.longestPattern - 1) stream bytes := by
  have hlimits := limits_of_params (makeRoom_params e order)
  have hlongest := longestPattern_of_params (makeRoom_params e order)
  rw [← hwindow.append_scan]
  simp only [extendWindow, windowOf, makeRoom_stateOf e order hroom, hlimits, hlongest]

theorem not_evicted_by_makeRoom {e : Engine R A} {order : HashOrder UInt64} {flowId : UInt64}
    {tuple : NetTuple} {toServer : Bool} {bytes : List UInt8} {timestamp : Instant}
    (hne : bytes ≠ [])
    (h : flowId ∉ (e.inspectStream order flowId tuple toServer bytes timestamp).2.evicted) :
    flowId ∉ (e.makeRoom order).2 := by
  intro hmem
  apply h
  simp only [inspectStream, if_neg hne]
  split_ifs <;> simp [Output.andThen, hmem]

theorem step_scan {e : Engine R A} {call : Call} {flowId : UInt64} {toServer : Bool}
    {stream : List UInt8} (hwindow : Follows e.limits.inspectionWindow stream
      (e.windowOf flowId toServer))
    (hdelivery : call.delivery flowId toServer ≠ []) (h : e.KeepsFlow flowId call) :
    (e.step call).2.scan = some (expectedScan e.limits.inspectionWindow (e.longestPattern - 1)
      stream (call.delivery flowId toServer)) := by
  cases call with
  | packet order g tuple d payload timestamp => exact absurd rfl hdelivery
  | flowEnd g => exact absurd rfl hdelivery
  | stream order g tuple d delivered timestamp =>
    by_cases hmine : flowId = g ∧ toServer = d
    · obtain ⟨rfl, rfl⟩ := hmine
      simp only [Call.delivery, and_self, if_true] at hdelivery ⊢
      have hroom := not_evicted_by_makeRoom hdelivery h.1
      rw [← extendWindow_scan hwindow hroom delivered timestamp]
      simp only [step, inspectStream, if_neg hdelivery]
      split_ifs <;> rfl
    · simp only [Call.delivery, if_neg hmine] at hdelivery
      exact absurd rfl hdelivery

theorem step_follows {e : Engine R A} {call : Call} {flowId : UInt64} {toServer : Bool}
    {stream : List UInt8} (hwindow : Follows e.limits.inspectionWindow stream
      (e.windowOf flowId toServer)) (h : e.KeepsFlow flowId call) :
    Follows e.limits.inspectionWindow (stream ++ call.delivery flowId toServer)
      ((e.step call).1.windowOf flowId toServer) := by
  rw [step_windowOf e call toServer h]
  split_ifs with hempty
  · rw [hempty, List.append_nil]
    exact hwindow
  · exact hwindow.append _ _

theorem new_follows (resolve : HeaderResolver) (limits : EngineLimits) (rules : List Rule)
    (flowId : UInt64) (toServer : Bool) :
    Follows (Engine.new R A resolve limits rules).1.limits.inspectionWindow []
      ((Engine.new R A resolve limits rules).1.windowOf flowId toServer) := by
  have hfresh : (Engine.new R A resolve limits rules).1.windowOf flowId toServer = {} := by
    cases toServer <;> rfl
  rw [hfresh]
  exact follows_empty _

theorem run_follows {e : Engine R A} {calls : List Call} {flowId : UInt64} {toServer : Bool}
    {stream : List UInt8} (hwindow : Follows e.limits.inspectionWindow stream
      (e.windowOf flowId toServer))
    (h : Runs.Along Engine.step (Engine.KeepsFlow flowId) e calls) :
    Follows e.limits.inspectionWindow (stream ++ (deliveries flowId toServer calls).flatten)
        ((Runs.run Engine.step e calls).1.windowOf flowId toServer) ∧
      scans flowId toServer calls (Runs.run Engine.step e calls).2 =
        expectedScans e.limits.inspectionWindow (e.longestPattern - 1) stream
          (deliveries flowId toServer calls) := by
  induction calls generalizing e stream with
  | nil => simpa [deliveries, scans, expectedScans] using hwindow
  | cons call rest ih =>
    have hlimits := limits_of_params (step_params e call)
    have hnext := step_follows hwindow h.1
    rw [← hlimits] at hnext
    obtain ⟨hfollows, hscans⟩ := ih hnext h.2
    rw [hlimits] at hfollows hscans
    rw [longestPattern_of_params (step_params e call)] at hscans
    by_cases hempty : call.delivery flowId toServer = []
    · have hdeliveries : deliveries flowId toServer (call :: rest) =
          deliveries flowId toServer rest := by simp [deliveries, hempty]
      have hskip : scans flowId toServer (call :: rest) (Runs.run Engine.step e (call :: rest)).2 =
          scans flowId toServer rest (Runs.run Engine.step (e.step call).1 rest).2 := by
        simp [scans, hempty]
      rw [hempty, List.append_nil] at hfollows hscans
      rw [hdeliveries, hskip, Runs.run_cons]
      exact ⟨hfollows, hscans⟩
    · have hisEmpty : (call.delivery flowId toServer).isEmpty = false := by
        rw [List.isEmpty_eq_false_iff]
        exact hempty
      have hdeliveries : deliveries flowId toServer (call :: rest) =
          call.delivery flowId toServer :: deliveries flowId toServer rest := by
        simp [deliveries, hisEmpty]
      have hscan := step_scan hwindow hempty h.1
      have htake : scans flowId toServer (call :: rest) (Runs.run Engine.step e (call :: rest)).2 =
          expectedScan e.limits.inspectionWindow (e.longestPattern - 1) stream
            (call.delivery flowId toServer) ::
          scans flowId toServer rest (Runs.run Engine.step (e.step call).1 rest).2 := by
        simp only [scans, Runs.run_cons, List.zip_cons_cons, List.filterMap_cons, hisEmpty,
          Bool.false_eq_true, if_false, hscan]
      rw [hdeliveries, htake, Runs.run_cons, expectedScans, List.flatten_cons, ← List.append_assoc]
      exact ⟨hfollows, by rw [hscans]⟩

end Engine

/-- How many bytes the first `i` deliveries carried. -/
def delivered (ds : List (List UInt8)) (i : ℕ) : ℕ := (ds.take i).flatten.length

theorem delivered_succ {ds : List (List UInt8)} {i : ℕ} {bytes : List UInt8}
    (h : ds[i]? = some bytes) : delivered ds (i + 1) = delivered ds i + bytes.length := by
  simp [delivered, List.take_add_one, h]

theorem delivered_mono (ds : List (List UInt8)) {i j : ℕ} (h : i ≤ j) :
    delivered ds i ≤ delivered ds j := by
  simp only [delivered]
  exact (((List.take_prefix_take_left h).sublist).flatten).length_le

theorem delivered_le (ds : List (List UInt8)) (i : ℕ) : delivered ds i ≤ ds.flatten.length :=
  (((List.take_sublist i ds)).flatten).length_le

theorem flatten_take (ds : List (List UInt8)) (i : ℕ) :
    (ds.take i).flatten = ds.flatten.take (delivered ds i) := by
  have hsplit : ds.flatten = (ds.take i).flatten ++ (ds.drop i).flatten := by
    rw [← List.flatten_append, List.take_append_drop]
  rw [hsplit, delivered, List.take_left']
  rfl

theorem exists_delivery {ds : List (List UInt8)} {p : ℕ} (h : p < ds.flatten.length) :
    ∃ j bytes, ds[j]? = some bytes ∧ delivered ds j ≤ p ∧ p < delivered ds j + bytes.length := by
  induction ds generalizing p with
  | nil => exact absurd h (by simp)
  | cons first rest ih =>
    by_cases hp : p < first.length
    · exact ⟨0, first, rfl, by simp [delivered], by simpa [delivered] using hp⟩
    · rw [List.flatten_cons, List.length_append] at h
      obtain ⟨j, bytes, hj, hle, hlt⟩ := ih (p := p - first.length) (by omega)
      have hcons : delivered (first :: rest) (j + 1) = first.length + delivered rest j := by
        simp [delivered]
      exact ⟨j + 1, bytes, hj, by omega, by omega⟩

theorem expectedScans_getElem? (window overlap : ℕ) (stream : List UInt8) (ds : List (List UInt8))
    (i : ℕ) :
    (expectedScans window overlap stream ds)[i]? = ds[i]?.map (fun bytes =>
      expectedScan window overlap (stream ++ (ds.take i).flatten) bytes) := by
  induction ds generalizing stream i with
  | nil => simp [expectedScans]
  | cons first rest ih =>
    cases i with
    | zero => simp [expectedScans]
    | succ i => simp [expectedScans, ih]

/-- Inspection `j` looked at the `n` bytes of the stream from position `a`: its region is the part
of the stream that ends with delivery `j`, and these bytes lie in it. -/
def InRegion (ds : List (List UInt8)) (ss : List Scan) (j a n : ℕ) : Prop :=
  ∃ scan, ss[j]? = some scan ∧
    scan.region =
      slice ds.flatten (delivered ds (j + 1) - scan.region.length) (delivered ds (j + 1)) ∧
    delivered ds (j + 1) - scan.region.length ≤ a ∧ a + n ≤ delivered ds (j + 1)

/-- How many bytes had left the window before inspection `i`. -/
def droppedBefore (ss : List Scan) (i : ℕ) : ℕ := ((ss.take i).map Scan.dropped).sum

/-- Every byte that left the window had been inspected before, and every occurrence of a pattern no
longer than `longest` was inspected in one piece. -/
structure NothingUnscanned (longest : ℕ) (ds : List (List UInt8)) (ss : List Scan) : Prop where
  dropped : ∀ i p, droppedBefore ss i ≤ p → p < droppedBefore ss (i + 1) →
    ∃ j < i, InRegion ds ss j p 1
  occurrences : ∀ pattern nocase a, pattern ≠ [] → pattern.length ≤ longest →
    Search.OccursAt (sameByte nocase) pattern ds.flatten a →
    ∃ j, InRegion ds ss j a pattern.length

theorem droppedBefore_expectedScans (window overlap : ℕ) (ds : List (List UInt8)) (i : ℕ) :
    droppedBefore (expectedScans window overlap [] ds) i = delivered ds i - window := by
  induction i with
  | zero => simp [droppedBefore, delivered]
  | succ i ih =>
    rw [droppedBefore, List.take_add_one, expectedScans_getElem?, List.map_append, List.sum_append]
    change droppedBefore _ i + _ = _
    rw [ih]
    cases hi : ds[i]? with
    | none =>
      have hsame : delivered ds (i + 1) = delivered ds i := by
        simp [delivered, List.take_add_one, hi]
      simp [hsame]
    | some bytes =>
      rw [delivered_succ hi]
      have hmono : delivered ds i ≤ delivered ds i + bytes.length := Nat.le_add_right _ _
      simp only [Option.map_some, Option.toList_some, List.map_cons, List.map_nil, List.sum_cons,
        List.sum_nil, expectedScan, List.nil_append]
      change _ + ((delivered ds i + bytes.length - window) - (delivered ds i - window) + 0) = _
      omega

theorem inRegion_expectedScans_iff (window overlap : ℕ) (ds : List (List UInt8)) (j a n : ℕ) :
    InRegion ds (expectedScans window overlap [] ds) j a n ↔
      ∃ bytes, ds[j]? = some bytes ∧
        delivered ds j + bytes.length - min window
          (bytes.length + min overlap (delivered ds j)) ≤ a ∧
        a + n ≤ delivered ds j + bytes.length := by
  have hregion (bytes : List UInt8) (hj : ds[j]? = some bytes) :
      (expectedScan window overlap ((ds.take j).flatten) bytes).region.length =
        min window (bytes.length + min overlap (delivered ds j)) := by
    simp only [expectedScan, List.length_drop, List.length_append, delivered]
    omega
  constructor
  · rintro ⟨scan, hscan, _, hlow, hhigh⟩
    rw [expectedScans_getElem?, List.nil_append] at hscan
    obtain ⟨bytes, hj, rfl⟩ := Option.map_eq_some_iff.1 hscan
    rw [hregion bytes hj, delivered_succ hj] at hlow
    rw [delivered_succ hj] at hhigh
    exact ⟨bytes, hj, hlow, hhigh⟩
  · rintro ⟨bytes, hj, hlow, hhigh⟩
    refine ⟨expectedScan window overlap ((ds.take j).flatten) bytes, ?_, ?_, ?_, ?_⟩
    · rw [expectedScans_getElem?, hj]
      rfl
    · rw [hregion bytes hj, slice, ← flatten_take, delivered_succ hj, List.take_add_one, hj]
      simp [expectedScan, delivered]
    · rw [hregion bytes hj, delivered_succ hj]
      exact hlow
    · rw [delivered_succ hj]
      exact hhigh

/-- A delivery that does not fit pushes out bytes of its own, or cuts a pattern that ends with its
first byte. -/
theorem fits_of_nothingUnscanned {window longest : ℕ} {ds : List (List UInt8)}
    (hne : ∀ bytes ∈ ds, bytes ≠ [])
    (h : NothingUnscanned longest ds (expectedScans window (longest - 1) [] ds)) {i : ℕ}
    {bytes : List UInt8} (hi : ds[i]? = some bytes) :
    bytes.length + min (longest - 1) (delivered ds i) ≤ window := by
  have hpos : 0 < bytes.length := List.length_pos_of_ne_nil (hne bytes (List.mem_of_getElem? hi))
  by_contra hlarge
  by_cases hwindow : window < bytes.length
  · -- the first byte of the delivery leaves the window at once
    have hnew : ∃ j < i, InRegion ds (expectedScans window (longest - 1) [] ds) j
        (delivered ds i) 1 := by
      apply h.dropped i (delivered ds i)
      · rw [droppedBefore_expectedScans]
        omega
      · rw [droppedBefore_expectedScans, delivered_succ hi]
        omega
    obtain ⟨j, hj, hregion⟩ := hnew
    obtain ⟨old, hold, _, hhigh⟩ := (inRegion_expectedScans_iff _ _ _ _ _ _).1 hregion
    have hmono := delivered_mono ds (show j + 1 ≤ i by omega)
    rw [delivered_succ hold] at hmono
    omega
  · set start := delivered ds i - min (longest - 1) (delivered ds i) with hstart
    have htotal := delivered_le ds (i + 1)
    rw [delivered_succ hi] at htotal
    have hpattern : (slice ds.flatten start (delivered ds i + 1)).length =
        min (longest - 1) (delivered ds i) + 1 := by
      rw [length_slice _ (by omega)]
      omega
    obtain ⟨j, hregion⟩ := h.occurrences (slice ds.flatten start (delivered ds i + 1)) false start
      (by rw [← List.length_pos_iff, hpattern]; omega) (by rw [hpattern]; omega) (by
        intro k b hk
        rw [getElem?_slice] at hk
        split_ifs at hk with hlt
        exact ⟨b, hk, by simp [sameByte]⟩)
    rw [hpattern] at hregion
    obtain ⟨other, hother, hlow, hhigh⟩ := (inRegion_expectedScans_iff _ _ _ _ _ _).1 hregion
    rcases Nat.lt_trichotomy j i with hj | hj | hj
    · have hmono := delivered_mono ds (show j + 1 ≤ i by omega)
      rw [delivered_succ hother] at hmono
      omega
    · subst hj
      obtain rfl : other = bytes := Option.some.inj (hother.symm.trans hi)
      omega
    · have hmono := delivered_mono ds (show i + 1 ≤ j by omega)
      rw [delivered_succ hi] at hmono
      omega

theorem nothingUnscanned_of_fits {window longest : ℕ} {ds : List (List UInt8)}
    (h : ∀ i bytes, ds[i]? = some bytes →
      bytes.length + min (longest - 1) (delivered ds i) ≤ window) :
    NothingUnscanned longest ds (expectedScans window (longest - 1) [] ds) where
  dropped := by
    intro i p hp hlt
    rw [droppedBefore_expectedScans] at hp hlt
    cases hi : ds[i]? with
    | none =>
      have hsame : delivered ds (i + 1) = delivered ds i := by
        simp [delivered, List.take_add_one, hi]
      omega
    | some bytes =>
      have hfit := h i bytes hi
      rw [delivered_succ hi] at hlt
      have hp' : p < delivered ds i := by omega
      obtain ⟨j, old, hj, hle, hup⟩ := exists_delivery (hp'.trans_le (delivered_le ds i))
      have hji : j < i := by
        by_contra hge
        have hmono := delivered_mono ds (show i ≤ j by omega)
        omega
      refine ⟨j, hji, (inRegion_expectedScans_iff _ _ _ _ _ _).2 ⟨old, hj, ?_, by omega⟩⟩
      have hold := h j old hj
      omega
  occurrences := by
    intro pattern nocase a hne hlen hoccurs
    have hpos : 0 < pattern.length := List.length_pos_of_ne_nil hne
    have htotal := hoccurs.le_length hne
    -- the delivery in which the last byte of the occurrence arrives
    obtain ⟨j, bytes, hj, hle, hup⟩ :=
      exists_delivery (show a + pattern.length - 1 < ds.flatten.length by omega)
    have hfit := h j bytes hj
    exact ⟨j, (inRegion_expectedScans_iff _ _ _ _ _ _).2 ⟨bytes, hj, by omega, by omega⟩⟩

/-- A run leaves nothing of a direction's stream unscanned exactly when each delivery, together with
as much of the stream before it as the overlap asks for, fits the inspection window. -/
theorem nothingUnscanned_iff_fits (R : Regex) (A : AhoCorasick) (resolve : HeaderResolver)
    (limits : EngineLimits) (rules : List Rule) (calls : List Call) (flowId : UInt64)
    (toServer : Bool)
    (hkept : Runs.Along Engine.step (Engine.KeepsFlow flowId)
      (Engine.new R A resolve limits rules).1 calls) :
    let e := (Engine.new R A resolve limits rules).1
    let ds := deliveries flowId toServer calls
    NothingUnscanned e.longestPattern ds
        (scans flowId toServer calls (Runs.run Engine.step e calls).2) ↔
      ∀ i bytes, ds[i]? = some bytes →
        bytes.length + min (e.longestPattern - 1) (delivered ds i) ≤ limits.inspectionWindow := by
  intro e ds
  rw [(Engine.run_follows (Engine.new_follows resolve limits rules flowId toServer) hkept).2]
  constructor
  · intro h i bytes hi
    refine fits_of_nothingUnscanned ?_ h hi
    intro other hother
    have hfilter := (List.mem_filter.1 hother).2
    simpa using hfilter
  · exact nothingUnscanned_of_fits

/-- A library for rule sets that hold no regular expression: it builds none. -/
def Regex.none : Regex := ⟨Empty, fun _ _ => .error "unsupported", fun matcher _ => nomatch matcher⟩

/-- A rule on TCP between any endpoints that asks for the contents. -/
def contentRule (sid : UInt32) (contents : List ContentMatch) : Rule where
  header := { action := .alert, protocol := .tcp }
  sid := sid
  msg := "m"
  options := contents.map .content

/-- The content `ab`. -/
def abContent : ContentMatch := { pattern := [0x61, 0x62] }

def abRule : Rule := contentRule 1 [abContent]

def sampleTuple : NetTuple := ⟨.v4 0xc0000201, some 51000, .v4 0xc6336401, some 80, .tcp⟩

def sampleDelivery (bytes : List UInt8) : Call :=
  .stream (HashOrder.asStored _) 7 sampleTuple true bytes 0

/-- An engine without variables, regular expressions or a real automaton. -/
def sampleEngine (limits : EngineLimits) (rules : List Rule) :
    Engine Regex.none AhoCorasick.exhaustive :=
  (Engine.new Regex.none AhoCorasick.exhaustive resolveAny limits rules).1

/-- The pattern `ab` in two deliveries, each of which fits a window of four bytes. -/
theorem nothingUnscanned_of_split_pattern :
    let e := sampleEngine { inspectionWindow := 4 } [abRule]
    let calls := [sampleDelivery [0x78, 0x61], sampleDelivery [0x62, 0x78]]
    Runs.Along Engine.step (Engine.KeepsFlow 7) e calls ∧
      NothingUnscanned e.longestPattern (deliveries 7 true calls)
        (scans 7 true calls (Runs.run Engine.step e calls).2) := by
  intro e calls
  have hkept : Runs.Along Engine.step (Engine.KeepsFlow 7) e calls :=
    ⟨⟨by decide +kernel, id⟩, ⟨by decide +kernel, id⟩, trivial⟩
  refine ⟨hkept, (nothingUnscanned_iff_fits _ _ _ _ _ calls 7 true hkept).2 ?_⟩
  intro i bytes hi
  have hlength : bytes.length = 2 := by
    rcases i with _ | _ | i
    · exact congrArg List.length (Option.some.inj hi).symm
    · exact congrArg List.length (Option.some.inj hi).symm
    · exact absurd hi (by simp [deliveries, calls, sampleDelivery, Call.delivery])
  have hlongest : (Engine.new Regex.none AhoCorasick.exhaustive resolveAny
      { inspectionWindow := 4 } [abRule]).1.longestPattern = 2 := by decide +kernel
  rw [hlength, hlongest]
  change 2 + min (2 - 1) (delivered (deliveries 7 true calls) i) ≤ 4
  omega

/-- A configuration the check accepts, in which a flow may hold more bytes than the window. -/
def smallWindowConfig : Config where
  loggingQueueCapacity := 8192
  loggingLevel := "info"
  statsEnabled := true
  statsIntervalSecs := 60
  fileOutputEnabled := false
  fileOutputPath := ""
  webhookEnabled := false
  webhookUrl := none
  captureSnaplen := 65535
  flowMaxFlows := 65536
  flowTimeoutSecs := 300
  reassembly := { maxStreamBytesPerFlow := 8, deliveryFlushBytes := 8 }
  fimEnabled := false
  fimRescanIntervalSecs := 3600
  fimMaxEntries := 1
  processEnabled := false
  processIntervalSecs := 60
  prevent := ⟨false, "detect", "open", [], 300, 1, 1⟩
  correlationEnabled := false
  correlationWindowSecs := 60
  detect := { inspectionWindow := 4 }
  normalize := {}

/-- Six bytes in one delivery through a window of four: the first two, which hold the pattern, are
dropped and never inspected. -/
theorem large_delivery_unscanned :
    let e := sampleEngine (EngineLimits.ofConfig smallWindowConfig)
      [abRule]
    let calls := [sampleDelivery [0x61, 0x62, 0x78, 0x78, 0x78, 0x78]]
    smallWindowConfig.check (fun _ => true) = .ok () ∧
      (∀ bytes ∈ deliveries 7 true calls,
        bytes.length ≤ smallWindowConfig.reassembly.maxStreamBytesPerFlow) ∧
      Runs.Along Engine.step (Engine.KeepsFlow 7) e calls ∧
      ¬ NothingUnscanned e.longestPattern (deliveries 7 true calls)
        (scans 7 true calls (Runs.run Engine.step e calls).2) := by
  intro e calls
  refine ⟨by decide +kernel, by decide +kernel, ⟨⟨by decide +kernel, id⟩, trivial⟩, ?_⟩
  intro h
  obtain ⟨j, hj, _⟩ := h.dropped 0 0 (by decide +kernel) (by decide +kernel)
  exact absurd hj (Nat.not_lt_zero j)

end CyberSentinel.Detect
