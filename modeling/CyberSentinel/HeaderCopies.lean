import CyberSentinel.VerdictPath

/-!
# Copying only the headers

The kernel copies no more than the first bytes of a packet for a verdict. The verdict path reads an
IPv4 header with its options and two ports, sixty-four bytes at most, so that a copy of at least
that many cannot be told from the whole packet: the same tuples, the same verdicts, the same
counters, whatever the other threads do.
-/

namespace CyberSentinel

theorem slice_take {bytes : List UInt8} {start stop n : ℕ} (h : stop ≤ n) :
    Bytes.slice (bytes.take n) start stop = Bytes.slice bytes start stop := by
  rw [Bytes.slice, Bytes.slice, List.take_take, min_eq_left h]

theorem getD_take {bytes : List UInt8} {i n : ℕ} (h : i < n) :
    (bytes.take n).getD i 0 = bytes.getD i 0 :=
  getD_congr (List.getElem?_take_of_lt h)

theorem v4At_take {bytes : List UInt8} {i n : ℕ} (h : i + 4 ≤ n) :
    v4At (bytes.take n) i = v4At bytes i := by
  rw [v4At, v4At, slice_take h]

theorem v6At_take {bytes : List UInt8} {i n : ℕ} (h : i + 16 ≤ n) :
    v6At (bytes.take n) i = v6At bytes i := by
  rw [v6At, v6At, slice_take h]

theorem u16At_take {bytes : List UInt8} {i n : ℕ} (h : i + 2 ≤ n) :
    u16At (bytes.take n) i = u16At bytes i := by
  rw [u16At, u16At, slice_take h]

theorem restFrom_take {bytes : List UInt8} {i n : ℕ} (h : i ≤ n) :
    restFrom (bytes.take n) i = (restFrom bytes i).map (fun rest => rest.take (n - i)) := by
  rw [restFrom, restFrom, List.length_take, List.drop_take]
  by_cases hle : i ≤ bytes.length
  · rw [if_pos (le_min h hle), if_pos hle, Option.map_some]
  · rw [if_neg (fun hmin => hle (hmin.trans (min_le_right _ _))), if_neg hle, Option.map_none]

theorem portsOf_take (transport : Option (List UInt8)) {n : ℕ} (h : 4 ≤ n) :
    portsOf (transport.map (fun payload => payload.take n)) = portsOf transport := by
  cases transport with
  | none => rfl
  | some payload =>
    simp only [Option.map_some, portsOf, List.length_take]
    by_cases hle : 4 ≤ payload.length
    · rw [if_pos (le_min h hle), if_pos hle, u16At_take (by omega), u16At_take (by omega)]
    · rw [if_neg (fun hmin => hle (hmin.trans (min_le_right _ _))), if_neg hle]

theorem headerLen_le (first : UInt8) : (first &&& 0x0f).toNat * 4 ≤ 60 := by
  have hle : (first &&& 0x0f).toNat ≤ 15 := by
    rw [UInt8.toNat_and]
    exact Nat.and_le_right
  omega

def IpFields.cut (ip : IpFields) (n : ℕ) : IpFields :=
  { ip with transport := ip.transport.map (fun payload => payload.take n) }

theorem ipFields_take (bytes : List UInt8) {n : ℕ} (hn : 64 ≤ n) :
    ∃ cut, 4 ≤ cut ∧ ipFields (bytes.take n) = (ipFields bytes).map (fun ip => ip.cut cut) := by
  have hhead : (bytes.take n).head? = bytes.head? := by
    rw [List.head?_take, if_neg (by omega)]
  unfold ipFields
  rw [hhead]
  cases bytes.head? with
  | none => exact ⟨4, le_rfl, rfl⟩
  | some first =>
    dsimp only
    have hheader := headerLen_le first
    have hshort : ∀ k, k ≤ 60 → ((bytes.take n).length < k ↔ bytes.length < k) := by
      intro k hk
      rw [List.length_take]
      omega
    by_cases h4 : first >>> 4 = 4
    · refine ⟨n - (first &&& 0x0f).toNat * 4, by omega, ?_⟩
      rw [if_pos h4, if_pos h4]
      simp only [hshort _ hheader]
      by_cases hbad : (first &&& 0x0f).toNat * 4 < 20 ∨ bytes.length < (first &&& 0x0f).toNat * 4
      · rw [if_pos hbad, if_pos hbad, Option.map_none]
      · rw [if_neg hbad, if_neg hbad]
        simp only [Option.map_some, IpFields.cut, v4At_take (show 12 + 4 ≤ n by omega),
          v4At_take (show 16 + 4 ≤ n by omega), getD_take (show 9 < n by omega),
          getD_take (show 6 < n by omega), getD_take (show 7 < n by omega),
          restFrom_take (show (first &&& 0x0f).toNat * 4 ≤ n by omega)]
        split_ifs
        · rfl
        · rfl
    · refine ⟨n - 40, by omega, ?_⟩
      rw [if_neg h4, if_neg h4]
      simp only [hshort 40 (by omega)]
      split_ifs
      · rfl
      · simp only [Option.map_some, IpFields.cut, v6At_take (show 8 + 16 ≤ n by omega),
          v6At_take (show 24 + 16 ≤ n by omega), getD_take (show 6 < n by omega),
          restFrom_take (show 40 ≤ n by omega)]
      · rfl

theorem tupleFromIpPacket_take (bytes : List UInt8) {n : ℕ} (hn : 64 ≤ n) :
    tupleFromIpPacket (bytes.take n) = tupleFromIpPacket bytes := by
  obtain ⟨cut, hcut, hfields⟩ := ipFields_take bytes hn
  rw [tupleFromIpPacket, tupleFromIpPacket, hfields, Option.map_map]
  apply congrArg (fun f => (ipFields bytes).map f)
  funext ip
  simp only [Function.comp_apply, IpFields.cut, portsOf_take ip.transport hcut]

namespace Prevent

open Tables

def verdictCopyBytes : ℕ := 128

def Message.copied (n : ℕ) (message : Message) : Message :=
  { message with payload := message.payload.take n }

/-- What a receive returns when the kernel copies the first bytes only. -/
def copiedReceive (n : ℕ) (received : Received) : Received :=
  (received.1.map (Message.copied n), received.2)

def copiedAnswer (n : ℕ) (answer : Message × Verdict) : Message × Verdict :=
  (answer.1.copied n, answer.2)

structure CopiesQueue (n : ℕ) (q q' : KernelQueue) : Prop where
  incoming : q'.incoming = q.incoming.map (copiedReceive n)
  answered : q'.answered = q.answered.map (copiedAnswer n)
  inFlight : ∀ id, q'.inFlight.lookup id = (q.inFlight.lookup id).map (Message.copied n)
  unparsed : q'.unparsed = q.unparsed
  retries : q'.retries = q.retries
  fatal : q'.fatal = q.fatal

def Copies (n : ℕ) (s s' : Enforcement) : Prop :=
  ∃ queue, s' = { s with queue } ∧ CopiesQueue n s.queue queue

theorem CopiesQueue.receive {n : ℕ} (hn : 64 ≤ n) {q q' : KernelQueue} (h : CopiesQueue n q q') :
    q'.receive.1 = q.receive.1 ∧ CopiesQueue n q.receive.2 q'.receive.2 := by
  cases hincoming : q.incoming with
  | nil =>
    have hincoming' : q'.incoming = [] := by rw [h.incoming, hincoming, List.map_nil]
    rw [KernelQueue.receive_nil hincoming, KernelQueue.receive_nil hincoming']
    exact ⟨rfl, h⟩
  | cons first rest =>
    obtain ⟨result, received⟩ := first
    have hincoming' : q'.incoming =
        copiedReceive n (result, received) :: rest.map (copiedReceive n) := by
      rw [h.incoming, hincoming, List.map_cons]
    cases result with
    | error kind =>
      cases hkind : kind.recoverable with
      | true =>
        rw [KernelQueue.receive_recoverable hincoming hkind,
          KernelQueue.receive_recoverable hincoming' hkind]
        exact ⟨rfl, rfl, h.answered, h.inFlight, h.unparsed, congrArg (· + 1) h.retries, h.fatal⟩
      | false =>
        rw [KernelQueue.receive_fatal hincoming hkind, KernelQueue.receive_fatal hincoming' hkind]
        exact ⟨rfl, rfl, h.answered, h.inFlight, h.unparsed, h.retries, rfl⟩
    | ok message =>
      have hcopy := tupleFromIpPacket_take message.payload hn
      cases htuple : tupleFromIpPacket message.payload with
      | none =>
        rw [KernelQueue.receive_unreadable hincoming htuple,
          KernelQueue.receive_unreadable hincoming' (hcopy.trans htuple)]
        refine ⟨rfl, rfl, ?_, h.inFlight, congrArg (· + 1) h.unparsed, h.retries, h.fatal⟩
        rw [h.answered, List.map_append]
        rfl
      | some tuple =>
        rw [KernelQueue.receive_readable hincoming htuple,
          KernelQueue.receive_readable hincoming' (hcopy.trans htuple)]
        refine ⟨rfl, rfl, h.answered, ?_, h.unparsed, h.retries, h.fatal⟩
        intro id
        change (q'.inFlight.insert message.packetId (message.copied n)).lookup id =
          ((q.inFlight.insert message.packetId message).lookup id).map (Message.copied n)
        by_cases hid : id = message.packetId
        · rw [hid, AList.lookup_insert, AList.lookup_insert, Option.map_some]
        · rw [AList.lookup_insert_ne hid, AList.lookup_insert_ne hid, h.inFlight]

theorem CopiesQueue.resolve {n : ℕ} {q q' : KernelQueue} (h : CopiesQueue n q q')
    (packet : QueuedPacket) (decision : Decision) :
    CopiesQueue n (q.resolve packet decision) (q'.resolve packet decision) := by
  unfold KernelQueue.resolve
  rw [h.inFlight packet.id]
  cases q.inFlight.lookup packet.id with
  | none => exact h
  | some message =>
    refine ⟨h.incoming, ?_, ?_, h.unparsed, h.retries, h.fatal⟩
    · change q'.answered ++ _ = List.map _ (q.answered ++ _)
      rw [h.answered, List.map_append]
      rfl
    · intro id
      change (q'.inFlight.erase packet.id).lookup id =
        ((q.inFlight.erase packet.id).lookup id).map (Message.copied n)
      by_cases hid : id = packet.id
      · rw [hid, AList.lookup_erase, AList.lookup_erase, Option.map_none]
      · rw [AList.lookup_erase_ne hid, AList.lookup_erase_ne hid, h.inFlight]

namespace Copies

variable {n : ℕ} {s s' : Enforcement}

theorem receive (hn : 64 ≤ n) (h : Copies n s s') : Copies n s.receive s'.receive := by
  obtain ⟨copy, rfl, hcopy⟩ := h
  obtain ⟨hturn, hqueue⟩ := hcopy.receive hn
  simp only [Enforcement.receive]
  revert hturn hqueue
  rcases s.queue.receive with ⟨turn, queue⟩
  rcases copy.receive with ⟨turn', queue'⟩
  rintro rfl hqueue
  cases turn' with
  | blocked | again | packet packet | finished => exact ⟨queue', rfl, hqueue⟩

theorem verdict (hn : 64 ≤ n) (h : Copies n s s') (readings : Readings) :
    Copies n (s.verdict readings).1 (s'.verdict readings).1 ∧
      (s.verdict readings).2 = (s'.verdict readings).2 := by
  have hreceive := h.receive hn
  obtain ⟨copy, rfl, hcopy⟩ := h
  obtain ⟨store, poisoned, queue, phase, shutdown⟩ := s
  cases phase with
  | checking => exact ⟨⟨copy, rfl, hcopy⟩, rfl⟩
  | receiving => exact ⟨hreceive, rfl⟩
  | judging packet =>
    simp only [Enforcement.verdict]
    split_ifs
    · exact ⟨⟨copy, rfl, hcopy⟩, rfl⟩
    · exact ⟨⟨_, rfl, hcopy.resolve packet _⟩, rfl⟩
  | stopped => exact ⟨⟨copy, rfl, hcopy⟩, rfl⟩

theorem step (hn : 64 ≤ n) (h : Copies n s s') (move : Move) :
    Copies n (s.step move).1 (s'.step move).1 ∧ (s.step move).2 = (s'.step move).2 := by
  cases move with
  | verdict readings => exact h.verdict hn readings
  | block tuple now =>
    obtain ⟨copy, rfl, hcopy⟩ := h
    simp only [Enforcement.step, Enforcement.block]
    split_ifs <;> exact ⟨⟨copy, rfl, hcopy⟩, rfl⟩
  | publish depth =>
    obtain ⟨copy, rfl, hcopy⟩ := h
    simp only [Enforcement.step, Enforcement.publish]
    split_ifs <;> exact ⟨⟨copy, rfl, hcopy⟩, trivial⟩
  | setMode mode =>
    obtain ⟨copy, rfl, hcopy⟩ := h
    simp only [Enforcement.step, Enforcement.setMode]
    split_ifs <;> exact ⟨⟨copy, rfl, hcopy⟩, rfl⟩
  | shutdown | poison =>
    obtain ⟨copy, rfl, hcopy⟩ := h
    exact ⟨⟨copy, rfl, hcopy⟩, rfl⟩

end Copies

/-- Having the kernel copy the first bytes of each packet only, sixty-four or more of them, changes
nothing: with the same moves of all threads the store goes through the same calls and answers, the
same packets are dropped, and the counters agree. -/
theorem header_copies_change_nothing (n : ℕ) (hn : 64 ≤ n) (settings : PreventionSettings)
    (incoming : List Received) (moves : List Move) :
    let whole := Runs.run Enforcement.step (.start settings incoming) moves
    let copies := Runs.run Enforcement.step (.start settings (incoming.map (copiedReceive n))) moves
    copies.2 = whole.2 ∧ copies.1.store = whole.1.store ∧ copies.1.phase = whole.1.phase ∧
      copies.1.queue.answered = whole.1.queue.answered.map (copiedAnswer n) ∧
      copies.1.queue.unparsed = whole.1.queue.unparsed ∧
      copies.1.queue.retries = whole.1.queue.retries ∧
      copies.1.queue.fatal = whole.1.queue.fatal := by
  intro whole copies
  have hstart : Copies n (.start settings incoming)
      (.start settings (incoming.map (copiedReceive n))) :=
    ⟨_, rfl, rfl, rfl, fun _ => rfl, rfl, rfl, rfl⟩
  obtain ⟨⟨copy, heq, hcopy⟩, hcalls⟩ :=
    Runs.simulation (Copies n) (fun s s' move h => h.step hn move) hstart moves
  have hcopies : copies.1 = { whole.1 with queue := copy } := heq
  rw [hcopies]
  exact ⟨hcalls.symm, rfl, rfl, hcopy.answered, hcopy.unparsed, hcopy.retries, hcopy.fatal⟩

/-- A packet of 224 bytes from 10.0.0.1 port 1024 to 10.0.0.2 port 80. -/
def longPacket : Message :=
  ⟨8, [0x45, 0, 0, 224, 0, 0, 0, 0, 64, 6, 0, 0, 10, 0, 0, 1, 10, 0, 0, 2, 4, 0, 0, 80] ++
    List.replicate 200 0x61⟩

/-- With the sensor's own copy range the packet is cut, and it is dropped for a block that came
while the verdict thread had it in hand. -/
theorem header_copies_change_nothing_verdictCopyBytes :
    let request : NetTuple := ⟨.v4 0x0a000001, some 1024, .v4 0x0a000002, some 80, .tcp⟩
    let moves := [.verdict ⟨1, 1⟩, .verdict ⟨2, 2⟩, Move.block request 3, .verdict ⟨4, 5⟩]
    let copies := Runs.run Enforcement.step (.start { mode := .prevent }
      ([(.ok longPacket, 2)].map (copiedReceive verdictCopyBytes))) moves
    (longPacket.copied verdictCopyBytes).payload.length = 128 ∧ longPacket.payload.length = 224 ∧
      copies.1.queue.answered = [(longPacket.copied verdictCopyBytes, .drop)] := by
  intro request moves copies
  have h := header_copies_change_nothing verdictCopyBytes (by decide) { mode := .prevent }
    [(.ok longPacket, 2)] moves
  have hwhole : (Runs.run Enforcement.step (.start { mode := .prevent } [(.ok longPacket, 2)])
      moves).1.queue.answered = [(longPacket, .drop)] := by
    decide +kernel
  refine ⟨by decide +kernel, by decide +kernel, ?_⟩
  rw [h.2.2.2.1, hwhole]
  rfl

end Prevent
end CyberSentinel
