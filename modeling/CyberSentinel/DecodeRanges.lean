import CyberSentinel.Crashes
import CyberSentinel.Fragments

/-!
# The decoder stays inside the frame

The functions of the decoder that index or slice a second time, with the checks of the indices,
under their names with a question mark, and the two loops with the counters that end them. When the
header library leaves the end of what it was given, no check fails, the loops end, and the answer is
that of the plain decoder: the network payload lies in the frame and the transport payload in it.
-/

namespace CyberSentinel

open Decode Bytes

/-- The payload of a decoded frame is empty or lies in the network payload, which lies in the frame.
-/
structure Decoded.Nested (d : Decoded) : Prop where
  network_ordered : d.networkPayload.1 ≤ d.networkPayload.2
  network_inside : d.networkPayload.2 ≤ d.frame.length
  ordered : d.payload.1 ≤ d.payload.2
  inside : d.payload.2 ≤ d.frame.length
  nested : d.payload.1 = d.payload.2 ∨
    d.networkPayload.1 ≤ d.payload.1 ∧ d.payload.2 ≤ d.networkPayload.2

namespace Decode

/-- What the header library leaves after a header is the end of what it was given. -/
structure Etherparse.Suffixes (E : Etherparse) : Prop where
  ethernet2 : ∀ bytes etherType rest, E.ethernet2 bytes = some (etherType, rest) → rest <:+ bytes
  singleVlan : ∀ bytes header rest, E.singleVlan bytes = some (header, rest) → rest <:+ bytes
  ipv4 : ∀ bytes header rest, E.ipv4 bytes = some (header, rest) → rest <:+ bytes
  ipv6 : ∀ bytes header rest, E.ipv6 bytes = some (header, rest) → rest <:+ bytes

def offsetOf? (whole sub : List UInt8) : Option ℕ :=
  if sub <:+ whole then some (offsetOf whole sub) else none

def decodeTcp? (E : Etherparse) (d : DecodedFrame) (segment : List UInt8) (start stop : ℕ) :
    Option DecodedFrame :=
  if segment.length < minTcpHeader then some (d.note .tcp .truncatedHeader)
  else do
    let byte ← segment[12]?
    let dataOffset := (byte >>> 4).toNat
    if dataOffset < 5 then some (d.note .tcp .impossibleLength)
    else if segment.length < dataOffset * 4 then some (d.note .tcp .truncatedHeader)
    else
      match E.tcp segment with
      | none => some (d.note .tcp .truncatedHeader)
      | some (header, _) =>
        some { d with
          transport := some (.tcp ⟨header.sourcePort, header.destinationPort,
            header.sequenceNumber, header.acknowledgmentNumber, header.flags.bits⟩)
          payload := clampRange (start + dataOffset * 4) stop d.frame.length }

def icmpInfo? (segment : List UInt8) : Option Transport := do
  let _ ← segment[0]?
  let _ ← segment[1]?
  some .icmp

def decodeIcmp? (d : DecodedFrame) (segment : List UInt8) (start stop : ℕ) : Option DecodedFrame :=
  if segment.length < icmpHeaderLen then
    let d := d.note .icmp .truncatedHeader
    if 2 ≤ segment.length then (icmpInfo? segment).map fun info => { d with transport := some info }
    else some d
  else
    (icmpInfo? segment).map fun info =>
      { d with
        transport := some info
        payload := clampRange (start + icmpHeaderLen) stop d.frame.length }

def decodeTransport? (E : Etherparse) (d : DecodedFrame) (protocol : UInt8) (start stop : ℕ) :
    Option DecodedFrame :=
  let segment :=
    if start ≤ min stop d.frame.length then Bytes.slice d.frame start (min stop d.frame.length)
    else []
  if protocol = 6 then decodeTcp? E d segment start stop
  else if protocol = 17 then some (decodeUdp E d segment start stop)
  else if protocol = 1 ∨ protocol = 58 then decodeIcmp? d segment start stop
  else
    some { d with
      transport := some (.other protocol)
      payload := clampRange start stop d.frame.length }

def decodeNetworkPayload? (E : Etherparse) (d : DecodedFrame) (network : Network)
    (start stop : ℕ) : Option DecodedFrame :=
  let d := { d with
    network := some network
    networkPayload := clampRange start stop d.frame.length }
  if network.isFragment && network.fragmentOffset != 0 then
    some { d with payload := clampRange start stop d.frame.length }
  else decodeTransport? E d network.protocol start stop

def decodeIpv4? (E : Etherparse) (d : DecodedFrame) (slice : List UInt8) :
    Option DecodedFrame := do
  let start ← offsetOf? d.frame slice
  match slice.head? with
  | none => some (d.note .ipv4 .truncatedHeader)
  | some first =>
    if first >>> 4 ≠ 4 then some (d.note .ipv4 .unknownIpVersion)
    else
      let ihl := (first &&& 0x0f).toNat
      if ihl < 5 then some (d.note .ipv4 .impossibleLength)
      else if slice.length < ihl * 4 then some (d.note .ipv4 .truncatedHeader)
      else
        match E.ipv4 slice with
        | none => some (d.note .ipv4 .truncatedHeader)
        | some (header, after) => do
          let d := d.noteIf (header.headerChecksum != header.calcHeaderChecksum) .ipv4
            .badIpv4Checksum
          let totalLen := header.totalLen.toNat
          let d :=
            if totalLen < ihl * 4 then d.note .ipv4 .impossibleLength
            else d.noteIf (slice.length < totalLen && !d.isSnapped) .ipv4 .lengthMismatch
          let transportStart ← offsetOf? d.frame after
          decodeNetworkPayload? E d
            (.ipv4 ⟨header.source, header.destination, header.protocol, header.identification,
              header.fragmentOffset, header.moreFragments⟩)
            transportStart (min (start + max totalLen (ihl * 4)) d.frame.length)

def ipv6ExtensionLen? (protocol : UInt8) (slice : List UInt8) : Option (Option ℕ) :=
  if slice.length < 2 then some none
  else do
    let len ←
      if protocol = 44 then some 8
      else if protocol = 51 then slice[1]?.map fun n => (n.toNat + 2) * 4
      else slice[1]?.map fun n => (n.toNat + 1) * 8
    some (if len ≤ slice.length then some len else none)

/-- Read the fields of a fragment header, as far as they are there. -/
def ExtensionWalk.readFragment? (w : ExtensionWalk) : Option ExtensionWalk :=
  let w := { w with isFragment := true }
  let w :=
    match w.cursor[2]?, w.cursor[3]? with
    | some hi, some lo =>
      { w with
        fragmentOffset := UInt16.ofNat (fromBigEndian [hi, lo]) >>> 3
        moreFragments := lo &&& 1 != 0 }
    | _, _ => w
  match slice? w.cursor 4 8 with
  | none => some w
  | some bytes => do
    let b0 ← bytes[0]?
    let b1 ← bytes[1]?
    let b2 ← bytes[2]?
    let b3 ← bytes[3]?
    some { w with identification := UInt32.ofNat (fromBigEndian [b0, b1, b2, b3]) }

def ExtensionWalk.next? (w : ExtensionWalk) (len : ℕ) : Option ExtensionWalk := do
  let w ← if w.protocol = 44 then w.readFragment? else some w
  let protocol ← w.cursor[0]?
  let cursor ← slice? w.cursor len w.cursor.length
  some { w with protocol, cursor }

/-- The loop over the extension headers with the number it has walked, at most `rounds` times
around: there is no answer when an index is out of range or the loop would go on after that. -/
def walkExtensions? : ℕ → ℕ → ExtensionWalk → Option (ExtensionWalk × ℕ)
  | 0, _, _ => none
  | rounds + 1, walked, w =>
    if isIpv6Extension w.protocol then
      if maxIpv6ExtensionHeaders ≤ walked then
        some ({ w with anomaly := some .tooManyLayers }, walked)
      else do
        let len ← ipv6ExtensionLen? w.protocol w.cursor
        match len with
        | none => some ({ w with anomaly := some .truncatedHeader }, walked)
        | some len => do
          let w ← w.next? len
          walkExtensions? rounds (walked + 1) w
    else some (w, walked)

def decodeIpv6? (E : Etherparse) (d : DecodedFrame) (slice : List UInt8) :
    Option DecodedFrame := do
  let start ← offsetOf? d.frame slice
  match slice.head? with
  | none => some (d.note .ipv6 .truncatedHeader)
  | some first =>
    if first >>> 4 ≠ 6 then some (d.note .ipv6 .unknownIpVersion)
    else
      match E.ipv6 slice with
      | none => some (d.note .ipv6 .truncatedHeader)
      | some (header, after) => do
        let payloadLength := header.payloadLength.toNat
        let d := d.noteIf (after.length < payloadLength && !d.isSnapped) .ipv6 .lengthMismatch
        let (w, _) ← walkExtensions? (maxIpv6ExtensionHeaders + 1) 0
          { protocol := header.nextHeader, cursor := after }
        let d := w.anomaly.elim d (d.note .ipv6)
        let transportStart ← offsetOf? d.frame w.cursor
        decodeNetworkPayload? E d
          (.ipv6 ⟨header.source, header.destination, w.protocol, w.isFragment, w.fragmentOffset,
            w.moreFragments, w.identification⟩)
          transportStart (min (start + ipv6HeaderLen + payloadLength) d.frame.length)

def decodeNetwork? (E : Etherparse) (d : DecodedFrame) (etherType : UInt16) (rest : List UInt8) :
    Option DecodedFrame :=
  let d := { d with etherType := some etherType }
  if etherType = etherTypeIpv4 then decodeIpv4? E d rest
  else if etherType = etherTypeIpv6 then decodeIpv6? E d rest
  else some d

/-- `vlan_ids[tags] = Some(id)`, in an array of as many places as tags are followed. -/
def DecodedFrame.setVlanId? (d : DecodedFrame) (tags : ℕ) (id : UInt16) : Option DecodedFrame :=
  if tags < maxVlanTags then some { d with vlanIds := d.vlanIds ++ [id] } else none

/-- The loop over the VLAN tags with the number it has read, at most `rounds` times around. -/
def decodeTags? (E : Etherparse) :
    ℕ → ℕ → DecodedFrame → UInt16 → List UInt8 → Option DecodedFrame
  | 0, _, _, _, _ => none
  | rounds + 1, tags, d, etherType, rest =>
    if isVlan etherType then
      if maxVlanTags ≤ tags then some (d.note .vlan .tooManyLayers)
      else
        match E.singleVlan rest with
        | none => some (d.note .vlan .truncatedHeader)
        | some (vlan, after) => do
          let d ← d.setVlanId? tags vlan.vlanId
          decodeTags? E rounds (tags + 1) d vlan.etherType after
    else decodeNetwork? E d etherType rest

def decode? (E : Etherparse) (frame : List UInt8) (originalLen : ℕ) : Option DecodedFrame :=
  let d := DecodedFrame.new frame originalLen
  if frame = [] then some (d.note .ethernet .emptyFrame)
  else
    match E.ethernet2 frame with
    | none => some (d.note .ethernet .truncatedHeader)
    | some (etherType, rest) => decodeTags? E (maxVlanTags + 1) 0 d etherType rest

def decodeTransportBytes? (E : Etherparse) (bytes : List UInt8) (protocol : UInt8) :
    Option DecodedFrame :=
  decodeTransport? E (DecodedFrame.new bytes bytes.length) protocol 0 bytes.length

section Checks

variable {E : Etherparse}

theorem offsetOf?_of_suffix {whole sub : List UInt8} (h : sub <:+ whole) :
    offsetOf? whole sub = some (offsetOf whole sub) := if_pos h

theorem getElem?_of_lt_length {bytes : List UInt8} {i : ℕ} (h : i < bytes.length) :
    bytes[i]? = some (bytes.getD i 0) := by
  rw [List.getD_eq_getElem?_getD, List.getElem?_eq_getElem h, Option.getD_some]

theorem decodeTcp?_eq (E : Etherparse) (d : DecodedFrame) (segment : List UInt8) (start stop : ℕ) :
    decodeTcp? E d segment start stop = some (decodeTcp E d segment start stop) := by
  by_cases hlen : segment.length < minTcpHeader
  · rw [decodeTcp?, decodeTcp, if_pos hlen, if_pos hlen]
  · have hbyte : segment[12]? = some (segment.getD 12 0) := by
      apply getElem?_of_lt_length
      simp only [minTcpHeader] at hlen
      omega
    simp only [decodeTcp?, decodeTcp, if_neg hlen, hbyte, Option.bind_eq_bind, Option.bind_some]
    split_ifs
    · rfl
    · rfl
    · cases E.tcp segment with
      | none => rfl
      | some read => rfl

theorem icmpInfo?_eq {segment : List UInt8} (h : 2 ≤ segment.length) :
    icmpInfo? segment = some .icmp := by
  rw [icmpInfo?, getElem?_of_lt_length (by omega), getElem?_of_lt_length (by omega)]
  rfl

theorem decodeIcmp?_eq (d : DecodedFrame) (segment : List UInt8) (start stop : ℕ) :
    decodeIcmp? d segment start stop = some (decodeIcmp d segment start stop) := by
  by_cases hlen : segment.length < icmpHeaderLen
  · simp only [decodeIcmp?, decodeIcmp, if_pos hlen]
    split_ifs with htwo
    · rw [icmpInfo?_eq htwo]
      rfl
    · rfl
  · have htwo : 2 ≤ segment.length := by
      simp only [icmpHeaderLen] at hlen
      omega
    simp only [decodeIcmp?, decodeIcmp, if_neg hlen, icmpInfo?_eq htwo, Option.map_some]

theorem decodeTransport?_eq (E : Etherparse) (d : DecodedFrame) (protocol : UInt8)
    (start stop : ℕ) :
    decodeTransport? E d protocol start stop = some (decodeTransport E d protocol start stop) := by
  simp only [decodeTransport?, decodeTransport, decodeTcp?_eq, decodeIcmp?_eq]
  split_ifs
  all_goals rfl

theorem decodeNetworkPayload?_eq (E : Etherparse) (d : DecodedFrame) (network : Network)
    (start stop : ℕ) :
    decodeNetworkPayload? E d network start stop =
      some (decodeNetworkPayload E d network start stop) := by
  simp only [decodeNetworkPayload?, decodeNetworkPayload, decodeTransport?_eq]
  split_ifs
  all_goals rfl

theorem ipv6ExtensionLen?_eq (protocol : UInt8) (slice : List UInt8) :
    ipv6ExtensionLen? protocol slice = some (ipv6ExtensionLen protocol slice) := by
  by_cases hlen : slice.length < 2
  · rw [ipv6ExtensionLen?, ipv6ExtensionLen, if_pos hlen, if_pos hlen]
  · have hsecond : slice[1]? = some (slice.getD 1 0) := getElem?_of_lt_length (by omega)
    simp only [ipv6ExtensionLen?, ipv6ExtensionLen, if_neg hlen, hsecond, Option.map_some]
    by_cases hfragment : protocol = 44
    · rw [if_pos hfragment, if_pos hfragment]
      rfl
    · rw [if_neg hfragment, if_neg hfragment]
      by_cases hauthentication : protocol = 51
      · rw [if_pos hauthentication, if_pos hauthentication]
        rfl
      · rw [if_neg hauthentication, if_neg hauthentication]
        rfl

theorem ipv6ExtensionLen_eq_some {protocol : UInt8} {slice : List UInt8} {len : ℕ}
    (h : ipv6ExtensionLen protocol slice = some len) :
    2 ≤ slice.length ∧ len ≤ slice.length ∧ (protocol = 44 → len = 8) := by
  rw [ipv6ExtensionLen] at h
  by_cases hlen : slice.length < 2
  · rw [if_pos hlen] at h
    exact absurd h (Option.some_ne_none len).symm
  · rw [if_neg hlen] at h
    obtain ⟨hle, heq⟩ := Option.ite_none_right_eq_some.1 h
    rw [Option.some_inj] at heq
    refine ⟨by omega, heq ▸ hle, ?_⟩
    rintro rfl
    rw [← heq, if_pos rfl]

/-- All fields of a fragment header are there when its eight bytes are. -/
theorem ExtensionWalk.readFragment?_eq {w : ExtensionWalk} (h : 8 ≤ w.cursor.length) :
    w.readFragment? = some { w with
      isFragment := true
      fragmentOffset := u16At w.cursor 2 >>> 3
      moreFragments := w.cursor.getD 3 0 &&& 1 != 0
      identification := UInt32.ofNat (fromBigEndian (Bytes.slice w.cursor 4 8)) } := by
  obtain ⟨hi, lo, hpair⟩ := List.length_eq_two.1
    (show (Bytes.slice w.cursor 2 4).length = 2 by rw [length_slice _ (by omega)])
  obtain ⟨b0, b1, b2, b3, hfour⟩ := List.length_eq_four.1
    (show (Bytes.slice w.cursor 4 8).length = 4 by rw [length_slice _ (by omega)])
  have hhi : w.cursor[2]? = some hi := by simpa [hpair] using (getElem?_slice w.cursor 2 4 0).symm
  have hlo : w.cursor[3]? = some lo := by simpa [hpair] using (getElem?_slice w.cursor 2 4 1).symm
  simp only [readFragment?, hhi, hlo, slice?_of_le (show 4 ≤ 8 by decide) h, hfour, u16At, hpair,
    List.getD_eq_getElem?_getD]
  rfl

theorem ExtensionWalk.next?_eq {w : ExtensionWalk} {len : ℕ}
    (h : ipv6ExtensionLen w.protocol w.cursor = some len) : w.next? len = some (w.next len) := by
  obtain ⟨htwo, hle, height⟩ := ipv6ExtensionLen_eq_some h
  have hfirst : w.cursor[0]? = some (w.cursor.getD 0 0) := getElem?_of_lt_length (by omega)
  rw [next?, next]
  by_cases hfragment : w.protocol = 44
  · rw [if_pos hfragment, readFragment?_eq (by rw [← height hfragment]; exact hle)]
    simp only [Option.bind_eq_bind, Option.bind_some, hfirst, slice?_drop hle, if_pos hfragment]
  · simp only [if_neg hfragment, Option.bind_eq_bind, Option.bind_some, hfirst, slice?_drop hle]

/-- From any number of headers walked the loop ends at the limit at the latest, after as many rounds
as headers are left to it and one. -/
theorem walkExtensions?_eq {rounds walked remaining : ℕ}
    (hlimit : walked + remaining = maxIpv6ExtensionHeaders) (hrounds : remaining < rounds)
    (w : ExtensionWalk) : ∃ n ≤ maxIpv6ExtensionHeaders,
      walkExtensions? rounds walked w = some (walkExtensions remaining w, n) := by
  induction rounds generalizing walked remaining w with
  | zero => exact absurd hrounds (Nat.not_lt_zero _)
  | succ rounds ih =>
    by_cases hextension : isIpv6Extension w.protocol = true
    · cases remaining with
      | zero =>
        refine ⟨walked, by omega, ?_⟩
        rw [walkExtensions?, walkExtensions, if_pos hextension, if_pos hextension,
          if_pos (by omega)]
      | succ remaining =>
        rw [walkExtensions?, walkExtensions, if_pos hextension, if_pos hextension,
          if_neg (by omega), ipv6ExtensionLen?_eq]
        cases hlen : ipv6ExtensionLen w.protocol w.cursor with
        | none => exact ⟨walked, by omega, rfl⟩
        | some len =>
          obtain ⟨n, hn, hrest⟩ := ih
            (show walked + 1 + remaining = maxIpv6ExtensionHeaders by omega) (by omega) (w.next len)
          refine ⟨n, hn, ?_⟩
          simp only [Option.bind_eq_bind, Option.bind_some, w.next?_eq hlen, hrest]
    · refine ⟨walked, by omega, ?_⟩
      rw [walkExtensions?, if_neg hextension]
      cases remaining with
      | zero => rw [walkExtensions, if_neg hextension]
      | succ remaining => rw [walkExtensions, if_neg hextension]

theorem decodeIpv4?_eq (hE : E.Suffixes) {d : DecodedFrame} {slice : List UInt8}
    (hslice : slice <:+ d.frame) : decodeIpv4? E d slice = some (decodeIpv4 E d slice) := by
  simp only [decodeIpv4?, decodeIpv4, offsetOf?_of_suffix hslice, Option.bind_eq_bind,
    Option.bind_some]
  cases slice.head? with
  | none => rfl
  | some first =>
    dsimp only
    split_ifs with hversion hmin hheader
    · rfl
    · rfl
    · rfl
    · cases hread : E.ipv4 slice with
      | none => rfl
      | some read =>
        have hafter := (hE.ipv4 slice read.1 read.2 hread).trans hslice
        dsimp only
        split_ifs with himpossible
        · simp only [DecodedFrame.note_toDecoded, DecodedFrame.noteIf_toDecoded,
            offsetOf?_of_suffix hafter, Option.bind_some, decodeNetworkPayload?_eq]
        · simp only [DecodedFrame.noteIf_toDecoded, offsetOf?_of_suffix hafter, Option.bind_some,
            decodeNetworkPayload?_eq]

theorem decodeIpv6?_eq (hE : E.Suffixes) {d : DecodedFrame} {slice : List UInt8}
    (hslice : slice <:+ d.frame) : decodeIpv6? E d slice = some (decodeIpv6 E d slice) := by
  simp only [decodeIpv6?, decodeIpv6, offsetOf?_of_suffix hslice, Option.bind_eq_bind,
    Option.bind_some]
  cases slice.head? with
  | none => rfl
  | some first =>
    dsimp only
    split_ifs with hversion
    · rfl
    · cases hread : E.ipv6 slice with
      | none => rfl
      | some read =>
        have hafter := (hE.ipv6 slice read.1 read.2 hread).trans hslice
        obtain ⟨n, _, hwalk⟩ := walkExtensions?_eq (Nat.zero_add maxIpv6ExtensionHeaders)
          (Nat.lt_succ_self maxIpv6ExtensionHeaders)
          { protocol := read.1.nextHeader, cursor := read.2 }
        dsimp only
        simp only [hwalk, Option.bind_some]
        generalize hwalked : walkExtensions maxIpv6ExtensionHeaders
          { protocol := read.1.nextHeader, cursor := read.2 } = w
        have hcursor : w.cursor <:+ d.frame := by
          obtain ⟨walked, hsplit⟩ := (walkExtensions_suffix maxIpv6ExtensionHeaders
            { protocol := read.1.nextHeader, cursor := read.2 }).1
          rw [hwalked] at hsplit
          exact List.IsSuffix.trans ⟨walked, hsplit.symm⟩ hafter
        cases w.anomaly with
        | none => simp only [Option.elim_none, DecodedFrame.noteIf_toDecoded,
            offsetOf?_of_suffix hcursor, Option.bind_some, decodeNetworkPayload?_eq]
        | some kind => simp only [Option.elim_some, DecodedFrame.note_toDecoded,
            DecodedFrame.noteIf_toDecoded, offsetOf?_of_suffix hcursor, Option.bind_some,
            decodeNetworkPayload?_eq]

theorem decodeNetwork?_eq (hE : E.Suffixes) {d : DecodedFrame} {rest : List UInt8}
    (hrest : rest <:+ d.frame) (etherType : UInt16) :
    decodeNetwork? E d etherType rest = some (decodeNetwork E d etherType rest) := by
  have hipv4 := decodeIpv4?_eq hE (d := { d with etherType := some etherType }) hrest
  have hipv6 := decodeIpv6?_eq hE (d := { d with etherType := some etherType }) hrest
  simp only [decodeNetwork?, decodeNetwork, hipv4, hipv6]
  split_ifs
  all_goals rfl

/-- From any number of tags read the loop ends at the limit at the latest. -/
theorem decodeTags?_eq (hE : E.Suffixes) {rounds tags remaining : ℕ}
    (hlimit : tags + remaining = maxVlanTags) (hrounds : remaining < rounds) {d : DecodedFrame}
    {rest : List UInt8} (hrest : rest <:+ d.frame) (etherType : UInt16) :
    decodeTags? E rounds tags d etherType rest =
      some (decodeTags E remaining d etherType rest) := by
  induction rounds generalizing tags remaining d rest etherType with
  | zero => exact absurd hrounds (Nat.not_lt_zero _)
  | succ rounds ih =>
    by_cases hvlan : isVlan etherType = true
    · cases remaining with
      | zero => rw [decodeTags?, decodeTags, if_pos hvlan, if_pos hvlan, if_pos (by omega)]
      | succ remaining =>
        rw [decodeTags?, decodeTags, if_pos hvlan, if_pos hvlan, if_neg (by omega)]
        cases hread : E.singleVlan rest with
        | none => rfl
        | some read =>
          have hafter := (hE.singleVlan rest read.1 read.2 hread).trans hrest
          simp only [DecodedFrame.setVlanId?, if_pos (show tags < maxVlanTags by omega),
            Option.bind_eq_bind, Option.bind_some]
          exact ih (d := { d with vlanIds := d.vlanIds ++ [read.1.vlanId] })
            (show tags + 1 + remaining = maxVlanTags by omega) (by omega) hafter read.1.etherType
    · rw [decodeTags?, if_neg hvlan, decodeNetwork?_eq hE hrest]
      cases remaining with
      | zero => rw [decodeTags, if_neg hvlan]
      | succ remaining => rw [decodeTags, if_neg hvlan]

theorem decode?_eq (hE : E.Suffixes) (frame : List UInt8) (originalLen : ℕ) :
    decode? E frame originalLen = some (decode E frame originalLen) := by
  by_cases hempty : frame = []
  · simp only [decode?, decode, if_pos hempty]
  · simp only [decode?, decode, if_neg hempty]
    cases hread : E.ethernet2 frame with
    | none => rfl
    | some read =>
      exact decodeTags?_eq hE (Nat.zero_add maxVlanTags) (Nat.lt_succ_self maxVlanTags)
        (hE.ethernet2 frame read.1 read.2 hread) read.1

theorem decodeTransportBytes?_eq (E : Etherparse) (bytes : List UInt8) (protocol : UInt8) :
    decodeTransportBytes? E bytes protocol = some (decodeTransportBytes E bytes protocol) :=
  decodeTransport?_eq E _ protocol 0 bytes.length

end Checks

theorem clampRange_ordered (start stop frameLen : ℕ) :
    (clampRange start stop frameLen).1 ≤ (clampRange start stop frameLen).2 :=
  le_max_right _ _

theorem clampRange_inside (start stop frameLen : ℕ) :
    (clampRange start stop frameLen).2 ≤ frameLen :=
  max_le (min_le_right _ _) (min_le_right _ _)

/-- A range that starts later and ends earlier is empty once clamped, or within the other. -/
theorem clampRange_nested {start stop first last : ℕ} (hfirst : start ≤ first) (hlast : last ≤ stop)
    (frameLen : ℕ) :
    (clampRange first last frameLen).1 = (clampRange first last frameLen).2 ∨
      (clampRange start stop frameLen).1 ≤ (clampRange first last frameLen).1 ∧
        (clampRange first last frameLen).2 ≤ (clampRange start stop frameLen).2 := by
  simp only [clampRange]
  omega

structure Unread (frame : List UInt8) (d : Decoded) : Prop where
  frame_eq : d.frame = frame
  networkPayload_eq : d.networkPayload = (0, 0)
  payload_eq : d.payload = (0, 0)

/-- What a transport header between two positions changes: the payload is still empty, or lies
between them as far as the frame does. -/
structure ReadsTransport (d d' : Decoded) (start stop : ℕ) : Prop where
  frame_eq : d'.frame = d.frame
  networkPayload_eq : d'.networkPayload = d.networkPayload
  payload_eq : d'.payload = (0, 0) ∨ ∃ first last, start ≤ first ∧ last ≤ stop ∧
    d'.payload = clampRange first last d.frame.length

structure Ranged (frame : List UInt8) (d : Decoded) : Prop extends d.Nested where
  frame_eq : d.frame = frame

section Ranges

variable {E : Etherparse} {d : DecodedFrame} {frame : List UInt8}

theorem Unread.ranged {d : Decoded} (h : Unread frame d) : Ranged frame d where
  network_ordered := by rw [h.networkPayload_eq]
  network_inside := by
    rw [h.networkPayload_eq]
    exact Nat.zero_le _
  ordered := by rw [h.payload_eq]
  inside := by
    rw [h.payload_eq]
    exact Nat.zero_le _
  nested := Or.inl (by rw [h.payload_eq])
  frame_eq := h.frame_eq

theorem readsTransport_unread (hpayload : d.payload = (0, 0)) (start stop : ℕ) :
    ReadsTransport d.toDecoded d.toDecoded start stop := ⟨rfl, rfl, Or.inl hpayload⟩

theorem decodeTcp_reads (hpayload : d.payload = (0, 0)) (segment : List UInt8) (start stop : ℕ) :
    ReadsTransport d.toDecoded (decodeTcp E d segment start stop).toDecoded start stop := by
  have hunread := readsTransport_unread hpayload start stop
  simp only [decodeTcp]
  split_ifs
  · exact hunread
  · exact hunread
  · exact hunread
  · cases E.tcp segment with
    | none => exact hunread
    | some read => exact ⟨rfl, rfl, Or.inr ⟨_, _, Nat.le_add_right _ _, le_rfl, rfl⟩⟩

theorem decodeUdp_reads (hpayload : d.payload = (0, 0)) (segment : List UInt8) (start stop : ℕ) :
    ReadsTransport d.toDecoded (decodeUdp E d segment start stop).toDecoded start stop := by
  have hunread := readsTransport_unread hpayload start stop
  simp only [decodeUdp]
  split_ifs with hlen
  · exact hunread
  · cases E.udp segment with
    | none => exact hunread
    | some read =>
      dsimp only
      split_ifs
      · exact ⟨rfl, rfl, Or.inr ⟨_, _, Nat.le_add_right _ _, min_le_right _ _, rfl⟩⟩
      · simp only [DecodedFrame.noteIf_toDecoded]
        exact ⟨rfl, rfl, Or.inr ⟨_, _, Nat.le_add_right _ _, min_le_right _ _, rfl⟩⟩

theorem decodeIcmp_reads (hpayload : d.payload = (0, 0)) (segment : List UInt8) (start stop : ℕ) :
    ReadsTransport d.toDecoded (decodeIcmp d segment start stop).toDecoded start stop := by
  have hunread := readsTransport_unread hpayload start stop
  simp only [decodeIcmp]
  split_ifs
  · exact ⟨rfl, rfl, Or.inl hpayload⟩
  · exact hunread
  · exact ⟨rfl, rfl, Or.inr ⟨_, _, Nat.le_add_right _ _, le_rfl, rfl⟩⟩

theorem decodeTransport_reads (hpayload : d.payload = (0, 0)) (protocol : UInt8) (start stop : ℕ) :
    ReadsTransport d.toDecoded (decodeTransport E d protocol start stop).toDecoded start stop := by
  simp only [decodeTransport]
  split_ifs
  all_goals first
    | exact decodeTcp_reads hpayload _ start stop
    | exact decodeUdp_reads hpayload _ start stop
    | exact decodeIcmp_reads hpayload _ start stop
    | exact ⟨rfl, rfl, Or.inr ⟨_, _, le_rfl, le_rfl, rfl⟩⟩

theorem decodeNetworkPayload_ranged (h : Unread frame d.toDecoded) (network : Network)
    (start stop : ℕ) : Ranged frame (decodeNetworkPayload E d network start stop).toDecoded := by
  have hordered := clampRange_ordered start stop d.frame.length
  have hinside := clampRange_inside start stop d.frame.length
  simp only [decodeNetworkPayload]
  split_ifs
  · exact ⟨⟨hordered, hinside, hordered, hinside, Or.inr ⟨le_rfl, le_rfl⟩⟩, h.frame_eq⟩
  · have hreads := decodeTransport_reads (E := E)
      (d := { d with
        network := some network
        networkPayload := clampRange start stop d.frame.length })
      h.payload_eq network.protocol start stop
    generalize (decodeTransport E { d with
      network := some network
      networkPayload := clampRange start stop d.frame.length } network.protocol start
        stop).toDecoded = d' at hreads
    obtain ⟨hframe, hnetwork, hpayload⟩ := hreads
    dsimp only at hframe hnetwork hpayload
    rw [← hframe] at hordered hinside hnetwork
    rcases hpayload with hempty | ⟨first, last, hfirst, hlast, hclamp⟩
    · refine ⟨⟨hnetwork ▸ hordered, hnetwork ▸ hinside, ?_, ?_, Or.inl ?_⟩, hframe.trans h.frame_eq⟩
      · rw [hempty]
      · rw [hempty]
        exact Nat.zero_le _
      · rw [hempty]
    · rw [← hframe] at hclamp
      refine ⟨⟨hnetwork ▸ hordered, hnetwork ▸ hinside, ?_, ?_, ?_⟩, hframe.trans h.frame_eq⟩
      · rw [hclamp]
        exact clampRange_ordered _ _ _
      · rw [hclamp]
        exact clampRange_inside _ _ _
      · rw [hclamp, hnetwork]
        exact clampRange_nested hfirst hlast _

theorem decodeIpv4_ranged (h : Unread frame d.toDecoded) (slice : List UInt8) :
    Ranged frame (decodeIpv4 E d slice).toDecoded := by
  have hunread := h.ranged
  rw [decodeIpv4]
  cases slice.head? with
  | none => exact hunread
  | some first =>
    dsimp only
    split_ifs with hversion hmin hheader
    · exact hunread
    · exact hunread
    · exact hunread
    · cases E.ipv4 slice with
      | none => exact hunread
      | some read =>
        dsimp only
        apply decodeNetworkPayload_ranged
        split_ifs
        · rwa [DecodedFrame.note_toDecoded, DecodedFrame.noteIf_toDecoded]
        · rwa [DecodedFrame.noteIf_toDecoded, DecodedFrame.noteIf_toDecoded]

theorem decodeIpv6_ranged (h : Unread frame d.toDecoded) (slice : List UInt8) :
    Ranged frame (decodeIpv6 E d slice).toDecoded := by
  have hunread := h.ranged
  rw [decodeIpv6]
  cases slice.head? with
  | none => exact hunread
  | some first =>
    dsimp only
    split_ifs with hversion
    · exact hunread
    · cases E.ipv6 slice with
      | none => exact hunread
      | some read =>
        dsimp only
        apply decodeNetworkPayload_ranged
        cases (walkExtensions maxIpv6ExtensionHeaders
            { protocol := read.1.nextHeader, cursor := read.2 }).anomaly with
        | none => rwa [Option.elim_none, DecodedFrame.noteIf_toDecoded]
        | some kind =>
          rwa [Option.elim_some, DecodedFrame.note_toDecoded, DecodedFrame.noteIf_toDecoded]

theorem decodeNetwork_ranged (h : Unread frame d.toDecoded) (etherType : UInt16)
    (rest : List UInt8) : Ranged frame (decodeNetwork E d etherType rest).toDecoded := by
  have hunread : Unread frame { d with etherType := some etherType }.toDecoded := h
  rw [decodeNetwork]
  split_ifs
  · exact decodeIpv4_ranged hunread rest
  · exact decodeIpv6_ranged hunread rest
  · exact hunread.ranged

theorem decodeTags_ranged (remaining : ℕ) (h : Unread frame d.toDecoded) (etherType : UInt16)
    (rest : List UInt8) : Ranged frame (decodeTags E remaining d etherType rest).toDecoded := by
  induction remaining generalizing d etherType rest with
  | zero =>
    rw [decodeTags]
    split_ifs
    · exact h.ranged
    · exact decodeNetwork_ranged h etherType rest
  | succ remaining ih =>
    rw [decodeTags]
    split_ifs
    · cases E.singleVlan rest with
      | none => exact h.ranged
      | some read =>
        apply ih
        exact h
    · exact decodeNetwork_ranged h etherType rest

theorem unread_new (frame : List UInt8) (originalLen : ℕ) :
    Unread frame (DecodedFrame.new frame originalLen).toDecoded := ⟨rfl, rfl, rfl⟩

theorem decode_ranged (E : Etherparse) (frame : List UInt8) (originalLen : ℕ) :
    Ranged frame (decode E frame originalLen).toDecoded := by
  have hnew := unread_new frame originalLen
  simp only [decode]
  split_ifs
  · exact hnew.ranged
  · cases E.ethernet2 frame with
    | none => exact hnew.ranged
    | some read => exact decodeTags_ranged maxVlanTags hnew read.1 read.2

/-- A reassembled datagram has no network layer: its payload lies in the bytes that were given. -/
theorem decodeTransportBytes_ranged (E : Etherparse) (bytes : List UInt8) (protocol : UInt8) :
    (decodeTransportBytes E bytes protocol).frame = bytes ∧
      (decodeTransportBytes E bytes protocol).payload.1 ≤
        (decodeTransportBytes E bytes protocol).payload.2 ∧
      (decodeTransportBytes E bytes protocol).payload.2 ≤ bytes.length := by
  obtain ⟨hframe, _, hpayload⟩ := decodeTransport_reads (E := E)
    (d := DecodedFrame.new bytes bytes.length) rfl protocol 0 bytes.length
  rw [decodeTransportBytes]
  refine ⟨hframe, ?_⟩
  rcases hpayload with hempty | ⟨first, last, _, _, hclamp⟩
  · rw [hempty]
    exact ⟨le_rfl, Nat.zero_le _⟩
  · rw [hclamp]
    exact ⟨clampRange_ordered _ _ _, clampRange_inside _ _ _⟩

theorem slice?_range {d : Decoded} {r : ℕ × ℕ} (hordered : r.1 ≤ r.2)
    (hinside : r.2 ≤ d.frame.length) : slice? d.frame r.1 r.2 = some (d.range r) := by
  rw [slice?_of_le hordered hinside, Decoded.range, if_pos ⟨hordered, hinside⟩]

end Ranges

/-- Every frame is decoded without an index out of range and within the limits of the loops, to
ranges that are nested in the frame; and a reassembled datagram to a payload in its bytes. -/
theorem decode_stays_inside {E : Etherparse} (hE : E.Suffixes) :
    (∀ frame originalLen, ∃ d : DecodedFrame,
      decode? E frame originalLen = some d ∧ decode E frame originalLen = d ∧
      d.frame = frame ∧ d.Nested ∧
      slice? frame d.payload.1 d.payload.2 = some d.payloadBytes ∧
      slice? frame d.networkPayload.1 d.networkPayload.2 = some d.networkPayloadBytes) ∧
    (∀ rounds w, maxIpv6ExtensionHeaders < rounds → ∃ n ≤ maxIpv6ExtensionHeaders,
      walkExtensions? rounds 0 w = some (walkExtensions maxIpv6ExtensionHeaders w, n)) ∧
    ∀ bytes protocol, ∃ d : DecodedFrame,
      decodeTransportBytes? E bytes protocol = some d ∧ decodeTransportBytes E bytes protocol = d ∧
      d.frame = bytes ∧ d.payload.1 ≤ d.payload.2 ∧ d.payload.2 ≤ bytes.length ∧
      slice? bytes d.payload.1 d.payload.2 = some d.payloadBytes := by
  refine ⟨fun frame originalLen => ?_, fun rounds w hrounds => ?_, fun bytes protocol => ?_⟩
  · have hranged := decode_ranged E frame originalLen
    have hpayload := slice?_range hranged.ordered hranged.inside
    have hnetwork := slice?_range hranged.network_ordered hranged.network_inside
    rw [hranged.frame_eq] at hpayload hnetwork
    exact ⟨_, decode?_eq hE frame originalLen, rfl, hranged.frame_eq, hranged.toNested, hpayload,
      hnetwork⟩
  · exact walkExtensions?_eq (Nat.zero_add maxIpv6ExtensionHeaders) hrounds w
  · obtain ⟨hframe, hordered, hinside⟩ := decodeTransportBytes_ranged E bytes protocol
    have hpayload := slice?_range hordered (by rwa [hframe])
    rw [hframe] at hpayload
    exact ⟨_, decodeTransportBytes?_eq E bytes protocol, rfl, hframe, hordered, hinside, hpayload⟩

theorem suffix_of_ite {α : Type*} {readable : Prop} [Decidable readable] {bytes rest : List UInt8}
    {n : ℕ} {read header : α}
    (h : (if readable then some (read, bytes.drop n) else none) = some (header, rest)) :
    rest <:+ bytes := by
  obtain ⟨_, heq⟩ := Option.ite_none_right_eq_some.1 h
  cases heq
  exact List.drop_suffix n bytes

theorem Etherparse.standard_suffixes : Etherparse.standard.Suffixes where
  ethernet2 _ _ _ h := suffix_of_ite h
  singleVlan _ _ _ h := suffix_of_ite h
  ipv4 _ _ _ h := suffix_of_ite h
  ipv6 _ _ _ h := suffix_of_ite h

/-- A datagram of three bytes in a frame with two bytes of padding. -/
def paddedFrame : List UInt8 :=
  linkToIpv4 ++ [0x45, 0, 0, 31, 0, 7, 0x40, 0, 64, 17, 0, 0, 10, 0, 0, 1, 10, 0, 0, 2] ++
    [0x13, 0x88, 0, 53, 0, 11, 0, 0, 1, 2, 3] ++ [0, 0]

theorem paddedFrame_stays_inside :
    Etherparse.standard.Suffixes ∧ paddedFrame.length = 47 ∧
    ∃ d : DecodedFrame, decode? Etherparse.standard paddedFrame 47 = some d ∧ d.Nested ∧
      d.networkPayload = (34, 45) ∧ d.payload = (42, 45) ∧
      slice? paddedFrame d.payload.1 d.payload.2 = some d.payloadBytes := by
  obtain ⟨d, hchecked, hplain, _, hnested, hpayload, _⟩ :=
    (decode_stays_inside Etherparse.standard_suffixes).1 paddedFrame 47
  refine ⟨Etherparse.standard_suffixes, rfl, d, hchecked, hnested, ?_, ?_, hpayload⟩
  · rw [← hplain]
    decide +kernel
  · rw [← hplain]
    decide +kernel

end Decode

end CyberSentinel
