import CyberSentinel.Addresses
import CyberSentinel.Blanks
import CyberSentinel.Evtx

/-!
# Networks

A network is written as an address and a prefix length, or as an address alone. Host bits that are
written are cleared. An address is in the network if it is of the same family and begins with the
same bits, as many of them as the prefix has.
-/

namespace CyberSentinel

open Texts Numerals
open Evtx (trim)

theorem masked_masked {w : ℕ} (address : BitVec w) (prefixLen : ℕ) :
    masked (masked address prefixLen) prefixLen = masked address prefixLen := by
  rw [masked, masked]
  split_ifs with h
  · rfl
  · rw [BitVec.and_assoc, BitVec.and_self]

/-- The bits past the prefix are clear, and the others as they were. -/
theorem getMsbD_masked {w prefixLen : ℕ} (address : BitVec w) (h : prefixLen ≤ w) (i : ℕ) :
    (masked address prefixLen).getMsbD i = (decide (i < prefixLen) && address.getMsbD i) := by
  rw [masked]
  split_ifs with hzero
  · simp [hzero]
  · rw [BitVec.getMsbD_and, BitVec.getMsbD_shiftLeft, BitVec.getMsbD_allOnes, Bool.and_comm]
    congr 1
    rw [decide_eq_decide]
    omega

/-- Addresses have the same network exactly if they begin with the same bits. -/
theorem masked_eq_masked_iff {w prefixLen : ℕ} {a b : BitVec w} (h : prefixLen ≤ w) :
    masked a prefixLen = masked b prefixLen ↔ ∀ i < prefixLen, a.getMsbD i = b.getMsbD i := by
  constructor
  · intro heq i hi
    have hbit := congrArg (fun bits => bits.getMsbD i) heq
    simpa only [getMsbD_masked _ h, decide_eq_true hi, Bool.true_and] using hbit
  · intro hbits
    refine BitVec.eq_of_getMsbD_eq fun i _ => ?_
    rw [getMsbD_masked _ h, getMsbD_masked _ h]
    by_cases hi : i < prefixLen
    · rw [hbits i hi]
    · rw [decide_eq_false hi, Bool.false_and, Bool.false_and]

namespace IpAddr

def bit : IpAddr → ℕ → Bool
  | v4 address, i => address.getMsbD i
  | v6 address, i => address.getMsbD i

theorem maxPrefixLen_lt (address : IpAddr) : address.maxPrefixLen < 2 ^ 8 := by
  cases address with
  | v4 address => exact Nat.lt_of_sub_pos (by decide : 0 < 2 ^ 8 - 32)
  | v6 address => exact Nat.lt_of_sub_pos (by decide : 0 < 2 ^ 8 - 128)

def SameFamily (a b : IpAddr) : Prop := a.maxPrefixLen = b.maxPrefixLen

end IpAddr

namespace IpNetwork

/-- A network with its host bits cleared, unless the prefix is too long. -/
def new (address : IpAddr) (prefixLen : ℕ) : Option IpNetwork :=
  if h : prefixLen ≤ address.maxPrefixLen then
    some
      { address := address.mask prefixLen
        prefixLen
        prefixLen_le := by
          cases address with
          | v4 a => exact h
          | v6 a => exact h
        mask_eq := by
          cases address with
          | v4 a => exact congrArg IpAddr.v4 (masked_masked a prefixLen)
          | v6 a => exact congrArg IpAddr.v6 (masked_masked a prefixLen) }
  else none

/-- An address, which stands for itself alone, or an address and a prefix length. -/
def parse (text : Text) : Option IpNetwork :=
  match splitOnce '/' (trim text) with
  | none => (IpAddr.parse (trim text)).map host
  | some (address, prefixLen) =>
    (IpAddr.parse address).bind fun address => (parseNumber (2 ^ 8) prefixLen).bind (new address)

theorem eq_of_address_eq {n m : IpNetwork} (haddress : n.address = m.address)
    (hlen : n.prefixLen = m.prefixLen) :
    n = m := by
  cases n
  cases m
  congr

theorem contains_iff_mask (network : IpNetwork) (address : IpAddr) :
    network.contains address = true ↔
      network.address.SameFamily address ∧ address.mask network.prefixLen = network.address := by
  obtain ⟨bits, prefixLen, hle, hmask⟩ := network
  cases bits with
  | v4 bits =>
    cases address with
    | v4 candidate => simp [contains, IpAddr.SameFamily, IpAddr.mask, IpAddr.maxPrefixLen]
    | v6 candidate => simp [contains, IpAddr.SameFamily, IpAddr.maxPrefixLen]
  | v6 bits =>
    cases address with
    | v4 candidate => simp [contains, IpAddr.SameFamily, IpAddr.maxPrefixLen]
    | v6 candidate => simp [contains, IpAddr.SameFamily, IpAddr.mask, IpAddr.maxPrefixLen]

theorem eq_of_contains {n m : IpNetwork} {address : IpAddr} (hn : n.contains address = true)
    (hm : m.contains address = true) (hlen : n.prefixLen = m.prefixLen) : n = m := by
  rw [contains_iff_mask] at hn hm
  exact eq_of_address_eq (hn.2.symm.trans (hlen ▸ hm.2)) hlen

theorem contains_new {written : IpAddr} {prefixLen : ℕ} {network : IpNetwork}
    (h : new written prefixLen = some network)
    (address : IpAddr) :
    network.contains address = true ↔
      written.SameFamily address ∧ ∀ i < prefixLen, address.bit i = written.bit i := by
  rw [new] at h
  split_ifs at h with hle
  cases h
  rw [contains_iff_mask]
  cases written with
  | v4 a =>
    cases address with
    | v4 c =>
      have hbits : masked c prefixLen = masked a prefixLen ↔
          ∀ i < prefixLen, c.getMsbD i = a.getMsbD i :=
        masked_eq_masked_iff hle
      simp [IpAddr.SameFamily, IpAddr.mask, IpAddr.maxPrefixLen, IpAddr.bit, hbits]
    | v6 c => simp [IpAddr.SameFamily, IpAddr.mask, IpAddr.maxPrefixLen]
  | v6 a =>
    cases address with
    | v4 c => simp [IpAddr.SameFamily, IpAddr.mask, IpAddr.maxPrefixLen]
    | v6 c =>
      have hbits : masked c prefixLen = masked a prefixLen ↔
          ∀ i < prefixLen, c.getMsbD i = a.getMsbD i :=
        masked_eq_masked_iff hle
      simp [IpAddr.SameFamily, IpAddr.mask, IpAddr.maxPrefixLen, IpAddr.bit, hbits]

theorem prefixLen_new {written : IpAddr} {prefixLen : ℕ} {network : IpNetwork}
    (h : new written prefixLen = some network) : network.prefixLen = prefixLen := by
  rw [new] at h
  split_ifs at h
  cases h
  rfl

theorem new_address (network : IpNetwork) :
    new network.address network.prefixLen = some network := by
  rw [new, dif_pos network.prefixLen_le]
  exact congrArg some (eq_of_address_eq network.mask_eq rfl)

def display (network : IpNetwork) : Text :=
  network.address.display ++ '/' :: Nat.toDigits 10 network.prefixLen

theorem parse_written (written : IpAddr) {prefixLen : ℕ} (h : prefixLen < 2 ^ 8) :
    parse (written.display ++ '/' :: Nat.toDigits 10 prefixLen) = new written prefixLen := by
  have hblank : ∀ c ∈ written.display ++ '/' :: Nat.toDigits 10 prefixLen,
      isWhitespace c = false := by
    intro c hc
    rcases List.mem_append.1 hc with hc | hc
    · exact IpAddr.isWhitespace_of_addressChar (IpAddr.addressChar_of_mem_display hc)
    · rcases List.mem_cons.1 hc with rfl | hc
      · rfl
      · exact IpAddr.isWhitespace_of_addressChar (IpAddr.addressChar_of_mem_toDigits
          (by decide) (by decide) hc)
  have htrim : trim (written.display ++ '/' :: Nat.toDigits 10 prefixLen) =
      written.display ++ '/' :: Nat.toDigits 10 prefixLen :=
    Blanks.strip_eq_self (fun c hc => hblank c (List.mem_of_mem_head? hc))
      fun c hc => hblank c (List.mem_of_mem_getLast? hc)
  have hslash : '/' ∉ written.display := fun hc =>
    absurd (IpAddr.addressChar_of_mem_display hc) (by decide)
  rw [parse, htrim, splitOnce_append hslash]
  simp only [IpAddr.parse_display, parseNumber_toDigits h, Option.bind_some]

theorem parse_display (network : IpNetwork) : parse network.display = some network := by
  rw [display, parse_written _ (network.prefixLen_le.trans_lt network.address.maxPrefixLen_lt),
    new_address]

/-- Networks are displayed alike only if they are the same, so that to compare the texts is to
compare the networks. -/
theorem display_injective : Function.Injective display := by
  intro n m h
  have hread := congrArg parse h
  rw [parse_display, parse_display] at hread
  exact Option.some.inj hread

end IpNetwork

end CyberSentinel
