import Mathlib.Data.Nat.Basic
import Mathlib.Order.Lattice
import Mathlib.Order.Basic
import Mathlib.Tactic

/-!
# Addresses, networks and tuples

Addresses are the bits of the two families, ordered as the standard library orders them: every IPv4
address before every IPv6 address, and inside a family by octets, which is the order of the numbers.
An `IpNetwork` is only built with its host bits cleared and a prefix its family allows, so both
facts are fields.
-/

namespace CyberSentinel

inductive IpAddr
  | v4 (address : BitVec 32)
  | v6 (address : BitVec 128)
  deriving DecidableEq, Repr

namespace IpAddr

def rank : IpAddr → ℕ
  | v4 address => address.toNat
  | v6 address => 2 ^ 32 + address.toNat

theorem rank_injective : Function.Injective rank := by
  intro a b h
  cases a with
  | v4 x =>
    cases b with
    | v4 y => exact congrArg v4 (BitVec.eq_of_toNat_eq h)
    | v6 y =>
      have := x.isLt
      simp only [rank] at h
      omega
  | v6 x =>
    cases b with
    | v4 y =>
      have := y.isLt
      simp only [rank] at h
      omega
    | v6 y => exact congrArg v6 (BitVec.eq_of_toNat_eq (Nat.add_left_cancel h))

def maxPrefixLen : IpAddr → ℕ
  | v4 _ => 32
  | v6 _ => 128

end IpAddr

/-- Clear every bit past the first `prefixLen`. -/
def masked {w : ℕ} (address : BitVec w) (prefixLen : ℕ) : BitVec w :=
  if prefixLen = 0 then 0 else address &&& (BitVec.allOnes w <<< (w - prefixLen))

theorem masked_full {w : ℕ} (address : BitVec w) (hw : 0 < w) : masked address w = address := by
  have hne : w ≠ 0 := Nat.pos_iff_ne_zero.1 hw
  simp [masked, hne]

def IpAddr.mask (prefixLen : ℕ) : IpAddr → IpAddr
  | v4 address => v4 (masked address prefixLen)
  | v6 address => v6 (masked address prefixLen)

structure IpNetwork where
  address : IpAddr
  prefixLen : ℕ
  prefixLen_le : prefixLen ≤ address.maxPrefixLen
  mask_eq : address.mask prefixLen = address
  deriving DecidableEq

namespace IpNetwork

def host (address : IpAddr) : IpNetwork where
  address := address
  prefixLen := address.maxPrefixLen
  prefixLen_le := le_rfl
  mask_eq := by
    cases address with
    | v4 a => exact congrArg IpAddr.v4 (masked_full a (by decide))
    | v6 a => exact congrArg IpAddr.v6 (masked_full a (by decide))

/-- The two families are kept apart: an address of one is in no network of the other. -/
def contains (network : IpNetwork) (address : IpAddr) : Bool :=
  match network.address, address with
  | .v4 bits, .v4 candidate => masked candidate network.prefixLen == bits
  | .v6 bits, .v6 candidate => masked candidate network.prefixLen == bits
  | _, _ => false

end IpNetwork

/-- One endpoint of a flow: an address and a port. -/
structure Endpoint where
  ip : IpAddr
  port : UInt16
  deriving DecidableEq, Repr

namespace Endpoint

def rank (e : Endpoint) : ℕ := e.ip.rank * 2 ^ 16 + e.port.toNat

theorem rank_injective : Function.Injective rank := by
  intro a b h
  have ha := a.port.toNat_lt
  have hb := b.port.toNat_lt
  simp only [rank] at h
  have hip : a.ip.rank = b.ip.rank := by omega
  have hport : a.port.toNat = b.port.toNat := by omega
  cases a
  cases b
  rw [mk.injEq]
  exact ⟨IpAddr.rank_injective hip, UInt16.toNat_inj.1 hport⟩

instance : LinearOrder Endpoint := LinearOrder.lift' rank rank_injective

end Endpoint

inductive Protocol
  | tcp
  | udp
  | icmp
  | ip
  deriving DecidableEq, Repr

/-- The five-tuple of an event. Ports are absent for protocols that have none. -/
structure NetTuple where
  srcIp : IpAddr
  srcPort : Option UInt16
  destIp : IpAddr
  destPort : Option UInt16
  proto : Protocol
  deriving DecidableEq, Repr

end CyberSentinel
