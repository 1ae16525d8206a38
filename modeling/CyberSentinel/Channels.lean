import Mathlib.Data.List.Basic
import Mathlib.Tactic

/-!
# Bounded channels

A channel with one receiver takes messages up to its capacity and gives them out in the order they
entered. Neither end waits here: a full channel refuses a message, an empty one gives none.
`entered` and `taken` remember all that ever went in and came out, so that what a channel has lost
can be said: nothing while its receiver is there, and what was still in it when the receiver left.
-/

namespace Channels

structure Channel (α : Type*) where
  capacity : ℕ
  queue : List α := []
  /-- Whether the receiver is there. -/
  receiving : Bool := true
  /-- Whether a sender is there. -/
  sending : Bool := true
  /-- Every message that has entered, in order. -/
  entered : List α := []
  /-- Every message that has been received, in order. -/
  taken : List α := []

inductive Sent
  | ok
  | full
  | disconnected
  deriving DecidableEq, Repr

inductive Received (α : Type*)
  | ok (message : α)
  | empty
  | disconnected
  deriving DecidableEq, Repr

namespace Channel

variable {α : Type*}

def new (capacity : ℕ) : Channel α where
  capacity := capacity

def trySend (c : Channel α) (message : α) : Channel α × Sent :=
  if !c.receiving then (c, .disconnected)
  else if c.queue.length < c.capacity then
    ({ c with queue := c.queue ++ [message], entered := c.entered ++ [message] }, .ok)
  else (c, .full)

def tryRecv (c : Channel α) : Channel α × Received α :=
  match c.queue with
  | message :: rest => ({ c with queue := rest, taken := c.taken ++ [message] }, .ok message)
  | [] => (c, if c.sending then .empty else .disconnected)

/-- The receiver leaves; what it has not received is gone. -/
def closeReceiver (c : Channel α) : Channel α := { c with receiving := false, queue := [] }

def closeSender (c : Channel α) : Channel α := { c with sending := false }

theorem trySend_cases (c : Channel α) (message : α) :
    ((c.trySend message).2 = .ok ∧ c.receiving = true ∧ c.queue.length < c.capacity ∧
      (c.trySend message).1 =
        { c with queue := c.queue ++ [message], entered := c.entered ++ [message] }) ∨
    ((c.trySend message).2 ≠ .ok ∧ (c.trySend message).1 = c ∧
      (c.receiving = true → c.capacity ≤ c.queue.length)) := by
  unfold trySend
  cases hreceiving : c.receiving with
  | false => exact Or.inr ⟨by simp, by simp, by simp⟩
  | true =>
    by_cases hroom : c.queue.length < c.capacity
    · simp [hroom]
    · simp [hroom, not_lt.1 hroom]

theorem tryRecv_cases (c : Channel α) :
    (∃ message rest, c.queue = message :: rest ∧ c.tryRecv =
      ({ c with queue := rest, taken := c.taken ++ [message] }, .ok message)) ∨
    (c.queue = [] ∧ c.tryRecv = (c, if c.sending then .empty else .disconnected)) := by
  unfold tryRecv
  cases hqueue : c.queue with
  | nil => exact Or.inr ⟨rfl, rfl⟩
  | cons message rest => exact Or.inl ⟨message, rest, rfl, rfl⟩

/-- What has entered was received or still waits, in this order, and what was never received is
within bounds. A receiver that has left leaves nothing waiting. -/
structure Fifo (c : Channel α) : Prop where
  ordered : c.receiving = true → c.entered = c.taken ++ c.queue
  taken_prefix : c.taken <+: c.entered
  held : c.entered.length ≤ c.taken.length + c.capacity
  closed : c.receiving = false → c.queue = []

theorem fifo_new (capacity : ℕ) : (new capacity : Channel α).Fifo :=
  ⟨fun _ => rfl, List.prefix_rfl, Nat.zero_le _, fun h => by simp [new] at h⟩

namespace Fifo

variable {c : Channel α}

theorem trySend (h : c.Fifo) (message : α) : (c.trySend message).1.Fifo := by
  obtain ⟨-, hreceiving, hroom, heq⟩ | ⟨-, heq, -⟩ := c.trySend_cases message
  · have hordered := h.ordered hreceiving
    rw [heq]
    refine ⟨?_, ?_, ?_, ?_⟩
    · intro _
      rw [hordered, List.append_assoc]
    · exact h.taken_prefix.trans (List.prefix_append _ _)
    · change (c.entered ++ [message]).length ≤ c.taken.length + c.capacity
      rw [hordered, List.length_append, List.length_append, List.length_singleton]
      omega
    · intro hclosed
      exact absurd hreceiving (by rw [hclosed]; simp)
  · rw [heq]
    exact h

theorem tryRecv (h : c.Fifo) : c.tryRecv.1.Fifo := by
  obtain ⟨message, rest, hqueue, heq⟩ | ⟨hqueue, heq⟩ := c.tryRecv_cases
  · have hreceiving : c.receiving = true := by
      by_contra hclosed
      rw [h.closed (by simpa using hclosed)] at hqueue
      exact absurd hqueue (by simp)
    have hordered := h.ordered hreceiving
    rw [hqueue] at hordered
    rw [heq]
    refine ⟨?_, ?_, ?_, ?_⟩
    · intro _
      simpa using hordered
    · exact ⟨rest, by simpa using hordered.symm⟩
    · have hheld := h.held
      change c.entered.length ≤ (c.taken ++ [message]).length + c.capacity
      rw [List.length_append, List.length_singleton]
      omega
    · intro hclosed
      exact absurd hreceiving (by rw [hclosed]; simp)
  · rw [heq]
    exact h

theorem closeReceiver (h : c.Fifo) : c.closeReceiver.Fifo :=
  ⟨fun hreceiving => by simp [Channel.closeReceiver] at hreceiving, h.taken_prefix, h.held,
    fun _ => rfl⟩

theorem closeSender (h : c.Fifo) : c.closeSender.Fifo :=
  ⟨h.ordered, h.taken_prefix, h.held, h.closed⟩

end Fifo

end Channel
end Channels
