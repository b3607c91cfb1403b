/-
# Broadcast channels with a bounded buffer

A channel keeps the last values that were sent, as many as its capacity.  Each receiver reads
at its own position; one that has fallen behind is told once how many values it has missed, and
goes on with the oldest value that is still there.

Values are arbitrary.  A channel is given by all that was ever sent on it: what the buffer
holds, what a receiver can still get and what it has missed follow from its position.
-/
import Mathlib.Data.List.Basic

namespace Broadcast

/-- A channel, with all that was sent, oldest first. -/
structure Channel (α : Type*) where
  capacity : ℕ
  pos : 0 < capacity
  sent : List α

/-- What a receiver gets. -/
inductive Received (α : Type*) : Type _ where
  | value (a : α)
  | lagged (n : ℕ)
  | empty
  deriving DecidableEq

namespace Channel

variable {α : Type*} (c : Channel α) {next n : ℕ} {a : α}

/-- The position of the oldest value in the buffer. -/
def oldest : ℕ := c.sent.length - c.capacity

/-- What a receiver at the position gets. -/
def receive (next : ℕ) : Received α :=
  if next < c.oldest then .lagged (c.oldest - next)
  else
    match c.sent[next]? with
    | some a => .value a
    | none => .empty

/-- What the buffer still holds for a receiver at the position. -/
def retained (next : ℕ) : List α := c.sent.drop (max next c.oldest)

/-- The number of values that a receiver at the position has missed and was not told of. -/
def missed (next : ℕ) : ℕ := c.oldest - next

def send (a : α) : Channel α := { c with sent := c.sent ++ [a] }

theorem oldest_le : c.oldest ≤ c.sent.length := Nat.sub_le _ _

variable {c}

/-- What was sent from the position on is there, or was missed. -/
theorem retained_add_missed (h : next ≤ c.sent.length) :
    next + (c.retained next).length + c.missed next = c.sent.length := by
  have hle := c.oldest_le
  unfold retained missed
  rw [List.length_drop]
  omega

theorem receive_eq_value (h : c.receive next = .value a) :
    c.oldest ≤ next ∧ c.sent[next]? = some a := by
  unfold receive at h
  split at h
  · cases h
  · rename_i hle
    split at h
    · rename_i b hb
      cases h
      exact ⟨Nat.le_of_not_lt hle, hb⟩
    · cases h

theorem receive_eq_lagged (h : c.receive next = .lagged n) : next + n = c.oldest ∧ 0 < n := by
  unfold receive at h
  split at h
  · rename_i hlt
    cases h
    constructor
    · omega
    · omega
  · split at h <;> cases h

/-- Nothing is there for the receiver, and it has missed nothing. -/
theorem receive_eq_empty (h : c.receive next = .empty) :
    c.retained next = [] ∧ c.missed next = 0 := by
  unfold receive at h
  split at h
  · cases h
  · rename_i hle
    split at h
    · cases h
    · rename_i hnone
      have hlen := List.getElem?_eq_none_iff.mp hnone
      constructor
      · exact List.drop_eq_nil_of_le (by omega)
      · exact Nat.sub_eq_zero_of_le (Nat.le_of_not_lt hle)

end Channel

end Broadcast
