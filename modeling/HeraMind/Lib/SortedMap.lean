/-
# Maps sorted by their keys

A map from numbers as the list of its entries, in the order of the keys.  A map that has at least
`n` keys, all of them among `n` numbers, has all of these.
-/
import Mathlib.Data.List.Basic
import Mathlib.Data.List.Range

namespace SortedMap

open List

variable {β : Type*}

/-- An entry is put in its place, instead of one with the same key. -/
def insert (k : ℕ) (b : β) : List (ℕ × β) → List (ℕ × β)
  | [] => [(k, b)]
  | (k', b') :: m =>
    if k < k' then (k, b) :: (k', b') :: m
    else if k = k' then (k, b) :: m
    else (k', b') :: insert k b m

/-- The keys are in order. -/
def Sorted (m : List (ℕ × β)) : Prop := (m.map Prod.fst).Pairwise (· < ·)

variable {m : List (ℕ × β)}

theorem mem_keys_insert {k i : ℕ} {b : β} :
    i ∈ (insert k b m).map Prod.fst ↔ i = k ∨ i ∈ m.map Prod.fst := by
  induction m with
  | nil => exact mem_cons
  | cons e m ih =>
    obtain ⟨k', b'⟩ := e
    unfold insert
    by_cases hlt : k < k'
    · rw [if_pos hlt]
      exact mem_cons
    · rw [if_neg hlt]
      by_cases heq : k = k'
      · rw [if_pos heq, map_cons, map_cons, mem_cons, mem_cons, heq]
        exact (or_iff_right_of_imp Or.inl).symm
      · rw [if_neg heq, map_cons, map_cons, mem_cons, mem_cons, ih]
        exact or_left_comm

theorem mem_of_mem_insert {k : ℕ} {b : β} {e : ℕ × β}
    (h : e ∈ insert k b m) : e = (k, b) ∨ e ∈ m := by
  induction m with
  | nil => exact Or.inl (mem_singleton.mp h)
  | cons e' m ih =>
    obtain ⟨k', b'⟩ := e'
    unfold insert at h
    split at h
    · exact mem_cons.mp h
    · split at h
      · exact (mem_cons.mp h).imp_right (mem_cons_of_mem _)
      · rcases mem_cons.mp h with rfl | h
        · exact Or.inr mem_cons_self
        · exact (ih h).imp_right (mem_cons_of_mem _)

theorem Sorted.insert (h : Sorted m) (k : ℕ) (b : β) :
    Sorted (SortedMap.insert k b m) := by
  induction m with
  | nil => exact pairwise_singleton _ _
  | cons e m ih =>
    obtain ⟨k', b'⟩ := e
    obtain ⟨hfirst, hrest⟩ := pairwise_cons.mp h
    unfold SortedMap.insert
    by_cases hlt : k < k'
    · rw [if_pos hlt]
      refine pairwise_cons.mpr ⟨fun i hi => ?_, h⟩
      rcases mem_cons.mp hi with rfl | hi
      · exact hlt
      · exact Nat.lt_trans hlt (hfirst i hi)
    · rw [if_neg hlt]
      by_cases heq : k = k'
      · rw [if_pos heq]
        exact pairwise_cons.mpr ⟨fun i hi => heq ▸ hfirst i hi, hrest⟩
      · rw [if_neg heq]
        refine pairwise_cons.mpr ⟨fun i hi => ?_, ih hrest⟩
        rcases mem_keys_insert.mp hi with rfl | hi
        · show k' < i
          omega
        · exact hfirst i hi

theorem length_le {l : List ℕ} {a n : ℕ} (hl : l.Pairwise (· < ·))
    (hin : ∀ i ∈ l, a ≤ i ∧ i < a + n) : l.length ≤ n := by
  induction n generalizing l a with
  | zero =>
    have hnil : l = [] := by
      refine eq_nil_iff_forall_not_mem.mpr fun i hi => ?_
      obtain ⟨hle, hlt⟩ := hin i hi
      omega
    rw [hnil, length_nil]
  | succ n ih =>
    cases l with
    | nil => exact Nat.zero_le _
    | cons x l =>
      obtain ⟨hfirst, hrest⟩ := pairwise_cons.mp hl
      have hx := hin x mem_cons_self
      have hle := ih (a := a + 1) hrest fun i hi => by
        have hi' := hin i (mem_cons_of_mem _ hi)
        have hlt := hfirst i hi
        omega
      rw [length_cons]
      omega

/-- Numbers in order that fill a range are the range. -/
theorem eq_range' {l : List ℕ} {a n : ℕ} (hl : l.Pairwise (· < ·))
    (hin : ∀ i ∈ l, a ≤ i ∧ i < a + n) (hlen : n ≤ l.length) : l = List.range' a n := by
  induction n generalizing l a with
  | zero =>
    refine eq_nil_iff_forall_not_mem.mpr fun i hi => ?_
    obtain ⟨hle, hlt⟩ := hin i hi
    omega
  | succ n ih =>
    cases l with
    | nil => exact absurd hlen (by rw [length_nil]; omega)
    | cons x l =>
      obtain ⟨hfirst, hrest⟩ := pairwise_cons.mp hl
      rw [length_cons] at hlen
      have hx := hin x mem_cons_self
      -- A greater first number would leave too few for the others.
      have hxa : x = a := by
        by_contra hne
        have hle := length_le (a := x + 1) (n := a + n - x) hrest fun i hi => by
          have hi' := hin i (mem_cons_of_mem _ hi)
          have hlt := hfirst i hi
          omega
        omega
      rw [hxa] at hfirst ⊢
      rw [range'_succ, ← ih hrest (fun i hi => ?_) (by omega)]
      have hi' := hin i (mem_cons_of_mem _ hi)
      have hlt := hfirst i hi
      omega

end SortedMap
