/-
# Sorting, and keeping some of the entries

Sorting by insertion is stable, so to keep what passes a test may come before it or after it.
Two collections with the same members, each once, have the same order.
-/
import Mathlib.Data.List.Sort

namespace Ordering

open List

variable {α : Type*} {r : α → α → Prop} [DecidableRel r]

theorem filter_orderedInsert [IsTrans α r] (p : α → Bool) (a : α) {l : List α}
    (hl : l.Pairwise r) :
    (l.orderedInsert r a).filter p =
      if p a then (l.filter p).orderedInsert r a else l.filter p := by
  induction l with
  | nil => cases hp : p a <;> simp [hp]
  | cons b l ih =>
    obtain ⟨hb, hrest⟩ := pairwise_cons.mp hl
    rw [orderedInsert_cons]
    by_cases hab : r a b
    · rw [if_pos hab, filter_cons]
      split
      · -- everything that is kept comes after the new entry
        have hall : ∀ c ∈ (b :: l).filter p, r a c := by
          intro c hc
          rcases mem_cons.mp (mem_of_mem_filter hc) with rfl | hc
          · exact hab
          · exact IsTrans.trans _ _ _ hab (hb c hc)
        cases hkept : (b :: l).filter p with
        | nil => rfl
        | cons c kept =>
          rw [orderedInsert_cons_of_le]
          exact hall c (by rw [hkept]; exact mem_cons_self)
      · rfl
    · rw [if_neg hab, filter_cons, filter_cons, ih hrest]
      cases hpa : p a <;> cases hpb : p b <;> simp [hab]

/-- Sorting is stable. -/
theorem filter_insertionSort [IsTrans α r] [Std.Total r] (p : α → Bool) (l : List α) :
    (l.insertionSort r).filter p = (l.filter p).insertionSort r := by
  induction l with
  | nil => rfl
  | cons a l ih =>
    rw [insertionSort_cons, filter_orderedInsert p a (pairwise_insertionSort r l), ih, filter_cons]
    split
    · rw [insertionSort_cons]
    · rfl

/-- The order of a collection does not depend on how it is stored. -/
theorem insertionSort_eq_of_perm [IsTrans α r] [Std.Total r] [Std.Antisymm r] {l l' : List α}
    (h : l.Perm l') : l.insertionSort r = l'.insertionSort r :=
  ((perm_insertionSort r l).trans (h.trans (perm_insertionSort r l').symm)).eq_of_pairwise'
    (pairwise_insertionSort r l) (pairwise_insertionSort r l')

end Ordering
