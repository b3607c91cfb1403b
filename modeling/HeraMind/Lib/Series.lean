/-
# Time series

A series gives a point for some of the times.  It has a last point, the one with the
greatest time, unless it is empty.  Rows sorted by time that list a series end with its
last point.
-/
import Mathlib.Data.List.Basic
import Mathlib.Order.Lattice

/-- A point for some of the times. -/
abbrev Series (τ β : Type*) := τ → Option β

namespace Series

variable {τ β : Type*} [LinearOrder τ] {S : Series τ β} {t : τ} {b : β}

/-- The point with the greatest time, or none if there is no point. -/
def IsLast (S : Series τ β) : Option β → Prop
  | none => ∀ t, S t = none
  | some b => ∃ t, S t = some b ∧ ∀ t' b', S t' = some b' → t' ≤ t

/-- A series has one last point. -/
theorem IsLast.unique {o o' : Option β} (h : S.IsLast o) (h' : S.IsLast o') : o = o' := by
  cases o with
  | none =>
    cases o' with
    | none => rfl
    | some b' =>
      obtain ⟨t, ht, -⟩ := h'
      rw [h t] at ht
      cases ht
  | some b =>
    obtain ⟨t, ht, hmax⟩ := h
    cases o' with
    | none =>
      rw [h' t] at ht
      cases ht
    | some b' =>
      obtain ⟨t', ht', hmax'⟩ := h'
      have htt : t = t' := le_antisymm (hmax' t b ht) (hmax t' b' ht')
      rw [← ht, ← ht', htt]

/-- A point at the greatest time of a series is the last one. -/
theorem isLast_some (ht : S t = some b) (hmax : ∀ t' b', S t' = some b' → t' ≤ t) :
    S.IsLast (some b) :=
  ⟨t, ht, hmax⟩

/-- Sorted rows end with the last point of the series they list. -/
theorem isLast_getLast? {rows : List (τ × β)} (hsorted : rows.Pairwise fun r r' => r.1 ≤ r'.1)
    (hrows : ∀ t b, (t, b) ∈ rows ↔ S t = some b) :
    S.IsLast (rows.getLast?.map Prod.snd) := by
  rcases rows.eq_nil_or_concat with rfl | ⟨rows, r, rfl⟩
  · intro t
    cases ht : S t with
    | none => rfl
    | some b =>
      rw [← hrows] at ht
      cases ht
  · rw [List.concat_eq_append] at hsorted hrows ⊢
    rw [List.getLast?_concat]
    refine ⟨r.1, (hrows _ _).mp (by simp), ?_⟩
    intro t b ht
    rw [← hrows, List.mem_append, List.mem_singleton] at ht
    rcases ht with ht | rfl
    · exact (List.pairwise_append.mp hsorted).2.2 _ ht r (List.mem_singleton_self r)
    · exact le_refl _

end Series
