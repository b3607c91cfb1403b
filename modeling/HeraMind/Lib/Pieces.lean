/-
# Lists cut at a pattern

`splitOnce p t` is what stands before and behind the first occurrence of `p`, and `split p t` cuts
at every occurrence, from the left and without overlaps, as `str::split_once` and `str::split` do
with a text.  A piece is a part of the list, contains no occurrence, and is shorter than the list
once there is one.
-/
import Mathlib.Data.List.Infix

namespace Pieces

open List

variable {α : Type*}

section Pattern

variable [DecidableEq α] {p t a b s : List α}

/-- What stands before and behind the first occurrence of a pattern. -/
def splitOnce (p : List α) : List α → Option (List α × List α)
  | [] => if p = [] then some ([], []) else none
  | x :: t =>
    if p <+: x :: t then some ([], (x :: t).drop p.length)
    else (splitOnce p t).map fun cut => (x :: cut.1, cut.2)

theorem splitOnce_eq_none : splitOnce p t = none ↔ ¬ p <:+: t := by
  induction t with
  | nil =>
    rw [splitOnce]
    by_cases hp : p = []
    · simp [hp]
    · simp [hp, infix_nil]
  | cons x t ih =>
    rw [splitOnce, infix_cons_iff]
    by_cases hpre : p <+: x :: t
    · simp [hpre]
    · simp [hpre, ih]

/-- The cut is at an occurrence, and no other one is before it. -/
theorem of_splitOnce (h : splitOnce p t = some (a, b)) :
    t = a ++ (p ++ b) ∧ ∀ a' b', t = a' ++ (p ++ b') → a.length ≤ a'.length := by
  induction t generalizing a with
  | nil =>
    rw [splitOnce] at h
    split at h
    · rename_i hp
      cases h
      exact ⟨by simp [hp], fun _ _ _ => Nat.zero_le _⟩
    · cases h
  | cons x t ih =>
    rw [splitOnce] at h
    split at h
    · rename_i hpre
      cases h
      obtain ⟨b, hb⟩ := hpre
      refine ⟨?_, fun _ _ _ => Nat.zero_le _⟩
      rw [← hb, drop_left, nil_append]
    · rename_i hpre
      obtain ⟨⟨a₁, b₁⟩, hcut, heq⟩ := Option.map_eq_some_iff.mp h
      cases heq
      obtain ⟨rfl, hfirst⟩ := ih hcut
      refine ⟨rfl, ?_⟩
      intro a' b' heq
      cases a' with
      | nil =>
        rw [nil_append] at heq
        exact absurd ⟨b', heq.symm⟩ hpre
      | cons y a' =>
        obtain ⟨rfl, htail⟩ := cons.inj heq
        have hle : a₁.length ≤ a'.length := hfirst a' b' htail
        exact Nat.succ_le_succ hle

/-- What stands before the first occurrence contains none. -/
theorem not_isInfix_of_splitOnce (hp : p ≠ []) (h : splitOnce p t = some (a, b)) : ¬ p <:+: a := by
  obtain ⟨rfl, hfirst⟩ := of_splitOnce h
  rintro ⟨u, v, rfl⟩
  have hle := hfirst u (v ++ (p ++ b)) (by simp)
  have hpos : 0 < p.length := length_pos_of_ne_nil hp
  rw [length_append, length_append] at hle
  omega

/-- A list that does not begin with the pattern is not cut at its front. -/
theorem ne_nil_of_splitOnce (h : splitOnce p t = some (a, b)) (hpre : ¬ p <+: t) : a ≠ [] := by
  rintro rfl
  exact hpre ⟨b, (of_splitOnce h).1.symm⟩

/-- Cut at every occurrence, at most `n` times. -/
def splitUpTo (p : List α) : ℕ → List α → List (List α)
  | 0, t => [t]
  | n + 1, t =>
    match splitOnce p t with
    | none => [t]
    | some (a, b) => a :: splitUpTo p n b

/-- Cut at every occurrence of a pattern: there are not more of them than elements. -/
def split (p t : List α) : List (List α) := splitUpTo p t.length t

theorem isInfix_of_mem_splitUpTo (n : ℕ) (h : s ∈ splitUpTo p n t) : s <:+: t := by
  induction n generalizing t with
  | zero =>
    rw [splitUpTo, mem_singleton] at h
    rw [h]
  | succ n ih =>
    rw [splitUpTo] at h
    split at h
    · rw [mem_singleton] at h
      rw [h]
    · rename_i a b hcut
      obtain ⟨rfl, -⟩ := of_splitOnce hcut
      rcases mem_cons.mp h with rfl | hs
      · exact (prefix_append _ _).isInfix
      · exact (ih hs).trans ⟨a ++ p, [], by simp⟩

theorem flatten_splitUpTo_sublist (n : ℕ) (t : List α) : (splitUpTo p n t).flatten <+ t := by
  induction n generalizing t with
  | zero => simp [splitUpTo]
  | succ n ih =>
    rw [splitUpTo]
    split
    · simp
    · rename_i a b hcut
      rw [(of_splitOnce hcut).1, flatten_cons]
      exact (Sublist.refl a).append ((ih b).trans (sublist_append_right p b))

/-- The pieces are made of the elements of the list. -/
theorem flatten_split_sublist (t : List α) : (split p t).flatten <+ t :=
  flatten_splitUpTo_sublist _ t

/-- A piece is a part of the list. -/
theorem isInfix_of_mem_split (h : s ∈ split p t) : s <:+: t := isInfix_of_mem_splitUpTo _ h

theorem not_isInfix_of_mem_splitUpTo (hp : p ≠ []) (n : ℕ) (ht : t.length ≤ n)
    (h : s ∈ splitUpTo p n t) : ¬ p <:+: s := by
  induction n generalizing t with
  | zero =>
    rw [splitUpTo, mem_singleton] at h
    rw [h, length_eq_zero_iff.mp (show t.length = 0 by omega), infix_nil]
    exact hp
  | succ n ih =>
    rw [splitUpTo] at h
    split at h
    · rename_i hnone
      rw [mem_singleton] at h
      rw [h]
      exact splitOnce_eq_none.mp hnone
    · rename_i a b hcut
      rcases mem_cons.mp h with rfl | hs
      · exact not_isInfix_of_splitOnce hp hcut
      · refine ih ?_ hs
        have hpos : 0 < p.length := length_pos_of_ne_nil hp
        rw [(of_splitOnce hcut).1, length_append, length_append] at ht
        omega

/-- A piece contains no occurrence. -/
theorem not_isInfix_of_mem_split (hp : p ≠ []) (h : s ∈ split p t) : ¬ p <:+: s :=
  not_isInfix_of_mem_splitUpTo hp t.length le_rfl h

/-- A cut at an occurrence that no other one is before. -/
theorem splitOnce_eq_some (h : ∀ a' b', a ++ (p ++ b) = a' ++ (p ++ b') → a.length ≤ a'.length) :
    splitOnce p (a ++ (p ++ b)) = some (a, b) := by
  cases hcut : splitOnce p (a ++ (p ++ b)) with
  | none => exact absurd ⟨a, b, by simp⟩ (splitOnce_eq_none.mp hcut)
  | some cut =>
    obtain ⟨heq, hfirst⟩ := of_splitOnce hcut
    have hlen : a.length = cut.1.length := le_antisymm (h _ _ heq) (hfirst a b rfl)
    obtain ⟨h₁, h₂⟩ := append_inj heq hlen
    rw [h₁, append_cancel_left h₂]

/-- A list behind the cut stays behind it. -/
theorem splitOnce_append (s : List α) (h : splitOnce p t = some (a, b)) :
    splitOnce p (t ++ s) = some (a, b ++ s) := by
  obtain ⟨rfl, hfirst⟩ := of_splitOnce h
  rw [append_assoc, append_assoc]
  refine splitOnce_eq_some fun a' b' heq => ?_
  by_contra hlt
  -- an occurrence further to the front would be in the list itself
  have hpre : a' ++ p <+: a ++ (p ++ b) := by
    refine prefix_of_prefix_length_le ⟨b', (append_assoc _ _ _).trans heq.symm⟩ ⟨s, by simp⟩ ?_
    simp only [length_append]
    omega
  obtain ⟨r, hr⟩ := hpre
  exact hlt (hfirst a' r (hr.symm.trans (append_assoc _ _ _)))

theorem splitUpTo_eq_splitUpTo (hp : p ≠ []) {n m : ℕ} (hn : t.length ≤ n) (hm : t.length ≤ m) :
    splitUpTo p n t = splitUpTo p m t := by
  have hpos : 0 < p.length := length_pos_of_ne_nil hp
  induction n generalizing m t with
  | zero =>
    have hnil : t = [] := length_eq_zero_iff.mp (by omega)
    cases m with
    | zero => rfl
    | succ m => rw [splitUpTo, splitUpTo, hnil, splitOnce, if_neg hp]
  | succ n ih =>
    cases m with
    | zero =>
      have hnil : t = [] := length_eq_zero_iff.mp (by omega)
      rw [splitUpTo, splitUpTo, hnil, splitOnce, if_neg hp]
    | succ m =>
      rw [splitUpTo, splitUpTo]
      cases hcut : splitOnce p t with
      | none => rfl
      | some cut =>
        have hlen := congrArg List.length (of_splitOnce hcut).1
        rw [length_append, length_append] at hlen
        exact congrArg (cut.1 :: ·) (ih (by omega) (by omega))

theorem split_eq_singleton (h : splitOnce p t = none) : split p t = [t] := by
  unfold split
  cases t with
  | nil => rfl
  | cons x t => rw [length_cons, splitUpTo, h]

/-- The first piece is what stands before the first occurrence. -/
theorem split_eq_cons (hp : p ≠ []) (h : splitOnce p t = some (a, b)) :
    split p t = a :: split p b := by
  have hpos : 0 < p.length := length_pos_of_ne_nil hp
  have hlen : t.length = a.length + (p.length + b.length) := by
    rw [(of_splitOnce h).1, length_append, length_append]
  obtain ⟨n, hn⟩ : ∃ n, t.length = n + 1 := ⟨t.length - 1, by omega⟩
  unfold split
  rw [hn, splitUpTo, h]
  simp only
  rw [splitUpTo_eq_splitUpTo hp (show b.length ≤ n by omega) le_rfl]

end Pattern

section Words

/-- The parts between the elements with a property, without the empty ones. -/
def words (q : α → Bool) (t : List α) : List (List α) :=
  (t.splitOnP q).filter fun w => !w.isEmpty

end Words

end Pieces
