/-
# Balanced parentheses

A text is balanced when it closes every parenthesis that it opens, and none before.  The end of a
balanced text between parentheses can be found again, whatever follows; so a sequence of such texts,
each in its parentheses, with a separator between them is read in one way only.
-/
import Mathlib.Data.List.Infix
import Mathlib.Data.Int.Notation
import Mathlib.Tactic.Ring

namespace Parens

open List

variable {α : Type*} {o c : α} {t u r s p : List α}

section Depth

variable [DecidableEq α]

/-! ## Depth -/

/-- What a letter adds to the number of open parentheses. -/
def weight (o c a : α) : ℤ := if a = o then 1 else if a = c then -1 else 0

/-- How many parentheses are open after a text. -/
def depth (o c : α) : List α → ℤ
  | [] => 0
  | a :: t => weight o c a + depth o c t

theorem depth_append (o c : α) (t u : List α) : depth o c (t ++ u) = depth o c t + depth o c u := by
  induction t with
  | nil =>
    show depth o c u = 0 + depth o c u
    ring
  | cons a t ih =>
    show weight o c a + depth o c (t ++ u) = weight o c a + depth o c t + depth o c u
    rw [ih]
    ring

/-- Every prefix has as many opening parentheses as closing ones, or more, and the whole text has
as many. -/
structure Balanced (o c : α) (t : List α) : Prop where
  closed : depth o c t = 0
  nonneg : ∀ p, p <+: t → 0 ≤ depth o c p

theorem balanced_iff : Balanced o c t ↔ depth o c t = 0 ∧ ∀ p ∈ t.inits, 0 ≤ depth o c p := by
  constructor
  · exact fun h => ⟨h.closed, fun p hp => h.nonneg p ((mem_inits p t).mp hp)⟩
  · exact fun h => ⟨h.1, fun p hp => h.2 p ((mem_inits p t).mpr hp)⟩

instance : Decidable (Balanced o c t) := decidable_of_iff _ balanced_iff.symm

/-- A closing parenthesis is not part of a balanced text. -/
theorem Balanced.not_append_prefix (hoc : o ≠ c) (ht : Balanced o c t) (hu : Balanced o c u) :
    ¬ t ++ [c] <+: u := by
  intro h
  have hnonneg := hu.nonneg _ h
  rw [depth_append, ht.closed] at hnonneg
  have hclose : depth o c [c] = -1 := by
    show weight o c c + 0 = -1
    unfold weight
    rw [if_neg hoc.symm, if_pos rfl]
    ring
  omega

/-- The end of a balanced text is found at the parenthesis that closes it. -/
theorem Balanced.append_close_inj (hoc : o ≠ c) (ht : Balanced o c t) (hu : Balanced o c u)
    (h : t ++ c :: r = u ++ c :: s) : t = u ∧ r = s := by
  have hstart : ∀ {t u r s : List α}, Balanced o c t → Balanced o c u →
      t ++ c :: r = u ++ c :: s → ∀ d, u = t ++ d → d = [] := by
    rintro t u r s ht hu h d rfl
    cases d with
    | nil => rfl
    | cons a d =>
      rw [append_assoc, append_cancel_left_eq, cons_append] at h
      cases h
      refine absurd ?_ (ht.not_append_prefix hoc hu)
      rw [show t ++ c :: d = (t ++ [c]) ++ d from by rw [append_assoc]; rfl]
      exact prefix_append _ _
  have heq : t = u := by
    rcases append_eq_append_iff.mp h with ⟨d, hd, -⟩ | ⟨d, hd, -⟩
    · rw [hd, hstart ht hu h d hd, append_nil]
    · rw [hd, hstart hu ht h.symm d hd, append_nil]
  subst heq
  exact ⟨rfl, (cons.inj (append_cancel_left h)).2⟩

end Depth

/-! ## Texts in parentheses -/

/-- A text in parentheses. -/
def wrap (o c : α) (t : List α) : List α := o :: (t ++ [c])

/-- Texts in parentheses with a separator between them. -/
def joined (o c : α) (sep : List α) (ts : List (List α)) : List α :=
  sep.intercalate (ts.map (wrap o c))

variable {sep sep' : List α} {ts us : List (List α)}

theorem joined_singleton : joined o c sep [t] = wrap o c t := intercalate_singleton

theorem joined_cons_cons :
    joined o c sep (t :: u :: ts) = o :: (t ++ c :: (sep ++ joined o c sep (u :: ts))) := by
  unfold joined
  rw [map_cons, map_cons, intercalate_cons_cons, ← map_cons]
  unfold wrap
  rw [cons_append, cons_append, append_assoc, append_assoc]
  rfl

theorem exists_joined_cons (o c : α) (sep t : List α) (ts : List (List α)) :
    ∃ r, joined o c sep (t :: ts) = o :: r := by
  cases ts with
  | nil => exact ⟨_, joined_singleton⟩
  | cons u ts => exact ⟨_, joined_cons_cons⟩

/-- Two sequences of texts in parentheses, each with its own separator, are joined by the separator
of the first one to give the sequence of all texts. -/
theorem joined_append (ht : ts ≠ []) (hu : us ≠ []) :
    joined o c sep (ts ++ us) = joined o c sep ts ++ (sep ++ joined o c sep us) := by
  induction ts with
  | nil => exact absurd rfl ht
  | cons t ts ih =>
    cases ts with
    | nil =>
      obtain ⟨u, us, rfl⟩ := exists_cons_of_ne_nil hu
      rw [singleton_append, joined_cons_cons, joined_singleton]
      unfold wrap
      rw [cons_append, append_assoc]
      rfl
    | cons t' ts =>
      have hrest := ih (cons_ne_nil _ _)
      rw [cons_append] at hrest
      rw [cons_append, cons_append, joined_cons_cons, hrest, joined_cons_cons,
        cons_append, append_assoc, cons_append, append_assoc]

theorem append_cons_inj {x : α} (ht : x ∉ t) (hu : x ∉ u) (h : t ++ x :: r = u ++ x :: s) :
    t = u ∧ r = s := by
  have hnil : ∀ {t u r s : List α}, x ∉ u → t ++ x :: r = u ++ x :: s →
      ∀ d, u = t ++ d → d = [] := by
    rintro t u r s hu h d rfl
    cases d with
    | nil => rfl
    | cons a d =>
      rw [append_assoc, append_cancel_left_eq, cons_append] at h
      cases h
      exact absurd (mem_append_right _ mem_cons_self) hu
  have heq : t = u := by
    rcases append_eq_append_iff.mp h with ⟨d, hd, -⟩ | ⟨d, hd, -⟩
    · rw [hd, hnil hu h d hd, append_nil]
    · rw [hd, hnil ht h.symm d hd, append_nil]
  subst heq
  exact ⟨rfl, (cons.inj (append_cancel_left h)).2⟩

/-- A sequence of balanced texts in parentheses is read in one way only, and so is the separator
where there are two texts or more. -/
theorem joined_inj [DecidableEq α] (hoc : o ≠ c) (hsep : o ∉ sep) (hsep' : o ∉ sep')
    (hts : ∀ t ∈ ts, Balanced o c t) (hus : ∀ u ∈ us, Balanced o c u)
    (h : joined o c sep ts = joined o c sep' us) : ts = us ∧ (2 ≤ ts.length → sep = sep') := by
  induction ts generalizing us with
  | nil =>
    refine ⟨?_, fun h => absurd h (Nat.not_succ_le_zero 1)⟩
    cases us with
    | nil => rfl
    | cons u us =>
      obtain ⟨r, hr⟩ := exists_joined_cons o c sep' u us
      rw [hr] at h
      cases h
  | cons t ts ih =>
    cases us with
    | nil =>
      obtain ⟨r, hr⟩ := exists_joined_cons o c sep t ts
      rw [hr] at h
      cases h
    | cons u us =>
      have ht := hts t mem_cons_self
      have hu := hus u mem_cons_self
      cases ts with
      | nil =>
        refine ⟨?_, fun h => absurd h (Nat.lt_irrefl 1)⟩
        cases us with
        | nil =>
          rw [joined_singleton, joined_singleton] at h
          rw [(ht.append_close_inj hoc hu (cons.inj h).2).1]
        | cons u' us =>
          rw [joined_singleton, joined_cons_cons] at h
          have hrest := (ht.append_close_inj hoc hu (cons.inj h).2).2
          obtain ⟨r, hr⟩ := exists_joined_cons o c sep' u' us
          rw [hr] at hrest
          exact absurd hrest.symm (append_ne_nil_of_right_ne_nil _ (cons_ne_nil _ _))
      | cons t' ts =>
        cases us with
        | nil =>
          rw [joined_singleton, joined_cons_cons] at h
          have hrest := (ht.append_close_inj hoc hu (cons.inj h).2).2
          obtain ⟨r, hr⟩ := exists_joined_cons o c sep t' ts
          rw [hr] at hrest
          exact absurd hrest (append_ne_nil_of_right_ne_nil _ (cons_ne_nil _ _))
        | cons u' us =>
          rw [joined_cons_cons, joined_cons_cons] at h
          obtain ⟨rfl, hrest⟩ := ht.append_close_inj hoc hu (cons.inj h).2
          -- the separators end where the next parenthesis opens
          have hboth : sep = sep' ∧ joined o c sep (t' :: ts) = joined o c sep' (u' :: us) := by
            obtain ⟨r, hr⟩ := exists_joined_cons o c sep t' ts
            obtain ⟨r', hr'⟩ := exists_joined_cons o c sep' u' us
            rw [hr, hr'] at hrest ⊢
            obtain ⟨heq, hr⟩ := append_cons_inj hsep hsep' hrest
            exact ⟨heq, by rw [hr]⟩
          obtain ⟨heq, -⟩ := ih (fun v hv => hts v (mem_cons_of_mem _ hv))
            (fun v hv => hus v (mem_cons_of_mem _ hv)) hboth.2
          exact ⟨by rw [heq], fun _ => hboth.1⟩

end Parens
