/-
# Loops that have to make progress

A loop runs its body until the body leaves it, and the body may fail.  The loop fails too
when a round does not bring a measure down: a loop on texts or on cursors that does not
advance comes back to where it was and never ends.  So a loop that returns has neither
failed nor hung, and `Ends` says which loops return.
-/
import Mathlib.Logic.Relation
import Mathlib.Order.Basic

/-- What a round of a loop does: go on with a new state, or leave the loop. -/
inductive LoopFlow (σ β : Type*) : Type _ where
  | next (s : σ)
  | leave (b : β)

namespace Descent

variable {σ β : Type*} {μ : σ → ℕ} {body : σ → Option (LoopFlow σ β)} {s : σ} {b : β}

/-- Run the body until it leaves the loop, as long as the measure comes down. -/
def loop (μ : σ → ℕ) (body : σ → Option (LoopFlow σ β)) (s : σ) : Option β :=
  match body s with
  | none => none
  | some (.leave b) => some b
  | some (.next s') => if μ s' < μ s then loop μ body s' else none
termination_by μ s

/-- The rounds of the loop end, and none of them fails or stands still. -/
inductive Ends (μ : σ → ℕ) (body : σ → Option (LoopFlow σ β)) : σ → Prop
  | leave {s : σ} {b : β} : body s = some (.leave b) → Ends μ body s
  | next {s s' : σ} : body s = some (.next s') → μ s' < μ s → Ends μ body s' → Ends μ body s

theorem loop_of_leave (h : body s = some (.leave b)) : loop μ body s = some b := by
  rw [loop, h]

theorem loop_of_next {s' : σ} (h : body s = some (.next s')) (hlt : μ s' < μ s) :
    loop μ body s = loop μ body s' := by
  rw [loop, h]
  exact if_pos hlt

/-- A loop returns exactly when its rounds end. -/
theorem isSome_loop : (loop μ body s).isSome ↔ Ends μ body s := by
  constructor
  · intro h
    fun_induction loop μ body s with
    | case1 s hbody => cases h
    | case2 s b hbody => exact .leave hbody
    | case3 s s' hbody hlt ih => exact .next hbody hlt (ih h)
    | case4 s s' hbody hlt => cases h
  · intro h
    induction h with
    | leave hbody =>
      rw [loop_of_leave hbody]
      rfl
    | next hbody hlt _ ih =>
      rw [loop_of_next hbody hlt]
      exact ih

/-- The rule for loops that always return: in states with the invariant the body does not
fail, and goes on only to smaller states with the invariant. -/
theorem isSome_of_invariant {I : σ → Prop} (hbody : ∀ s, I s → ∃ r, body s = some r ∧
      ∀ s', r = .next s' → μ s' < μ s ∧ I s')
    (h : I s) : (loop μ body s).isSome := by
  rw [isSome_loop]
  induction hn : μ s using Nat.strongRecOn generalizing s with
  | ind n ih =>
    obtain ⟨r, hr, hnext⟩ := hbody s h
    cases r with
    | leave b => exact .leave hr
    | next s' =>
      obtain ⟨hlt, h'⟩ := hnext s' rfl
      exact .next hr hlt (ih (μ s') (hn ▸ hlt) h' rfl)

/-- The rule for what a loop returns: it is left from a state with the invariant. -/
theorem of_loop {I : σ → Prop} (hstep : ∀ s s', I s → body s = some (.next s') → I s') (h : I s)
    (hb : loop μ body s = some b) : ∃ s, I s ∧ body s = some (.leave b) := by
  fun_induction loop μ body s with
  | case1 s hbody => cases hb
  | case2 s b' hbody =>
    cases hb
    exact ⟨s, h, hbody⟩
  | case3 s s' hbody hlt ih => exact ih (hstep s s' h hbody) hb
  | case4 s s' hbody hlt => cases hb

/-- A loop whose rounds go along a relation returns a state that the relation leads to, and at
which the loop is left. -/
theorem loop_eq_some_iff {body : σ → Option (LoopFlow σ σ)} {R : σ → σ → Prop} {Done : σ → Prop}
    (hnext : ∀ s s', body s = some (.next s') ∧ μ s' < μ s ↔ R s s')
    (hleave : ∀ s u, body s = some (.leave u) ↔ Done s ∧ u = s) {u : σ} :
    loop μ body s = some u ↔ Relation.ReflTransGen R s u ∧ Done u := by
  constructor
  · intro h
    fun_induction loop μ body s with
    | case1 s hbody => cases h
    | case2 s b hbody =>
      cases h
      obtain ⟨hdone, rfl⟩ := (hleave s u).mp hbody
      exact ⟨.refl, hdone⟩
    | case3 s s' hbody hlt ih =>
      obtain ⟨hreach, hdone⟩ := ih h
      exact ⟨.head ((hnext s s').mp ⟨hbody, hlt⟩) hreach, hdone⟩
    | case4 s s' hbody hlt => cases h
  · rintro ⟨hreach, hdone⟩
    induction hreach using Relation.ReflTransGen.head_induction_on with
    | refl => exact loop_of_leave ((hleave u u).mpr ⟨hdone, rfl⟩)
    | head hstep _ ih =>
      obtain ⟨hbody, hlt⟩ := (hnext _ _).mpr hstep
      rw [loop_of_next hbody hlt]
      exact ih

end Descent
