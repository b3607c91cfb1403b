/-
# Runs of a transition function

A system is a partial transition function `step : σ → α → Option σ`: in a state an
action is either refused (`none`) or leads to the next state.  A run is the list of
the actions taken, each with the state it was taken in, newest first.

Everything a development needs about runs is here: invariants of states, invariants
that look back at the trace, the split of a run at one of its actions, what has not
happened since some state of a run, and the replay of a list of actions by evaluation.
-/
import Mathlib.Data.List.Basic
import Mathlib.Data.Option.Basic

namespace Transition

variable {σ α : Type*} {step : σ → α → Option σ}

/-- From `s₀` the actions recorded in the trace lead to the last state.  The trace
lists, newest first, every action with the state in which it was taken. -/
inductive Run (step : σ → α → Option σ) (s₀ : σ) : List (σ × α) → σ → Prop
  | nil : Run step s₀ [] s₀
  | snoc {tr : List (σ × α)} {s s' : σ} {a : α} :
      Run step s₀ tr s → step s a = some s' → Run step s₀ ((s, a) :: tr) s'

/-- Every action of the trace was taken in a state that allows it by `G`. -/
def Within (G : σ → α → Prop) (tr : List (σ × α)) : Prop :=
  ∀ e ∈ tr, G e.1 e.2

instance {G : σ → α → Prop} [∀ s a, Decidable (G s a)] (tr : List (σ × α)) :
    Decidable (Within G tr) :=
  inferInstanceAs (Decidable (∀ e ∈ tr, G e.1 e.2))

@[simp] theorem within_nil (G : σ → α → Prop) : Within G [] := by
  intro e he
  simp at he

variable {tr : List (σ × α)}

@[simp] theorem within_cons {G : σ → α → Prop} {e : σ × α} :
    Within G (e :: tr) ↔ G e.1 e.2 ∧ Within G tr := by
  simp [Within]

theorem Within.mono {G H : σ → α → Prop} (h : Within G tr)
    (hGH : ∀ s a, G s a → H s a) : Within H tr :=
  fun e he => hGH e.1 e.2 (h e he)

theorem within_append {G : σ → α → Prop} {post pre : List (σ × α)} :
    Within G (post ++ pre) ↔ Within G post ∧ Within G pre := by
  simp [Within, or_imp, forall_and]

namespace Run

variable {s₀ s s' : σ} {a : α} {tr post pre : List (σ × α)}

/-- The induction rule for properties of the trace and of the state it leads to. -/
theorem traceInvariant {G : σ → α → Prop} {I : List (σ × α) → σ → Prop}
    (h : Run step s₀ tr s) (hG : Within G tr) (h₀ : I [] s₀)
    (hstep : ∀ tr s a s', Run step s₀ tr s → I tr s → G s a → step s a = some s' →
      I ((s, a) :: tr) s') : I tr s := by
  induction h with
  | nil => exact h₀
  | snoc hrun hs ih =>
    rw [within_cons] at hG
    exact hstep _ _ _ _ hrun (ih hG.2) hG.1 hs

/-- The induction rule for properties of states. -/
theorem invariant {G : σ → α → Prop} {I : σ → Prop} (h : Run step s₀ tr s)
    (hG : Within G tr) (h₀ : I s₀)
    (hstep : ∀ s a s', I s → G s a → step s a = some s' → I s') : I s :=
  h.traceInvariant (I := fun _ s => I s) hG h₀ (fun _ s a s' _ hI hGa hs => hstep s a s' hI hGa hs)

/-- An invariant of every step, whatever the action. -/
theorem invariant' {I : σ → Prop} (h : Run step s₀ tr s) (h₀ : I s₀)
    (hstep : ∀ s a s', I s → step s a = some s' → I s') : I s :=
  h.invariant (G := fun _ _ => True) (fun _ _ => trivial) h₀
    (fun s a s' hI _ hs => hstep s a s' hI hs)

/-- Two runs one after the other are a run. -/
theorem append (h : Run step s₀ pre s) (h' : Run step s post s') :
    Run step s₀ (post ++ pre) s' := by
  induction h' with
  | nil => exact h
  | snoc _ hs ih => exact ih.snoc hs

/-- A run split at one of its actions: the run up to the action, the action, and the
run after it. -/
theorem split (h : Run step s₀ (post ++ (s, a) :: pre) s') :
    Run step s₀ pre s ∧ ∃ t, step s a = some t ∧ Run step t post s' := by
  induction post generalizing s' with
  | nil =>
    cases h with
    | snoc hrun hs => exact ⟨hrun, _, hs, .nil⟩
  | cons e post ih =>
    cases h with
    | snoc hrun hs =>
      obtain ⟨hpre, t, hst, hpost⟩ := ih hrun
      exact ⟨hpre, t, hst, hpost.snoc hs⟩

/-- The last state of the earlier part of a run. -/
theorem splitAt (h : Run step s₀ (post ++ pre) s') :
    ∃ t, Run step s₀ pre t ∧ Run step t post s' := by
  induction post generalizing s' with
  | nil => exact ⟨s', h, .nil⟩
  | cons e post ih =>
    cases h with
    | snoc hrun hs =>
      obtain ⟨t, hpre, hpost⟩ := ih hrun
      exact ⟨t, hpre, hpost.snoc hs⟩

/-- The run up to one of its actions. -/
theorem upTo (h : Run step s₀ tr s') {e : σ × α} (he : e ∈ tr) :
    ∃ post pre, tr = post ++ e :: pre ∧ Run step s₀ pre e.1 := by
  obtain ⟨post, pre, rfl⟩ := List.append_of_mem he
  exact ⟨post, pre, rfl, (split (s := e.1) (a := e.2) h).1⟩

/-- An action of a run leads to the last state, or to one in which a later action is taken. -/
theorem next_of_mem (h : Run step s₀ tr s') {e : σ × α} (he : e ∈ tr) :
    ∃ t, step e.1 e.2 = some t ∧ (t = s' ∨ ∃ e' ∈ tr, e'.1 = t) := by
  induction h with
  | nil => cases he
  | @snoc tr s s' a hrun hs ih =>
    rcases List.mem_cons.mp he with rfl | he
    · exact ⟨s', hs, Or.inl rfl⟩
    · obtain ⟨t, ht, heq | ⟨e', he', heq⟩⟩ := ih he
      · exact ⟨t, ht, Or.inr ⟨(s, a), List.mem_cons_self, heq.symm⟩⟩
      · exact ⟨t, ht, Or.inr ⟨e', List.mem_cons_of_mem _ he', heq⟩⟩

/-- The trace determines the state it leads to. -/
theorem unique (h : Run step s₀ tr s) (h' : Run step s₀ tr s') : s = s' := by
  cases h with
  | nil =>
    cases h'
    rfl
  | snoc hrun hs =>
    cases h' with
    | snoc hrun' hs' =>
      rw [hs] at hs'
      exact Option.some.inj hs'

section Clock

variable {clock : σ → ℕ}

/-- A clock that no action turns back is not turned back by a run. -/
theorem clock_le (hclock : ∀ s a s', step s a = some s' → clock s ≤ clock s')
    (h : Run step s₀ tr s) : clock s₀ ≤ clock s := by
  induction h with
  | nil => exact Nat.le_refl _
  | snoc hrun hs ih => exact Nat.le_trans ih (hclock _ _ _ hs)

/-- No action of a run is taken later than its end. -/
theorem clock_le_of_mem (hclock : ∀ s a s', step s a = some s' → clock s ≤ clock s')
    (h : Run step s₀ tr s) {e : σ × α} (he : e ∈ tr) : clock e.1 ≤ clock s := by
  obtain ⟨post, pre, rfl⟩ := List.append_of_mem he
  obtain ⟨-, t, ht, hpost⟩ := split (s := e.1) (a := e.2) h
  exact Nat.le_trans (hclock _ _ _ ht) (hpost.clock_le hclock)

end Clock

end Run

/-! ## Since -/

/-- Some state of the run has `P`, and since then no action has been one of `B`. -/
def Since (step : σ → α → Option σ) (s₀ : σ) (P : σ → Prop) (B : σ → α → Prop)
    (tr : List (σ × α)) : Prop :=
  ∃ post pre t, tr = post ++ pre ∧ Run step s₀ pre t ∧ P t ∧ Within (fun s a => ¬ B s a) post

namespace Since

variable {s₀ s : σ} {a : α} {P Q : σ → Prop} {B : σ → α → Prop} {tr : List (σ × α)}

/-- Nothing has happened since now. -/
theorem now (h : Run step s₀ tr s) (hP : P s) : Since step s₀ P B tr :=
  ⟨[], tr, s, rfl, h, hP, within_nil _⟩

theorem snoc (h : Since step s₀ P B tr) (hB : ¬ B s a) : Since step s₀ P B ((s, a) :: tr) := by
  obtain ⟨post, pre, t, rfl, hpre, hP, hpost⟩ := h
  exact ⟨(s, a) :: post, pre, t, rfl, hpre, hP, within_cons.mpr ⟨hB, hpost⟩⟩

theorem mono (h : Since step s₀ P B tr) (hPQ : ∀ t, P t → Q t) : Since step s₀ Q B tr := by
  obtain ⟨post, pre, t, htr, hpre, hP, hpost⟩ := h
  exact ⟨post, pre, t, htr, hpre, hPQ t hP, hpost⟩

variable {clock : σ → ℕ} (hclock : ∀ s a s', step s a = some s' → clock s ≤ clock s')

include hclock

/-- The state was not later than the end of the run. -/
theorem exists_clock_le (h : Since step s₀ P B tr) (hrun : Run step s₀ tr s) :
    ∃ t, P t ∧ clock t ≤ clock s := by
  obtain ⟨post, pre, t, rfl, hpre, hP, -⟩ := h
  obtain ⟨t', hpre', hpost⟩ := hrun.splitAt
  rw [hpre.unique hpre'] at hP
  exact ⟨t', hP, hpost.clock_le hclock⟩

/-- The state was not earlier than any action that is one of `B`. -/
theorem exists_le_clock (h : Since step s₀ P B tr) {e : σ × α} (he : e ∈ tr)
    (hB : B e.1 e.2) : ∃ t, P t ∧ clock e.1 ≤ clock t := by
  obtain ⟨post, pre, t, rfl, hpre, hP, hpost⟩ := h
  rcases List.mem_append.mp he with he | he
  · exact absurd hB (hpost e he)
  · exact ⟨t, hP, hpre.clock_le_of_mem hclock he⟩

end Since

/-! ## Replay -/

/-- Replay a list of actions, oldest first, with the trace so far. -/
def replayFrom (step : σ → α → Option σ) :
    List (σ × α) → σ → List α → Option (List (σ × α) × σ)
  | tr, s, [] => some (tr, s)
  | tr, s, a :: as =>
    match step s a with
    | some s' => replayFrom step ((s, a) :: tr) s' as
    | none => none

/-- Replay a list of actions, oldest first. -/
def replay (step : σ → α → Option σ) (s : σ) (as : List α) : Option (List (σ × α) × σ) :=
  replayFrom step [] s as

theorem replayFrom_run {s₀ s : σ} (h : Run step s₀ tr s) (as : List α)
    {r : List (σ × α) × σ} (hr : replayFrom step tr s as = some r) :
    Run step s₀ r.1 r.2 := by
  induction as generalizing tr s with
  | nil =>
    simp only [replayFrom, Option.some.injEq] at hr
    subst hr
    exact h
  | cons a as ih =>
    simp only [replayFrom] at hr
    split at hr
    · rename_i s' hs
      exact ih (h.snoc hs) hr
    · cases hr

/-- A replay that goes through is a run. -/
theorem run_of_replay {s : σ} {as : List α} {r : List (σ × α) × σ}
    (h : replay step s as = some r) : Run step s r.1 r.2 :=
  replayFrom_run .nil as h

/-- A replay whose result has a property gives a run that has it. -/
theorem exists_run (step : σ → α → Option σ) (s : σ) (as : List α)
    (P : List (σ × α) → σ → Prop) [∀ tr s', Decidable (P tr s')]
    (h : (replay step s as).any (fun r => decide (P r.1 r.2)) = true) :
    ∃ tr s', Run step s tr s' ∧ P tr s' := by
  cases hr : replay step s as with
  | none => simp [hr] at h
  | some r =>
    rw [hr, Option.any_some] at h
    exact ⟨r.1, r.2, run_of_replay hr, of_decide_eq_true h⟩

end Transition
