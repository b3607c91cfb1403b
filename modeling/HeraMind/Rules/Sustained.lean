/-
# Sustained conditions

A rule with `for_duration` fires when its condition has held for that long, which the
engine measures from `condition_since`.  The measurement is broken when an update finds the
condition false, and when the rule is disabled, removed or given another condition; but
only an evaluation clears `condition_since`.  The theorem says what else the engine
relies on: a break finds nothing to clear, or the evaluation that made it clears it before
anybody reads it.
-/
import HeraMind.Rules.Control

namespace HeraMind.Rules

open Option hiding any_eq_true
open List
open Transition

variable {F : Type}

/-! ## Breaks -/

/-- The condition that a rule is evaluated by: none if the rule is disabled. -/
def World.live (w : World F) (id : RuleId) : Option (RuleCondition F) :=
  (w.rules.lookup id).bind fun rule => if rule.enabled then rule.condition else none

/-- The `condition_since` of a rule. -/
def World.conditionSince (w : World F) (id : RuleId) : Option Instant :=
  (w.rules.lookup id).bind fun rule => rule.state.conditionSince

/-- An update decides about rule `id`: it drops it because of its cooldown, or evaluates
its condition. -/
def Pc.decides (w : World F) (id : RuleId) : Pc F → Bool
  | .firing (.evaluateAndFire _) i (.cooldown rule) => i = id && w.isInCooldown id rule
  | .firing (.evaluateAndFire _) i (.condition _) => i = id
  | _ => false

/-- The update evaluates the condition of its clone of rule `id` to false. -/
def Pc.finds [F64 F] (env : Env F) (w : World F) (id : RuleId) : Pc F → Bool
  | .firing (.evaluateAndFire _) i (.condition rule) =>
    i = id && rule.condition.any fun cond => !cond.evaluate env.regexIsMatch w.values
  | _ => false

/-- The update has found the condition of rule `id` false, and is about to clear
`condition_since`. -/
def Pc.clears (id : RuleId) : Pc F → Bool
  | .firing (.evaluateAndFire _) i (.since _ false) => i = id
  | _ => false

/-- The update has read `condition_since` of rule `id`, and has not claimed the cooldown
yet. -/
def Pc.timed (id : RuleId) : Pc F → Bool
  | .firing (.evaluateAndFire _) i (.sinceSave _ true _ _)
  | .firing (.evaluateAndFire _) i (.elapsed _ _) => i = id
  | .firing (.evaluateAndFire _) i (.claim rule) => i = id && rule.forDuration.isSome
  | _ => false

/-- Some update is about to clear `condition_since` of rule `id`. -/
def Server.Clearing (id : RuleId) (s : Server F) : Prop :=
  ∃ task ∈ s.tasks, task.pc.clears id = true

instance (id : RuleId) (s : Server F) : Decidable (s.Clearing id) :=
  inferInstanceAs (Decidable (∃ task ∈ s.tasks, task.pc.clears id = true))

/-- `evaluate_and_fire` fires rule `id`, whose clone has the duration `d`. -/
def firesAfter (id : RuleId) (d : Duration) (s : Server F) : Label F → Bool
  | .run n _ => s.tasks[n]?.any fun task => match task.pc with
    | .firing (.evaluateAndFire _) i (.claim rule) =>
      i = id && rule.forDuration = some d && (s.world.tryClaimCooldown id rule.cooldown).isSome
    | _ => false
  | _ => false

variable [F64 F]

/-- A moment that breaks the timing of rule `id`: the rule has no condition it is
evaluated by, this condition changes, or it is false when an update decides about the
rule. -/
inductive Breaks (env : Env F) (id : RuleId) (s : Server F) : Label F → Prop
  | off {a : Label F} : s.world.live id = none → Breaks env id s a
  | changed {a : Label F} {s' : Server F} :
      step env s a = some s' → s'.world.live id ≠ s.world.live id → Breaks env id s a
  | unmet {n : ℕ} {choice : Choice} {task : Task F} {cond : RuleCondition F} :
      s.tasks[n]? = some task → task.pc.decides s.world id = true →
      s.world.live id = some cond →
      cond.evaluate env.regexIsMatch s.world.values = false →
      Breaks env id s (.run n choice)

/-- Rule `id` has not been broken since a moment at which the clock satisfied `P`. -/
abbrev Unbroken (env : Env F) (id : RuleId) (w : World F) (P : Instant → Prop)
    (tr : List (Server F × Label F)) : Prop :=
  Since (step env) (Server.idle w) (fun s => P s.world.now) (Breaks env id) tr

/-- The step does not carry `condition_since` of rule `id` over a break. -/
structure KeepsTiming (env : Env F) (id : RuleId) (s : Server F) (a : Label F) : Prop where
  /-- At a break there is nothing to clear, or an evaluation clears it next. -/
  cleared : Breaks env id s a → s.world.conditionSince id = none ∨ s.Clearing id ∨
    ∃ n choice task, a = .run n choice ∧ s.tasks[n]? = some task ∧
      task.pc.finds env s.world id = true
  /-- No update is on its way from `condition_since` to its claim at a break. -/
  apart : Breaks env id s a → ∀ task ∈ s.tasks, task.pc.timed id = false
  /-- No update takes up a `condition_since` that another one is about to clear. -/
  waits : ∀ n choice task rest rule, a = .run n choice → s.tasks[n]? = some task →
    task.pc = .firing (.evaluateAndFire rest) id (.since rule true) →
    s.world.conditionSince id = none ∨ ¬ s.Clearing id
  /-- A rule is edited with the current `condition_since`, or without one. -/
  inserted : ∀ n choice task rule origin, a = .run n choice → s.tasks[n]? = some task →
    task.pc = .insert rule origin → rule.id = id → rule.state.conditionSince = none ∨
      rule.state.conditionSince = s.world.conditionSince id

variable {env : Env F} {id : RuleId}

/-! ## The clock -/

theorem now_le_of_step (s : Server F) (a : Label F) (s' : Server F)
    (hs : step env s a = some s') : s.world.now ≤ s'.world.now := by
  cases a with
  | tick d =>
    cases hs
    exact Nat.le_add_right _ _
  | provide values | register devices | call c =>
    cases hs
    exact Nat.le_refl _
  | run n choice =>
    obtain ⟨task, pc, w, hn, hadv, rfl⟩ := step_run hs
    exact Nat.le_of_eq (environment_of_effect (effect_of_advance hadv)).1.symm

/-! ## `condition_since` -/

section Section

variable {n : ℕ} {choice : Choice} {w w' : World F} {pc pc' : Pc F}

omit [F64 F] in
theorem conditionSince_insertRule (rule : CompiledRule F) :
    (w.insertRule rule).conditionSince id =
      if id = rule.id then rule.state.conditionSince else w.conditionSince id := by
  show ((w.rules.put rule).lookup id).bind _ = _
  rw [KeyedMap.lookup_put]
  split <;> rfl

/-- A `condition_since` after a section was there before, or is the present, or comes with
an inserted rule. -/
theorem conditionSince_of_advance {t : Instant}
    (hadv : pc.advance env n choice w = some (pc', w')) (hsince : w'.conditionSince id = some t) :
    w.conditionSince id = some t ∨ t = w.now ∨
      ∃ rule origin, pc = .insert rule origin ∧ rule.id = id ∧
        rule.state.conditionSince = some t := by
  cases effect_of_advance hadv with
  | @insert rule origin hlock =>
    rw [conditionSince_insertRule] at hsince
    split at hsince
    · rename_i hid
      exact Or.inr (Or.inr ⟨rule, origin, rfl, hid.symm, hsince⟩)
    · exact Or.inl hsince
  | @remove i viaHandler hlock =>
    refine Or.inl ?_
    by_cases hi : id = i
    · subst hi
      simp [World.conditionSince, World.removeRule] at hsince
    · simpa [World.conditionSince, World.removeRule, KeyedMap.lookup_erase_ne _ hi] using hsince
  | @setEnabled i enabled cur hlock hcur =>
    rw [conditionSince_insertRule] at hsince
    split at hsince
    · rename_i hi
      have hcurid : cur.id = i := KeyedMap.key_of_lookup hcur
      refine Or.inl ?_
      rw [World.conditionSince, show id = i from hi.trans hcurid, hcur]
      exact hsince
    · exact Or.inl hsince
  | @sinceStart caller i rule cur hlock hcur hnone =>
    rw [conditionSince_insertRule] at hsince
    split at hsince
    · exact Or.inr (Or.inl (some.inj hsince).symm)
    · exact Or.inl hsince
  | @sinceReset caller i rule cur hlock hcur hsome | @trigger caller i rule cur p hlock hcur =>
    rw [conditionSince_insertRule] at hsince
    split at hsince
    · cases hsince
    · exact Or.inl hsince
  | claim hclaim =>
    obtain ⟨rfl, -⟩ := tryClaimCooldown_eq_some.mp hclaim
    exact Or.inl hsince
  | _ => exact Or.inl hsince

/-- The section that clears `condition_since` leaves none. -/
theorem conditionSince_of_clears (hclears : pc.clears id = true)
    (hadv : pc.advance env n choice w = some (pc', w')) : w'.conditionSince id = none := by
  unfold Pc.clears at hclears
  split at hclears
  · rename_i rest i rule
    obtain rfl : i = id := of_decide_eq_true hclears
    simp only [Pc.advance, Stage.advance, World.updateConditionSince] at hadv
    cases hcur : w.rules.lookup i with
    | none =>
      simp only [hcur, lockRules_eq_some] at hadv
      cases hadv.2
      simp [World.conditionSince, hcur]
    | some cur =>
      cases hold : cur.state.conditionSince with
      | none =>
        simp only [hcur, hold, lockRules_eq_some] at hadv
        cases hadv.2
        simp [World.conditionSince, hcur, hold]
      | some t =>
        simp only [hcur, hold, lockRules_eq_some] at hadv
        cases hadv.2
        rw [conditionSince_insertRule]
        exact if_pos (KeyedMap.key_of_lookup hcur).symm
  · cases hclears

/-- An evaluation that finds its condition false clears `condition_since` next. -/
theorem clears_of_finds (hfinds : pc.finds env w id = true)
    (hadv : pc.advance env n choice w = some (pc', w')) : pc'.clears id = true := by
  unfold Pc.finds at hfinds
  split at hfinds
  · rename_i rest i rule
    simp only [Bool.and_eq_true, decide_eq_true_eq, Option.any_eq_true, Bool.not_eq_true'] at hfinds
    obtain ⟨rfl, cond, hcond, hfalse⟩ := hfinds
    simp only [Pc.advance, Stage.advance, hcond, hfalse] at hadv
    cases hadv
    simp [Pc.clears]
  · cases hfinds

end Section

/-! ## Updates with a `condition_since` in hand -/

/-- What an update knows at its section: the `condition_since` that it has read satisfies
`P`, and at the claim the duration is over. -/
def Pc.Sustained (id : RuleId) (now : Instant) (P : Instant → Prop) : Pc F → Prop
  | .firing (.evaluateAndFire _) i (.sinceSave _ true (some t) _)
  | .firing (.evaluateAndFire _) i (.elapsed _ t) => i = id → P t
  | .firing (.evaluateAndFire _) i (.claim rule) =>
    i = id → ∀ d, rule.forDuration = some d → ∃ t, t + d ≤ now ∧ P t
  | _ => True

section Sustained

variable {now now' : Instant} {P Q : Instant → Prop} {pc : Pc F}

omit [F64 F] in
theorem Pc.Sustained.mono (h : pc.Sustained id now P) (hnow : now ≤ now')
    (hPQ : pc.timed id = true → ∀ t, P t → Q t) : pc.Sustained id now' Q := by
  unfold Pc.Sustained at h
  split at h
  · intro hi
    exact hPQ (decide_eq_true hi) _ (h hi)
  · intro hi
    exact hPQ (decide_eq_true hi) _ (h hi)
  · intro hi d hd
    obtain ⟨t, hle, ht⟩ := h hi d hd
    exact ⟨t, Nat.le_trans hle hnow, hPQ (by simp [Pc.timed, hi, hd]) t ht⟩
  · rename_i hsave helapsed hclaim
    unfold Pc.Sustained
    split
    · exact absurd rfl (hsave _ _ _ _ _)
    · exact absurd rfl (helapsed _ _ _ _)
    · exact absurd rfl (hclaim _ _ _)
    · trivial

variable {choice : Choice} {w w' : World F} {caller : Caller} {i : RuleId}
  {stage stage' : Stage F}

/-- A firing that goes on keeps what it knows, and learns it from `condition_since`. -/
theorem sustained_of_goes (h : (Pc.firing caller i stage).Sustained id w.now P)
    (hgoes : Goes env choice w caller i stage stage') (hle : ∀ t, P t → t ≤ w.now)
    (hPQ : (Pc.firing caller i stage).timed id = true → ∀ t, P t → Q t) (hnow : Q w.now)
    (hread : ∀ rest rule t, caller = .evaluateAndFire rest → stage = .since rule true →
      w.conditionSince i = some t → i = id → Q t) :
    (Pc.firing caller i stage').Sustained id w.now Q := by
  cases caller with
  | executeRule start => cases hgoes <;> trivial
  | evaluateAndFire rest =>
    cases hgoes with
    | immediate hmet hsustains =>
      -- without a duration there is nothing to wait for
      intro _ d hd
      rw [sustains, hd] at hsustains
      cases hsustains
    | @sinceChanged rule conditionMet sinceTime snapshot w₁ hupdate =>
      cases conditionMet with
      | false => trivial
      | true =>
        cases sinceTime with
        | none => trivial
        | some t =>
          intro hi
          simp only [World.updateConditionSince] at hupdate
          repeat' split at hupdate
          all_goals cases hupdate
          exact hnow
    | @sinceKept rule t w₁ hupdate =>
      intro hi
      refine hread rest rule t rfl rfl ?_ hi
      simp only [World.updateConditionSince] at hupdate
      split at hupdate
      · cases hupdate
      · rename_i cur hcur
        split at hupdate
        all_goals cases hupdate
        rename_i hold
        rw [World.conditionSince, hcur]
        exact hold
    | sinceSaved =>
      intro hi
      exact hPQ (decide_eq_true hi) _ (h hi)
    | @elapsed rule t hover =>
      -- the duration is measured from the `condition_since` that was read
      intro hi d hd
      have ht : P t := h hi
      refine ⟨t, ?_, hPQ (decide_eq_true hi) t ht⟩
      have hd' := hover d hd
      have htle := hle t ht
      dsimp only [Instant, Duration] at *
      omega
    | _ => trivial

end Sustained

/-! ## The timing over a run -/

/-- What `condition_since` says, in the server and in the hands of the updates. -/
structure Timing (env : Env F) (id : RuleId) (w : World F) (tr : List (Server F × Label F))
    (s : Server F) : Prop where
  since : ∀ t, s.world.conditionSince id = some t →
    s.Clearing id ∨ Unbroken env id w (· = t) tr
  updates : ∀ task ∈ s.tasks, task.pc.Sustained id s.world.now fun t => Unbroken env id w (· = t) tr

section Step

variable {w : World F} {tr : List (Server F × Label F)} {s s' : Server F} {a : Label F}

omit [F64 F] in
theorem clearing_of_set {n : ℕ} {task : Task F} {pc : Pc F} (hn : s.tasks[n]? = some task)
    (h : s.Clearing id) (w : World F) :
    task.pc.clears id = true ∨
      Server.Clearing id { world := w, tasks := s.tasks.set n { task with pc := pc } } := by
  obtain ⟨t, ht, hclears⟩ := h
  obtain ⟨m, hm⟩ := mem_iff_getElem?.mp ht
  by_cases hmn : m = n
  · subst hmn
    rw [hn, some.injEq] at hm
    subst hm
    exact Or.inl hclears
  · refine Or.inr ⟨t, ?_, hclears⟩
    exact mem_of_getElem? ((getElem?_setTask hn).mpr (Or.inr ⟨hmn, hm⟩))

/-- Where a `condition_since` after a step comes from. -/
theorem conditionSince_of_step {t : Instant} (hG : KeepsTiming env id s a)
    (hs : step env s a = some s') (hsince : s'.world.conditionSince id = some t) :
    s.world.conditionSince id = some t ∨ t = s'.world.now := by
  cases a with
  | tick d | provide values | register devices | call c =>
    cases hs
    exact Or.inl hsince
  | run n choice =>
    obtain ⟨task, pc, w', hn, hadv, rfl⟩ := step_run hs
    rcases conditionSince_of_advance hadv hsince with hold | hnow | ⟨rule, origin, hpc, hid, hnew⟩
    · exact Or.inl hold
    · exact Or.inr (hnow.trans (environment_of_effect (effect_of_advance hadv)).1.symm)
    · rcases hG.inserted n choice task rule origin rfl hn hpc hid with hnone | hkept
      · rw [hnone] at hnew
        cases hnew
      · rw [hkept] at hnew
        exact Or.inl hnew

/-- A `condition_since` that is about to be cleared is cleared, or still about to be. -/
theorem clearing_of_step {t : Instant} (h : s.Clearing id) (hs : step env s a = some s')
    (hsince : s'.world.conditionSince id = some t) : s'.Clearing id := by
  cases a with
  | tick d | provide values | register devices =>
    cases hs
    exact h
  | call c =>
    cases hs
    obtain ⟨task, htask, hclears⟩ := h
    exact ⟨task, mem_append_left _ htask, hclears⟩
  | run n choice =>
    obtain ⟨task, pc, w', hn, hadv, rfl⟩ := step_run hs
    rcases clearing_of_set hn h w' with hclears | hclearing
    · rw [conditionSince_of_clears hclears hadv] at hsince
      cases hsince
    · exact hclearing

/-- A `condition_since` does not outlive a break. -/
theorem Timing.since_step (h : Timing env id w tr s)
    (hrun : Run (step env) (Server.idle w) ((s, a) :: tr) s') (hG : KeepsTiming env id s a)
    (hs : step env s a = some s') {t : Instant} (hsince : s'.world.conditionSince id = some t) :
    s'.Clearing id ∨ Unbroken env id w (· = t) ((s, a) :: tr) := by
  rcases conditionSince_of_step hG hs hsince with hold | hnow
  · by_cases hclearing : s.Clearing id
    · exact Or.inl (clearing_of_step hclearing hs hsince)
    have hunbroken := (h.since t hold).resolve_left hclearing
    by_cases hbreak : Breaks env id s a
    · rcases hG.cleared hbreak with hnone | hclears | ⟨n, choice, task, rfl, hn, hfinds⟩
      · rw [hnone] at hold
        cases hold
      · exact absurd hclears hclearing
      · -- the update that found the condition false clears it next
        obtain ⟨task', pc, w', hn', hadv, rfl⟩ := step_run hs
        rw [hn, some.injEq] at hn'
        subst hn'
        refine Or.inl ⟨{ task with pc := pc }, ?_, clears_of_finds hfinds hadv⟩
        exact mem_of_getElem? ((getElem?_setTask hn).mpr (Or.inl ⟨rfl, rfl⟩))
    · exact Or.inr (hunbroken.snoc hbreak)
  · exact Or.inr (Since.now hrun hnow.symm)

theorem Timing.step (h : Timing env id w tr s) (hrun : Run (step env) (Server.idle w) tr s)
    (hG : KeepsTiming env id s a) (hs : step env s a = some s') :
    Timing env id w ((s, a) :: tr) s' := by
  have hrun' := hrun.snoc hs
  have hnow := now_le_of_step s a s' hs
  -- the updates with a `condition_since` in hand see no break
  have hextend : ∀ task ∈ s.tasks, task.pc.timed id = true → ∀ t,
      Unbroken env id w (· = t) tr → Unbroken env id w (· = t) ((s, a) :: tr) := by
    intro task htask htimed t hunbroken
    refine hunbroken.snoc fun hbreak => ?_
    rw [hG.apart hbreak task htask] at htimed
    cases htimed
  have hothers : ∀ task ∈ s.tasks, task.pc.Sustained id s'.world.now
      fun t => Unbroken env id w (· = t) ((s, a) :: tr) := fun task htask =>
    (h.updates task htask).mono hnow (hextend task htask)
  refine ⟨fun t hsince => h.since_step hrun' hG hs hsince, ?_⟩
  cases a with
  | tick d | provide values | register devices =>
    cases hs
    exact hothers
  | call c =>
    cases hs
    refine forall_mem_append.mpr ⟨hothers, forall_mem_singleton.mpr ?_⟩
    cases c <;> trivial
  | run n choice =>
    obtain ⟨task, pc, w', hn, hadv, rfl⟩ := step_run hs
    have hmem := mem_of_getElem? hn
    refine Calls.forall_mem_set hothers ?_
    have hnow' : w'.now = s.world.now :=
      (environment_of_effect (effect_of_advance hadv)).1
    show pc.Sustained id w'.now _
    rw [hnow']
    cases pc with
    | firing caller i stage' =>
      rcases firing_of_advance hadv with ⟨stage, hpc, hgoes⟩ | rfl
      · have hknown := h.updates task hmem
        have htimed := hextend task hmem
        rw [hpc] at hknown htimed
        refine sustained_of_goes hknown hgoes ?_ htimed ?_ ?_
        · intro t hunbroken
          obtain ⟨s₀, hs₀, hle⟩ := hunbroken.exists_clock_le now_le_of_step hrun
          exact hs₀ ▸ hle
        · exact Since.now hrun' hnow'
        · intro rest rule t hcaller hstage hsince hi
          subst hcaller hstage hi
          have hwaits := hG.waits n choice task rest rule rfl hn hpc
          rw [hsince] at hwaits
          have hclearing := hwaits.resolve_left (by simp)
          have hunbroken := (h.since t hsince).resolve_left hclearing
          refine hunbroken.snoc fun hbreak => ?_
          -- this section reads a `condition_since`, and it evaluates nothing
          rcases hG.cleared hbreak with hnone | hclears | ⟨m, choice', task', ha, hm, hfinds⟩
          · rw [hsince] at hnone
            cases hnone
          · exact hclearing hclears
          · cases ha
            rw [hn, some.injEq] at hm
            subst hm
            rw [hpc] at hfinds
            cases hfinds
      · cases caller <;> trivial
    | _ => trivial

end Step

/-! ## Fired after its duration -/

/-- In every run in which no step carries `condition_since` over a break:
`condition_since` is a moment since which nothing has broken the timing, unless an update
is about to clear it, and when `evaluate_and_fire` fires a rule with a duration, nothing
has broken the timing for that long. -/
theorem sustained_of_keepsTiming {w : World F} {tr : List (Server F × Label F)} {s : Server F}
    (hstart : w.conditionSince id = none) (hrun : Run (step env) (Server.idle w) tr s)
    (hG : Within (KeepsTiming env id) tr) :
    (∀ t, s.world.conditionSince id = some t →
      s.Clearing id ∨ Unbroken env id w (· = t) tr) ∧
    ∀ post s₁ a pre d, tr = post ++ (s₁, a) :: pre → firesAfter id d s₁ a = true →
      Unbroken env id w (fun t => t + d ≤ s₁.world.now) ((s₁, a) :: pre) := by
  have htiming : ∀ {tr : List (Server F × Label F)} {s : Server F},
      Run (step env) (Server.idle w) tr s → Within (KeepsTiming env id) tr →
      Timing env id w tr s := by
    intro tr s hrun hG
    refine hrun.traceInvariant hG ⟨fun t ht => ?_, fun task htask => ?_⟩
      (fun tr s a s' hrun h hGa hs => h.step hrun hGa hs)
    · have hnone : (Server.idle w).world.conditionSince id = none := hstart
      rw [hnone] at ht
      cases ht
    · cases htask
  refine ⟨(htiming hrun hG).since, ?_⟩
  rintro post s₁ a pre d rfl hfires
  obtain ⟨hpre, -⟩ := hrun.split
  rw [within_append, within_cons] at hG
  obtain ⟨-, hGa, hGpre⟩ := hG
  have hupdates := (htiming hpre hGpre).updates
  unfold firesAfter at hfires
  split at hfires
  · rename_i n choice
    obtain ⟨task, hn, hclaim⟩ := (Option.any_eq_true _ _).mp hfires
    have hmem := mem_of_getElem? hn
    split at hclaim
    · rename_i rest i rule hpc
      simp only [Bool.and_eq_true, decide_eq_true_eq] at hclaim
      obtain ⟨⟨hi, hd⟩, -⟩ := hclaim
      have hknown := hupdates task hmem
      rw [hpc] at hknown
      obtain ⟨t, hle, hunbroken⟩ := hknown hi d hd
      have hmoment := hunbroken.mono (Q := fun s₀ => s₀.world.now + d ≤ s₁.world.now)
        fun s₀ hs₀ => by rw [hs₀]; exact hle
      refine hmoment.snoc fun hbreak => ?_
      have hapart := hGa.apart hbreak task hmem
      simp [hpc, Pc.timed, hi, hd] at hapart
    · cases hclaim
  · cases hfires

/-! ## A calm run -/

omit [F64 F] in
/-- What a rule is evaluated by is no runtime state. -/
theorem live_of_stateless {w w' : World F}
    (h : (w'.rules.lookup id).map CompiledRule.stateless =
      (w.rules.lookup id).map CompiledRule.stateless) : w'.live id = w.live id := by
  have hlive : ∀ w : World F, w.live id =
      ((w.rules.lookup id).map CompiledRule.stateless).bind fun rule =>
        if rule.enabled then rule.condition else none := by
    intro w
    rw [World.live]
    cases w.rules.lookup id <;> rfl
  rw [hlive, hlive, h]

/-- The step neither edits rules nor finds the condition of rule `id` false. -/
def calm (env : Env F) (id : RuleId) (s : Server F) (a : Label F) : Bool :=
  (s.world.live id).any (fun cond => cond.evaluate env.regexIsMatch s.world.values) &&
    !decide (s.Clearing id) && match a with
      | .run n _ => s.tasks[n]?.all fun task => match task.pc with
        | .lookup _ | .firing _ _ _ => true
        | _ => false
      | _ => true

/-- A calm step breaks nothing. -/
theorem keepsTiming_of_calm {s : Server F} {a : Label F} (h : calm env id s a = true) :
    KeepsTiming env id s a := by
  simp only [calm, Bool.and_eq_true, Option.any_eq_true, Bool.not_eq_true',
    decide_eq_false_iff_not] at h
  obtain ⟨⟨⟨cond, hlive, htrue⟩, hclearing⟩, hcalm⟩ := h
  have hnobreak : ¬ Breaks env id s a := by
    rintro (hoff | ⟨hs, hchanged⟩ | ⟨hn, hdecides, hcond, hfalse⟩)
    · rw [hlive] at hoff
      cases hoff
    · apply hchanged
      cases a with
      | tick d | provide values | register devices | call c =>
        cases hs
        rfl
      | run n choice =>
        obtain ⟨task, pc, w, hn, hadv, rfl⟩ := step_run hs
        simp only [hn, all_some] at hcalm
        split at hcalm
        · rename_i source hpc
          rw [hpc] at hadv
          cases hadv
          rfl
        · rename_i caller i stage hpc
          rw [hpc] at hadv
          exact live_of_stateless (stateless_of_firing (effect_of_stage (n := n) hadv) id)
        · cases hcalm
    · rw [hlive, some.injEq] at hcond
      rw [hcond, hfalse] at htrue
      cases htrue
  refine ⟨fun hbreak => absurd hbreak hnobreak, fun hbreak => absurd hbreak hnobreak,
    fun _ _ _ _ _ _ _ _ => Or.inr hclearing, ?_⟩
  rintro n choice task rule origin rfl hn hpc -
  simp only [hn, all_some, hpc] at hcalm
  cases hcalm

namespace Sample

/-- The sample rule, which has to hold for 5. -/
def held : CompiledRule ℤ := { rule with forDuration := some 5 }

end Sample

/-- Two updates find the condition true, 10 apart. -/
theorem sustained_of_keepsTiming_held :
    ∃ tr s, Run (step Sample.env) (Server.idle (Sample.loaded Sample.held)) tr s ∧
      (∃ s₁ a pre, tr = (s₁, a) :: pre ∧ firesAfter Sample.id 5 s₁ a = true) ∧
      (∀ t, s.world.conditionSince Sample.id = some t → s.Clearing Sample.id ∨
        Unbroken Sample.env Sample.id (Sample.loaded Sample.held) (· = t) tr) ∧
      ∀ post s₁ a pre d, tr = post ++ (s₁, a) :: pre → firesAfter Sample.id d s₁ a = true →
        Unbroken Sample.env Sample.id (Sample.loaded Sample.held)
          (fun t => t + d ≤ s₁.world.now) ((s₁, a) :: pre) := by
  obtain ⟨tr, s, hrun, hcalm, hfires⟩ := exists_run (step Sample.env)
    (Server.idle (Sample.loaded Sample.held))
    ([.call (.onDataUpdate Sample.source)] ++ Sample.runs 0 7 ++ [.tick 10,
      .call (.onDataUpdate Sample.source)] ++ Sample.runs 1 7)
    (fun tr s => Within (fun s a => calm Sample.env Sample.id s a = true) tr ∧
      (tr.head?.any fun e => firesAfter Sample.id 5 e.1 e.2) = true) (by decide +kernel)
  refine ⟨tr, s, hrun, ?_, sustained_of_keepsTiming rfl hrun
    (hcalm.mono fun _ _ => keepsTiming_of_calm)⟩
  cases tr with
  | nil => cases hfires
  | cons e pre => exact ⟨e.1, e.2, pre, rfl, hfires⟩

/-- The rule is disabled, an update arrives with a false condition, and the rule is enabled
again: it fires at once, and its `condition_since` is from before. -/
theorem disabled_rule_keeps_timing :
    ∃ tr s, Run (step Sample.env) (Server.idle (Sample.loaded Sample.held)) tr s ∧
      ¬ ((∀ t, s.world.conditionSince Sample.id = some t → s.Clearing Sample.id ∨
          Unbroken Sample.env Sample.id (Sample.loaded Sample.held) (· = t) tr) ∧
        ∀ post s₁ a pre d, tr = post ++ (s₁, a) :: pre → firesAfter Sample.id d s₁ a = true →
          Unbroken Sample.env Sample.id (Sample.loaded Sample.held)
            (fun t => t + d ≤ s₁.world.now) ((s₁, a) :: pre)) := by
  obtain ⟨tr, s, hrun, hp⟩ := exists_run (step Sample.env)
    (Server.idle (Sample.loaded Sample.held))
    ([.call (.onDataUpdate Sample.source)] ++ Sample.runs 0 7 ++
      [.call (.setRuleStatusHandler Sample.id false)] ++ Sample.runs 1 3 ++
      [.tick 6, .provide (Sample.reading 20), .call (.onDataUpdate Sample.source)] ++
      Sample.runs 2 2 ++ [.tick 2, .call (.setRuleStatusHandler Sample.id true)] ++
      Sample.runs 3 3 ++ [.tick 2, .provide (Sample.reading 40),
      .call (.onDataUpdate Sample.source)] ++ Sample.runs 4 7)
    (fun tr s => (match tr with
      | [] => false
      | e :: pre => firesAfter Sample.id 5 e.1 e.2 && decide (e.1.world.now = 10) &&
        pre.any fun e' => (e'.1.world.live Sample.id).isNone && decide (e'.1.world.now = 8)) = true)
    (by decide +kernel)
  refine ⟨tr, s, hrun, ?_⟩
  rintro ⟨-, hsustained⟩
  cases tr with
  | nil => cases hp
  | cons e pre =>
    simp only [Bool.and_eq_true, decide_eq_true_eq, any_eq_true, isNone_iff_eq_none] at hp
    obtain ⟨⟨hfires, hten⟩, e', he', hoff, height⟩ := hp
    have hunbroken := hsustained [] e.1 e.2 pre 5 rfl hfires
    obtain ⟨s₀, hearly, hlate⟩ := hunbroken.exists_le_clock now_le_of_step
      (mem_cons_of_mem _ he') (.off hoff)
    rw [hten] at hearly
    rw [height] at hlate
    have hten' : s₀.world.now + 5 ≤ 10 := hearly
    dsimp only [Instant] at *
    omega

end HeraMind.Rules
