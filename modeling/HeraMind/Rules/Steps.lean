/-
# What one step can do

`Effect` lists what a critical section can do to the shared state.  Every invariant of
the rule engine is proved from this list, without looking at the sections again.
-/
import HeraMind.Rules.Tasks

namespace HeraMind.Rules

variable {F : Type}

/-! ## Locks -/

theorem lockRules_eq_some {α : Type} {w : World F} {a b : α} :
    w.lockRules a = some b ↔ w.rulesReaders = [] ∧ a = b := by
  unfold World.lockRules
  split <;> simp [*]

/-! ## The tasks after a step -/

/-- The tasks after a section of task `n` are the tasks before it, but for task `n`. -/
theorem getElem?_setTask {tasks : List (Task F)} {n m : ℕ} {task t : Task F} {pc : Pc F}
    (hn : tasks[n]? = some task) :
    (tasks.set n { task with pc := pc })[m]? = some t ↔
      (m = n ∧ t = { task with pc := pc }) ∨ (m ≠ n ∧ tasks[m]? = some t) := by
  obtain ⟨hlt, -⟩ := List.getElem?_eq_some_iff.mp hn
  by_cases hm : m = n
  · subst hm
    rw [List.getElem?_set_self hlt, Option.some.injEq]
    simp [eq_comm]
  · rw [List.getElem?_set_ne (fun h => hm h.symm)]
    simp [hm]

/-- A call adds one task at the end. -/
theorem getElem?_addTask {tasks : List (Task F)} {m : ℕ} {t task : Task F} :
    (tasks ++ [task])[m]? = some t ↔ tasks[m]? = some t ∨ (m = tasks.length ∧ t = task) := by
  rcases Nat.lt_trichotomy m tasks.length with hlt | heq | hgt
  · rw [List.getElem?_append_left hlt]
    simp [Nat.ne_of_lt hlt]
  · subst heq
    simp [eq_comm]
  · rw [List.getElem?_eq_none (by simp; omega), List.getElem?_eq_none (by omega)]
    simp [Nat.ne_of_gt hgt]

/-! ## Effects -/

/-- The snapshot a section writes to the store. -/
def Pc.snapshot : Pc F → Option (CompiledRule F)
  | .firing _ _ (.sinceSave _ _ _ snapshot) | .firing _ _ (.triggerSave _ _ snapshot) =>
    some snapshot
  | .saving rule | .statusSave rule _ _ => some rule
  | _ => none

/-- The task owes nothing to the index, the cooldowns or the store: it is not between a
change of the rules and what has to follow it. -/
def Pc.isPlain : Pc F → Bool
  | .firing _ _ (.sinceSave _ _ _ _) | .firing _ _ (.triggerSave _ _ _) | .rebuild _
  | .rebuilding _ _ | .dropCooldown _ _ | .saving _ | .deleting _ | .statusRead _ _
  | .statusSave _ _ _ => false
  | _ => true

/-- The section inserts a rule. -/
def Pc.inserts : Pc F → Bool
  | .insert _ _ => true
  | _ => false

/-- What a critical section of task `n` can do to the shared state. -/
inductive Effect (n : ℕ) (w : World F) : Pc F → Pc F → World F → Prop
  /-- The section only reads. -/
  | quiet {pc pc' : Pc F} :
      pc.isPlain = true → pc.inserts = false → pc'.isPlain = true → Effect n w pc pc' w
  | insert {rule : CompiledRule F} {origin : Origin F} :
      w.rulesReaders = [] →
      Effect n w (.insert rule origin) (.rebuild (origin.after rule)) (w.insertRule rule)
  | remove {id : RuleId} {viaHandler : Bool} :
      w.rulesReaders = [] →
      Effect n w (.remove id viaHandler) (.rebuild (.dropCooldown id viaHandler)) (w.removeRule id)
  | setEnabled {id : RuleId} {enabled : Bool} {rule : CompiledRule F} :
      w.rulesReaders = [] → w.rules.lookup id = some rule →
      Effect n w (.setStatus id enabled) (.statusRead id enabled)
        (w.insertRule { rule with enabled := enabled, updatedAt := w.now })
  /-- The condition is met, and its timing starts. -/
  | sinceStart {caller : Caller} {id : RuleId} {rule cur : CompiledRule F} :
      w.rulesReaders = [] → w.rules.lookup id = some cur → cur.state.conditionSince = none →
      Effect n w (.firing caller id (.since rule true))
        (.firing caller id (.sinceSave rule true (some w.now)
          (cur.withConditionSince (some w.now))))
        (w.insertRule (cur.withConditionSince (some w.now)))
  /-- The condition is not met, and its timing ends. -/
  | sinceReset {caller : Caller} {id : RuleId} {rule cur : CompiledRule F} :
      w.rulesReaders = [] → w.rules.lookup id = some cur →
      cur.state.conditionSince.isSome = true →
      Effect n w (.firing caller id (.since rule false))
        (.firing caller id (.sinceSave rule false none (cur.withConditionSince none)))
        (w.insertRule (cur.withConditionSince none))
  | trigger {caller : Caller} {id : RuleId} {rule cur : CompiledRule F} {p : Progress} :
      w.rulesReaders = [] → w.rules.lookup id = some cur →
      Effect n w (.firing caller id (.trigger rule p))
        (.firing caller id (.triggerSave rule p (cur.triggered w.now)))
        (w.insertRule (cur.triggered w.now))
  | acquire {after : After F} :
      Effect n w (.rebuild after) (.rebuilding (World.subscriptionsOf w.rules) after)
        { w with rulesReaders := n :: w.rulesReaders }
  | release {idx : HashMap String (List RuleId)} {after : After F} :
      Effect n w (.rebuilding idx after) after.pc
        { w with
          subscriptionIndex := idx
          rulesReaders := w.rulesReaders.filter (· ≠ n) }
  | claim {caller : Caller} {id : RuleId} {rule : CompiledRule F} {w' : World F}
      {start : Instant} :
      w.tryClaimCooldown id rule.cooldown = some w' →
      Effect n w (.firing caller id (.claim rule))
        (.firing caller id (.actions rule ⟨start, [], none⟩ rule.actions)) w'
  /-- All actions failed: the failure is counted, and the first in a row is refunded. -/
  | countFailure {caller : Caller} {id : RuleId} {rule : CompiledRule F} {p : Progress} :
      Effect n w (.firing caller id (.settle rule p))
        (.firing caller id (if (w.countFailure id).1 then .refund rule p else .trigger rule p))
        (w.countFailure id).2
  | clearFailures {caller : Caller} {id : RuleId} {rule : CompiledRule F} {p : Progress} :
      Effect n w (.firing caller id (.settle rule p)) (.firing caller id (.trigger rule p))
        (w.clearFailures id)
  | refund {caller : Caller} {id : RuleId} {rule : CompiledRule F} {p : Progress} :
      Effect n w (.firing caller id (.refund rule p)) (.firing caller id (.trigger rule p))
        (w.removeCooldown id)
  | record {caller : Caller} {id : RuleId} {rule : CompiledRule F} {p : Progress}
      {result : RuleExecutionResult} :
      Effect n w (.firing caller id (.record rule p)) (caller.finish result)
        (w.recordHistory result)
  | dropCooldown {id : RuleId} {viaHandler : Bool} :
      Effect n w (.dropCooldown id viaHandler)
        (if viaHandler then .deleting id else .answered (.removed true)) (w.removeCooldown id)
  | statusRead {id : RuleId} {enabled : Bool} {rule : CompiledRule F} :
      w.rules.lookup id = some rule →
      Effect n w (.statusRead id enabled) (.statusSave rule id enabled) w
  | statusGone {id : RuleId} {enabled : Bool} :
      w.rules.lookup id = none →
      Effect n w (.statusRead id enabled) (.answered (.status id enabled)) w
  /-- A snapshot is written to the store. -/
  | save {pc pc' : Pc F} {rule : CompiledRule F} :
      pc.snapshot = some rule → pc'.isPlain = true → Effect n w pc pc' (w.save rule)
  | delete {id : RuleId} :
      Effect n w (.deleting id) (.answered (.deleted id)) (w.delete id)

@[simp] theorem isPlain_evaluateNext (rest : List RuleId) :
    (evaluateNext rest : Pc F).isPlain = true := by
  cases rest <;> rfl

@[simp] theorem isPlain_finish (caller : Caller) (result : RuleExecutionResult) :
    (caller.finish result : Pc F).isPlain = true := by
  cases caller with
  | evaluateAndFire rest => exact isPlain_evaluateNext rest
  | executeRule start => rfl

@[simp] theorem isPlain_conditionMet (caller : Caller) (id : RuleId) (rule : CompiledRule F) :
    (Pc.firing caller id (conditionMetStage caller rule)).isPlain = true := by
  unfold conditionMetStage
  split <;> rfl

@[simp] theorem isPlain_sinceReturned (caller : Caller) (now : Instant) (id : RuleId)
    (rule : CompiledRule F) (conditionMet : Bool) (since : Option Instant) :
    (sinceReturned caller now id rule conditionMet since).isPlain = true := by
  cases conditionMet with
  | false => exact isPlain_finish _ _
  | true =>
    cases since with
    | none => exact isPlain_finish _ _
    | some sinceTime => rfl

@[simp] theorem isPlain_insertOrAnswer (r : Except ErrorResponse (CompiledRule F)) :
    (insertOrAnswer r).isPlain = true := by
  cases r <;> rfl

variable [F64 F] {env : Env F}

@[simp] theorem isPlain_updateRead (choice : Choice) (w : World F) (id : RuleId)
    (req : Json F) : (updateRead env choice w id req).isPlain = true := by
  simp only [updateRead]
  repeat' split
  all_goals rfl

@[simp] theorem isPlain_importNext (choice : Choice) (now : Instant) (value : Json F)
    (todo : List (Json F)) (imported skipped : ℕ) (errors : List String) :
    (importNext env choice now value todo imported skipped errors).isPlain = true := by
  unfold importNext
  split <;> rfl


/-! ## The effect of a section -/

variable {choice : Choice}

/-- A section of task `n`, as a step of the server. -/
theorem step_run {s s' : Server F} {n : ℕ} (h : step env s (.run n choice) = some s') :
    ∃ task pc w, s.tasks[n]? = some task ∧
      task.pc.advance env n choice s.world = some (pc, w) ∧
      s' = { world := w, tasks := s.tasks.set n { task with pc := pc } } := by
  simp only [step] at h
  split at h
  · cases h
  · rename_i task htask
    split at h
    · cases h
    · rename_i pc w hadv
      cases h
      exact ⟨task, pc, w, htask, hadv, rfl⟩

theorem effect_of_stage {n : ℕ} {w w' : World F} {caller : Caller}
    {id : RuleId} {stage : Stage F} {pc' : Pc F}
    (h : stage.advance env choice w caller id = some (pc', w')) :
    Effect n w (.firing caller id stage) pc' w' := by
  cases stage with
  | read =>
    simp only [Stage.advance] at h
    repeat' split at h
    all_goals
      cases h
      first
        | exact .quiet rfl rfl rfl
        | exact .quiet rfl rfl (by simp)
  | cooldown rule =>
    simp only [Stage.advance] at h
    split at h
    all_goals
      cases h
      first
        | exact .quiet rfl rfl rfl
        | exact .quiet rfl rfl (by simp)
  | condition rule =>
    simp only [Stage.advance] at h
    repeat' split at h
    all_goals
      cases h
      first
        | exact .quiet rfl rfl rfl
        | exact .quiet rfl rfl (by simp)
  | since rule conditionMet =>
    simp only [Stage.advance, World.updateConditionSince] at h
    cases hcur : w.rules.lookup id with
    | none =>
      simp only [hcur, lockRules_eq_some] at h
      cases h.2
      exact .quiet rfl rfl (by simp)
    | some cur =>
      -- the four cases of `update_condition_since`; it changes the rule in two of them
      cases conditionMet <;> cases hsince : cur.state.conditionSince <;>
        simp only [hcur, hsince, lockRules_eq_some] at h <;> obtain ⟨hlock, h⟩ := h <;> cases h
      · exact .quiet rfl rfl (by simp)
      · exact .sinceReset hlock hcur (by rw [hsince]; rfl)
      · exact .sinceStart hlock hcur hsince
      · exact .quiet rfl rfl (by simp)
  | sinceSave rule conditionMet sinceTime snapshot =>
    cases h
    exact .save rfl (by simp)
  | elapsed rule sinceTime =>
    simp only [Stage.advance] at h
    repeat' split at h
    all_goals
      cases h
      first
        | exact .quiet rfl rfl rfl
        | exact .quiet rfl rfl (by simp)
  | claim rule =>
    simp only [Stage.advance] at h
    split at h
    · cases h
      exact .quiet rfl rfl (by simp)
    · rename_i hclaim
      cases h
      exact .claim hclaim
  | actions rule p todo =>
    cases todo with
    | nil =>
      simp only [Stage.advance] at h
      split at h
      all_goals
        cases h
        exact .quiet rfl rfl rfl
    | cons action todo =>
      cases h
      exact .quiet rfl rfl rfl
  | settle rule p =>
    simp only [Stage.advance] at h
    split at h
    · have hcount : Effect n w (.firing caller id (.settle rule p)) _ _ := .countFailure
      split at h
      all_goals
        rename_i heq
        cases h
        rw [heq] at hcount
        exact hcount
    · split at h
      · cases h
        exact .clearFailures
      · cases h
        exact .quiet rfl rfl rfl
  | refund rule p =>
    cases h
    exact .refund
  | trigger rule p =>
    simp only [Stage.advance, World.updateRuleStateAfterTrigger] at h
    cases hcur : w.rules.lookup id with
    | none =>
      simp only [hcur, lockRules_eq_some] at h
      cases h.2
      exact .quiet rfl rfl rfl
    | some cur =>
      simp only [hcur, lockRules_eq_some] at h
      obtain ⟨hlock, h⟩ := h
      cases h
      exact .trigger hlock hcur
  | triggerSave rule p snapshot =>
    cases h
    exact .save rfl rfl
  | record rule p =>
    cases h
    exact .record

/-- A section has one of the listed effects. -/
theorem effect_of_advance {n : ℕ} {w w' : World F} {pc pc' : Pc F}
    (h : pc.advance env n choice w = some (pc', w')) : Effect n w pc pc' w' := by
  cases pc with
  | firing caller id stage => exact effect_of_stage h
  | insert rule origin =>
    simp only [Pc.advance, lockRules_eq_some] at h
    obtain ⟨hlock, h⟩ := h
    cases h
    exact .insert hlock
  | rebuild after =>
    cases h
    exact .acquire
  | rebuilding idx after =>
    cases h
    exact .release
  | remove id viaHandler =>
    simp only [Pc.advance] at h
    split at h <;> rw [lockRules_eq_some] at h <;> obtain ⟨hlock, h⟩ := h <;> cases h
    · exact .remove hlock
    · exact .quiet rfl rfl rfl
  | dropCooldown id viaHandler =>
    cases h
    exact .dropCooldown
  | saving rule =>
    cases h
    exact .save rfl rfl
  | deleting id =>
    cases h
    exact .delete
  | setStatus id enabled =>
    simp only [Pc.advance, World.setEnabled] at h
    cases hcur : w.rules.lookup id with
    | none =>
      simp only [hcur, lockRules_eq_some] at h
      cases h.2
      exact .quiet rfl rfl rfl
    | some rule =>
      simp only [hcur, lockRules_eq_some] at h
      obtain ⟨hlock, h⟩ := h
      cases h
      exact .setEnabled hlock hcur
  | statusRead id enabled =>
    simp only [Pc.advance] at h
    split at h
    · rename_i hcur
      cases h
      exact .statusRead hcur
    · rename_i hcur
      cases h
      exact .statusGone hcur
  | statusSave rule id enabled =>
    cases h
    exact .save rfl rfl
  | importRules req =>
    simp only [Pc.advance] at h
    split at h
    all_goals
      cases h
      exact .quiet rfl rfl rfl
  | importing todo imported skipped errors =>
    cases todo <;> cases h
    · exact .quiet rfl rfl rfl
    · exact .quiet rfl rfl (by simp)
  | lookup source | create req | update id req | updateFull id fields parsed existing =>
    cases h
    exact .quiet rfl rfl (by simp)
  | answered reply => cases h

/-! ## What an effect leaves alone -/

section Frame

variable {n : ℕ} {w w' : World F} {pc pc' : Pc F} {id : RuleId}

omit [F64 F] in
/-- The cooldown slot is claimed when it is free or its time is over. -/
theorem tryClaimCooldown_eq_some {cooldown : Duration} :
    w.tryClaimCooldown id cooldown = some w' ↔
      w' = { w with cooldowns := w.cooldowns.insert id w.now } ∧
        ∀ last, w.cooldowns.lookup id = some last → cooldown ≤ w.now - last := by
  unfold World.tryClaimCooldown
  cases w.cooldowns.lookup id with
  | none => simp [eq_comm]
  | some last =>
    by_cases hlt : w.now - last < cooldown
    · simp [hlt]
    · have hle : cooldown ≤ w.now - last := Nat.le_of_not_lt hlt
      simp [hlt, hle, eq_comm]

omit [F64 F] in
/-- No section moves the clock or changes what lies outside the engine. -/
theorem environment_of_effect (he : Effect n w pc pc' w') :
    w'.now = w.now ∧ w'.values = w.values ∧ w'.devices = w.devices := by
  cases he with
  | claim hclaim =>
    obtain ⟨rfl, -⟩ := tryClaimCooldown_eq_some.mp hclaim
    exact ⟨rfl, rfl, rfl⟩
  | _ => exact ⟨rfl, rfl, rfl⟩

/-- A rule without its runtime state. -/
def CompiledRule.stateless (rule : CompiledRule F) : CompiledRule F :=
  { rule with state := ⟨0, none, none⟩ }

section Stateless

variable {rule rule' : CompiledRule F} (h : rule.stateless = rule'.stateless)

include h

omit [F64 F] in
theorem condition_of_stateless : rule.condition = rule'.condition := by
  have heq : rule.stateless.condition = rule'.stateless.condition := by rw [h]
  exact heq

omit [F64 F] in
theorem actions_of_stateless : rule.actions = rule'.actions := by
  have heq : rule.stateless.actions = rule'.stateless.actions := by rw [h]
  exact heq

omit [F64 F] in
theorem enabled_of_stateless : rule.enabled = rule'.enabled := by
  have heq : rule.stateless.enabled = rule'.stateless.enabled := by rw [h]
  exact heq

end Stateless

variable {caller : Caller} {stage : Stage F}

omit [F64 F] in
/-- A firing keeps what `condition_since` does not show in, and in the section that counts
the firing what the count does not show in either. -/
theorem view_of_firing {γ : Type} {f : CompiledRule F → γ}
    (he : Effect n w (.firing caller id stage) pc' w')
    (hsince : ∀ rule since, f (rule.withConditionSince since) = f rule)
    (htrigger : ∀ rule p, stage = .trigger rule p → ∀ rule now, f (rule.triggered now) = f rule)
    (i : RuleId) : (w'.rules.lookup i).map f = (w.rules.lookup i).map f := by
  have hput : ∀ {cur new : CompiledRule F} {j : RuleId}, w.rules.lookup j = some cur →
      new.id = cur.id → f new = f cur →
      ((w.rules.put new).lookup i).map f = (w.rules.lookup i).map f := by
    intro cur new j hcur hid hview
    rw [KeyedMap.lookup_put_of_lookup hcur hid]
    split
    · rename_i hi
      rw [hi, hcur, Option.map_some, Option.map_some, hview]
    · rfl
  cases he with
  | sinceStart hlock hcur | sinceReset hlock hcur => exact hput hcur rfl (hsince _ _)
  | trigger hlock hcur => exact hput hcur rfl (htrigger _ _ rfl _ _)
  | claim hclaim =>
    obtain ⟨rfl, -⟩ := tryClaimCooldown_eq_some.mp hclaim
    rfl
  | _ => rfl

omit [F64 F] in
/-- A firing changes nothing of the rules but their runtime state. -/
theorem stateless_of_firing (he : Effect n w (.firing caller id stage) pc' w') (i : RuleId) :
    (w'.rules.lookup i).map CompiledRule.stateless =
      (w.rules.lookup i).map CompiledRule.stateless :=
  view_of_firing he (fun _ _ => rfl) (fun _ _ _ _ _ => rfl) i

omit [F64 F] in
/-- A firing touches neither the index nor the lock of the rules. -/
theorem locks_of_firing (he : Effect n w (.firing caller id stage) pc' w') :
    w'.subscriptionIndex = w.subscriptionIndex ∧ w'.rulesReaders = w.rulesReaders := by
  cases he with
  | claim hclaim =>
    obtain ⟨rfl, -⟩ := tryClaimCooldown_eq_some.mp hclaim
    exact ⟨rfl, rfl⟩
  | _ => exact ⟨rfl, rfl⟩

omit [F64 F] in
/-- What a firing does to the cooldown slots. -/
theorem cooldowns_of_firing (he : Effect n w (.firing caller id stage) pc' w') :
    (∃ rule, stage = .claim rule ∧ w.tryClaimCooldown id rule.cooldown = some w') ∨
      (∃ rule p, stage = .refund rule p ∧ w'.cooldowns = w.cooldowns.erase id) ∨
      w'.cooldowns = w.cooldowns := by
  cases he with
  | claim hclaim => exact Or.inl ⟨_, rfl, hclaim⟩
  | refund => exact Or.inr (Or.inl ⟨_, _, rfl, rfl⟩)
  | _ => exact Or.inr (Or.inr rfl)

end Frame

end HeraMind.Rules
