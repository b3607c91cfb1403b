/-
# The course of a firing

`evaluate_and_fire` and `execute_rule` share their sections and differ in a few of the
steps between them.  `Goes` lists these steps, each with what has to hold for it; a firing
that does not go on to another section is over.
-/
import HeraMind.Rules.Steps

namespace HeraMind.Rules

variable {F : Type} [F64 F]

/-- The condition counts as met: it evaluates to true, or there is none and the rule is
executed. -/
def Met (env : Env F) (w : World F) (caller : Caller) (rule : CompiledRule F) : Prop :=
  match rule.condition with
  | some cond => cond.evaluate env.regexIsMatch w.values = true
  | none => ∃ start, caller = .executeRule start

/-- From one section of a firing to the next. -/
inductive Goes (env : Env F) (choice : Choice) (w : World F) (caller : Caller) (id : RuleId) :
    Stage F → Stage F → Prop
  | read {rule : CompiledRule F} :
      w.rules.lookup id = some rule →
      (∀ rest, caller = .evaluateAndFire rest → rule.enabled = true) →
      Goes env choice w caller id .read (.cooldown rule)
  | cooldown {rule : CompiledRule F} :
      w.isInCooldown id rule = false →
      Goes env choice w caller id (.cooldown rule) (.condition rule)
  | sustained {rule : CompiledRule F} :
      Met env w caller rule → sustains caller rule = true →
      Goes env choice w caller id (.condition rule) (.since rule true)
  | immediate {rule : CompiledRule F} :
      Met env w caller rule → sustains caller rule = false →
      Goes env choice w caller id (.condition rule) (.claim rule)
  | notMet {rule : CompiledRule F} {cond : RuleCondition F} :
      rule.condition = some cond → cond.evaluate env.regexIsMatch w.values = false →
      Goes env choice w caller id (.condition rule) (.since rule false)
  | sinceChanged {rule : CompiledRule F} {conditionMet : Bool} {sinceTime : Option Instant}
      {snapshot : CompiledRule F} {w' : World F} :
      w.updateConditionSince id conditionMet = (sinceTime, some snapshot, w') →
      Goes env choice w caller id (.since rule conditionMet)
        (.sinceSave rule conditionMet sinceTime snapshot)
  | sinceKept {rule : CompiledRule F} {t : Instant} {w' : World F} :
      w.updateConditionSince id true = (some t, none, w') →
      Goes env choice w caller id (.since rule true) (.elapsed rule t)
  | sinceSaved {rule snapshot : CompiledRule F} {t : Instant} :
      Goes env choice w caller id (.sinceSave rule true (some t) snapshot) (.elapsed rule t)
  | elapsed {rule : CompiledRule F} {t : Instant} :
      (∀ dur, rule.forDuration = some dur → dur ≤ w.now - t) →
      Goes env choice w caller id (.elapsed rule t) (.claim rule)
  | claim {rule : CompiledRule F} {start : Instant} {w' : World F} :
      w.tryClaimCooldown id rule.cooldown = some w' →
      Goes env choice w caller id (.claim rule) (.actions rule ⟨start, [], none⟩ rule.actions)
  | action {rule : CompiledRule F} {p : Progress} {action : RuleAction F}
      {todo : List (RuleAction F)} :
      Goes env choice w caller id (.actions rule p (action :: todo))
        (.actions rule (p.record choice.outcome) todo)
  | fired {rule : CompiledRule F} {p : Progress} {rest : List RuleId} :
      caller = .evaluateAndFire rest →
      Goes env choice w caller id (.actions rule p []) (.trigger rule p)
  | executed {rule : CompiledRule F} {p : Progress} {start : Instant} :
      caller = .executeRule start →
      Goes env choice w caller id (.actions rule p []) (.settle rule p)
  | allFailed {rule : CompiledRule F} {p : Progress} :
      p.executed = [] →
      Goes env choice w caller id (.settle rule p) (.refund rule p)
  | settled {rule : CompiledRule F} {p : Progress} :
      Goes env choice w caller id (.settle rule p) (.trigger rule p)
  | refunded {rule : CompiledRule F} {p : Progress} :
      Goes env choice w caller id (.refund rule p) (.trigger rule p)
  | triggered {rule snapshot : CompiledRule F} {p : Progress} :
      Goes env choice w caller id (.trigger rule p) (.triggerSave rule p snapshot)
  | gone {rule : CompiledRule F} {p : Progress} :
      w.rules.lookup id = none →
      Goes env choice w caller id (.trigger rule p) (.record rule p)
  | saved {rule snapshot : CompiledRule F} {p : Progress} :
      Goes env choice w caller id (.triggerSave rule p snapshot) (.record rule p)

/-- The firing goes on, or it is over. -/
def Continues (env : Env F) (choice : Choice) (w : World F) (caller : Caller) (id : RuleId)
    (stage : Stage F) (pc : Pc F) : Prop :=
  (∃ stage', pc = .firing caller id stage' ∧ Goes env choice w caller id stage stage') ∨
    ∃ result, pc = caller.finish result

section Advance

variable {env : Env F} {choice : Choice} {w w' : World F} {caller : Caller} {id : RuleId}
  {stage : Stage F} {pc : Pc F}

theorem continues_finish (result : RuleExecutionResult) :
    Continues env choice w caller id stage (caller.finish result) :=
  Or.inr ⟨result, rfl⟩

theorem continues_next {rest : List RuleId} :
    Continues env choice w (.evaluateAndFire rest) id stage (evaluateNext rest) :=
  continues_finish (notExecuted (.evaluateAndFire rest) 0 id "" "" false)

theorem Goes.continues {stage' : Stage F} (h : Goes env choice w caller id stage stage') :
    Continues env choice w caller id stage (.firing caller id stage') :=
  Or.inl ⟨stage', rfl, h⟩

theorem continues_read (h : Stage.advance env choice w caller id .read = some (pc, w')) :
    Continues env choice w caller id .read pc := by
  simp only [Stage.advance] at h
  cases hrule : w.rules.lookup id with
  | none =>
    simp only [hrule, Option.some.injEq, Prod.mk.injEq] at h
    rw [← h.1]
    exact continues_finish _
  | some rule =>
    cases caller with
    | executeRule start =>
      simp only [hrule, Option.some.injEq, Prod.mk.injEq] at h
      rw [← h.1]
      exact (Goes.read hrule (by simp)).continues
    | evaluateAndFire rest =>
      simp only [hrule] at h
      split at h
      · rename_i henabled
        cases h
        exact (Goes.read hrule (fun _ _ => henabled)).continues
      · cases h
        exact continues_next

variable {rule : CompiledRule F}

theorem continues_conditionMet (h : Met env w caller rule) :
    Continues env choice w caller id (.condition rule)
      (.firing caller id (conditionMetStage caller rule)) := by
  unfold conditionMetStage
  split
  · rename_i hsustains
    exact (Goes.sustained h hsustains).continues
  · rename_i hsustains
    exact (Goes.immediate h (by simpa using hsustains)).continues

theorem continues_condition
    (h : Stage.advance env choice w caller id (.condition rule) = some (pc, w')) :
    Continues env choice w caller id (.condition rule) pc := by
  simp only [Stage.advance] at h
  cases hcond : rule.condition with
  | none =>
    cases caller with
    | evaluateAndFire rest =>
      simp only [hcond] at h
      cases h
      exact continues_next
    | executeRule start =>
      simp only [hcond] at h
      cases h
      refine continues_conditionMet ?_
      rw [Met, hcond]
      exact ⟨start, rfl⟩
  | some cond =>
    simp only [hcond] at h
    split at h
    · rename_i htrue
      cases h
      refine continues_conditionMet ?_
      rw [Met, hcond]
      exact htrue
    · rename_i hfalse
      cases h
      exact (Goes.notMet hcond (by simpa using hfalse)).continues

theorem continues_since {conditionMet : Bool}
    (h : Stage.advance env choice w caller id (.since rule conditionMet) = some (pc, w')) :
    Continues env choice w caller id (.since rule conditionMet) pc := by
  simp only [Stage.advance] at h
  split at h
  · rename_i sinceTime snapshot w₁ hsince
    cases (lockRules_eq_some.mp h).2
    exact (Goes.sinceChanged hsince).continues
  · rename_i sinceTime w₁ hsince
    cases (lockRules_eq_some.mp h).2
    cases conditionMet with
    | false => exact continues_finish _
    | true =>
      cases sinceTime with
      | none => exact continues_finish _
      | some t => exact (Goes.sinceKept hsince).continues

/-- A section of a firing leads on as listed, or ends the firing. -/
theorem continues_of_advance (h : stage.advance env choice w caller id = some (pc, w')) :
    Continues env choice w caller id stage pc := by
  cases stage with
  | read => exact continues_read h
  | cooldown rule =>
    simp only [Stage.advance] at h
    split at h
    · cases h
      exact continues_finish _
    · rename_i hcool
      cases h
      exact (Goes.cooldown (by simpa using hcool)).continues
  | condition rule => exact continues_condition h
  | since rule conditionMet => exact continues_since h
  | sinceSave rule conditionMet sinceTime snapshot =>
    cases h
    cases conditionMet with
    | false => exact continues_finish _
    | true =>
      cases sinceTime with
      | none => exact continues_finish _
      | some t => exact Goes.sinceSaved.continues
  | elapsed rule sinceTime =>
    simp only [Stage.advance] at h
    split at h
    · rename_i hdur
      cases h
      exact (Goes.elapsed (by simp [hdur])).continues
    · rename_i dur hdur
      split at h
      · cases h
        exact continues_finish _
      · rename_i hlong
        cases h
        refine (Goes.elapsed ?_).continues
        intro dur' hdur'
        rw [hdur, Option.some.injEq] at hdur'
        rw [← hdur']
        exact Nat.le_of_not_lt hlong
  | claim rule =>
    simp only [Stage.advance] at h
    split at h
    · cases h
      exact continues_finish _
    · rename_i hclaim
      cases h
      exact (Goes.claim hclaim).continues
  | actions rule p todo =>
    cases todo with
    | cons action todo =>
      cases h
      exact Goes.action.continues
    | nil =>
      cases caller with
      | evaluateAndFire rest =>
        cases h
        exact (Goes.fired rfl).continues
      | executeRule start =>
        cases h
        exact (Goes.executed rfl).continues
  | settle rule p =>
    simp only [Stage.advance] at h
    split at h
    · rename_i hfailed
      rw [Bool.and_eq_true, List.isEmpty_iff] at hfailed
      split at h
      · cases h
        exact (Goes.allFailed hfailed.1).continues
      · cases h
        exact Goes.settled.continues
    · split at h
      · cases h
        exact Goes.settled.continues
      · cases h
        exact Goes.settled.continues
  | refund rule p =>
    cases h
    exact Goes.refunded.continues
  | trigger rule p =>
    simp only [Stage.advance, World.updateRuleStateAfterTrigger] at h
    cases hcur : w.rules.lookup id with
    | none =>
      simp only [hcur] at h
      cases (lockRules_eq_some.mp h).2
      exact (Goes.gone hcur).continues
    | some cur =>
      simp only [hcur] at h
      cases (lockRules_eq_some.mp h).2
      exact Goes.triggered.continues
  | triggerSave rule p snapshot =>
    cases h
    exact Goes.saved.continues
  | record rule p =>
    cases h
    exact continues_finish _

end Advance

/-! ## The clone of a firing -/

/-- The clone of the rule that a firing works on. -/
def Stage.rule {F : Type} : Stage F → Option (CompiledRule F)
  | .read => none
  | .cooldown rule | .condition rule | .since rule _ | .sinceSave rule _ _ _ | .elapsed rule _
  | .claim rule | .actions rule _ _ | .settle rule _ | .refund rule _ | .trigger rule _
  | .triggerSave rule _ _ | .record rule _ => some rule

omit [F64 F] in
theorem firing_of_evaluateNext {rest : List RuleId} {caller : Caller} {id : RuleId}
    {stage : Stage F} (h : evaluateNext rest = .firing caller id stage) : stage = .read := by
  cases rest with
  | nil => cases h
  | cons id' rest =>
    cases h
    rfl

variable {caller caller' : Caller}

omit [F64 F] in
/-- After a firing its task is done, or starts with the next rule. -/
theorem firing_of_finish {result : RuleExecutionResult}
    {id : RuleId} {stage : Stage F} (h : caller.finish result = .firing caller' id stage) :
    stage = .read := by
  cases caller with
  | executeRule start => cases h
  | evaluateAndFire rest => exact firing_of_evaluateNext h

variable {stage stage' : Stage F} {choice : Choice}

/-- A firing works on one clone throughout, which it reads at its start. -/
theorem Goes.rule {env : Env F} {w : World F} {caller : Caller}
    {id : RuleId} (h : Goes env choice w caller id stage stage') :
    stage'.rule = stage.rule ∨ (stage = .read ∧ stage'.rule = w.rules.lookup id) := by
  cases h with
  | read hrule henabled => exact Or.inr ⟨rfl, hrule.symm⟩
  | _ => exact Or.inl rfl

/-- The next section of a task that fires a rule: of the same firing, or the start of the
next one. -/
theorem goes_or_read {env : Env F} {w w' : World F} {id id' : RuleId}
    (h : stage.advance env choice w caller id = some (.firing caller' id' stage', w')) :
    (caller' = caller ∧ id' = id ∧ Goes env choice w caller id stage stage') ∨ stage' = .read := by
  rcases continues_of_advance h with ⟨stage'', hpc, hgoes⟩ | ⟨result, hpc⟩
  · cases hpc
    exact Or.inl ⟨rfl, rfl, hgoes⟩
  · exact Or.inr (firing_of_finish hpc.symm)

/-- The clone after a section is the clone before it, or the rule that the section read. -/
theorem rule_of_advance {env : Env F} {w w' : World F} {id id' : RuleId} {rule : CompiledRule F}
    (h : stage.advance env choice w caller id = some (.firing caller' id' stage', w'))
    (hrule : stage'.rule = some rule) :
    caller' = caller ∧ id' = id ∧ (stage.rule = some rule ∨ w.rules.lookup id = some rule) := by
  rcases goes_or_read h with ⟨rfl, rfl, hgoes⟩ | rfl
  · rcases hgoes.rule with heq | ⟨-, heq⟩
    · exact ⟨rfl, rfl, Or.inl (heq ▸ hrule)⟩
    · exact ⟨rfl, rfl, Or.inr (heq ▸ hrule)⟩
  · cases hrule

end HeraMind.Rules
