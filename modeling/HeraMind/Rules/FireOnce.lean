/-
# How often one data update fires a rule

`on_data_update` evaluates every entry of the index under the updated key, and the index
lists a rule once for every source of the rule with that key, so once for every leaf of
its condition that reads it.  Nothing but the cooldown keeps the second entry from firing
again.  The theorem counts the actions that one update runs for one rule, while other updates and
executions of rules go on and the clock and the values move at any time.
-/
import HeraMind.Rules.Subscription
import HeraMind.Rules.Control

namespace HeraMind.Rules

open List Option
open Transition

variable {F : Type}

/-! ## The actions of an update -/

/-- The section runs an action of rule `id`. -/
def Pc.executes (id : RuleId) : Pc F → Bool
  | .firing _ i (.actions _ _ (_ :: _)) => i = id
  | _ => false

/-- Task `n` runs an action of rule `id`. -/
def executesAt (n : ℕ) (id : RuleId) : Server F × Label F → Bool
  | (s, .run m _) => m = n && s.tasks[n]?.any fun task => task.pc.executes id
  | _ => false

/-- The number of times task `n` ran `execute_action` for rule `id`. -/
def executions (n : ℕ) (id : RuleId) (tr : List (Server F × Label F)) : ℕ :=
  tr.countP (executesAt n id)

theorem executions_cons (n : ℕ) (id : RuleId) (e : Server F × Label F)
    (tr : List (Server F × Label F)) :
    executions n id (e :: tr) = executions n id tr + if executesAt n id e then 1 else 0 :=
  countP_cons ..

/-! ## Rules that can fire -/

/-- How many leaves of the condition of a data-change rule read a key. -/
def CompiledRule.reads (rule : CompiledRule F) (k : String) : ℕ :=
  match rule.trigger, rule.condition with
  | .dataChange _, some cond => (cond.extractSources.map DataSourceId.storageKey).count k
  | _, _ => 0

/-- A finalized rule is subscribed to a key once for every leaf that reads it. -/
theorem count_keys_of_finalized {rule : CompiledRule F} (h : rule.Finalized) (k : String) :
    rule.keys.count k = rule.reads k := by
  unfold CompiledRule.Finalized RuleTrigger.refreshed at h
  unfold CompiledRule.keys CompiledRule.reads
  cases ht : rule.trigger with
  | dataChange sources =>
    rw [ht] at h
    simp only [RuleTrigger.dataChange.injEq] at h
    cases hc : rule.condition with
    | none | some cond =>
      rw [hc] at h
      simp [RuleTrigger.sources, ← h]
  | schedule cron | manual => rfl

/-- The condition of the rule holds for some values. -/
def CompiledRule.Satisfiable [F64 F] (env : Env F) (rule : CompiledRule F) : Prop :=
  ∃ cond, rule.condition = some cond ∧
    ∃ values : ValueProvider F, cond.evaluate env.regexIsMatch values = true

/-! ## At most -/

section AtMost

variable [F64 F] {env : Env F}

/-- How many actions of rule `id` the firing can still run, if the rule has `limit` of
them to run whenever it fires. -/
def Stage.potential (limit : ℕ) : Stage F → ℕ
  | .actions _ _ todo => todo.length
  | .settle _ _ | .refund _ _ | .trigger _ _ | .triggerSave _ _ _ | .record _ _ => 0
  | _ => limit

/-- How many actions of rule `id` the update can still run. -/
def Pc.potential (id : RuleId) (limit : ℕ) (idx : HashMap String (List RuleId)) :
    Pc F → ℕ
  | .lookup source => (listed idx source.storageKey).count id * limit
  | .firing (.evaluateAndFire rest) i stage =>
    rest.count id * limit + if i = id then stage.potential limit else 0
  | _ => 0

/-- The condition of the clone has been found true. -/
def Stage.passed : Stage F → Bool
  | .read | .cooldown _ | .condition _ => false
  | .since _ conditionMet | .sinceSave _ conditionMet _ _ => conditionMet
  | _ => true

/-- The firing works on a clone of an enabled rule, which is `rule` but for the runtime
state, and whose condition holds for some values once it has been found true. -/
def Stage.Clones (env : Env F) (rule : CompiledRule F) (stage : Stage F) : Prop :=
  ∀ clone, stage.rule = some clone →
    clone.stateless = rule.stateless ∧ rule.enabled = true ∧
      (stage.passed = true → rule.Satisfiable env)

/-- The section is one of an update, and a firing of rule `id` in it works on a clone. -/
def Pc.InUpdate (env : Env F) (id : RuleId) (rule : CompiledRule F) : Pc F → Prop
  | .lookup _ => True
  | .firing (.evaluateAndFire _) i stage => i = id → stage.Clones env rule
  | .answered _ => True
  | _ => False

variable {id : RuleId} {rule : CompiledRule F} {limit : ℕ}
  {idx : HashMap String (List RuleId)}

omit [F64 F] in
theorem potential_evaluateNext (rest : List RuleId) :
    (evaluateNext rest : Pc F).potential id limit idx = rest.count id * limit := by
  cases rest with
  | nil => simp [evaluateNext, Pc.potential]
  | cons i rest =>
    by_cases hi : i = id
    · simp only [evaluateNext, Pc.potential, Stage.potential, hi, if_true, count_cons_self]
      rw [Nat.add_mul, Nat.one_mul]
    · simp [evaluateNext, Pc.potential, hi]

theorem inUpdate_evaluateNext (rest : List RuleId) :
    (evaluateNext rest : Pc F).InUpdate env id rule := by
  cases rest with
  | nil => trivial
  | cons i rest =>
    intro _ clone hclone
    cases hclone

variable {w : World F} {choice : Choice}

/-- A firing in an update goes on with the same clone. -/
theorem clones_of_goes {rest : List RuleId} {stage stage' : Stage F} (h : stage.Clones env rule)
    (hrule : (w.rules.lookup id).map CompiledRule.stateless = some rule.stateless)
    (hgoes : Goes env choice w (.evaluateAndFire rest) id stage stage') :
    stage'.Clones env rule := by
  have hmet : ∀ {clone : CompiledRule F}, clone.stateless = rule.stateless →
      Met env w (.evaluateAndFire rest) clone → rule.Satisfiable env := by
    intro clone hclone hmet
    rw [Met, condition_of_stateless hclone] at hmet
    cases hc : rule.condition with
    | none =>
      rw [hc] at hmet
      obtain ⟨start, hstart⟩ := hmet
      cases hstart
    | some cond =>
      rw [hc] at hmet
      exact ⟨cond, hc, w.values, hmet⟩
  cases hgoes with
  | read hlookup henabled =>
    intro clone hclone
    cases hclone
    rw [hlookup, map_some, some.injEq] at hrule
    refine ⟨hrule, ?_, fun hpassed => by cases hpassed⟩
    rw [← enabled_of_stateless hrule]
    exact henabled rest rfl
  | sustained hm hsustains | immediate hm hsustains =>
    intro clone hclone
    cases hclone
    obtain ⟨hclone, henabled, -⟩ := h _ rfl
    exact ⟨hclone, henabled, fun _ => hmet hclone hm⟩
  | notMet hcond hfalse =>
    intro clone hclone
    cases hclone
    obtain ⟨hclone, henabled, -⟩ := h _ rfl
    exact ⟨hclone, henabled, fun hpassed => by cases hpassed⟩
  | executed hcaller => cases hcaller
  | _ =>
    intro clone hclone
    cases hclone
    exact h _ rfl

/-- A section of a firing uses up as much potential as it executes. -/
theorem potential_of_goes {rest : List RuleId} {stage stage' : Stage F} (h : stage.Clones env rule)
    (hlimit : rule.enabled = true → rule.Satisfiable env → rule.actions.length ≤ limit)
    (hgoes : Goes env choice w (.evaluateAndFire rest) id stage stage') :
    stage'.potential limit +
        (if (Pc.firing (.evaluateAndFire rest) id stage).executes id then 1 else 0) ≤
      stage.potential limit := by
  cases hgoes with
  | @claim clone start w' hclaim =>
    -- the clone is enabled and its condition was true, so the limit applies to its actions
    obtain ⟨hclone, henabled, hsat⟩ := h clone rfl
    show clone.actions.length + 0 ≤ limit
    rw [actions_of_stateless hclone]
    exact hlimit henabled (hsat rfl)
  | action =>
    simp only [Pc.executes, decide_true, if_true, Stage.potential, length_cons]
    exact Nat.le_refl _
  | _ => simp [Stage.potential, Pc.executes]

/-- A section of an update uses up as much potential as it executes. -/
theorem inUpdate_advance {n : ℕ} {w w' : World F} {pc pc' : Pc F} (h : pc.InUpdate env id rule)
    (hrule : (w.rules.lookup id).map CompiledRule.stateless = some rule.stateless)
    (hlimit : rule.enabled = true → rule.Satisfiable env → rule.actions.length ≤ limit)
    (hadv : pc.advance env n choice w = some (pc', w')) :
    pc'.InUpdate env id rule ∧
      pc'.potential id limit w'.subscriptionIndex + (if pc.executes id then 1 else 0) ≤
        pc.potential id limit w.subscriptionIndex := by
  cases pc with
  | lookup source =>
    cases hadv
    refine ⟨inUpdate_evaluateNext _, ?_⟩
    rw [potential_evaluateNext]
    exact Nat.le_refl _
  | answered reply => cases hadv
  | firing caller i stage =>
    cases caller with
    | executeRule start => exact absurd h (by simp [Pc.InUpdate])
    | evaluateAndFire rest =>
      constructor
      · rcases continues_of_advance hadv with ⟨stage', rfl, hgoes⟩ | ⟨result, rfl⟩
        · rintro rfl
          exact clones_of_goes (h rfl) hrule hgoes
        · exact inUpdate_evaluateNext rest
      · rcases continues_of_advance hadv with ⟨stage', rfl, hgoes⟩ | ⟨result, rfl⟩
        · by_cases hi : i = id
          · -- a firing of the rule pays for each action with its own potential
            subst hi
            have hpot := potential_of_goes (h rfl) hlimit hgoes
            simp only [Pc.potential, if_true]
            omega
          · have hno : (Pc.firing (.evaluateAndFire rest) i stage).executes id = false := by
              cases stage with
              | actions clone p todo => cases todo <;> simp [Pc.executes, hi]
              | _ => rfl
            simp [Pc.potential, hi, hno]
        · -- the last section of a firing runs no action
          have hno : (Pc.firing (.evaluateAndFire rest) i stage).executes id = false := by
            cases stage with
            | actions clone p todo =>
              cases todo with
              | nil => rfl
              | cons action todo =>
                have hstay : (Caller.evaluateAndFire rest).finish result =
                    Pc.firing (.evaluateAndFire rest) i
                      (.actions clone (p.record choice.outcome) todo) := by
                  simp only [Pc.advance, Stage.advance, some.injEq, Prod.mk.injEq] at hadv
                  exact hadv.1.symm
                have hread := firing_of_finish hstay
                cases hread
            | _ => rfl
          rw [hno]
          show (evaluateNext rest : Pc F).potential id limit _ + 0 ≤ _
          rw [potential_evaluateNext]
          exact Nat.le_add_right _ _
  | _ => exact absurd h (by simp [Pc.InUpdate])

/-- The invariant of task `n`, if it is an update of the source: what it executed and what
it can still execute stays within the bound. -/
structure Bounded (env : Env F) (w : World F) (source : DataSourceId) (id : RuleId)
    (rule : CompiledRule F) (limit n : ℕ) (tr : List (Server F × Label F)) (s : Server F) :
    Prop where
  index : s.world.subscriptionIndex = w.subscriptionIndex
  rules : (s.world.rules.lookup id).map CompiledRule.stateless = some rule.stateless
  absent : s.tasks[n]? = none → executions n id tr = 0
  present : ∀ task, s.tasks[n]? = some task → task.call = .onDataUpdate source →
    task.pc.InUpdate env id rule ∧
      executions n id tr + task.pc.potential id limit w.subscriptionIndex ≤
        (listed w.subscriptionIndex source.storageKey).count id * limit

theorem Bounded.step {source : DataSourceId} {n : ℕ}
    {tr : List (Server F × Label F)} {s s' : Server F} {a : Label F}
    (h : Bounded env w source id rule limit n tr s)
    (hlimit : rule.enabled = true → rule.Satisfiable env → rule.actions.length ≤ limit)
    (hserves : s.Serves fun c => c.fires = true) (hs : step env s a = some s') :
    Bounded env w source id rule limit n ((s, a) :: tr) s' := by
  cases a with
  | tick d | provide values | register devices =>
    cases hs
    exact ⟨h.index, h.rules, h.absent, h.present⟩
  | call c =>
    cases hs
    refine ⟨h.index, h.rules, ?_, ?_⟩
    · intro hnone
      apply h.absent
      rw [List.getElem?_eq_none_iff] at hnone ⊢
      rw [length_append] at hnone
      omega
    · intro task htask hcall
      rcases getElem?_addTask.mp htask with hold | ⟨hn, rfl⟩
      · exact h.present task hold hcall
      · -- the update starts with all of its potential
        simp only at hcall
        subst hcall
        have hnone : s.tasks[n]? = none := by
          rw [List.getElem?_eq_none_iff, hn]
        have hzero : executions n id ((s, .call (.onDataUpdate source)) :: tr) = 0 :=
          h.absent hnone
        refine ⟨trivial, ?_⟩
        rw [hzero, Nat.zero_add]
        exact Nat.le_refl _
  | run m choice =>
    obtain ⟨task, pc, w', hm, hadv, rfl⟩ := step_run hs
    obtain ⟨hfires, hof⟩ := hserves task (mem_of_getElem? hm)
    obtain ⟨hindex, -, hstateless⟩ := frame_of_fires hfires hof hadv
    have hrules : (w'.rules.lookup id).map CompiledRule.stateless = some rule.stateless :=
      (hstateless id).trans h.rules
    by_cases hmn : m = n
    · subst hmn
      have hexec : executions m id ((s, .run m choice) :: tr) =
          executions m id tr + if task.pc.executes id then 1 else 0 := by
        rw [executions_cons]
        simp [executesAt, hm]
      refine ⟨hindex.trans h.index, hrules, ?_, ?_⟩
      · intro hnone
        rw [List.getElem?_eq_none_iff, length_set] at hnone
        have hlt := (List.getElem?_eq_some_iff.mp hm).1
        omega
      · intro t ht hcall
        rcases (getElem?_setTask hm).mp ht with ⟨-, rfl⟩ | ⟨hne, -⟩
        · -- what the section executes is taken from the potential
          obtain ⟨hin, hbound⟩ := h.present task hm hcall
          obtain ⟨hin', hpot⟩ := inUpdate_advance hin h.rules hlimit hadv
          refine ⟨hin', ?_⟩
          rw [hindex, h.index] at hpot
          rw [hexec]
          show _ + pc.potential id limit w.subscriptionIndex ≤ _
          omega
        · exact absurd rfl hne
    · -- another task moves
      have hexec : executions n id ((s, .run m choice) :: tr) = executions n id tr := by
        rw [executions_cons]
        simp [executesAt, hmn]
      refine ⟨hindex.trans h.index, hrules, ?_, ?_⟩
      · intro hnone
        rw [hexec]
        apply h.absent
        rw [List.getElem?_eq_none_iff] at hnone ⊢
        rwa [length_set] at hnone
      · intro t ht hcall
        rw [hexec]
        rcases (getElem?_setTask hm).mp ht with ⟨hnm, -⟩ | ⟨-, ht⟩
        · exact absurd hnm.symm hmn
        · exact h.present t ht hcall

/-- An update executes no more than the limit for each entry of the index. -/
theorem executions_le {source : DataSourceId}
    {tr : List (Server F × Label F)} {s : Server F} {n : ℕ} {task : Task F}
    (hrun : Run (step env) (Server.idle w) tr s)
    (hcalls : Within (Calls fun _ c => c.fires = true) tr)
    (hrule : w.rules.lookup id = some rule)
    (hlimit : rule.enabled = true → rule.Satisfiable env → rule.actions.length ≤ limit)
    (hn : s.tasks[n]? = some task) (hcall : task.call = .onDataUpdate source) :
    executions n id tr ≤ (listed w.subscriptionIndex source.storageKey).count id * limit := by
  have hinv : (s.Serves fun c => c.fires = true) ∧
      Bounded env w source id rule limit n tr s := by
    refine hrun.traceInvariant
      (I := fun tr s => (s.Serves fun c => c.fires = true) ∧
        Bounded env w source id rule limit n tr s) hcalls ?_ ?_
    · refine ⟨serves_idle _ w, rfl, ?_, fun _ => rfl, ?_⟩
      · show (w.rules.lookup id).map CompiledRule.stateless = _
        rw [hrule, map_some]
      · intro task htask
        simp [Server.idle] at htask
    · intro tr s a s' _ hI hG hs
      exact ⟨serves_step hI.1 hG hs, hI.2.step hlimit hI.1 hs⟩
  have hbound := (hinv.2.present task hn hcall).2
  omega

end AtMost

/-! ## At least -/

/-- The length of what a firing still has to do, once it has its clone. -/
def Stage.rank : Stage F → ℕ
  | .read => 0
  | .cooldown rule => rule.actions.length + 11
  | .condition rule => rule.actions.length + 10
  | .since rule _ => rule.actions.length + 9
  | .sinceSave rule _ _ _ => rule.actions.length + 8
  | .elapsed rule _ => rule.actions.length + 7
  | .claim rule => rule.actions.length + 6
  | .actions _ _ todo => todo.length + 5
  | .settle _ _ => 4
  | .refund _ _ => 3
  | .trigger _ _ => 2
  | .triggerSave _ _ _ => 1
  | .record _ _ => 0

/-- One update in progress, and nothing else. -/
def Server.one (source : DataSourceId) (w : World F) (pc : Pc F) : Server F :=
  ⟨w, [⟨.onDataUpdate source, pc⟩]⟩

/-- The update can go on: nobody reads the rules, and rule `id` is defined as `rule`. -/
structure Ready (id : RuleId) (rule : CompiledRule F) (w : World F) : Prop where
  unlocked : w.rulesReaders = []
  rules : (w.rules.lookup id).map CompiledRule.stateless = some rule.stateless

theorem Ready.tick {id : RuleId} {rule : CompiledRule F} {w : World F}
    (h : Ready id rule w) (d : Duration) : Ready id rule { w with now := w.now + d } :=
  ⟨h.unlocked, h.rules⟩

theorem Ready.provide {id : RuleId} {rule : CompiledRule F} {w : World F}
    (h : Ready id rule w) (values : ValueProvider F) :
    Ready id rule { w with values := values } :=
  ⟨h.unlocked, h.rules⟩

section AtLeast

variable [F64 F] {env : Env F} {source : DataSourceId} {id : RuleId} {rule : CompiledRule F}
  {w w' : World F} {rest : List RuleId} {k : ℕ} {pc pc' : Pc F} {choice : Choice}

variable {caller : Caller}

theorem rank_lt_of_goes {stage stage' : Stage F}
    (h : Goes env choice w caller id stage stage') (hread : stage ≠ .read) :
    stage' ≠ .read ∧ stage'.rank < stage.rank := by
  cases h with
  | read hlookup henabled => exact absurd rfl hread
  | _ => simp [Stage.rank]

/-- No section of a firing waits while nobody reads the rules. -/
theorem exists_advance (hlock : w.rulesReaders = []) (choice : Choice)
    (i : RuleId) (stage : Stage F) :
    ∃ pc' w', stage.advance env choice w caller i = some (pc', w') := by
  cases stage with
  | since rule conditionMet | trigger rule p =>
    simp only [Stage.advance]
    split
    · exact ⟨_, _, if_pos hlock⟩
    · exact ⟨_, _, if_pos hlock⟩
  | actions rule p todo =>
    cases todo with
    | nil => cases caller <;> exact ⟨_, _, rfl⟩
    | cons action todo => exact ⟨_, _, rfl⟩
  | sinceSave rule conditionMet sinceTime snapshot | refund rule p | triggerSave rule p snapshot
  | record rule p => exact ⟨_, _, rfl⟩
  | _ =>
    simp only [Stage.advance]
    repeat' split
    all_goals exact ⟨_, _, rfl⟩

theorem Ready.firing {i : RuleId} {stage : Stage F} (h : Ready id rule w)
    (hadv : stage.advance env choice w caller i = some (pc', w')) : Ready id rule w' := by
  have heffect : Effect 0 w (.firing caller i stage) pc' w' := effect_of_stage hadv
  constructor
  · rw [(locks_of_firing heffect).2, h.unlocked]
  · rw [stateless_of_firing heffect id, h.rules]

/-- The update can get from a section to the evaluation of the rules `rest` in such a way
that it runs `k` actions of rule `id` on the way. -/
def Completes (env : Env F) (source : DataSourceId) (id : RuleId) (rule : CompiledRule F)
    (rest : List RuleId) (k : ℕ) (w : World F) (pc : Pc F) : Prop :=
  ∃ tr w', Run (step env) (.one source w pc) tr (.one source w' (evaluateNext rest)) ∧
    Within (Calls fun _ c => c.fires = true) tr ∧ k ≤ executions 0 id tr ∧ Ready id rule w'

namespace Completes

theorem done (h : Ready id rule w) :
    Completes env source id rule rest 0 w (evaluateNext rest) :=
  ⟨[], w, .nil, within_nil _, Nat.zero_le _, h⟩

theorem mono {k' : ℕ} (h : Completes env source id rule rest k w pc) (hle : k' ≤ k) :
    Completes env source id rule rest k' w pc := by
  obtain ⟨tr, w', hrun, hcalls, hk, hready⟩ := h
  exact ⟨tr, w', hrun, hcalls, hle.trans hk, hready⟩

/-- A run with one more step at its start. -/
theorem step {a : Label F} (h : Completes env source id rule rest k w' pc')
    (hs : step env (.one source w pc) a = some (.one source w' pc'))
    (ha : Calls (fun _ c => c.fires = true) (.one source w pc) a) :
    Completes env source id rule rest
      (k + if executesAt 0 id (.one source w pc, a) then 1 else 0) w pc := by
  obtain ⟨tr, w'', hrun, hcalls, hk, hready⟩ := h
  refine ⟨tr ++ [(.one source w pc, a)], w'', (Run.nil.snoc hs).append hrun, ?_, ?_, hready⟩
  · rw [within_append, within_cons]
    exact ⟨hcalls, ha, within_nil _⟩
  · have hone : executions 0 id (tr ++ [(.one source w pc, a)]) =
        executions 0 id tr + if executesAt 0 id (.one source w pc, a) then 1 else 0 := by
      rw [executions, countP_append, countP_singleton]
      rfl
    omega

theorem tick (d : Duration)
    (h : Completes env source id rule rest k { w with now := w.now + d } pc) :
    Completes env source id rule rest k w pc :=
  (h.step (a := .tick d) rfl trivial).mono (Nat.le_add_right _ _)

theorem provide (values : ValueProvider F)
    (h : Completes env source id rule rest k { w with values := values } pc) :
    Completes env source id rule rest k w pc :=
  (h.step (a := .provide values) rfl trivial).mono (Nat.le_add_right _ _)

/-- A run with one more section at its start. -/
theorem section_ (choice : Choice) (h : Completes env source id rule rest k w' pc')
    (hadv : pc.advance env 0 choice w = some (pc', w')) :
    Completes env source id rule rest (k + if pc.executes id then 1 else 0) w pc := by
  have hs : HeraMind.Rules.step env (.one source w pc) (.run 0 choice) =
      some (.one source w' pc') := by
    simp [HeraMind.Rules.step, Server.one, hadv]
  have hexec : executesAt 0 id (Server.one source w pc, .run 0 choice) = pc.executes id := by
    simp [executesAt, Server.one]
  have hlonger := h.step hs trivial
  rwa [hexec] at hlonger

/-- A section that runs no action. -/
theorem next (choice : Choice) (h : Completes env source id rule rest k w' pc')
    (hadv : pc.advance env 0 choice w = some (pc', w')) :
    Completes env source id rule rest k w pc :=
  (h.section_ choice hadv).mono (Nat.le_add_right _ _)

end Completes

/-- The choice of a section whose action, if it runs one, succeeds. -/
def Choice.succeeds (id : RuleId) : Choice := ⟨.ok "", id⟩

/-- Every firing comes to its end. -/
theorem completes_firing (h : Ready id rule w) (i : RuleId) (stage : Stage F)
    (hread : stage ≠ .read) :
    Completes env source id rule rest 0 w (.firing (.evaluateAndFire rest) i stage) := by
  -- by induction on the rank of the section
  induction hrank : stage.rank using Nat.strong_induction_on generalizing w stage with
  | _ rank ih =>
    obtain ⟨pc', w', hadv⟩ : ∃ pc' w', stage.advance env (.succeeds id) w
        (.evaluateAndFire rest) i = some (pc', w') := exists_advance h.unlocked _ _ _
    have hready : Ready id rule w' := h.firing hadv
    rcases continues_of_advance hadv with ⟨stage', rfl, hgoes⟩ | ⟨result, rfl⟩
    · obtain ⟨hread', hlt⟩ := rank_lt_of_goes hgoes hread
      have hrest := ih stage'.rank (hrank ▸ hlt) hready stage' hread' rfl
      exact hrest.next (.succeeds id) hadv
    · have hdone : Completes env source id rule rest 0 w' (evaluateNext rest) := .done hready
      exact hdone.next (.succeeds id) hadv

theorem completes_read (h : Ready id rule w) (i : RuleId) :
    Completes env source id rule rest 0 w (.firing (.evaluateAndFire rest) i .read) := by
  obtain ⟨pc', w', hadv⟩ : ∃ pc' w', Stage.read.advance env (.succeeds id) w
      (.evaluateAndFire rest) i = some (pc', w') := exists_advance h.unlocked _ _ _
  have hready : Ready id rule w' := h.firing hadv
  rcases continues_of_advance hadv with ⟨stage', rfl, hgoes⟩ | ⟨result, rfl⟩
  · have hread' : stage' ≠ .read := by
      cases hgoes
      simp
    have hrest : Completes env source id rule rest 0 w' (.firing _ i stage') :=
      completes_firing hready i stage' hread'
    exact hrest.next (.succeeds id) hadv
  · have hdone : Completes env source id rule rest 0 w' (evaluateNext rest) := .done hready
    exact hdone.next (.succeeds id) hadv

/-! Rule `id` fires at every entry when the values satisfy its condition and the clock
moves past its cooldown and its duration in between. -/

/-- It is enough to reach the section when the cooldown `c` is over. -/
theorem completes_of_free (c : Duration) (hready : Ready id rule w)
    (h : ∀ w, Ready id rule w →
      (∀ last, w.cooldowns.lookup id = some last → c ≤ w.now - last) →
      Completes env source id rule rest k w pc) :
    Completes env source id rule rest k w pc := by
  refine Completes.tick ((w.cooldowns.lookup id).getD 0 + c) (h _ (hready.tick _) ?_)
  intro last hlast
  have hslot : (w.cooldowns.lookup id).getD 0 = last := by
    rw [show w.cooldowns.lookup id = some last from hlast, getD_some]
  show c ≤ w.now + ((w.cooldowns.lookup id).getD 0 + c) - last
  rw [hslot]
  dsimp only [Instant, Duration] at *
  omega

section Fires

variable {clone : CompiledRule F}

theorem completes_actions (h : Ready id rule w) (p : Progress) (todo : List (RuleAction F)) :
    Completes env source id rule rest todo.length w
      (.firing (.evaluateAndFire rest) id (.actions clone p todo)) := by
  induction todo generalizing p with
  | nil => exact completes_firing h id _ (by simp)
  | cons action todo ih =>
    have hadv : Pc.advance env 0 (.succeeds id) w (.firing (.evaluateAndFire rest) id
        (.actions clone p (action :: todo))) =
        some (.firing (.evaluateAndFire rest) id
          (.actions clone (p.record (.ok "")) todo), w) := rfl
    have hrun := (ih (p.record (.ok ""))).section_ (.succeeds id) hadv
    simpa [Pc.executes] using hrun

variable (hclone : clone.stateless = rule.stateless)

include hclone

theorem completes_claim (h : Ready id rule w) :
    Completes env source id rule rest rule.actions.length w
      (.firing (.evaluateAndFire rest) id (.claim clone)) := by
  refine completes_of_free clone.cooldown h fun w h hfree => ?_
  have hclaim := tryClaimCooldown_eq_some.mpr ⟨rfl, hfree⟩
  have hadv : Stage.advance env (.succeeds id) w (.evaluateAndFire rest) id (.claim clone) =
      some (.firing (.evaluateAndFire rest) id (.actions clone ⟨w.now, [], none⟩ clone.actions),
        { w with cooldowns := w.cooldowns.insert id w.now }) := by
    simp only [Stage.advance, hclaim]
  have hactions : Completes env source id rule rest clone.actions.length
      { w with cooldowns := w.cooldowns.insert id w.now }
      (.firing (.evaluateAndFire rest) id (.actions clone ⟨w.now, [], none⟩ clone.actions)) :=
    completes_actions (h.firing hadv) _ _
  rw [← actions_of_stateless hclone]
  exact hactions.next (.succeeds id) hadv

theorem completes_elapsed (h : Ready id rule w) (t : Instant) :
    Completes env source id rule rest rule.actions.length w
      (.firing (.evaluateAndFire rest) id (.elapsed clone t)) := by
  -- wait until the condition has held for long enough
  apply Completes.tick (t + clone.forDuration.getD 0)
  have hready := h.tick (t + clone.forDuration.getD 0)
  refine (completes_claim hclone hready).next (.succeeds id) ?_
  simp only [Pc.advance, Stage.advance]
  cases hdur : clone.forDuration with
  | none => rfl
  | some dur =>
    have hlong : ¬ w.now + (t + dur) - t < dur := by
      dsimp only [Instant, Duration] at *
      omega
    simp only [getD_some, if_neg hlong]

theorem completes_since (h : Ready id rule w) :
    Completes env source id rule rest rule.actions.length w
      (.firing (.evaluateAndFire rest) id (.since clone true)) := by
  obtain ⟨cur, hcur, -⟩ := map_eq_some_iff.mp h.rules
  cases hsince : cur.state.conditionSince with
  | none =>
    -- the timing starts, and its start is saved
    have hadv : Stage.advance env (.succeeds id) w (.evaluateAndFire rest) id
        (.since clone true) =
        some (.firing (.evaluateAndFire rest) id (.sinceSave clone true (some w.now)
          (cur.withConditionSince (some w.now))),
          w.insertRule (cur.withConditionSince (some w.now))) := by
      simp only [Stage.advance, World.updateConditionSince, hcur, hsince]
      exact if_pos h.unlocked
    have hsaved : Stage.advance env (.succeeds id)
        (w.insertRule (cur.withConditionSince (some w.now))) (.evaluateAndFire rest) id
        (.sinceSave clone true (some w.now) (cur.withConditionSince (some w.now))) =
        some (.firing (.evaluateAndFire rest) id (.elapsed clone w.now), _) := rfl
    have helapsed : Completes env source id rule rest rule.actions.length _
        (.firing (.evaluateAndFire rest) id (.elapsed clone w.now)) :=
      completes_elapsed hclone ((h.firing hadv).firing hsaved) w.now
    have hsave : Completes env source id rule rest rule.actions.length _
        (.firing (.evaluateAndFire rest) id (.sinceSave clone true (some w.now)
          (cur.withConditionSince (some w.now)))) := helapsed.next (.succeeds id) hsaved
    exact hsave.next (.succeeds id) hadv
  | some t =>
    have hadv : Stage.advance env (.succeeds id) w (.evaluateAndFire rest) id
        (.since clone true) =
        some (.firing (.evaluateAndFire rest) id (.elapsed clone t), w) := by
      simp only [Stage.advance, World.updateConditionSince, hcur, hsince]
      exact if_pos h.unlocked
    exact (completes_elapsed hclone h t).next (.succeeds id) hadv

theorem completes_condition (hsat : rule.Satisfiable env) (h : Ready id rule w) :
    Completes env source id rule rest rule.actions.length w
      (.firing (.evaluateAndFire rest) id (.condition clone)) := by
  obtain ⟨cond, hcond, values, hvalues⟩ := hsat
  apply Completes.provide values
  have hadv : Stage.advance env (.succeeds id) { w with values := values }
      (.evaluateAndFire rest) id (.condition clone) =
      some (.firing (.evaluateAndFire rest) id (conditionMetStage (.evaluateAndFire rest) clone),
        { w with values := values }) := by
    simp only [Stage.advance, condition_of_stateless hclone, hcond, hvalues, if_true]
  refine Completes.next (.succeeds id) ?_ hadv
  unfold conditionMetStage
  split
  · exact completes_since hclone (h.provide values)
  · exact completes_claim hclone (h.provide values)

theorem completes_cooldown (hsat : rule.Satisfiable env) (h : Ready id rule w) :
    Completes env source id rule rest rule.actions.length w
      (.firing (.evaluateAndFire rest) id (.cooldown clone)) := by
  refine completes_of_free clone.cooldown h fun w h hfree => ?_
  have hover : w.isInCooldown id clone = false := by
    unfold World.isInCooldown
    cases hlast : w.cooldowns.lookup id with
    | none => rfl
    | some last => exact decide_eq_false (Nat.not_lt.mpr (hfree last hlast))
  have hadv : Stage.advance env (.succeeds id) w (.evaluateAndFire rest) id
      (.cooldown clone) = some (.firing (.evaluateAndFire rest) id (.condition clone), w) := by
    simp only [Stage.advance, hover]
    rfl
  exact (completes_condition hclone hsat h).next (.succeeds id) hadv

end Fires

theorem completes_entry (henabled : rule.enabled = true) (hsat : rule.Satisfiable env)
    (h : Ready id rule w) :
    Completes env source id rule rest rule.actions.length w
      (.firing (.evaluateAndFire rest) id .read) := by
  obtain ⟨clone, hlookup, hclone⟩ := map_eq_some_iff.mp h.rules
  have hadv : Stage.advance env (.succeeds id) w (.evaluateAndFire rest) id .read =
      some (.firing (.evaluateAndFire rest) id (.cooldown clone), w) := by
    simp only [Stage.advance, hlookup, enabled_of_stateless hclone, henabled, if_true]
  exact (completes_cooldown hclone hsat h).next (.succeeds id) hadv

/-- An update can fire a satisfiable rule at every entry of the index. -/
theorem completes_update (henabled : rule.enabled = true) (hsat : rule.Satisfiable env)
    (ids : List RuleId) (h : Ready id rule w) :
    Completes env source id rule [] (ids.count id * rule.actions.length) w (evaluateNext ids) := by
  induction ids generalizing w with
  | nil => exact (Completes.done h).mono (by simp)
  | cons i ids ih =>
    by_cases hi : i = id
    · subst hi
      have hentry : Completes env source i rule ids rule.actions.length w
          (evaluateNext (i :: ids)) := completes_entry henabled hsat h
      obtain ⟨tr, w', hrun, hcalls, hk, hready⟩ := hentry
      obtain ⟨tr', w'', hrun', hcalls', hk', hready'⟩ := ih hready
      refine ⟨tr' ++ tr, w'', hrun.append hrun', within_append.mpr ⟨hcalls', hcalls⟩, ?_, hready'⟩
      rw [count_cons_self, Nat.add_mul, Nat.one_mul, executions, countP_append]
      exact Nat.add_le_add hk' hk
    · have hother : Completes env source id rule ids 0 w (evaluateNext (i :: ids)) :=
        completes_read h i
      obtain ⟨tr, w', hrun, hcalls, -, hready⟩ := hother
      obtain ⟨tr', w'', hrun', hcalls', hk', hready'⟩ := ih hready
      refine ⟨tr' ++ tr, w'', hrun.append hrun', within_append.mpr ⟨hcalls', hcalls⟩, ?_, hready'⟩
      rw [count_cons_of_ne hi, executions, countP_append]
      exact Nat.le_add_right_of_le hk'

end AtLeast

/-! ## Exactly when -/

/-- Whatever updates and executions run: an update runs the actions of a finalized rule at
most once, exactly if the rule has no actions, or at most one leaf of its condition reads
the updated source, or the rule is disabled, or its condition cannot hold. -/
theorem fires_at_most_once_iff [F64 F] {env : Env F} {w : World F} {source : DataSourceId}
    {id : RuleId} {rule : CompiledRule F} (hlock : w.rulesReaders = [])
    (hindex : Agrees w.subscriptionIndex w.rules) (hrule : w.rules.lookup id = some rule)
    (hfinal : rule.Finalized) :
    (∀ tr s n task, Run (step env) (Server.idle w) tr s →
        Within (Calls fun _ c => c.fires = true) tr → s.tasks[n]? = some task →
        task.call = .onDataUpdate source → executions n id tr ≤ rule.actions.length) ↔
      rule.actions = [] ∨ rule.reads source.storageKey ≤ 1 ∨ rule.enabled = false ∨
        ¬ rule.Satisfiable env := by
  have hcount : (listed w.subscriptionIndex source.storageKey).count id =
      rule.reads source.storageKey := by
    rw [hindex, subscriptions, hrule]
    exact count_keys_of_finalized hfinal _
  constructor
  · intro hbound
    by_contra hcond
    simp only [not_or, not_le, not_not, Bool.not_eq_false] at hcond
    obtain ⟨hactions, hreads, henabled, hsat⟩ := hcond
    have hready : Ready id rule w := ⟨hlock, by rw [hrule, map_some]⟩
    -- the update looks up its rules and fires this one at each entry
    have hupdate : Completes env source id rule []
        (rule.reads source.storageKey * rule.actions.length) w (.lookup source) := by
      rw [← hcount]
      exact (completes_update henabled hsat _ hready).next (.succeeds id) rfl
    obtain ⟨tr, w', hrun, hcalls, hk, -⟩ := hupdate
    have hcall : step env (Server.idle w) (.call (.onDataUpdate source)) =
        some (.one source w (.lookup source)) := rfl
    have hle := hbound _ _ 0 ⟨.onDataUpdate source, _⟩ ((Run.nil.snoc hcall).append hrun)
      (within_append.mpr ⟨hcalls, within_cons.mpr ⟨rfl, within_nil _⟩⟩) rfl rfl
    rw [executions, countP_append] at hle
    have hpos : 0 < rule.actions.length := length_pos_iff.mpr hactions
    have htwice : 2 * rule.actions.length ≤
        rule.reads source.storageKey * rule.actions.length :=
      Nat.mul_le_mul_right _ hreads
    unfold executions at hk
    omega
  · intro hcond tr s n task hrun hcalls hn hcall
    have hle : ∀ limit, (rule.enabled = true → rule.Satisfiable env →
        rule.actions.length ≤ limit) →
        executions n id tr ≤ rule.reads source.storageKey * limit := by
      intro limit hlimit
      rw [← hcount]
      exact executions_le hrun hcalls hrule hlimit hn hcall
    rcases hcond with hactions | hreads | hdisabled | hunsat
    · have hzero := hle 0 fun _ _ => by simp [hactions]
      omega
    · calc executions n id tr
          ≤ rule.reads source.storageKey * rule.actions.length := hle _ fun _ _ => le_rfl
        _ ≤ 1 * rule.actions.length := Nat.mul_le_mul_right _ hreads
        _ = rule.actions.length := Nat.one_mul _
    · have hzero := hle 0 fun henabled => by simp [hdisabled] at henabled
      omega
    · have hzero := hle 0 fun _ hsat => absurd hsat hunsat
      omega

namespace Sample

/-- The sample rule with its comparison twice, and no cooldown. -/
def twice : CompiledRule ℤ :=
  { rule with
    trigger := .dataChange [source, source]
    condition := some (.logical .and [condition, condition])
    cooldown := 0 }

end Sample

/-- The sample rule, which compares its source once. -/
theorem fires_at_most_once_iff_once :
    Sample.rule.reads Sample.source.storageKey = 1 ∧
      ((∀ tr s n task, Run (step Sample.env) (Server.idle (Sample.loaded Sample.rule)) tr s →
        Within (Calls fun _ c => c.fires = true) tr → s.tasks[n]? = some task →
        task.call = .onDataUpdate Sample.source →
        executions n Sample.id tr ≤ Sample.rule.actions.length) ↔
      Sample.rule.actions = [] ∨ Sample.rule.reads Sample.source.storageKey ≤ 1 ∨
        Sample.rule.enabled = false ∨ ¬ Sample.rule.Satisfiable Sample.env) :=
  ⟨by decide, fires_at_most_once_iff rfl (agrees_subscriptionsOf _) rfl rfl⟩

/-- One update fires the rule twice. -/
theorem one_update_fires_twice :
    Sample.twice.Finalized ∧
      ∃ tr s, Run (step Sample.env) (Server.idle (Sample.loaded Sample.twice)) tr s ∧
        Within (Calls fun _ c => c.fires = true) tr ∧
        (∃ task, s.tasks[0]? = some task ∧ task.call = .onDataUpdate Sample.source) ∧
        ¬ executions 0 Sample.id tr ≤ Sample.twice.actions.length := by
  refine ⟨rfl, ?_⟩
  obtain ⟨tr, s, hrun, hcalls, htask, htwo⟩ := exists_run (step Sample.env)
    (Server.idle (Sample.loaded Sample.twice))
    (.call (.onDataUpdate Sample.source) :: Sample.runs 0 19)
    (fun tr s => Within (Calls fun _ c => c.fires = true) tr ∧
      (s.tasks[0]?.any fun task => match task.call with
        | .onDataUpdate source => decide (source = Sample.source)
        | _ => false) = true ∧
      executions 0 Sample.id tr = 2) (by decide +kernel)
  refine ⟨tr, s, hrun, hcalls, ?_, ?_⟩
  · obtain ⟨task, hn, hcall⟩ := (Option.any_eq_true _ _).mp htask
    refine ⟨task, hn, ?_⟩
    split at hcall
    · rename_i source heq
      rw [heq, of_decide_eq_true hcall]
    · cases hcall
  · rw [htwo]
    decide

end HeraMind.Rules
