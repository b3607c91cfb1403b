/-
# Which call a section belongs to

A task stays inside the code of its call: from the section it is at one can read off what
kind of call it serves.  Restrictions on the calls of a run thereby become restrictions on
the sections its tasks can be at.  `Leads` lists the sections that can follow one another.
-/
import HeraMind.Lib.Calls
import HeraMind.Rules.Firing

namespace HeraMind.Rules

open Option List
open Transition

variable {F : Type}

/-! ## The call of a section -/

/-- The operations of the rules API. -/
def Call.isApi : Call F → Bool
  | .createRuleHandler _ | .updateRuleHandler _ _ | .setRuleStatusHandler _ _
  | .deleteRuleHandler _ | .importRulesHandler _ => true
  | _ => false

/-- The call defines a rule and saves it. -/
def Call.Defines (c : Call F) : Prop :=
  (∃ req, c = .createRuleHandler req) ∨ ∃ id req, c = .updateRuleHandler id req

/-- The call that fires a rule. -/
def Caller.of (id : RuleId) (c : Call F) : Caller → Prop
  | .evaluateAndFire _ => ∃ source, c = .onDataUpdate source
  | .executeRule _ => c = .executeRule id

def Origin.of (rule : CompiledRule F) (c : Call F) : Origin F → Prop
  | .engine => c = .addRule rule ∨ c = .updateRule rule
  | .handler => c.Defines
  | .importer _ _ _ _ => ∃ req, c = .importRulesHandler req

def After.of (c : Call F) : After F → Prop
  | .stored => ∃ rule, c = .addRule rule ∨ c = .updateRule rule
  | .saveRule _ => c.Defines
  | .dropCooldown id viaHandler => c = if viaHandler then .deleteRuleHandler id else .removeRule id
  | .importNext _ _ _ _ => ∃ req, c = .importRulesHandler req

/-- The calls that have the section in their code. -/
def Pc.of (c : Call F) : Pc F → Prop
  | .lookup source => c = .onDataUpdate source
  | .firing caller id _ => caller.of id c
  | .insert rule origin => origin.of rule c
  | .rebuild after | .rebuilding _ after => after.of c
  | .remove id viaHandler | .dropCooldown id viaHandler =>
    c = if viaHandler then .deleteRuleHandler id else .removeRule id
  | .create req => c = .createRuleHandler req
  | .update id req => c = .updateRuleHandler id req
  | .updateFull id _ _ _ => ∃ req, c = .updateRuleHandler id req
  | .saving _ => c.Defines
  | .deleting id => c = .deleteRuleHandler id
  | .setStatus id enabled | .statusRead id enabled | .statusSave _ id enabled =>
    c = .setRuleStatusHandler id enabled
  | .importRules req => c = .importRulesHandler req
  | .importing _ _ _ _ => ∃ req, c = .importRulesHandler req
  | .answered _ => True

theorem of_start (now : Instant) (c : Call F) : (c.start now).of c := by
  cases c with
  | addRule rule => exact Or.inl rfl
  | updateRule rule => exact Or.inr rfl
  | _ => rfl

variable {c : Call F}

theorem of_finish {caller : Caller} {id : RuleId} (h : caller.of id c)
    (result : RuleExecutionResult) : (caller.finish result : Pc F).of c := by
  cases caller with
  | executeRule start => trivial
  | evaluateAndFire rest =>
    cases rest with
    | nil => trivial
    | cons id' rest => exact h

theorem of_after {after : After F} (h : after.of c) : after.pc.of c := by
  cases after with
  | stored => trivial
  | saveRule rule | dropCooldown id viaHandler | importNext todo imported skipped errors => exact h

theorem of_origin {origin : Origin F} {rule : CompiledRule F}
    (h : origin.of rule c) : (origin.after rule).of c := by
  cases origin with
  | engine => exact ⟨rule, h⟩
  | handler | importer todo imported skipped errors => exact h

/-- The calls that fire rules. -/
def Call.fires : Call F → Bool
  | .onDataUpdate _ | .executeRule _ => true
  | _ => false

variable {pc : Pc F}

/-- A call that fires rules is looking up the rules, firing one, or over. -/
theorem pc_of_fires (hc : c.fires = true) (hof : pc.of c) :
    (∃ source, pc = .lookup source) ∨ (∃ caller id stage, pc = .firing caller id stage) ∨
      ∃ reply, pc = .answered reply := by
  cases pc with
  | lookup source => exact Or.inl ⟨source, rfl⟩
  | firing caller id stage => exact Or.inr (Or.inl ⟨caller, id, stage, rfl⟩)
  | answered reply => exact Or.inr (Or.inr ⟨reply, rfl⟩)
  | insert rule origin =>
    cases origin <;> cases c <;> simp [Pc.of, Origin.of, Call.Defines, Call.fires] at hof hc
  | rebuild after | rebuilding idx after =>
    cases after with
    | dropCooldown id viaHandler =>
      cases viaHandler <;> cases c <;> simp [Pc.of, After.of, Call.fires] at hof hc
    | _ => cases c <;> simp [Pc.of, After.of, Call.Defines, Call.fires] at hof hc
  | remove id viaHandler | dropCooldown id viaHandler =>
    cases viaHandler <;> cases c <;> simp [Pc.of, Call.fires] at hof hc
  | _ => cases c <;> simp [Pc.of, Call.Defines, Call.fires] at hof hc

variable [F64 F] {env : Env F}

/-! ## Where a section leads -/

/-- From one section of a task to the next. -/
inductive Leads (env : Env F) (choice : Choice) (w : World F) : Pc F → Pc F → Prop
  | lookup {source : DataSourceId} :
      Leads env choice w (.lookup source) (evaluateNext (w.affected source.storageKey))
  | firing {caller : Caller} {id : RuleId} {stage : Stage F} {pc' : Pc F} :
      Continues env choice w caller id stage pc' →
      Leads env choice w (.firing caller id stage) pc'
  | insert {rule : CompiledRule F} {origin : Origin F} :
      Leads env choice w (.insert rule origin) (.rebuild (origin.after rule))
  | rebuild {after : After F} :
      Leads env choice w (.rebuild after) (.rebuilding (World.subscriptionsOf w.rules) after)
  | rebuilding {idx : HashMap String (List RuleId)} {after : After F} :
      Leads env choice w (.rebuilding idx after) after.pc
  | remove {id : RuleId} {viaHandler : Bool} :
      Leads env choice w (.remove id viaHandler) (.rebuild (.dropCooldown id viaHandler))
  | delete {id : RuleId} : Leads env choice w (.dropCooldown id true) (.deleting id)
  | create {req : Json F} {rule : CompiledRule F} :
      prepareCreate env w.devices w.now choice.freshId req = .ok rule →
      Leads env choice w (.create req) (.insert rule .handler)
  | updateFull {id : RuleId} {req : Json F} {parsed : CompiledRule F} :
      hasFullDefinition req = true → env.parseRule choice.freshId req = .ok parsed →
      Leads env choice w (.update id req)
        (.updateFull id (.ofRequest req) parsed (w.rules.lookup id))
  | updatePartial {id : RuleId} {req : Json F} {cur : CompiledRule F} :
      hasFullDefinition req = false → w.rules.lookup id = some cur →
      Leads env choice w (.update id req)
        (.insert (partialUpdate env w.now (.ofRequest req) cur) .handler)
  | replace {id : RuleId} {fields : UpdateFields F} {parsed rule : CompiledRule F}
      {existing : Option (CompiledRule F)} :
      prepareFullUpdate env w.devices w.now id fields parsed existing = .ok rule →
      Leads env choice w (.updateFull id fields parsed existing) (.insert rule .handler)
  | setStatus {id : RuleId} {enabled : Bool} :
      Leads env choice w (.setStatus id enabled) (.statusRead id enabled)
  | statusRead {id : RuleId} {enabled : Bool} {rule : CompiledRule F} :
      Leads env choice w (.statusRead id enabled) (.statusSave rule id enabled)
  | importRules {req : Json F} {todo : List (Json F)} :
      Leads env choice w (.importRules req) (.importing todo 0 0 [])
  | importing {value : Json F} {todo : List (Json F)} {imported skipped : ℕ}
      {errors : List String} {parsed : CompiledRule F} :
      env.parseRule choice.freshId value = .ok parsed →
      Leads env choice w (.importing (value :: todo) imported skipped errors)
        (.insert (parsed.finalize env w.now) (.importer todo (imported + 1) skipped errors))
  | skipping {value : Json F} {todo : List (Json F)} {imported skipped : ℕ}
      {errors : List String} {e : String} :
      Leads env choice w (.importing (value :: todo) imported skipped errors)
        (.importing todo imported (skipped + 1) (errors ++ [importError value e]))
  | answer {pc : Pc F} {reply : Reply F} : Leads env choice w pc (.answered reply)

variable {choice : Choice} {w w' : World F} {n : ℕ}

theorem leads_of_advance {pc pc' : Pc F}
    (h : pc.advance env n choice w = some (pc', w')) : Leads env choice w pc pc' := by
  cases pc with
  | lookup source =>
    cases h
    exact .lookup
  | firing caller id stage => exact .firing (continues_of_advance h)
  | insert rule origin =>
    simp only [Pc.advance, lockRules_eq_some] at h
    cases h.2
    exact .insert
  | rebuild after =>
    cases h
    exact .rebuild
  | rebuilding idx after =>
    cases h
    exact .rebuilding
  | remove id viaHandler =>
    simp only [Pc.advance] at h
    split at h
    all_goals
      rw [lockRules_eq_some] at h
      cases h.2
    · exact .remove
    · exact .answer
  | dropCooldown id viaHandler =>
    cases h
    cases viaHandler with
    | false => exact .answer
    | true => exact .delete
  | create req =>
    cases h
    cases hprep : prepareCreate env w.devices w.now choice.freshId req with
    | error e => exact .answer
    | ok rule => exact .create hprep
  | update id req =>
    simp only [Pc.advance, updateRead] at h
    split at h
    · cases h
      exact .answer
    · split at h
      · rename_i hfull
        split at h
        all_goals cases h
        · exact .answer
        · rename_i hparsed
          exact .updateFull hfull hparsed
      · rename_i hpartial
        split at h
        all_goals cases h
        · exact .answer
        · rename_i hcur
          exact .updatePartial (by simpa using hpartial) hcur
  | updateFull id fields parsed existing =>
    cases h
    cases hprep : prepareFullUpdate env w.devices w.now id fields parsed existing with
    | error e => exact .answer
    | ok rule => exact .replace hprep
  | saving rule | deleting id =>
    cases h
    exact .answer
  | setStatus id enabled =>
    simp only [Pc.advance] at h
    split at h
    all_goals
      rw [lockRules_eq_some] at h
      cases h.2
    · exact .setStatus
    · exact .answer
  | statusRead id enabled =>
    simp only [Pc.advance] at h
    split at h
    all_goals cases h
    · exact .statusRead
    · exact .answer
  | statusSave rule id enabled =>
    cases h
    exact .answer
  | importRules req =>
    simp only [Pc.advance] at h
    split at h
    all_goals cases h
    · exact .importRules
    · exact .answer
  | importing todo imported skipped errors =>
    cases todo with
    | nil =>
      cases h
      exact .answer
    | cons value todo =>
      simp only [Pc.advance, importNext] at h
      split at h
      all_goals cases h
      · rename_i hparsed
        exact .importing hparsed
      · exact .skipping
  | answered reply => cases h

/-- A section leads to a section of the same call. -/
theorem of_advance {pc pc' : Pc F}
    (h : pc.of c) (hadv : pc.advance env n choice w = some (pc', w')) : pc'.of c := by
  cases leads_of_advance hadv with
  | lookup =>
    -- an update without rules to evaluate is answered at once
    cases w.affected _ with
    | nil => trivial
    | cons id rest => exact ⟨_, h⟩
  | firing hcontinues =>
    rcases hcontinues with ⟨stage', rfl, -⟩ | ⟨result, rfl⟩
    · exact h
    · exact of_finish h result
  | insert => exact of_origin h
  | rebuilding => exact of_after h
  | create hprep => exact Or.inl ⟨_, h⟩
  | updateFull hfull hparsed => exact ⟨_, h⟩
  | updatePartial hpartial hcur => exact Or.inr ⟨_, _, h⟩
  | replace hprep =>
    obtain ⟨req, h⟩ := h
    exact Or.inr ⟨_, req, h⟩
  | importRules => exact ⟨_, h⟩
  | answer => trivial
  | _ => exact h

omit [F64 F] in
theorem finish_ne_insert (caller : Caller) (result : RuleExecutionResult)
    (rule : CompiledRule F) (origin : Origin F) : caller.finish result ≠ .insert rule origin := by
  cases caller with
  | executeRule start => simp [Caller.finish]
  | evaluateAndFire rest => cases rest <;> simp [Caller.finish, evaluateNext]

/-- Where a rule to insert comes from: a creation, a partial update of the current rule, a
full update, or an import. -/
inductive Inserts (env : Env F) (w : World F) (choice : Choice) (rule : CompiledRule F) :
    Pc F → Origin F → Prop
  | create {req : Json F} :
      prepareCreate env w.devices w.now choice.freshId req = .ok rule →
      Inserts env w choice rule (.create req) .handler
  | updatePartial {id : RuleId} {req : Json F} {cur : CompiledRule F} :
      hasFullDefinition req = false → w.rules.lookup id = some cur →
      rule = partialUpdate env w.now (UpdateFields.ofRequest req) cur →
      Inserts env w choice rule (.update id req) .handler
  | updateFull {id : RuleId} {fields : UpdateFields F} {parsed : CompiledRule F}
      {existing : Option (CompiledRule F)} :
      prepareFullUpdate env w.devices w.now id fields parsed existing = .ok rule →
      Inserts env w choice rule (.updateFull id fields parsed existing) .handler
  | importing {value : Json F} {todo : List (Json F)} {imported skipped : ℕ}
      {errors : List String} {parsed : CompiledRule F} :
      env.parseRule choice.freshId value = .ok parsed → rule = parsed.finalize env w.now →
      Inserts env w choice rule (.importing (value :: todo) imported skipped errors)
        (.importer todo (imported + 1) skipped errors)

/-- A section that leads to an insertion only computed the rule to insert. -/
theorem inserts_of_advance {rule : CompiledRule F} {origin : Origin F}
    (h : pc.advance env n choice w = some (.insert rule origin, w')) :
    w' = w ∧ Inserts env w choice rule pc origin := by
  have hleads := leads_of_advance h
  generalize hpc' : Pc.insert rule origin = pc' at hleads
  cases hleads with
  | lookup =>
    exact absurd hpc'.symm (finish_ne_insert (.evaluateAndFire _)
      (notExecuted (.evaluateAndFire []) 0 ⟨0⟩ "" "" false) _ _)
  | firing hcontinues =>
    rcases hcontinues with ⟨stage', rfl, -⟩ | ⟨result, rfl⟩
    · cases hpc'
    · exact absurd hpc'.symm (finish_ne_insert _ _ _ _)
  | @rebuilding idx after => cases after <;> cases hpc'
  | create hprep =>
    cases hpc'
    exact ⟨(congrArg Prod.snd (some.inj h)).symm, .create hprep⟩
  | updatePartial hpartial hcur =>
    cases hpc'
    exact ⟨(congrArg Prod.snd (some.inj h)).symm, .updatePartial hpartial hcur rfl⟩
  | replace hprep =>
    cases hpc'
    exact ⟨(congrArg Prod.snd (some.inj h)).symm, .updateFull hprep⟩
  | importing hparsed =>
    cases hpc'
    exact ⟨(congrArg Prod.snd (some.inj h)).symm, .importing hparsed rfl⟩
  | _ => cases hpc'

/-- A task is at a section of a firing because the firing went on to it, or starts. -/
theorem firing_of_advance {caller : Caller} {id : RuleId} {stage' : Stage F}
    (h : pc.advance env n choice w = some (.firing caller id stage', w')) :
    (∃ stage, pc = .firing caller id stage ∧ Goes env choice w caller id stage stage') ∨
      stage' = .read := by
  have hleads := leads_of_advance h
  generalize hpc' : Pc.firing caller id stage' = pc' at hleads
  cases hleads with
  | lookup => exact Or.inr (firing_of_evaluateNext hpc'.symm)
  | @firing caller' id' stage pc' hcontinues =>
    rcases hcontinues with ⟨stage'', rfl, hgoes⟩ | ⟨result, rfl⟩
    · cases hpc'
      exact Or.inl ⟨stage, rfl, hgoes⟩
    · exact Or.inr (firing_of_finish hpc'.symm)
  | @rebuilding idx after => cases after <;> cases hpc'
  | _ => cases hpc'

/-! ## Runs -/

/-- The calls a run may make, and when. -/
def Calls (p : Server F → Call F → Prop) (s : Server F) : Label F → Prop
  | .call c => p s c
  | _ => True

instance {p : Server F → Call F → Prop} [∀ s c, Decidable (p s c)] (s : Server F)
    (a : Label F) : Decidable (Calls p s a) := by
  cases a <;> unfold Calls <;> infer_instance

/-- Every task is at a section of its own call, and its call is one of those allowed. -/
def Server.Serves (p : Call F → Prop) (s : Server F) : Prop :=
  ∀ task ∈ s.tasks, p task.call ∧ task.pc.of task.call

omit [F64 F] in
theorem serves_idle (p : Call F → Prop) (w : World F) : (Server.idle w).Serves p := by
  intro task htask
  cases htask

theorem serves_step {p : Call F → Prop} {s s' : Server F} {a : Label F} (h : s.Serves p)
    (hG : Calls (fun _ c => p c) s a) (hs : step env s a = some s') : s'.Serves p := by
  cases a with
  | tick d | provide values | register devices =>
    cases hs
    exact h
  | call c =>
    cases hs
    exact forall_mem_append.mpr ⟨h, forall_mem_singleton.mpr ⟨hG, of_start _ _⟩⟩
  | run n choice =>
    obtain ⟨task, pc, w, hn, hadv, rfl⟩ := step_run hs
    obtain ⟨hcall, hof⟩ := h task (mem_of_getElem? hn)
    exact Calls.forall_mem_set h ⟨hcall, of_advance hof hadv⟩

/-- A task that fires rules leaves the index, its lock and the definitions of the rules
alone. -/
theorem frame_of_fires {task : Task F} (hcall : task.call.fires = true) (hof : task.pc.of task.call)
    (hadv : task.pc.advance env n choice w = some (pc, w')) :
    w'.subscriptionIndex = w.subscriptionIndex ∧ w'.rulesReaders = w.rulesReaders ∧
      ∀ i, (w'.rules.lookup i).map CompiledRule.stateless =
        (w.rules.lookup i).map CompiledRule.stateless := by
  rcases pc_of_fires hcall hof with ⟨source, hpc⟩ | ⟨caller, id, stage, hpc⟩ | ⟨reply, hpc⟩
  · rw [hpc] at hadv
    cases hadv
    exact ⟨rfl, rfl, fun _ => rfl⟩
  · rw [hpc] at hadv
    have heffect := effect_of_stage (n := n) hadv
    exact ⟨(locks_of_firing heffect).1, (locks_of_firing heffect).2, stateless_of_firing heffect⟩
  · rw [hpc] at hadv
    cases hadv

/-! ## One call at a time -/

/-- At most the newest call is in progress. -/
def Server.OneActive (s : Server F) : Prop :=
  ∀ m t, s.tasks[m]? = some t → m + 1 < s.tasks.length → t.pc.isAnswered = true

omit [F64 F] in
theorem oneActive_idle (w : World F) : (Server.idle w).OneActive := by
  intro m t ht
  simp [Server.idle] at ht

theorem advance_of_isAnswered {w : World F}
    (h : pc.isAnswered = true) : pc.advance env n choice w = none := by
  cases pc with
  | answered reply => rfl
  | _ => cases h

theorem oneActive_step {s s' : Server F} {a : Label F} (h : s.OneActive)
    (hG : Calls (fun s _ => s.Quiescent) s a) (hs : step env s a = some s') :
    s'.OneActive := by
  cases a with
  | tick d | provide values | register devices =>
    cases hs
    exact h
  | call c =>
    cases hs
    intro m t ht hlt
    rcases getElem?_addTask.mp ht with ht | ⟨rfl, -⟩
    · exact hG t (mem_of_getElem? ht)
    · simp at hlt
  | run n choice =>
    obtain ⟨task, pc, w, hn, hadv, rfl⟩ := step_run hs
    intro m t ht hlt
    simp only [length_set] at hlt
    rcases (getElem?_setTask hn).mp ht with ⟨rfl, -⟩ | ⟨-, ht⟩
    · have hnone : task.pc.advance env m choice s.world = none :=
        advance_of_isAnswered (h m task hn hlt)
      rw [hnone] at hadv
      cases hadv
    · exact h m t ht hlt

/-- While a task moves, all others have answered. -/
theorem Server.OneActive.others {s : Server F} (h : s.OneActive) {n m : ℕ} {task t : Task F}
    {w : World F} (hn : s.tasks[n]? = some task)
    (hadv : task.pc.advance env n choice s.world = some (pc, w)) (hm : s.tasks[m]? = some t)
    (hne : m ≠ n) : t.pc.isAnswered = true := by
  have hlast : ¬ n + 1 < s.tasks.length := by
    intro hlt
    rw [advance_of_isAnswered (h n task hn hlt)] at hadv
    cases hadv
  have hmlt : m < s.tasks.length := (List.getElem?_eq_some_iff.mp hm).1
  have hnlt : n < s.tasks.length := (List.getElem?_eq_some_iff.mp hn).1
  exact h m t hm (by omega)

end HeraMind.Rules
