/-
# No lost update

A request reads a rule, edits its copy and writes the copy back, and a firing counts itself
in the rule in memory.  Nothing in the source keeps the write from undoing what happened
since the read.  The theorem says that this is all that can go wrong: when every copy that
is written back still agrees with the rule in memory on the trigger count and on the
fields that the request does not set, no firing and no edit is lost.
-/
import HeraMind.Rules.Control

namespace HeraMind.Rules

open Option hiding all_eq_true
open List
open Transition

variable {F : Type}

/-! ## The fields of a rule -/

/-- The fields of a rule that a request can set. -/
inductive RuleField : Type where
  | name
  | description
  | enabled
  | tags
  | trigger
  | condition
  | actions
  | cooldown
  | forDuration
  | source

/-- The values of a field. -/
def RuleField.Value (F : Type) : RuleField → Type
  | .name => String
  | .description => Option String
  | .enabled => Bool
  | .tags => List String
  | .trigger => RuleTrigger
  | .condition => Option (RuleCondition F)
  | .actions => List (RuleAction F)
  | .cooldown => Duration
  | .forDuration => Option Duration
  | .source => Option (Json F)

/-- The value of a field of a rule. -/
def CompiledRule.get (rule : CompiledRule F) : (f : RuleField) → f.Value F
  | .name => rule.name
  | .description => rule.description
  | .enabled => rule.enabled
  | .tags => rule.tags
  | .trigger => rule.trigger
  | .condition => rule.condition
  | .actions => rule.actions
  | .cooldown => rule.cooldown
  | .forDuration => rule.forDuration
  | .source => rule.source

/-- The runtime state is no field. -/
theorem get_of_stateless {rule rule' : CompiledRule F} (h : rule.stateless = rule'.stateless)
    (f : RuleField) : rule.get f = rule'.get f := by
  have heq : rule.stateless.get f = rule'.stateless.get f := by rw [h]
  cases f <;> exact heq

/-- What a full update sets: the whole definition, and `enabled` if it is mentioned. -/
def fullSets (fields : UpdateFields F) (parsed : CompiledRule F) :
    (f : RuleField) → Option (f.Value F)
  | .name => some (fields.name.getD parsed.name)
  | .description => some (fields.description.orElse fun _ => parsed.description)
  | .enabled => fields.enabled
  | .tags => some parsed.tags
  | .trigger => some (parsed.trigger.refreshed parsed.condition)
  | .condition => some parsed.condition
  | .actions => some parsed.actions
  | .cooldown => some parsed.cooldown
  | .forDuration => some parsed.forDuration
  | .source => some fields.source

/-- What a partial update sets: the fields it mentions. -/
def partialSets (fields : UpdateFields F) : (f : RuleField) → Option (f.Value F)
  | .name => fields.name
  | .description => fields.description.map some
  | .enabled => fields.enabled
  | .source => fields.source.map some
  | _ => none

/-- What enabling or disabling sets. -/
def statusSets (enabled : Bool) : (f : RuleField) → Option (f.Value F)
  | .enabled => some enabled
  | _ => none

/-- The value to which a request sets a field of rule `id`. -/
def Call.sets (env : Env F) (id : RuleId) (f : RuleField) : Call F → Option (f.Value F)
  | .updateRuleHandler i req =>
    if i = id then
      if hasFullDefinition req then
        match env.fromValue req with
        | .ok parsed => fullSets (.ofRequest req) parsed f
        | .error _ => none
      else partialSets (.ofRequest req) f
    else none
  | .setRuleStatusHandler i enabled => if i = id then statusSets enabled f else none
  | _ => none

/-- The calls that fire rules or edit them. -/
def Call.edits : Call F → Bool
  | .onDataUpdate _ | .executeRule _ | .updateRuleHandler _ _ | .setRuleStatusHandler _ _ => true
  | _ => false

/-! ## How far a request has come -/

/-- The request has written the rule. -/
def Pc.written : Pc F → Bool
  | .rebuild _ | .rebuilding _ _ | .saving _ | .statusRead _ _ | .statusSave _ _ _
  | .answered (.rule _) | .answered (.status _ _) => true
  | _ => false

/-- The request was answered with success. -/
def Task.succeeded (t : Task F) : Bool :=
  match t.pc with
  | .answered (.rule _) | .answered (.status _ _) => true
  | _ => false

/-- The firing of rule `id` has counted itself and is not recorded yet. -/
def Pc.counted (id : RuleId) : Pc F → Bool
  | .firing _ i (.triggerSave _ _ _) | .firing _ i (.record _ _) => i = id
  | _ => false

/-- The section records a firing of rule `id`, which completes it. -/
def Pc.records (id : RuleId) : Pc F → Bool
  | .firing _ i (.record _ _) => i = id
  | _ => false

/-- The number of firings of rule `id` that the run has completed. -/
def firings (id : RuleId) : List (Server F × Label F) → ℕ
  | [] => 0
  | (s, .run n _) :: tr =>
    firings id tr + if (s.tasks[n]?.any fun t => t.pc.records id) then 1 else 0
  | _ :: tr => firings id tr

/-- Call `m` was made after call `n` had been answered. -/
def calledAfter (n m : ℕ) : List (Server F × Label F) → Bool
  | [] => false
  | (s, .call _) :: tr =>
    (m = s.tasks.length && s.tasks[n]?.any fun t => t.pc.isAnswered) || calledAfter n m tr
  | _ :: tr => calledAfter n m tr

/-- The section does not belong to a firing. -/
def Pc.isEdit : Pc F → Prop
  | .lookup _ => True
  | .insert _ origin => origin = .handler
  | .rebuild _ | .rebuilding _ _ | .update _ _ | .updateFull _ _ _ _ | .saving _ | .setStatus _ _
  | .statusRead _ _ | .statusSave _ _ _ | .answered _ => True
  | _ => False

variable {c : Call F}

/-- A call that fires or edits rules is firing one, or at a section of an edit. -/
theorem pc_of_edits {pc : Pc F} (hc : c.edits = true) (hof : pc.of c) :
    (∃ caller id stage, pc = .firing caller id stage) ∨ pc.isEdit := by
  cases pc with
  | firing caller id stage => exact Or.inl ⟨caller, id, stage, rfl⟩
  | insert rule origin =>
    refine Or.inr ?_
    cases origin <;> cases c <;> simp [Pc.of, Origin.of, Call.edits, Pc.isEdit] at hof hc ⊢
  | remove id viaHandler | dropCooldown id viaHandler =>
    cases viaHandler <;> cases c <;> simp [Pc.of, Call.edits] at hof hc
  | lookup source | rebuild after | rebuilding idx after | update id req
  | updateFull id fields parsed existing | saving rule | setStatus id enabled
  | statusRead id enabled | statusSave rule id enabled | answered reply => exact Or.inr trivial
  | _ => cases c <;> simp [Pc.of, Call.edits] at hof hc

variable [F64 F] {env : Env F}

/-! ## One section -/

/-- What a section of an edit does to the rules. -/
inductive Edits (w : World F) : Pc F → Pc F → World F → Prop
  | keeps {pc pc' : Pc F} {w' : World F} :
      w'.rules = w.rules → pc'.written = pc.written → Edits w pc pc' w'
  | insert {rule : CompiledRule F} {pc' : Pc F} {w' : World F} :
      w'.rules = w.rules.put rule → pc'.written = true → Edits w (.insert rule .handler) pc' w'
  | setEnabled {id : RuleId} {enabled : Bool} {cur : CompiledRule F} {pc' : Pc F}
      {w' : World F} :
      w.rules.lookup id = some cur →
      w'.rules = w.rules.put { cur with enabled := enabled, updatedAt := w.now } →
      pc'.written = true → Edits w (.setStatus id enabled) pc' w'

omit [F64 F] in
theorem written_evaluateNext (rest : List RuleId) :
    (evaluateNext rest : Pc F).written = false := by
  cases rest <;> rfl

omit [F64 F] in
theorem counted_evaluateNext (id : RuleId) (rest : List RuleId) :
    (evaluateNext rest : Pc F).counted id = false := by
  cases rest <;> rfl

variable {choice : Choice} {w w' : World F}

theorem edits_of_advance {n : ℕ} {pc pc' : Pc F}
    (hpc : pc.isEdit) (hc : c.edits = true) (hof : pc.of c)
    (hadv : pc.advance env n choice w = some (pc', w')) :
    Edits w pc pc' w' ∧ ∀ id, pc.counted id = false ∧ pc'.counted id = false ∧
      pc.records id = false := by
  cases pc with
  | lookup source =>
    cases hadv
    exact ⟨.keeps rfl (written_evaluateNext _), fun id => ⟨rfl, counted_evaluateNext id _, rfl⟩⟩
  | insert rule origin =>
    cases hpc
    simp only [Pc.advance, lockRules_eq_some] at hadv
    obtain ⟨-, hadv⟩ := hadv
    cases hadv
    exact ⟨.insert rfl rfl, fun id => ⟨rfl, rfl, rfl⟩⟩
  | rebuild after =>
    cases hadv
    exact ⟨.keeps rfl rfl, fun id => ⟨rfl, rfl, rfl⟩⟩
  | rebuilding idx after =>
    cases hadv
    cases after with
    | saveRule rule => exact ⟨.keeps rfl rfl, fun id => ⟨rfl, rfl, rfl⟩⟩
    | stored =>
      obtain ⟨rule, hof⟩ := hof
      rcases hof with rfl | rfl <;> cases hc
    | dropCooldown i viaHandler =>
      cases viaHandler <;> simp only [Pc.of, After.of] at hof <;> subst hof <;> cases hc
    | importNext todo imported skipped errors =>
      obtain ⟨req, rfl⟩ := hof
      cases hc
  | update id req =>
    simp only [Pc.advance, updateRead] at hadv
    repeat' split at hadv
    all_goals
      cases hadv
      exact ⟨.keeps rfl rfl, fun id => ⟨rfl, rfl, rfl⟩⟩
  | updateFull id fields parsed existing =>
    cases hadv
    cases prepareFullUpdate env w.devices w.now id fields parsed existing <;>
      exact ⟨.keeps rfl rfl, fun id => ⟨rfl, rfl, rfl⟩⟩
  | saving rule =>
    cases hadv
    exact ⟨.keeps rfl rfl, fun id => ⟨rfl, rfl, rfl⟩⟩
  | setStatus id enabled =>
    simp only [Pc.advance, World.setEnabled] at hadv
    cases hcur : w.rules.lookup id with
    | none =>
      simp only [hcur, lockRules_eq_some] at hadv
      cases hadv.2
      exact ⟨.keeps rfl rfl, fun id => ⟨rfl, rfl, rfl⟩⟩
    | some cur =>
      simp only [hcur, lockRules_eq_some] at hadv
      obtain ⟨-, hadv⟩ := hadv
      cases hadv
      exact ⟨.setEnabled hcur rfl rfl, fun id => ⟨rfl, rfl, rfl⟩⟩
  | statusRead id enabled =>
    simp only [Pc.advance] at hadv
    split at hadv
    all_goals
      cases hadv
      exact ⟨.keeps rfl rfl, fun id => ⟨rfl, rfl, rfl⟩⟩
  | statusSave rule id enabled =>
    cases hadv
    exact ⟨.keeps rfl rfl, fun id => ⟨rfl, rfl, rfl⟩⟩
  | answered reply => cases hadv
  | _ => exact hpc.elim

variable {cur : CompiledRule F}

/-- A section of a firing other than the count changes of a rule at most how long its
condition has held. -/
theorem lookup_of_firing {caller : Caller} {i id : RuleId}
    {stage : Stage F} {pc' : Pc F} (hadv : stage.advance env choice w caller i = some (pc', w'))
    (hstage : ∀ rule p, stage ≠ .trigger rule p) (hcur : w.rules.lookup id = some cur) :
    ∃ cur', w'.rules.lookup id = some cur' ∧ cur'.stateless = cur.stateless ∧
      cur'.state.triggerCount = cur.state.triggerCount := by
  have heffect : Effect 0 w (.firing caller i stage) pc' w' := effect_of_stage hadv
  have hview := view_of_firing (f := fun rule => (rule.stateless, rule.state.triggerCount))
    heffect (fun _ _ => rfl) (fun rule p hpc => absurd hpc (hstage rule p)) id
  rw [hcur, map_some] at hview
  obtain ⟨cur', hcur', heq⟩ := map_eq_some_iff.mp hview
  exact ⟨cur', hcur', congrArg Prod.fst heq, congrArg Prod.snd heq⟩

omit [F64 F] in
theorem written_finish (caller : Caller) (result : RuleExecutionResult) :
    (caller.finish result : Pc F).written = false := by
  cases caller with
  | evaluateAndFire rest => exact written_evaluateNext rest
  | executeRule start => rfl

omit [F64 F] in
theorem counted_finish (id : RuleId) (caller : Caller) (result : RuleExecutionResult) :
    (caller.finish result : Pc F).counted id = false := by
  cases caller with
  | evaluateAndFire rest => exact counted_evaluateNext id rest
  | executeRule start => rfl

/-- What a section of a firing does to rule `id`: its fields stay, and a firing in
progress is counted exactly between its count and its record. -/
theorem counts_of_firing {caller : Caller} {i id : RuleId}
    {stage : Stage F} {pc' : Pc F} (hadv : stage.advance env choice w caller i = some (pc', w'))
    (hcur : w.rules.lookup id = some cur) :
    pc'.written = false ∧
    ∃ cur', w'.rules.lookup id = some cur' ∧ cur'.stateless = cur.stateless ∧
      cur'.state.triggerCount + (if (Pc.firing caller i stage).counted id then 1 else 0) =
        cur.state.triggerCount + (if pc'.counted id then 1 else 0) +
          (if (Pc.firing caller i stage).records id then 1 else 0) := by
  have hwritten : pc'.written = false := by
    rcases continues_of_advance hadv with ⟨stage', rfl, -⟩ | ⟨result, rfl⟩
    · rfl
    · exact written_finish caller result
  refine ⟨hwritten, ?_⟩
  cases stage with
  | trigger rule p =>
    simp only [Stage.advance, World.updateRuleStateAfterTrigger] at hadv
    cases hold : w.rules.lookup i with
    | none =>
      -- a rule that is gone is not counted, but its firing is completed
      simp only [hold, lockRules_eq_some] at hadv
      cases hadv.2
      have hne : i ≠ id := by
        rintro rfl
        rw [hold] at hcur
        cases hcur
      exact ⟨cur, hcur, rfl, by simp [Pc.counted, Pc.records, hne]⟩
    | some old =>
      simp only [hold, lockRules_eq_some] at hadv
      cases hadv.2
      have hlookup := KeyedMap.lookup_put_of_lookup hold
        (show (old.triggered w.now).id = old.id from rfl) id
      by_cases hid : id = i
      · -- the firing counts itself
        subst hid
        rw [hold, some.injEq] at hcur
        subst hcur
        rw [if_pos rfl] at hlookup
        exact ⟨old.triggered w.now, hlookup, rfl,
          by simp [Pc.counted, Pc.records, CompiledRule.triggered]⟩
      · have hne : i ≠ id := fun h => hid h.symm
        rw [if_neg hid] at hlookup
        exact ⟨cur, hlookup.trans hcur, rfl, by simp [Pc.counted, Pc.records, hne]⟩
  | triggerSave rule p snapshot =>
    cases hadv
    exact ⟨cur, hcur, rfl, by simp [Pc.counted, Pc.records]⟩
  | record rule p =>
    cases hadv
    refine ⟨cur, hcur, rfl, ?_⟩
    rw [counted_finish]
    simp [Pc.counted, Pc.records]
  | _ =>
    obtain ⟨cur', hcur', hstateless, hcount⟩ := lookup_of_firing hadv (by simp) hcur
    refine ⟨cur', hcur', hstateless, ?_⟩
    have hcounted : pc'.counted id = false := by
      rcases continues_of_advance hadv with ⟨stage', rfl, hgoes⟩ | ⟨result, rfl⟩
      · cases hgoes <;> rfl
      · exact counted_finish id caller result
    rw [hcounted, hcount]
    rfl

/-! ## What a request is about to write -/

/-- The copy that a request has prepared has the values that the request sets. -/
def Pc.Prepared (env : Env F) (c : Call F) : Pc F → Prop
  | .insert rule _ => (∃ req, c = .updateRuleHandler rule.id req) ∧
      ∀ f v, c.sets env rule.id f = some v → rule.get f = v
  | .updateFull id fields parsed _ => ∃ req parsed₀, c = .updateRuleHandler id req ∧
      hasFullDefinition req = true ∧ fields = .ofRequest req ∧
      env.fromValue req = .ok parsed₀ ∧ ∀ f, parsed.get f = parsed₀.get f
  | _ => True

omit [F64 F] in
/-- Parsing a rule may give it an id, which is no field. -/
theorem get_of_parseRule {fresh : RuleId} {value : Json F} {parsed : CompiledRule F}
    (h : env.parseRule fresh value = .ok parsed) :
    ∃ parsed₀, env.fromValue value = .ok parsed₀ ∧ ∀ f, parsed.get f = parsed₀.get f := by
  simp only [Env.parseRule] at h
  cases hvalue : env.fromValue value with
  | error e =>
    rw [hvalue] at h
    cases h
  | ok parsed₀ =>
    rw [hvalue] at h
    refine ⟨parsed₀, rfl, fun f => ?_⟩
    cases h
    split
    · rfl
    · cases f <;> rfl

/-- A full update writes the values that it sets. -/
theorem get_fullUpdate {now : Instant} {id : RuleId} {fields : UpdateFields F}
    {parsed parsed₀ : CompiledRule F} {existing : Option (CompiledRule F)}
    (hparsed : ∀ f, parsed.get f = parsed₀.get f) {f : RuleField} {v : f.Value F}
    (h : fullSets fields parsed₀ f = some v) :
    (fullUpdate env now id fields parsed existing).get f = v := by
  have hname : parsed.name = parsed₀.name := hparsed .name
  have hdescription : parsed.description = parsed₀.description := hparsed .description
  have htrigger : parsed.trigger = parsed₀.trigger := hparsed .trigger
  have hcondition : parsed.condition = parsed₀.condition := hparsed .condition
  cases f with
  | enabled =>
    show fields.enabled.getD _ = v
    rw [show fields.enabled = some v from h]
    rfl
  | name =>
    show fields.name.getD parsed.name = v
    rw [hname]
    exact some.inj h
  | description =>
    show (fields.description.orElse fun _ => parsed.description) = v
    rw [hdescription]
    exact some.inj h
  | trigger =>
    show parsed.trigger.refreshed parsed.condition = v
    rw [htrigger, hcondition]
    exact some.inj h
  | source => exact some.inj h
  | tags => exact (hparsed .tags).trans (some.inj h)
  | condition => exact (hparsed .condition).trans (some.inj h)
  | actions => exact (hparsed .actions).trans (some.inj h)
  | cooldown => exact (hparsed .cooldown).trans (some.inj h)
  | forDuration => exact (hparsed .forDuration).trans (some.inj h)

/-- A partial update writes the values that it sets. -/
theorem get_partialUpdate {now : Instant} {fields : UpdateFields F}
    {f : RuleField} {v : f.Value F} (h : partialSets fields f = some v) :
    (partialUpdate env now fields cur).get f = v := by
  cases f with
  | name =>
    show fields.name.getD cur.name = v
    rw [show fields.name = some v from h]
    rfl
  | enabled =>
    show fields.enabled.getD cur.enabled = v
    rw [show fields.enabled = some v from h]
    rfl
  | description =>
    obtain ⟨d, hd, rfl⟩ := map_eq_some_iff.mp h
    show (fields.description.orElse fun _ => cur.description) = some d
    rw [hd, orElse_some]
  | source =>
    obtain ⟨j, hj, rfl⟩ := map_eq_some_iff.mp h
    show (fields.source.orElse fun _ => cur.source) = some j
    rw [hj, orElse_some]
  | _ => cases h

/-- A full update begins with a request that parses. -/
theorem updateFull_of_advance {n : ℕ} {pc : Pc F}
    {id : RuleId} {fields : UpdateFields F} {parsed : CompiledRule F}
    {existing : Option (CompiledRule F)} (hof : pc.of c)
    (h : pc.advance env n choice w = some (.updateFull id fields parsed existing, w')) :
    ∃ req, c = .updateRuleHandler id req ∧ hasFullDefinition req = true ∧
      fields = .ofRequest req ∧ env.parseRule choice.freshId req = .ok parsed := by
  have hleads := leads_of_advance h
  generalize hpc' : Pc.updateFull id fields parsed existing = pc' at hleads
  cases hleads with
  | lookup =>
    cases hids : w.affected _ <;> rw [hids] at hpc' <;> cases hpc'
  | @firing caller i stage pc' hcontinues =>
    rcases hcontinues with ⟨stage', rfl, -⟩ | ⟨result, rfl⟩
    · cases hpc'
    · cases caller with
      | executeRule start => cases hpc'
      | evaluateAndFire rest => cases rest <;> cases hpc'
  | @rebuilding idx after => cases after <;> cases hpc'
  | updateFull hfull hparsed =>
    cases hpc'
    exact ⟨_, hof, hfull, rfl, hparsed⟩
  | _ => cases hpc'

theorem prepared_of_advance {n : ℕ} {pc pc' : Pc F}
    (hprep : pc.Prepared env c) (hpc : pc.isEdit) (hof : pc.of c)
    (hadv : pc.advance env n choice w = some (pc', w')) : pc'.Prepared env c := by
  cases pc' with
  | insert rule origin =>
    obtain ⟨-, hins⟩ := inserts_of_advance hadv
    cases hins with
    | create h | importing h hrule => exact hpc.elim
    | @updatePartial id req cur hpartial hcur hrule =>
      have hid : rule.id = id := by
        rw [hrule, partialUpdate_id]
        exact KeyedMap.key_of_lookup hcur
      have hcall : c = .updateRuleHandler id req := hof
      refine ⟨⟨req, by rw [hid, hcall]⟩, fun f v hset => ?_⟩
      rw [hrule]
      apply get_partialUpdate
      simpa [hcall, hid, Call.sets, hpartial] using hset
    | @updateFull id fields parsed existing hrule =>
      obtain ⟨req, parsed₀, hcall, hfull, hfields, hvalue, hparsed⟩ := hprep
      have hid : rule.id = id := by rw [prepareFullUpdate_ok hrule, fullUpdate_id]
      refine ⟨⟨req, by rw [hid, hcall]⟩, fun f v hset => ?_⟩
      rw [prepareFullUpdate_ok hrule]
      apply get_fullUpdate hparsed
      simpa [hcall, hid, Call.sets, hfull, hvalue, hfields] using hset
  | updateFull id fields parsed existing =>
    obtain ⟨req, hcall, hfull, hfields, hparsed⟩ := updateFull_of_advance hof hadv
    obtain ⟨parsed₀, hvalue, hget⟩ := get_of_parseRule hparsed
    exact ⟨req, parsed₀, hcall, hfull, hfields, hvalue, hget⟩
  | _ => trivial

/-! ## The last write of a field -/

/-- The request has written field `f` of rule `id`. -/
def Task.Wrote (env : Env F) (id : RuleId) (f : RuleField) (t : Task F) : Prop :=
  t.pc.written = true ∧ (t.call.sets env id f).isSome = true

/-- Field `f` of the rule is as some request wrote it that no other request which wrote it
came after, unless no request wrote it. -/
def Latest (env : Env F) (id : RuleId) (f : RuleField) (cur : CompiledRule F)
    (tr : List (Server F × Label F)) (s : Server F) : Prop :=
  (∀ t ∈ s.tasks, ¬ t.Wrote env id f) ∨
    ∃ n t v, s.tasks[n]? = some t ∧ t.pc.written = true ∧ t.call.sets env id f = some v ∧
      cur.get f = v ∧
      ∀ m t', s.tasks[m]? = some t' → t'.Wrote env id f → calledAfter n m tr = false

/-- A call came after another only if that one was answered and this one made. -/
def Ordered (tr : List (Server F × Label F)) (s : Server F) : Prop :=
  ∀ n m, calledAfter n m tr = true →
    m < s.tasks.length ∧ ∃ t, s.tasks[n]? = some t ∧ t.pc.isAnswered = true

theorem ordered_step {tr : List (Server F × Label F)} {s s' : Server F} {a : Label F}
    (h : Ordered tr s) (hs : step env s a = some s') : Ordered ((s, a) :: tr) s' := by
  intro n m hafter
  cases a with
  | tick d | provide values | register devices =>
    cases hs
    exact h n m hafter
  | call c =>
    cases hs
    simp only [calledAfter, Bool.or_eq_true, Bool.and_eq_true, decide_eq_true_eq,
      Option.any_eq_true] at hafter
    rcases hafter with ⟨rfl, t, hn, ht⟩ | hafter
    · exact ⟨by simp, t, getElem?_addTask.mpr (Or.inl hn), ht⟩
    · obtain ⟨hm, t, hn, ht⟩ := h n m hafter
      refine ⟨?_, t, getElem?_addTask.mpr (Or.inl hn), ht⟩
      rw [length_append]
      exact Nat.lt_add_right _ hm
  | run k choice =>
    obtain ⟨task, pc, w, hk, hadv, rfl⟩ := step_run hs
    obtain ⟨hm, t, hn, ht⟩ := h n m hafter
    have hne : n ≠ k := by
      rintro rfl
      rw [hk, some.injEq] at hn
      subst hn
      rw [advance_of_isAnswered ht] at hadv
      cases hadv
    exact ⟨by simpa using hm, t, (getElem?_setTask hk).mpr (Or.inr ⟨hne, hn⟩), ht⟩

section Step

variable {id : RuleId} {f : RuleField} {cur cur' : CompiledRule F}
  {tr : List (Server F × Label F)} {s : Server F}

omit [F64 F] in
/-- A new call has written nothing yet. -/
theorem latest_call {c : Call F} (h : Latest env id f cur tr s)
    (hc : (c.start s.world.now).written = false) :
    Latest env id f cur ((s, .call c) :: tr)
      { s with tasks := s.tasks ++ [⟨c, c.start s.world.now⟩] } := by
  have hnew : ∀ {t : Task F}, t.Wrote env id f → t ≠ ⟨c, c.start s.world.now⟩ := by
    rintro t ⟨hwritten, -⟩ rfl
    rw [hc] at hwritten
    cases hwritten
  rcases h with hnone | ⟨n, t, v, hn, hwritten, hset, hget, hlast⟩
  · refine Or.inl fun t ht hwrote => ?_
    rcases mem_append.mp ht with ht | ht
    · exact hnone t ht hwrote
    · exact hnew hwrote (mem_singleton.mp ht)
  · refine Or.inr ⟨n, t, v, getElem?_addTask.mpr (Or.inl hn), hwritten, hset, hget, ?_⟩
    intro m t' hm hwrote
    rcases getElem?_addTask.mp hm with hm | ⟨-, rfl⟩
    · have hlt : m < s.tasks.length := (List.getElem?_eq_some_iff.mp hm).1
      simp [calledAfter, hlast m t' hm hwrote, Nat.ne_of_lt hlt]
    · exact absurd rfl (hnew hwrote)

variable {n : ℕ} {choice : Choice} {task : Task F} {pc : Pc F} {w : World F}

omit [F64 F] in
/-- A section that does not write the field keeps its last write. -/
theorem latest_keep (h : Latest env id f cur tr s) (hn : s.tasks[n]? = some task)
    (hget : cur'.get f = cur.get f)
    (hwrote : Task.Wrote env id f { task with pc := pc } ↔ task.Wrote env id f) :
    Latest env id f cur' ((s, .run n choice) :: tr)
      { world := w, tasks := s.tasks.set n { task with pc := pc } } := by
  rcases h with hnone | ⟨k, t, v, hk, hwritten, hset, hcur, hlast⟩
  · refine Or.inl (Calls.forall_mem_set hnone ?_)
    rw [hwrote]
    exact hnone task (mem_of_getElem? hn)
  · have hlast' : ∀ m t', (s.tasks.set n { task with pc := pc })[m]? = some t' →
        t'.Wrote env id f → calledAfter k m ((s, .run n choice) :: tr) = false := by
      intro m t' hm hw
      rcases (getElem?_setTask hn).mp hm with ⟨rfl, rfl⟩ | ⟨-, hm⟩
      · exact hlast m task hn (hwrote.mp hw)
      · exact hlast m t' hm hw
    by_cases hkn : k = n
    · subst hkn
      rw [hn, some.injEq] at hk
      subst hk
      have hw := hwrote.mpr ⟨hwritten, by rw [hset]; rfl⟩
      exact Or.inr ⟨k, _, v, (getElem?_setTask hn).mpr (Or.inl ⟨rfl, rfl⟩), hw.1, hset,
        hget.trans hcur, hlast'⟩
    · exact Or.inr ⟨k, t, v, (getElem?_setTask hn).mpr (Or.inr ⟨hkn, hk⟩), hwritten, hset,
        hget.trans hcur, hlast'⟩

/-- A section that writes the field is its last write. -/
theorem latest_write {v : f.Value F} (hordered : Ordered tr s) (hn : s.tasks[n]? = some task)
    (hadv : task.pc.advance env n choice s.world = some (pc, w)) (hwritten : pc.written = true)
    (hset : task.call.sets env id f = some v) (hget : cur'.get f = v) :
    Latest env id f cur' ((s, .run n choice) :: tr)
      { world := w, tasks := s.tasks.set n { task with pc := pc } } := by
  refine Or.inr ⟨n, _, v, (getElem?_setTask hn).mpr (Or.inl ⟨rfl, rfl⟩), hwritten, hset, hget, ?_⟩
  intro m t' _ _
  show calledAfter n m tr = false
  -- nothing was called after a request that has not been answered
  by_contra hafter
  obtain ⟨-, t, hn', ht⟩ := hordered n m ((Bool.not_eq_false _).mp hafter)
  rw [hn, some.injEq] at hn'
  subst hn'
  rw [advance_of_isAnswered ht] at hadv
  cases hadv

end Step

/-! ## Whole runs -/

/-- The section writes no copy of rule `id` that lost an update: the rule in memory still
has the trigger count of the copy and its values of the fields that the request does not
set. -/
def WritesCurrent (env : Env F) (id : RuleId) (s : Server F) : Label F → Prop
  | .run n _ => ∀ task rule origin, s.tasks[n]? = some task → task.pc = .insert rule origin →
      rule.id = id → ∀ cur, s.world.rules.lookup id = some cur →
        cur.state.triggerCount = rule.state.triggerCount ∧
          ∀ f, task.call.sets env id f = none → cur.get f = rule.get f
  | _ => True

/-- Nothing of what happened to rule `id`, which had been fired `fired` times, is lost. -/
structure Kept (env : Env F) (id : RuleId) (fired : ℕ) (tr : List (Server F × Label F))
    (s : Server F) : Prop where
  serves : s.Serves fun c => c.edits = true
  prepared : ∀ t ∈ s.tasks, t.pc.Prepared env t.call
  ordered : Ordered tr s
  rule : ∃ cur, s.world.rules.lookup id = some cur ∧
    cur.state.triggerCount = fired + firings id tr + s.tasks.countP (·.pc.counted id) ∧
    ∀ f, Latest env id f cur tr s

omit [F64 F] in
theorem kept_idle {w : World F} {id : RuleId} (hrule : w.rules.lookup id = some cur) :
    Kept env id cur.state.triggerCount [] (Server.idle w) where
  serves := serves_idle _ w
  prepared := by
    intro t ht
    cases ht
  ordered := by
    intro n m h
    cases h
  rule := ⟨cur, hrule, rfl, fun f => Or.inl fun t ht => by cases ht⟩

omit [F64 F] in
theorem start_of_edits (env : Env F) (now : Instant) (hc : c.edits = true)
    (id : RuleId) : (c.start now).written = false ∧ (c.start now).counted id = false ∧
      (c.start now).Prepared env c := by
  cases c with
  | addRule rule | updateRule rule | removeRule i | createRuleHandler req
  | deleteRuleHandler i | importRulesHandler req => cases hc
  | _ => exact ⟨rfl, rfl, trivial⟩

omit [F64 F] in
/-- The share of one task in a count changes with the task. -/
theorem countP_setTask (p : Task F → Bool) {tasks : List (Task F)} {n : ℕ} {task : Task F}
    (t : Task F) (hn : tasks[n]? = some task) :
    (tasks.set n t).countP p + (if p task then 1 else 0) =
      tasks.countP p + (if p t then 1 else 0) := by
  obtain ⟨hlt, rfl⟩ := List.getElem?_eq_some_iff.mp hn
  have hle : (if p tasks[n] then 1 else 0) ≤ tasks.countP p :=
    boole_getElem_le_countP hlt
  rw [countP_set hlt]
  omega

omit [F64 F] in
/-- What a section of an edit does to rule `id`: each field stays, or is set to the value
of the request. -/
theorem fields_of_edits {s : Server F} {n : ℕ} {task : Task F} {w' : World F}
    {pc' : Pc F} {id : RuleId} (hn : s.tasks[n]? = some task)
    (hprep : task.pc.Prepared env task.call) (hof : task.pc.of task.call)
    (hedits : Edits s.world task.pc pc' w') (hG : WritesCurrent env id s (.run n choice))
    (hcur : s.world.rules.lookup id = some cur) :
    ∃ cur', w'.rules.lookup id = some cur' ∧
      cur'.state.triggerCount = cur.state.triggerCount ∧
      ∀ f, (cur'.get f = cur.get f ∧
          (pc'.written = task.pc.written ∨ task.call.sets env id f = none)) ∨
        (pc'.written = true ∧ ∃ v, task.call.sets env id f = some v ∧ cur'.get f = v) := by
  obtain ⟨c, pc⟩ := task
  cases hedits with
  | keeps hrules hwritten =>
    exact ⟨cur, by rw [hrules, hcur], rfl, fun f => Or.inl ⟨rfl, Or.inl hwritten⟩⟩
  | @insert rule pc' w' hrules hwritten =>
    obtain ⟨⟨req, hcall⟩, hget⟩ := hprep
    by_cases hid : rule.id = id
    · obtain ⟨hcount, hcopy⟩ := hG _ rule .handler hn rfl hid cur hcur
      refine ⟨rule, ?_, hcount.symm, fun f => ?_⟩
      · rw [hrules, ← hid]
        exact KeyedMap.lookup_put_self _ _
      · -- the guard speaks for the fields that the copy keeps, the request for the others
        cases hset : c.sets env id f with
        | none => exact Or.inl ⟨(hcopy f hset).symm, Or.inr rfl⟩
        | some v => exact Or.inr ⟨hwritten, v, rfl, hget f v (by rw [hid, hset])⟩
    · refine ⟨cur, ?_, rfl, fun f => Or.inl ⟨rfl, Or.inr ?_⟩⟩
      · rw [hrules, KeyedMap.lookup_put_ne _ (fun h => hid h.symm), hcur]
      · simp only at hcall
        rw [hcall, Call.sets, if_neg hid]
  | @setEnabled i enabled old pc' w' hold hrules hwritten =>
    have hlookup := KeyedMap.lookup_put_of_lookup hold (show CompiledRule.id
      { old with enabled := enabled, updatedAt := s.world.now } = old.id from rfl) id
    have hcall : c = .setRuleStatusHandler i enabled := hof
    by_cases hid : i = id
    · subst hid
      rw [hold, some.injEq] at hcur
      subst hcur
      refine ⟨{ old with enabled := enabled, updatedAt := s.world.now }, ?_, rfl, fun f => ?_⟩
      · rw [hrules, hlookup, if_pos rfl]
      · rw [hcall, Call.sets, if_pos rfl]
        cases f with
        | enabled => exact Or.inr ⟨hwritten, enabled, rfl, rfl⟩
        | _ => exact Or.inl ⟨rfl, Or.inr rfl⟩
    · refine ⟨cur, ?_, rfl, fun f => Or.inl ⟨rfl, Or.inr ?_⟩⟩
      · rw [hrules, hlookup, if_neg (fun h => hid h.symm), hcur]
      · rw [hcall, Call.sets, if_neg hid]

theorem kept_step {id : RuleId} {fired : ℕ} {tr : List (Server F × Label F)}
    {s s' : Server F} {a : Label F} (h : Kept env id fired tr s)
    (hcalls : Calls (fun _ c => c.edits = true) s a) (hG : WritesCurrent env id s a)
    (hs : step env s a = some s') : Kept env id fired ((s, a) :: tr) s' := by
  obtain ⟨cur, hcur, hcount, hlatest⟩ := h.rule
  have hserves := serves_step h.serves hcalls hs
  have hordered := ordered_step h.ordered hs
  cases a with
  | tick d | provide values | register devices =>
    cases hs
    exact ⟨hserves, h.prepared, hordered, cur, hcur, hcount, hlatest⟩
  | call c =>
    obtain ⟨hwritten, hcounted, hprep⟩ := start_of_edits env s.world.now hcalls id
    cases hs
    refine ⟨hserves, forall_mem_append.mpr ⟨h.prepared, forall_mem_singleton.mpr hprep⟩, hordered,
      cur, hcur, ?_, fun f => latest_call (hlatest f) hwritten⟩
    simp [countP_append, firings, hcount, hcounted]
  | run n choice =>
    obtain ⟨task, pc, w, hn, hadv, rfl⟩ := step_run hs
    obtain ⟨hc, hof⟩ := h.serves task (mem_of_getElem? hn)
    have hprep := h.prepared task (mem_of_getElem? hn)
    have hshare := countP_setTask (fun t => t.pc.counted id) { task with pc := pc } hn
    have hfirings : firings id ((s, .run n choice) :: tr) =
        firings id tr + if task.pc.records id then 1 else 0 := by
      simp [firings, hn]
    have hrest (hpc : pc.Prepared env task.call) :
        ∀ t ∈ s.tasks.set n { task with pc := pc }, t.pc.Prepared env t.call :=
      Calls.forall_mem_set h.prepared hpc
    rcases pc_of_edits hc hof with ⟨caller, i, stage, hpc⟩ | hpc
    · -- a firing sets no field
      rw [hpc] at hadv hshare hfirings
      obtain ⟨hwritten, cur', hcur', hstateless, hnew⟩ := counts_of_firing hadv hcur
      have hprep' : pc.Prepared env task.call := by
        rcases continues_of_advance hadv with ⟨stage', rfl, -⟩ | ⟨result, rfl⟩
        · trivial
        · cases caller with
          | executeRule start => trivial
          | evaluateAndFire rest => cases rest <;> trivial
      refine ⟨hserves, hrest hprep', hordered, cur', hcur', ?_, fun f => ?_⟩
      · rw [hfirings]
        dsimp only at hshare ⊢
        omega
      · refine latest_keep (hlatest f) hn (get_of_stateless hstateless f) ?_
        have hold : task.pc.written = false := by
          rw [hpc]
          rfl
        simp [Task.Wrote, hwritten, hold]
    · -- an edit counts nothing
      obtain ⟨hedits, hcounted⟩ := edits_of_advance hpc hc hof hadv
      obtain ⟨cur', hcur', hsame, hfields⟩ := fields_of_edits hn hprep hof hedits hG hcur
      refine ⟨hserves, hrest (prepared_of_advance hprep hpc hof hadv), hordered,
        cur', hcur', ?_, fun f => ?_⟩
      · obtain ⟨hold, hnew, hrecords⟩ := hcounted id
        rw [hfirings, hsame, hcount, hrecords]
        simp only [hold, hnew] at hshare
        simpa using hshare.symm
      · rcases hfields f with ⟨hget, hkeep⟩ | ⟨hwritten, v, hset, hget⟩
        · refine latest_keep (hlatest f) hn hget ?_
          rcases hkeep with hwritten | hset
          · simp [Task.Wrote, hwritten]
          · simp [Task.Wrote, hset]
        · exact latest_write h.ordered hn hadv hwritten hset hget

/-! ## No lost update -/

/-- In every run in which each copy that is written back agrees with the rule in memory on
its trigger count and on the fields that the request does not set: at rest the trigger
count has grown by the number of completed firings, and a field that completed requests set
has the value of one of them that no other of them came after. -/
theorem no_lost_update {w : World F} {id : RuleId} {rule : CompiledRule F}
    {tr : List (Server F × Label F)} {s : Server F}
    (hrule : w.rules.lookup id = some rule) (hrun : Run (step env) (Server.idle w) tr s)
    (hcalls : Within (Calls fun _ c => c.edits = true) tr)
    (hG : Within (WritesCurrent env id) tr) (hquiet : s.Quiescent) :
    ∃ cur, s.world.rules.lookup id = some cur ∧
      cur.state.triggerCount = rule.state.triggerCount + firings id tr ∧
      ∀ f, (∃ t ∈ s.tasks, t.succeeded = true ∧ (t.call.sets env id f).isSome = true) →
        ∃ n t, s.tasks[n]? = some t ∧ t.succeeded = true ∧
          t.call.sets env id f = some (cur.get f) ∧
          ∀ m t', s.tasks[m]? = some t' → t'.succeeded = true →
            (t'.call.sets env id f).isSome = true → calledAfter n m tr = false := by
  have hkept : Kept env id rule.state.triggerCount tr s :=
    hrun.traceInvariant (G := fun s a => Calls (fun _ c => c.edits = true) s a ∧
        WritesCurrent env id s a) (fun e he => ⟨hcalls e he, hG e he⟩) (kept_idle hrule)
      (fun tr s a s' _ h hGa hs => kept_step h hGa.1 hGa.2 hs)
  obtain ⟨cur, hcur, hcount, hlatest⟩ := hkept.rule
  -- at rest a request has written exactly if it succeeded, and no firing is in progress
  have hwritten : ∀ t ∈ s.tasks, t.succeeded = t.pc.written ∧ t.pc.counted id = false := by
    intro t ht
    have hanswered := hquiet t ht
    obtain ⟨c, pc⟩ := t
    cases pc with
    | answered reply => cases reply <;> exact ⟨rfl, rfl⟩
    | _ => cases hanswered
  refine ⟨cur, hcur, ?_, fun f hset => ?_⟩
  · have hnone : s.tasks.countP (·.pc.counted id) = 0 :=
      countP_eq_zero.mpr fun t ht => by simp [(hwritten t ht).2]
    rw [hcount, hnone, Nat.add_zero]
  · obtain ⟨t, ht, hsucceeded, hsome⟩ := hset
    rcases hlatest f with hnone | ⟨n, t, v, hn, hw, hv, hget, hlast⟩
    · exact absurd ⟨(hwritten t ht).1.symm.trans hsucceeded, hsome⟩ (hnone t ht)
    · have hmem := mem_of_getElem? hn
      refine ⟨n, t, hn, (hwritten t hmem).1.trans hw, by rw [hv, hget], ?_⟩
      intro m t' hm hs' hsome'
      have hmem' := mem_of_getElem? hm
      exact hlast m t' hm ⟨(hwritten t' hmem').1.symm.trans hs', hsome'⟩

namespace Sample

/-- `PUT` with a new name. -/
def renameRequest : Json ℤ := .object [("name", .string "warm")]

/-- `PUT` with a whole definition, `enabled` included. -/
def replaceRequest : Json ℤ :=
  .object [("name", .string "warm"), ("enabled", .bool false),
    ("trigger", .object [("trigger_type", .string "manual")])]

/-- The fields of a rule. -/
def fields : List RuleField :=
  [.name, .description, .enabled, .tags, .trigger, .condition, .actions, .cooldown,
    .forDuration, .source]

/-- The section writes no copy, or a copy with all fields set and the current count. -/
def replaces (s : Server ℤ) : Label ℤ → Bool
  | .run n _ => match s.tasks[n]? with
    | some ⟨c, .insert rule _⟩ =>
      (fields.all fun f => (c.sets Sample.env id f).isSome) &&
        (s.world.rules.lookup id).all fun cur =>
          cur.state.triggerCount = rule.state.triggerCount
    | _ => true
  | _ => true

theorem writesCurrent_of_replaces {s : Server ℤ} {a : Label ℤ} (h : replaces s a = true) :
    WritesCurrent Sample.env id s a := by
  cases a with
  | run n choice =>
    intro task rule origin hn hpc hid cur hcur
    obtain ⟨c, pc⟩ := task
    simp only at hpc
    subst hpc
    simp only [replaces, hn, hcur, Bool.and_eq_true, all_eq_true, all_some, decide_eq_true_eq] at h
    refine ⟨h.2, fun f hset => ?_⟩
    have hsome := h.1 f (by cases f <;> simp [fields])
    rw [show c.sets Sample.env id f = none from hset] at hsome
    cases hsome
  | _ => trivial

end Sample

/-- A firing is complete before the rule is replaced. -/
theorem no_lost_update_replaced :
    ∃ tr s, Run (step Sample.env) (Server.idle (Sample.loaded Sample.rule)) tr s ∧
      firings Sample.id tr = 1 ∧
      ∃ cur, s.world.rules.lookup Sample.id = some cur ∧
        cur.state.triggerCount = Sample.rule.state.triggerCount + firings Sample.id tr ∧
        ∀ f, (∃ t ∈ s.tasks, t.succeeded = true ∧
            (t.call.sets Sample.env Sample.id f).isSome = true) →
          ∃ n t, s.tasks[n]? = some t ∧ t.succeeded = true ∧
            t.call.sets Sample.env Sample.id f = some (cur.get f) ∧
            ∀ m t', s.tasks[m]? = some t' → t'.succeeded = true →
              (t'.call.sets Sample.env Sample.id f).isSome = true →
              calledAfter n m tr = false := by
  obtain ⟨tr, s, hrun, hcalls, hreplaces, hquiet, hone⟩ := exists_run (step Sample.env)
    (Server.idle (Sample.loaded Sample.rule))
    ([.call (.executeRule Sample.id)] ++ Sample.runs 0 10 ++
      [.call (.updateRuleHandler Sample.id Sample.replaceRequest)] ++ Sample.runs 1 6)
    (fun tr s => Within (Calls fun _ c => c.edits = true) tr ∧
      Within (fun s a => Sample.replaces s a = true) tr ∧ s.Quiescent ∧
      firings Sample.id tr = 1) (by decide)
  exact ⟨tr, s, hrun, hone, no_lost_update rfl hrun hcalls
    (hreplaces.mono fun _ _ => Sample.writesCurrent_of_replaces) hquiet⟩

/-- The rule fires between the read and the write of a request that renames it. -/
theorem rename_loses_firing :
    ∃ tr s, Run (step Sample.env) (Server.idle (Sample.loaded Sample.rule)) tr s ∧
      Within (Calls fun _ c => c.edits = true) tr ∧ s.Quiescent ∧
      ¬ ∃ cur, s.world.rules.lookup Sample.id = some cur ∧
        cur.state.triggerCount = Sample.rule.state.triggerCount + firings Sample.id tr ∧
        ∀ f, (∃ t ∈ s.tasks, t.succeeded = true ∧
            (t.call.sets Sample.env Sample.id f).isSome = true) →
          ∃ n t, s.tasks[n]? = some t ∧ t.succeeded = true ∧
            t.call.sets Sample.env Sample.id f = some (cur.get f) ∧
            ∀ m t', s.tasks[m]? = some t' → t'.succeeded = true →
              (t'.call.sets Sample.env Sample.id f).isSome = true →
              calledAfter n m tr = false := by
  obtain ⟨tr, s, hrun, hcalls, hquiet, hone, hzero⟩ := exists_run (step Sample.env)
    (Server.idle (Sample.loaded Sample.rule))
    ([.call (.updateRuleHandler Sample.id Sample.renameRequest)] ++ Sample.runs 0 1 ++
      [.call (.executeRule Sample.id)] ++ Sample.runs 1 10 ++ Sample.runs 0 4)
    (fun tr s => Within (Calls fun _ c => c.edits = true) tr ∧ s.Quiescent ∧
      firings Sample.id tr = 1 ∧
      (s.world.rules.lookup Sample.id).any (fun cur => cur.state.triggerCount = 0) = true)
    (by decide)
  refine ⟨tr, s, hrun, hcalls, hquiet, ?_⟩
  rintro ⟨cur, hcur, hcount, -⟩
  rw [hcur, any_some, decide_eq_true_eq] at hzero
  rw [hzero, hone] at hcount
  cases hcount

end HeraMind.Rules
