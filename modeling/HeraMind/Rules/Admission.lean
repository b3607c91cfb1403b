/-
# Admission as an invariant of the engine

Creation and full update check a rule before it is stored; a partial update, a change of
the status and a firing keep what the checks looked at; an import checks nothing
(`crates/heramind-api/src/handlers/rules.rs`).  The devices a rule was checked against are
those registered when its handler checked it, and are read off the run.
-/
import HeraMind.Rules.Control

namespace HeraMind.Rules

open Option
open Transition

variable {F : Type}

/-! ## When a rule was last defined -/

/-- The state in which task `n` ran its last section. -/
def lastSection (n : ℕ) : List (Server F × Label F) → Option (Server F)
  | [] => none
  | (s, .run m _) :: tr => if m = n then some s else lastSection n tr
  | _ :: tr => lastSection n tr

/-- The section defines a rule, as opposed to editing one. -/
def Pc.defines : Pc F → Bool
  | .create _ | .updateFull _ _ _ _ | .importing _ _ _ _ => true
  | _ => false

/-- The task was at a section that defines a rule. -/
def Server.Defines (s : Server F) (n : ℕ) : Prop :=
  (s.tasks[n]?.any fun task => task.pc.defines) = true

instance (s : Server F) (n : ℕ) : Decidable (s.Defines n) :=
  inferInstanceAs (Decidable (_ = true))

/-- The devices under which a step (re)defines rule `id`: the step inserts the rule, and
its task computed the rule, against these devices, in its section before. -/
def redefinedUnder (id : RuleId) (s : Server F) (n : ℕ) (tr : List (Server F × Label F)) :
    Option (DeviceService F) :=
  match s.tasks[n]?.map Task.pc, lastSection n tr with
  | some (.insert rule _), some checked =>
    if rule.id = id ∧ checked.Defines n then some checked.world.devices else none
  | _, _ => none

/-- The devices that were registered when rule `id` was last (re)defined. -/
def definedUnder (id : RuleId) : List (Server F × Label F) → Option (DeviceService F)
  | [] => none
  | (s, .run n _) :: tr => (redefinedUnder id s n tr).orElse fun _ => definedUnder id tr
  | _ :: tr => definedUnder id tr

theorem redefinedUnder_eq_none {id : RuleId} {s : Server F} {n : ℕ}
    {tr : List (Server F × Label F)} {task : Task F} (hn : s.tasks[n]? = some task)
    (h : ∀ rule origin, task.pc = .insert rule origin → rule.id ≠ id) :
    redefinedUnder id s n tr = none := by
  unfold redefinedUnder
  rw [hn, map_some]
  split
  · rename_i rule origin checked hpc hlast
    rw [if_neg]
    rintro ⟨hid, -⟩
    exact h rule origin (some.inj hpc) hid
  · rfl

/-! ## What keeps a rule admitted -/

/-- The checks look at condition, actions, cooldown and cron expression only. -/
theorem Admitted.of_eq [F64 F] {env : Env F} {context : ValidationContext F}
    {cur rule : CompiledRule F} (h : Admitted env context cur)
    (hcondition : rule.condition = cur.condition) (hactions : rule.actions = cur.actions)
    (hcooldown : rule.cooldown = cur.cooldown)
    (htrigger : ∀ cron, rule.trigger = .schedule cron → cur.trigger = .schedule cron) :
    Admitted env context rule where
  cron := fun cron hcron => h.cron cron (htrigger cron hcron)
  resources := by
    rw [hcondition, hactions]
    exact h.resources
  cooldown := by
    rw [hcondition, hcooldown]
    exact h.cooldown

section Invariant

variable [F64 F] {env : Env F}

/-- The three checks of the definition a rule has in the engine. -/
def AdmittedUnder (env : Env F) (devices : DeviceService F) (rule : CompiledRule F) : Prop :=
  Admitted env (buildValidationContext devices) rule

theorem admitted_partialUpdate {devices : DeviceService F} {now : Instant}
    {fields : UpdateFields F} {cur : CompiledRule F} (h : AdmittedUnder env devices cur) :
    AdmittedUnder env devices (partialUpdate env now fields cur) := by
  refine h.of_eq rfl rfl rfl ?_
  intro cron hcron
  have htrigger : cur.trigger.refreshed cur.condition = .schedule cron := hcron
  cases ht : cur.trigger with
  | schedule cron' =>
    rw [ht] at htrigger
    exact htrigger
  | dataChange sources | manual =>
    rw [ht] at htrigger
    cases htrigger

/-- Every rule passes the three checks for the devices registered when it was last
(re)defined. -/
def AllAdmitted (env : Env F) (tr : List (Server F × Label F)) (s : Server F) : Prop :=
  ∀ id rule, s.world.rules.lookup id = some rule →
    ∃ devices, definedUnder id tr = some devices ∧ AdmittedUnder env devices rule

/-- A rule on its way into the engine was checked in the section before, or it is a
partial update of the rule that is there. -/
def InsertsAdmitted (env : Env F) (tr : List (Server F × Label F)) (s : Server F) : Prop :=
  ∀ (n : ℕ) (task : Task F) rule origin, s.tasks[n]? = some task →
    task.pc = .insert rule origin →
    ∃ checked, lastSection n tr = some checked ∧
      ((checked.Defines n ∧ AdmittedUnder env checked.world.devices rule) ∨
        (¬ checked.Defines n ∧ ∃ fields now cur, s.world.rules.lookup rule.id = some cur ∧
          rule = partialUpdate env now fields cur))

/-- Every well-formed rule of an import passes the checks of a creation. -/
def ImportsAdmitted (env : Env F) (s : Server F) : Label F → Prop
  | .run n choice => ∀ task value todo imported skipped errors rule,
      s.tasks[n]? = some task →
      task.pc = .importing (value :: todo) imported skipped errors →
      env.parseRule choice.freshId value = .ok rule →
      admitRule env (buildValidationContext s.world.devices)
        (rule.finalize env s.world.now) = .ok ()
  | _ => True

variable {choice : Choice} {s : Server F} {task : Task F} {n : ℕ}

/-- What a section hands on for insertion is admitted, or a partial update. -/
theorem admitted_of_inserts
    {rule : CompiledRule F} {origin : Origin F} (hn : s.tasks[n]? = some task)
    (himport : ImportsAdmitted env s (.run n choice))
    (h : Inserts env s.world choice rule task.pc origin) :
    (s.Defines n ∧ AdmittedUnder env s.world.devices rule) ∨
      (¬ s.Defines n ∧ ∃ fields now cur, s.world.rules.lookup rule.id = some cur ∧
        rule = partialUpdate env now fields cur) := by
  unfold Server.Defines
  rw [hn, any_some]
  generalize hpc : task.pc = pc at h
  cases h with
  | create hprep => exact Or.inl ⟨rfl, admitted_of_prepareCreate hprep⟩
  | updateFull hprep => exact Or.inl ⟨rfl, admitted_of_prepareFullUpdate hprep⟩
  | importing hparsed hrule =>
    subst hrule
    exact Or.inl ⟨rfl, admitted_of_admitRule (himport task _ _ _ _ _ _ hn hpc hparsed)⟩
  | @updatePartial id req cur hfull hcur hrule =>
    refine Or.inr ⟨by simp [Pc.defines], UpdateFields.ofRequest req, s.world.now, cur, ?_, hrule⟩
    have hid : cur.id = id := KeyedMap.key_of_lookup hcur
    rw [hrule, partialUpdate_id, hid, hcur]

variable {tr : List (Server F × Label F)} {tasks : List (Task F)}

/-- A rule that is put in place of one with the same definition stays admitted. -/
theorem AllAdmitted.edit (h : AllAdmitted env tr s)
    (hn : s.tasks[n]? = some task) (hpc : ∀ rule origin, task.pc ≠ .insert rule origin)
    {id : RuleId} {cur new : CompiledRule F} (hcur : s.world.rules.lookup id = some cur)
    (hid : new.id = cur.id) (hcondition : new.condition = cur.condition)
    (hactions : new.actions = cur.actions) (hcooldown : new.cooldown = cur.cooldown)
    (htrigger : new.trigger = cur.trigger) :
    AllAdmitted env ((s, .run n choice) :: tr)
      { world := s.world.insertRule new, tasks := tasks } := by
  intro i rule hrule
  have hdef : definedUnder i ((s, .run n choice) :: tr) = definedUnder i tr := by
    rw [definedUnder, redefinedUnder_eq_none hn fun r o hr => absurd hr (hpc r o)]
    rfl
  rw [hdef]
  have hlookup : (s.world.rules.put new).lookup i = some rule := hrule
  rw [KeyedMap.lookup_put_of_lookup hcur hid] at hlookup
  by_cases hi : i = id
  · rw [if_pos hi, some.injEq] at hlookup
    subst hlookup hi
    obtain ⟨devices, hdevices, hadmitted⟩ := h i cur hcur
    refine ⟨devices, hdevices, hadmitted.of_eq hcondition hactions hcooldown ?_⟩
    intro cron hcron
    rw [← htrigger]
    exact hcron
  · rw [if_neg hi] at hlookup
    exact h i rule hlookup

/-- A section that leaves the rules alone. -/
theorem AllAdmitted.frame (h : AllAdmitted env tr s)
    (hn : s.tasks[n]? = some task) (hpc : ∀ rule origin, task.pc ≠ .insert rule origin)
    {w : World F} (hrules : ∀ i rule, w.rules.lookup i = some rule →
      s.world.rules.lookup i = some rule) :
    AllAdmitted env ((s, .run n choice) :: tr) { world := w, tasks := tasks } := by
  intro i rule hrule
  rw [definedUnder, redefinedUnder_eq_none hn fun r o hr => absurd hr (hpc r o)]
  exact h i rule (hrules i rule hrule)

/-- An insertion makes the rule that was checked the rule of the engine. -/
theorem AllAdmitted.insert (h : AllAdmitted env tr s)
    (hins : InsertsAdmitted env tr s) (hn : s.tasks[n]? = some task)
    {rule : CompiledRule F} {origin : Origin F} (hpc : task.pc = .insert rule origin) :
    AllAdmitted env ((s, .run n choice) :: tr)
      { world := s.world.insertRule rule, tasks := tasks } := by
  obtain ⟨checked, hlast, hchecked⟩ := hins n task rule origin hn hpc
  have hredef : ∀ i, redefinedUnder i s n tr =
      if rule.id = i ∧ checked.Defines n then some checked.world.devices else none := by
    intro i
    simp only [redefinedUnder, hn, map_some, hpc, hlast]
  intro i rule' hrule'
  rw [definedUnder, hredef]
  have hlookup : (s.world.rules.put rule).lookup i = some rule' := hrule'
  rw [KeyedMap.lookup_put] at hlookup
  by_cases hi : i = rule.id
  · rw [if_pos hi, some.injEq] at hlookup
    subst hlookup
    rcases hchecked with ⟨hdefines, hadmitted⟩ | ⟨hdefines, fields, now, cur, hcur, hrule⟩
    · -- a definition was checked for the devices of the section before
      rw [if_pos ⟨hi.symm, hdefines⟩]
      exact ⟨_, rfl, hadmitted⟩
    · -- a partial update keeps what the checks look at
      rw [if_neg fun hc => hdefines hc.2]
      obtain ⟨devices, hdevices, hadmitted⟩ := h rule.id cur hcur
      refine ⟨devices, ?_, ?_⟩
      · rw [hi]
        exact hdevices
      · rw [hrule]
        exact admitted_partialUpdate hadmitted
  · rw [if_neg hi] at hlookup
    rw [if_neg fun hc => hi hc.1.symm]
    exact h i rule' hlookup

/-- Every section keeps all rules admitted. -/
theorem AllAdmitted.advance (h : AllAdmitted env tr s)
    (hins : InsertsAdmitted env tr s) (hn : s.tasks[n]? = some task) {pc : Pc F} {w : World F}
    (he : Effect n s.world task.pc pc w) :
    AllAdmitted env ((s, .run n choice) :: tr) { world := w, tasks := tasks } := by
  generalize hpc : task.pc = pc₀ at he
  cases he with
  | quiet hplain hinserts hplain' =>
    refine h.frame hn ?_ (fun _ _ hr => hr)
    intro rule origin hins'
    rw [← hpc, hins'] at hinserts
    cases hinserts
  | insert hlock => exact h.insert hins hn hpc
  | remove hlock =>
    refine h.frame hn (by rw [hpc]; simp) ?_
    intro i rule hrule
    have hlookup : (s.world.rules.erase _).lookup i = some rule := hrule
    rw [KeyedMap.lookup_erase] at hlookup
    split at hlookup
    · cases hlookup
    · exact hlookup
  | setEnabled hlock hcur | sinceStart hlock hcur | sinceReset hlock hcur | trigger hlock hcur =>
    refine h.edit hn (by rw [hpc]; simp) hcur ?_ ?_ ?_ ?_ ?_ <;> rfl
  | claim hclaim =>
    refine h.frame hn (by rw [hpc]; simp) ?_
    obtain ⟨rfl, -⟩ := tryClaimCooldown_eq_some.mp hclaim
    exact fun _ _ hr => hr
  | save hsnap hplain =>
    refine h.frame hn ?_ (fun _ _ hr => hr)
    intro rule origin hins'
    rw [← hpc, hins'] at hsnap
    cases hsnap
  | _ => exact h.frame hn (by rw [hpc]; simp) (fun _ _ hr => hr)

omit [F64 F] in
theorem lastSection_run_self : lastSection n ((s, .run n choice) :: tr) = some s := by
  rw [lastSection, if_pos rfl]

/-- After a section only its own task can be on its way to insert a rule: the others have
answered. -/
theorem InsertsAdmitted.run {s s' : Server F}
    (hone : s.OneActive) (himport : ImportsAdmitted env s (.run n choice))
    (hs : step env s (.run n choice) = some s') :
    InsertsAdmitted env ((s, .run n choice) :: tr) s' := by
  obtain ⟨task, pc, w, hn, hadv, rfl⟩ := step_run hs
  intro m t rule origin ht hpc
  rcases (getElem?_setTask hn).mp ht with ⟨rfl, rfl⟩ | ⟨hmn, ht⟩
  · simp only at hpc
    subst hpc
    obtain ⟨rfl, hins⟩ := inserts_of_advance hadv
    refine ⟨s, lastSection_run_self, ?_⟩
    exact admitted_of_inserts hn himport hins
  · have hanswered := hone.others hn hadv ht hmn
    rw [hpc] at hanswered
    cases hanswered

omit [F64 F] in
theorem start_ne_insert {c : Call F} (hc : c.isApi = true) (now : Instant)
    (rule : CompiledRule F) (origin : Origin F) : c.start now ≠ .insert rule origin := by
  cases c <;> cases hc <;> simp [Call.start]

theorem admitted_step {s s' : Server F} {a : Label F}
    (h : AllAdmitted env tr s) (hins : InsertsAdmitted env tr s) (hone : s.OneActive)
    (hcall : Calls (fun s c => s.Quiescent ∧ c.isApi = true) s a)
    (himport : ImportsAdmitted env s a) (hs : step env s a = some s') :
    AllAdmitted env ((s, a) :: tr) s' ∧ InsertsAdmitted env ((s, a) :: tr) s' := by
  cases a with
  | tick d | provide values | register devices =>
    cases hs
    exact ⟨h, hins⟩
  | call c =>
    cases hs
    refine ⟨h, ?_⟩
    intro n task rule origin hn hpc
    rcases getElem?_addTask.mp hn with hn | ⟨-, rfl⟩
    · exact hins n task rule origin hn hpc
    · exact absurd hpc (start_ne_insert hcall.2 _ _ _)
  | run n choice =>
    refine ⟨?_, InsertsAdmitted.run hone himport hs⟩
    obtain ⟨task, pc, w, hn, hadv, rfl⟩ := step_run hs
    exact h.advance hins hn (effect_of_advance hadv)

end Invariant

/-! ## The rules of a reachable state -/

section Runs

variable [F64 F] {env : Env F}

/-- In every state that any sequence of creations, updates, changes of the status,
deletions and imports reaches, if every well-formed rule of an import passes the checks of
a creation, then every rule of the engine passes them, for the devices that were
registered when it was last (re)defined. -/
theorem allAdmitted_of_importsAdmitted (ruleStore : RuleMap F) (values : ValueProvider F)
    (devices : DeviceService F) (now : Instant) {tr : List (Server F × Label F)}
    {s : Server F}
    (hrun : Run (step env) (Server.idle (World.new ruleStore values devices now)) tr s)
    (hcalls : Within (Calls fun s c => s.Quiescent ∧ c.isApi = true) tr)
    (himport : Within (ImportsAdmitted env) tr) :
    ∀ id rule, s.world.rules.lookup id = some rule →
      ∃ devices, definedUnder id tr = some devices ∧
        Admitted env (buildValidationContext devices) rule := by
  have hinv : AllAdmitted env tr s ∧ InsertsAdmitted env tr s ∧ s.OneActive := by
    refine hrun.traceInvariant
      (G := fun s a => Calls (fun s c => s.Quiescent ∧ c.isApi = true) s a ∧
        ImportsAdmitted env s a)
      (I := fun tr s => AllAdmitted env tr s ∧ InsertsAdmitted env tr s ∧ s.OneActive)
      (fun e he => ⟨hcalls e he, himport e he⟩) ⟨?_, ?_, oneActive_idle _⟩ ?_
    · intro id rule hrule
      simp [Server.idle, World.new] at hrule
    · intro n task rule origin hn
      simp [Server.idle] at hn
    · rintro tr s a s' - ⟨hall, hins, hone⟩ ⟨hcall, himp⟩ hs
      have hstep := admitted_step hall hins hone hcall himp hs
      refine ⟨hstep.1, hstep.2, oneActive_step hone ?_ hs⟩
      cases a with
      | call c => exact hcall.1
      | _ => trivial
  exact hinv.1

/-- The section reads an entry of an import. -/
def Pc.importsNext : Pc F → Bool
  | .importing (_ :: _) _ _ _ => true
  | _ => false

theorem importsAdmitted_of_not_importsNext {s : Server F} {a : Label F}
    (h : ∀ task ∈ s.tasks, task.pc.importsNext = false) : ImportsAdmitted env s a := by
  cases a with
  | run n choice =>
    intro task value todo imported skipped errors rule hn hpc
    have hno := h task (List.mem_of_getElem? hn)
    rw [hpc] at hno
    cases hno
  | _ => trivial

/-- A request that creates a rule with a schedule. -/
def Sample.scheduleRequest : Json ℤ := .object [("name", .string "nightly"),
  ("trigger", .object [("trigger_type", .string "schedule"), ("cron", .string "* * * * *")])]

theorem allAdmitted_of_importsAdmitted_created :
    ∃ tr s, Run (step Sample.env)
        (Server.idle (World.new .empty (Sample.reading 40) Sample.noDevices 0)) tr s ∧
      s.world.rules.values.map CompiledRule.name = ["nightly"] ∧
      ∀ id rule, s.world.rules.lookup id = some rule →
        ∃ devices, definedUnder id tr = some devices ∧
          Admitted Sample.env (buildValidationContext devices) rule := by
  obtain ⟨tr, s, hrun, hcalls, hno, hname⟩ := exists_run (step Sample.env)
    (Server.idle Sample.fresh)
    (.call (.createRuleHandler Sample.scheduleRequest) :: Sample.runs 0 5 ++
      .call (.setRuleStatusHandler Sample.id false) :: Sample.runs 1 3)
    (fun tr s => Within (Calls fun s c => s.Quiescent ∧ c.isApi = true) tr ∧
      (∀ e ∈ tr, ∀ task ∈ e.1.tasks, task.pc.importsNext = false) ∧
      s.world.rules.values.map CompiledRule.name = ["nightly"]) (by decide)
  exact ⟨tr, s, hrun, hname, allAdmitted_of_importsAdmitted _ _ _ _ hrun hcalls
    (fun e he => importsAdmitted_of_not_importsNext (hno e he))⟩

/-- A document with a rule that reads a virtual metric and has no cooldown. -/
def Sample.virtualRequest : Json ℤ :=
  .object [("rules", .array [.object [("name", .string "stale"),
    ("trigger", .object [("trigger_type", .string "data_change")]),
    ("condition", .object [("condition_type", .string "comparison"),
      ("source", .string "device:d1:__last_seen_age_secs"),
      ("operator", .string "greater_than"), ("threshold", .number 300)]),
    ("cooldown", .number 0)]])]

/-- The import lets the rule in, and no devices make it pass the checks. -/
theorem imported_rule_not_admitted :
    ∃ tr s, Run (step Sample.env)
        (Server.idle (World.new .empty (Sample.reading 40) Sample.noDevices 0)) tr s ∧
      Within (Calls fun s c => s.Quiescent ∧ c.isApi = true) tr ∧
      ∃ id rule, s.world.rules.lookup id = some rule ∧
        ∀ devices, ¬ Admitted Sample.env (buildValidationContext devices) rule := by
  obtain ⟨tr, s, hrun, hcalls, hrule⟩ := exists_run (step Sample.env)
    (Server.idle Sample.fresh)
    (.call (.importRulesHandler Sample.virtualRequest) :: Sample.runs 0 6)
    (fun tr s => Within (Calls fun s c => s.Quiescent ∧ c.isApi = true) tr ∧
      (s.world.rules.lookup Sample.id).any (fun rule =>
        RuleValidator.usesVirtual rule.condition && decide (rule.cooldown = 0)) = true)
    (by decide)
  obtain ⟨rule, hlookup, hrule⟩ := (Option.any_eq_true _ _).mp hrule
  rw [Bool.and_eq_true, decide_eq_true_eq] at hrule
  refine ⟨tr, s, hrun, hcalls, Sample.id, rule, hlookup, ?_⟩
  intro devices hadmitted
  have hcooldown := hadmitted.cooldown hrule.1
  rw [hrule.2] at hcooldown
  exact absurd hcooldown (by decide)

end Runs

end HeraMind.Rules
