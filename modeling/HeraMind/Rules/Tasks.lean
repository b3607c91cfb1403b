/-
# The tasks of the server

The calls of the rule engine and of the request handlers
(`crates/heramind-rules/src/engine.rs`, `crates/heramind-api/src/handlers/rules.rs`) as
tasks that run concurrently.  A task moves from one critical section to the next; in
between any other task may run.  `Pc.advance` is one section of one task, `step` is one
step of the whole server: a section of some task, a new call, or a change of the
environment (time passes, the values of the data sources change, devices are registered).

What the source leaves to code outside of it (whether an action succeeds, a fresh
id) is the `Choice` made for a step.  Publishing events has no effect on the shared state
and does not appear.  Every write to the store succeeds, and a rule read back from the
store is the rule that was saved.
-/
import HeraMind.Lib.Run
import HeraMind.Rules.Handlers

namespace HeraMind.Rules

/-! ## Calls and replies -/

/-- The calls of the engine and of the request handlers. -/
inductive Call (F : Type) : Type where
  | onDataUpdate (source : DataSourceId)
  | executeRule (id : RuleId)
  | addRule (rule : CompiledRule F)
  | updateRule (rule : CompiledRule F)
  | removeRule (id : RuleId)
  | createRuleHandler (req : Json F)
  | updateRuleHandler (id : RuleId) (req : Json F)
  | deleteRuleHandler (id : RuleId)
  | setRuleStatusHandler (id : RuleId) (enabled : Bool)
  | importRulesHandler (req : Json F)

/-- What a call answers. -/
inductive Reply (F : Type) : Type where
  | evaluated
  | executed (result : RuleExecutionResult)
  | stored
  | removed (existed : Bool)
  | rule (rule : CompiledRule F)
  | deleted (id : RuleId)
  | status (id : RuleId) (enabled : Bool)
  | imported (imported skipped : ℕ) (errors : List String)
  | error (e : ErrorResponse)

/-- What code outside the source decides in a step: the result of an action, and the id
that a rule without one gets. -/
structure Choice where
  outcome : Except String String
  freshId : RuleId

/-! ## Program counters -/

/-- Who fires a rule: `on_data_update`, with the rules it has yet to evaluate, or
`execute_rule`, with the time of the call. -/
inductive Caller : Type where
  | evaluateAndFire (rest : List RuleId)
  | executeRule (start : Instant)

/-- The local variables of the action loop. -/
structure Progress where
  start : Instant
  executed : List String
  error : Option String

/-- The next critical section of `evaluate_and_fire` or `execute_rule`; `rule` is the
clone both work on. -/
inductive Stage (F : Type) : Type where
  | read
  | cooldown (rule : CompiledRule F)
  | condition (rule : CompiledRule F)
  | since (rule : CompiledRule F) (conditionMet : Bool)
  | sinceSave (rule : CompiledRule F) (conditionMet : Bool) (sinceTime : Option Instant)
      (snapshot : CompiledRule F)
  | elapsed (rule : CompiledRule F) (sinceTime : Instant)
  | claim (rule : CompiledRule F)
  | actions (rule : CompiledRule F) (progress : Progress) (todo : List (RuleAction F))
  | settle (rule : CompiledRule F) (progress : Progress)
  | refund (rule : CompiledRule F) (progress : Progress)
  | trigger (rule : CompiledRule F) (progress : Progress)
  | triggerSave (rule : CompiledRule F) (progress : Progress) (snapshot : CompiledRule F)
  | record (rule : CompiledRule F) (progress : Progress)

/-- Who called `add_rule` or `update_rule`: a caller of the engine, a request handler that
also saves the rule, or an import with what it has yet to do. -/
inductive Origin (F : Type) : Type where
  | engine
  | handler
  | importer (todo : List (Json F)) (imported skipped : ℕ) (errors : List String)

/-- What a caller of `add_rule`, `update_rule` or `remove_rule` does after the index is
rebuilt. -/
inductive After (F : Type) : Type where
  | stored
  | saveRule (rule : CompiledRule F)
  | dropCooldown (id : RuleId) (viaHandler : Bool)
  | importNext (todo : List (Json F)) (imported skipped : ℕ) (errors : List String)

/-- The next critical section of a task. -/
inductive Pc (F : Type) : Type where
  | lookup (source : DataSourceId)
  | firing (caller : Caller) (id : RuleId) (stage : Stage F)
  | insert (rule : CompiledRule F) (origin : Origin F)
  | rebuild (after : After F)
  | rebuilding (idx : HashMap String (List RuleId)) (after : After F)
  | remove (id : RuleId) (viaHandler : Bool)
  | dropCooldown (id : RuleId) (viaHandler : Bool)
  | create (req : Json F)
  | update (id : RuleId) (req : Json F)
  | updateFull (id : RuleId) (fields : UpdateFields F) (parsed : CompiledRule F)
      (existing : Option (CompiledRule F))
  | saving (rule : CompiledRule F)
  | deleting (id : RuleId)
  | setStatus (id : RuleId) (enabled : Bool)
  | statusRead (id : RuleId) (enabled : Bool)
  | statusSave (rule : CompiledRule F) (id : RuleId) (enabled : Bool)
  | importRules (req : Json F)
  | importing (todo : List (Json F)) (imported skipped : ℕ) (errors : List String)
  | answered (reply : Reply F)

/-- A call and how far it has come. -/
structure Task (F : Type) where
  call : Call F
  pc : Pc F

/-- The server: the shared state and every task it ever started. -/
structure Server (F : Type) where
  world : World F
  tasks : List (Task F)

variable {F : Type}

/-- The first section of a call. -/
def Call.start (now : Instant) : Call F → Pc F
  | .onDataUpdate source => .lookup source
  | .executeRule id => .firing (.executeRule now) id .read
  | .addRule rule | .updateRule rule => .insert rule .engine
  | .removeRule id => .remove id false
  | .createRuleHandler req => .create req
  | .updateRuleHandler id req => .update id req
  | .deleteRuleHandler id => .remove id true
  | .setRuleStatusHandler id enabled => .setStatus id enabled
  | .importRulesHandler req => .importRules req

/-- What the caller does with the stored rule. -/
def Origin.after (rule : CompiledRule F) : Origin F → After F
  | .engine => .stored
  | .handler => .saveRule rule
  | .importer todo imported skipped errors => .importNext todo imported skipped errors

/-- The section that follows the rebuild of the index. -/
def After.pc : After F → Pc F
  | .stored => .answered .stored
  | .saveRule rule => .saving rule
  | .dropCooldown id viaHandler => .dropCooldown id viaHandler
  | .importNext todo imported skipped errors => .importing todo imported skipped errors

/-! ## Firing a rule -/

/-- The next rule of an update, or its end. -/
def evaluateNext : List RuleId → Pc F
  | [] => .answered .evaluated
  | id :: rest => .firing (.evaluateAndFire rest) id .read

/-- A firing is over: `execute_rule` returns the result, `on_data_update` goes on with the
next rule. -/
def Caller.finish : Caller → RuleExecutionResult → Pc F
  | .evaluateAndFire rest, _ => evaluateNext rest
  | .executeRule _, result => .answered (.executed result)

/-- The result of an execution that ran no action. -/
def notExecuted (caller : Caller) (now : Instant) (id : RuleId) (name error : String)
    (timed : Bool) : RuleExecutionResult :=
  let start := match caller with
    | .evaluateAndFire _ => now
    | .executeRule start => start
  { ruleId := id
    ruleName := name
    success := false
    actionsExecuted := []
    error := some error
    durationMs := if timed then Duration.asMillis (now - start) else 0
    triggeredAt := start }

/-- The result of an execution that ran its actions. -/
def executionResult (caller : Caller) (now : Instant) (rule : CompiledRule F) (id : RuleId)
    (p : Progress) : RuleExecutionResult where
  ruleId := id
  ruleName := rule.name
  success := p.error.isNone
  actionsExecuted := p.executed
  error := p.error
  durationMs := Duration.asMillis (now - p.start)
  triggeredAt := match caller with
    | .evaluateAndFire _ => now
    | .executeRule start => start

/-- The rule has to sustain its condition: always for `evaluate_and_fire`, only with a
schedule trigger for `execute_rule`. -/
def sustains (caller : Caller) (rule : CompiledRule F) : Bool :=
  match caller, rule.trigger with
  | .evaluateAndFire _, _ | .executeRule _, .schedule _ => rule.forDuration.isSome
  | .executeRule _, _ => false

/-- After the condition was evaluated as met. -/
def conditionMetStage (caller : Caller) (rule : CompiledRule F) : Stage F :=
  if sustains caller rule then .since rule true else .claim rule

/-- After `update_condition_since` returned. -/
def sinceReturned (caller : Caller) (now : Instant) (id : RuleId) (rule : CompiledRule F)
    (conditionMet : Bool) (since : Option Instant) : Pc F :=
  match conditionMet, since with
  | false, _ => caller.finish (notExecuted caller now id rule.name "Condition not met" true)
  | true, some sinceTime => .firing caller id (.elapsed rule sinceTime)
  | true, none => caller.finish (notExecuted caller now id rule.name
      "Condition timing started, awaiting sustained duration" true)

/-- The action loop after one more action. -/
def Progress.record (p : Progress) : Except String String → Progress
  | .ok name => { p with executed := p.executed ++ [name] }
  | .error e => { p with error := p.error.orElse fun _ => some e }

/-- A section that takes the write lock of `rules`: it waits while the lock is read. -/
def World.lockRules {α : Type} (w : World F) (result : α) : Option α :=
  if w.rulesReaders = [] then some result else none

section Advance

variable [F64 F] (env : Env F)

/-- One section of `evaluate_and_fire` or `execute_rule`. -/
def Stage.advance (choice : Choice) (w : World F) (caller : Caller) (id : RuleId) :
    Stage F → Option (Pc F × World F)
  | .read =>
    match w.rules.lookup id with
    | none => some (caller.finish (notExecuted caller w.now id "Unknown" "Rule not found" false), w)
    | some rule =>
      match caller with
      -- a disabled rule is not evaluated, but it can be executed
      | .evaluateAndFire rest =>
        if rule.enabled then some (.firing caller id (.cooldown rule), w)
        else some (evaluateNext rest, w)
      | .executeRule _ => some (.firing caller id (.cooldown rule), w)
  | .cooldown rule =>
    if w.isInCooldown id rule then
      some (caller.finish (notExecuted caller w.now id rule.name "Rule is in cooldown" false), w)
    else some (.firing caller id (.condition rule), w)
  | .condition rule =>
    match rule.condition, caller with
    -- a data change fires no rule without a condition; an execution does
    | none, .evaluateAndFire rest => some (evaluateNext rest, w)
    | none, .executeRule _ => some (.firing caller id (conditionMetStage caller rule), w)
    | some cond, _ =>
      if cond.evaluate env.regexIsMatch w.values then
        some (.firing caller id (conditionMetStage caller rule), w)
      else some (.firing caller id (.since rule false), w)
  | .since rule conditionMet =>
    match w.updateConditionSince id conditionMet with
    | (sinceTime, some snapshot, w') =>
      w.lockRules (.firing caller id (.sinceSave rule conditionMet sinceTime snapshot), w')
    | (sinceTime, none, w') =>
      w.lockRules (sinceReturned caller w.now id rule conditionMet sinceTime, w')
  | .sinceSave rule conditionMet sinceTime snapshot =>
    some (sinceReturned caller w.now id rule conditionMet sinceTime, w.save snapshot)
  | .elapsed rule sinceTime =>
    match rule.forDuration with
    | none => some (.firing caller id (.claim rule), w)
    | some dur =>
      if w.now - sinceTime < dur then
        some (caller.finish (notExecuted caller w.now id rule.name
          ("Condition sustained for " ++ env.durationText (w.now - sinceTime) ++ ", requires "
            ++ env.durationText dur) true), w)
      else some (.firing caller id (.claim rule), w)
  | .claim rule =>
    match w.tryClaimCooldown id rule.cooldown with
    | none =>
      some (caller.finish (notExecuted caller w.now id rule.name "Rule is in cooldown" true), w)
    | some w' =>
      let start := match caller with
        | .evaluateAndFire _ => w.now
        | .executeRule start => start
      some (.firing caller id (.actions rule ⟨start, [], none⟩ rule.actions), w')
  | .actions rule p (_ :: todo) =>
    some (.firing caller id (.actions rule (p.record choice.outcome) todo), w)
  | .actions rule p [] =>
    match caller with
    | .evaluateAndFire _ => some (.firing caller id (.trigger rule p), w)
    -- only `execute_rule` refunds the cooldown
    | .executeRule _ => some (.firing caller id (.settle rule p), w)
  | .settle rule p =>
    if p.executed.isEmpty && p.error.isSome then
      match w.countFailure id with
      | (true, w') => some (.firing caller id (.refund rule p), w')
      | (false, w') => some (.firing caller id (.trigger rule p), w')
    else if !p.executed.isEmpty then
      some (.firing caller id (.trigger rule p), w.clearFailures id)
    else some (.firing caller id (.trigger rule p), w)
  | .refund rule p => some (.firing caller id (.trigger rule p), w.removeCooldown id)
  | .trigger rule p =>
    match w.updateRuleStateAfterTrigger id with
    | (some snapshot, w') => w.lockRules (.firing caller id (.triggerSave rule p snapshot), w')
    | (none, w') => w.lockRules (.firing caller id (.record rule p), w')
  | .triggerSave rule p snapshot => some (.firing caller id (.record rule p), w.save snapshot)
  | .record rule p =>
    let result := executionResult caller w.now rule id p
    some (caller.finish result, w.recordHistory result)

/-! ## One section of a task -/

/-- `update_rule_handler` up to its `get_rule`. -/
def updateRead (choice : Choice) (w : World F) (id : RuleId) (req : Json F) : Pc F :=
  let fields := UpdateFields.ofRequest req
  match fields.validate with
  | .error e => .answered (.error e)
  | .ok () =>
    if hasFullDefinition req then
      match env.parseRule choice.freshId req with
      | .error e => .answered (.error (.badRequest ("Invalid rule data: " ++ e)))
      | .ok parsed => .updateFull id fields parsed (w.rules.lookup id)
    else
      match w.rules.lookup id with
      | none => .answered (.error (.notFound "Rule"))
      | some rule =>
        let rule := partialUpdate env w.now fields rule
        .insert rule .handler

/-- Store the rule a handler prepared, or answer its error. -/
def insertOrAnswer : Except ErrorResponse (CompiledRule F) → Pc F
  | .ok rule => .insert rule .handler
  | .error e => .answered (.error e)

/-- One entry of an import. -/
def importNext (choice : Choice) (now : Instant) (value : Json F) (todo : List (Json F))
    (imported skipped : ℕ) (errors : List String) : Pc F :=
  match env.parseRule choice.freshId value with
  | .ok rule => .insert (rule.finalize env now) (.importer todo (imported + 1) skipped errors)
  | .error e => .importing todo imported (skipped + 1) (errors ++ [importError value e])

/-- The error of `set_enabled` as `set_rule_status_handler` answers it. -/
def setEnabledError (id : RuleId) (enabled : Bool) : ErrorResponse :=
  .internal ("Failed to " ++ (if enabled then "enable" else "disable")
    ++ " rule: Validation error: Rule not found: " ++ env.uuidText id)

/-- One section of task `n`. -/
def Pc.advance (n : ℕ) (choice : Choice) (w : World F) : Pc F → Option (Pc F × World F)
  | .lookup source => some (evaluateNext (w.affected source.storageKey), w)
  | .firing caller id stage => stage.advance env choice w caller id
  | .insert rule origin => w.lockRules (.rebuild (origin.after rule), w.insertRule rule)
  -- the read guard is held until the index is written
  | .rebuild after =>
    some (.rebuilding (World.subscriptionsOf w.rules) after,
      { w with rulesReaders := n :: w.rulesReaders })
  | .rebuilding idx after =>
    some (after.pc, { w with
      subscriptionIndex := idx
      rulesReaders := w.rulesReaders.filter (· ≠ n) })
  | .remove id viaHandler =>
    match w.rules.lookup id with
    | some _ => w.lockRules (.rebuild (.dropCooldown id viaHandler), w.removeRule id)
    | none => w.lockRules (.answered (if viaHandler then .error (.notFound "Rule")
        else .removed false), w)
  | .dropCooldown id viaHandler =>
    some (if viaHandler then .deleting id else .answered (.removed true), w.removeCooldown id)
  | .create req =>
    some (insertOrAnswer (prepareCreate env w.devices w.now choice.freshId req), w)
  | .update id req => some (updateRead env choice w id req, w)
  | .updateFull id fields parsed existing =>
    some (insertOrAnswer (prepareFullUpdate env w.devices w.now id fields parsed existing), w)
  | .saving rule => some (.answered (.rule rule), w.save rule)
  | .deleting id => some (.answered (.deleted id), w.delete id)
  | .setStatus id enabled =>
    match w.setEnabled id enabled with
    | some w' => w.lockRules (.statusRead id enabled, w')
    | none => w.lockRules (.answered (.error (setEnabledError env id enabled)), w)
  | .statusRead id enabled =>
    match w.rules.lookup id with
    | some rule => some (.statusSave rule id enabled, w)
    | none => some (.answered (.status id enabled), w)
  | .statusSave rule id enabled => some (.answered (.status id enabled), w.save rule)
  | .importRules req =>
    match (req.get "rules").bind Json.asArray with
    | some rulesData => some (.importing rulesData 0 0 [], w)
    | none => some (.answered (.error (.badRequest "Missing 'rules' array")), w)
  | .importing (value :: todo) imported skipped errors =>
    some (importNext env choice w.now value todo imported skipped errors, w)
  | .importing [] imported skipped errors =>
    some (.answered (.imported imported skipped errors), w)
  | .answered _ => none

/-! ## The server -/

/-- What can happen next. -/
inductive Label (F : Type) : Type where
  | tick (d : Duration)
  | provide (values : ValueProvider F)
  | register (devices : DeviceService F)
  | call (c : Call F)
  | run (n : ℕ) (choice : Choice)

/-- One step of the server. -/
def step (s : Server F) : Label F → Option (Server F)
  | .tick d => some { s with world := { s.world with now := s.world.now + d } }
  | .provide values => some { s with world := { s.world with values := values } }
  | .register devices => some { s with world := { s.world with devices := devices } }
  | .call c => some { s with tasks := s.tasks ++ [⟨c, c.start s.world.now⟩] }
  | .run n choice =>
    match s.tasks[n]? with
    | none => none
    | some task =>
      match task.pc.advance env n choice s.world with
      | none => none
      | some (pc, w) => some { world := w, tasks := s.tasks.set n { task with pc := pc } }

end Advance

/-- The task has answered its call. -/
def Pc.isAnswered : Pc F → Bool
  | .answered _ => true
  | _ => false

/-- No call is in progress. -/
def Server.Quiescent (s : Server F) : Prop :=
  ∀ task ∈ s.tasks, task.pc.isAnswered = true

instance (s : Server F) : Decidable s.Quiescent :=
  inferInstanceAs (Decidable (∀ task ∈ s.tasks, task.pc.isAnswered = true))

/-- The server that has not been called yet. -/
def Server.idle (w : World F) : Server F := ⟨w, []⟩

/-! ## A sample server

A concrete environment, one rule on the temperature of one device, and the requests about
it.  The parser reads the fields that these requests have. -/

namespace Sample

def source : DataSourceId := .ofDevice "d1" "temp"

def condition : RuleCondition ℤ := .comparison source .greaterThan 30 none

def id : RuleId := ⟨1⟩

/-- Alert when the temperature exceeds 30. -/
def rule : CompiledRule ℤ where
  id := id
  name := "hot"
  description := none
  enabled := true
  tags := []
  trigger := .dataChange [source]
  condition := some condition
  actions := [.notify "hot" .warning]
  cooldown := 10
  forDuration := none
  state := ⟨0, none, none⟩
  dslPreview := ""
  source := none
  createdAt := 0
  updatedAt := 0

def parseTrigger (value : Json ℤ) : Except String RuleTrigger :=
  match (value.get "trigger_type").bind Json.asStr with
  | some "data_change" => .ok (.dataChange [])
  | some "manual" => .ok .manual
  | some "schedule" =>
    match (value.get "cron").bind Json.asStr with
    | some cron => .ok (.schedule cron)
    | none => .error "missing field `cron`"
  | some _ => .error "unknown variant"
  | none => .error "missing field `trigger_type`"

/-- The one condition that the requests mention. -/
def parseCondition (value : Json ℤ) : Option (RuleCondition ℤ) :=
  match (value.get "source").bind Json.asStr, value.get "threshold" with
  | some "device:d1:temp", some (.number threshold) =>
    some (.comparison source .greaterThan threshold none)
  | some "device:d1:__last_seen_age_secs", some (.number threshold) =>
    some (.comparison (.ofDevice "d1" "__last_seen_age_secs") .greaterThan threshold none)
  | _, _ => none

def parseRule (value : Json ℤ) : Except String (CompiledRule ℤ) :=
  match (value.get "name").bind Json.asStr, (value.get "trigger").map parseTrigger with
  | some name, some (.ok trigger) => .ok
    { rule with
      name := name
      enabled := ((value.get "enabled").bind Json.asBool).getD true
      trigger := trigger
      condition := (value.get "condition").bind parseCondition
      actions := []
      cooldown := match value.get "cooldown" with
        | some (.number ms) => Duration.fromMillis ms.toNat
        | _ => Duration.fromSecs 60 }
  | some _, some (.error e) => .error e
  | some _, none => .error "missing field `trigger`"
  | none, _ => .error "missing field `name`"

def env : Env ℤ where
  regexIsMatch := fun _ _ => false
  parseCron := fun cron => if cron = "* * * * *" then .ok () else .error "invalid"
  fromValue := parseRule
  jsonText := fun _ => ""
  uuidText := fun _ => ""
  durationText := fun _ => ""

/-- Every source reads the given number. -/
def reading (v : ℤ) : ValueProvider ℤ := fun _ => some (.number v)

/-- No devices are registered. -/
def noDevices : DeviceService ℤ := ⟨[], ∅⟩

/-- The next section of task `n`; its action, if it runs one, succeeds. -/
def run (n : ℕ) : Label ℤ := .run n ⟨.ok "done", id⟩

/-- The next section of task `n`; its action, if it runs one, fails. -/
def runFailing (n : ℕ) : Label ℤ := .run n ⟨.error "failed", id⟩

/-- The next sections of task `n`. -/
def runs (n count : ℕ) : List (Label ℤ) := List.replicate count (run n)

/-- A new engine and an empty store. -/
def fresh : World ℤ := World.new .empty (reading 40) noDevices 0

/-- The engine with the sample rule registered and stored. -/
def loaded (rule : CompiledRule ℤ) : World ℤ :=
  { fresh with
    rules := KeyedMap.empty.put rule
    ruleStore := KeyedMap.empty.put rule
    subscriptionIndex := World.subscriptionsOf (KeyedMap.empty.put rule) }

end Sample

end HeraMind.Rules
