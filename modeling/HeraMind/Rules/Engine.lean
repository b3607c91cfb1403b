/-
# The critical sections of the rule engine

`crates/heramind-rules/src/engine.rs`.  `World` is everything the tasks of the server
share: the engine's tables, the rule store, the value provider, the registered devices
and the clock.  Each function below is what the source does while it holds one lock, so
it is one atomic step; how the steps of concurrent calls interleave is the business of
`HeraMind.Rules.Tasks`.
-/
import HeraMind.Rules.Preview
import HeraMind.Rules.Validator

namespace HeraMind.Rules

/-- The state shared by all tasks. -/
structure World (F : Type) where
  /-- All registered rules. -/
  rules : RuleMap F
  /-- The tasks that hold the read guard of `rules` while they rebuild the index. -/
  rulesReaders : List ℕ
  /-- Subscription index: storage key to rule ids. -/
  subscriptionIndex : HashMap String (List RuleId)
  /-- Cooldown tracking: rule id to last trigger. -/
  cooldowns : HashMap RuleId Instant
  /-- Consecutive all-actions-failed count per rule. -/
  consecutiveActionFailures : HashMap RuleId ℕ
  /-- Execution history, newest first. -/
  history : List RuleExecutionResult
  /-- The rules table of the persistent store, as the rules it reads back. -/
  ruleStore : RuleMap F
  /-- Value provider for condition evaluation. -/
  values : ValueProvider F
  /-- The registered devices. -/
  devices : DeviceService F
  /-- The clock, read as `Instant::now` and as `Utc::now`. -/
  now : Instant

namespace World

variable {F : Type}

/-- `RuleEngine::new`, next to a store and in an environment. -/
def new (ruleStore : RuleMap F) (values : ValueProvider F) (devices : DeviceService F)
    (now : Instant) : World F where
  rules := .empty
  rulesReaders := []
  subscriptionIndex := ∅
  cooldowns := ∅
  consecutiveActionFailures := ∅
  history := []
  ruleStore := ruleStore
  values := values
  devices := devices
  now := now

/-! ## Rules table -/

/-- The locked part of `add_rule` and `update_rule`. -/
def insertRule (w : World F) (rule : CompiledRule F) : World F :=
  { w with rules := w.rules.put rule }

/-- The locked part of `remove_rule`. -/
def removeRule (w : World F) (id : RuleId) : World F :=
  { w with rules := w.rules.erase id }

/-- The locked part of `set_enabled`; `none` when the rule does not exist. -/
def setEnabled (w : World F) (id : RuleId) (enabled : Bool) : Option (World F) :=
  match w.rules.lookup id with
  | some rule => some (w.insertRule { rule with enabled := enabled, updatedAt := w.now })
  | none => none

/-- The locked part of `update_condition_since`: the new `condition_since`, the snapshot
to persist if the rule changed, and the state after it. -/
def updateConditionSince (w : World F) (id : RuleId) (conditionMet : Bool) :
    Option Instant × Option (CompiledRule F) × World F :=
  match w.rules.lookup id with
  | none => (none, none, w)
  | some rule =>
    match conditionMet, rule.state.conditionSince with
    | true, none =>
      let rule' := rule.withConditionSince (some w.now)
      (some w.now, some rule', w.insertRule rule')
    | true, some since => (some since, none, w)
    | false, some _ =>
      let rule' := rule.withConditionSince none
      (none, some rule', w.insertRule rule')
    | false, none => (none, none, w)

/-- The locked part of `update_rule_state_after_trigger`: the snapshot to persist, and
the state after it. -/
def updateRuleStateAfterTrigger (w : World F) (id : RuleId) :
    Option (CompiledRule F) × World F :=
  match w.rules.lookup id with
  | some rule => (some (rule.triggered w.now), w.insertRule (rule.triggered w.now))
  | none => (none, w)

/-! ## Subscription index -/

/-- `idx.entry(key).or_insert_with(Vec::new).push(id)`. -/
def subscribe (idx : HashMap String (List RuleId)) (key : String) (id : RuleId) :
    HashMap String (List RuleId) :=
  idx.insert key ((idx.lookup key).getD [] ++ [id])

/-- The inner loop of `rebuild_all_subscriptions`, over the sources of one rule. -/
def subscribeRule (idx : HashMap String (List RuleId)) (rule : CompiledRule F) :
    HashMap String (List RuleId) :=
  rule.trigger.sources.foldl (fun idx source => subscribe idx source.storageKey rule.id) idx

/-- The index `rebuild_all_subscriptions` computes from the rules. -/
def subscriptionsOf (rules : RuleMap F) : HashMap String (List RuleId) :=
  rules.values.foldl subscribeRule ∅

/-- The rules `on_data_update` evaluates for a storage key. -/
def affected (w : World F) (key : String) : List RuleId :=
  (w.subscriptionIndex.lookup key).getD []

/-! ## Cooldowns -/

def isInCooldown (w : World F) (id : RuleId) (rule : CompiledRule F) : Bool :=
  match w.cooldowns.lookup id with
  | some last => decide (w.now - last < rule.cooldown)
  | none => false

/-- Atomically check cooldown and claim the slot; `none` when the rule is in cooldown. -/
def tryClaimCooldown (w : World F) (id : RuleId) (cooldown : Duration) : Option (World F) :=
  match w.cooldowns.lookup id with
  | some last =>
    if w.now - last < cooldown then none
    else some { w with cooldowns := w.cooldowns.insert id w.now }
  | none => some { w with cooldowns := w.cooldowns.insert id w.now }

/-- Drop the cooldown slot of a rule: the refund of `execute_rule`, the clean-up of
`remove_rule`. -/
def removeCooldown (w : World F) (id : RuleId) : World F :=
  { w with cooldowns := w.cooldowns.erase id }

/-- Count one more all-actions-failed run; true when it is the first in a row. -/
def countFailure (w : World F) (id : RuleId) : Bool × World F :=
  let count := (w.consecutiveActionFailures.lookup id).getD 0
  (count = 0, { w with consecutiveActionFailures :=
    w.consecutiveActionFailures.insert id (count + 1) })

/-- Forget the failures of a rule. -/
def clearFailures (w : World F) (id : RuleId) : World F :=
  { w with consecutiveActionFailures := w.consecutiveActionFailures.erase id }

/-! ## Store and history -/

/-- `RuleStore::save`. -/
def save (w : World F) (rule : CompiledRule F) : World F :=
  { w with ruleStore := w.ruleStore.put rule }

/-- `RuleStore::delete`. -/
def delete (w : World F) (id : RuleId) : World F :=
  { w with ruleStore := w.ruleStore.erase id }

/-- `RuleStore::list_all`.  A rule is stored as its JSON text, and `readBack` is what `serde_json`
reads from the text of a rule. -/
def listAll (readBack : CompiledRule F → Option (CompiledRule F)) (w : World F) :
    Option (List (CompiledRule F)) :=
  w.ruleStore.values.mapM readBack

/-- Maximum number of in-memory history entries. -/
def maxHistorySize : ℕ := 1000

/-- The in-memory part of `record_history`. -/
def recordHistory (w : World F) (result : RuleExecutionResult) : World F :=
  { w with history := (result :: w.history).take maxHistorySize }

end World

end HeraMind.Rules
