/-
# Rules

The data of a rule (`crates/heramind-rules/src/models.rs`,
`crates/heramind-core/src/datasource/mod.rs`): data sources, conditions and their
evaluation, actions, triggers, and the compiled rule with its runtime state.

What lies outside the repository comes in as parameters: `F64` is the floating-point
type, `Env` collects the regular expressions, the cron parser, and the `serde_json`
conversions.
-/
import Mathlib.Data.List.Infix
import HeraMind.Lib.KeyedMap

namespace HeraMind.Rules

/-! ## Time -/

/-- Points of time, in nanoseconds. -/
abbrev Instant := ℕ

/-- Spans of time, in nanoseconds. -/
abbrev Duration := ℕ

/-- `Duration::from_millis`. -/
def Duration.fromMillis (ms : ℕ) : Duration := ms * 1000000

/-- `Duration::from_secs`. -/
def Duration.fromSecs (s : ℕ) : Duration := s * 1000000000

/-- `Duration::as_millis`. -/
def Duration.asMillis (d : Duration) : ℕ := d / 1000000

/-! ## Floating point -/

/-- What the rules use of `f64`: the comparisons, subtraction, absolute value, printing,
the integral literals and the literal `0.0001`. -/
class F64 (F : Type) extends LT F, LE F, Sub F, ToString F where
  ofInt : ℤ → F
  abs : F → F
  tolerance : F
  decidableLt : DecidableRel fun a b : F => a < b
  decidableLe : DecidableRel fun a b : F => a ≤ b

instance F64.instDecidableLT {F : Type} [F64 F] : DecidableLT F := F64.decidableLt

instance F64.instDecidableLE {F : Type} [F64 F] : DecidableLE F := F64.decidableLe

/-- The floating-point numbers that are integers.  Between two of them a distance
below `0.0001` is a distance below `1`. -/
instance : F64 ℤ where
  ofInt := id
  abs := fun a => a.natAbs
  tolerance := 1
  decidableLt := inferInstance
  decidableLe := inferInstance

/-! ## JSON -/

/-- `serde_json::Value`. -/
inductive Json (F : Type) : Type where
  | null
  | bool (b : Bool)
  | number (n : F)
  | string (s : String)
  | array (xs : List (Json F))
  | object (fields : List (String × Json F))

namespace Json

variable {F : Type}

/-- `Value::get` with a string index: a field of an object. -/
def get : Json F → String → Option (Json F)
  | .object fields, k => (fields.find? (·.1 = k)).map Prod.snd
  | _, _ => none

/-- `Value::as_str`. -/
def asStr : Json F → Option String
  | .string s => some s
  | _ => none

/-- `Value::as_bool`. -/
def asBool : Json F → Option Bool
  | .bool b => some b
  | _ => none

/-- `Value::as_array`. -/
def asArray : Json F → Option (List (Json F))
  | .array xs => some xs
  | _ => none

/-- `Value::as_object`. -/
def asObject : Json F → Option (List (String × Json F))
  | .object fields => some fields
  | _ => none

/-- `Map::contains_key`. -/
def hasKey (fields : List (String × Json F)) (k : String) : Bool :=
  fields.any (·.1 = k)

end Json

/-! ## Data sources -/

inductive DataSourceType : Type where
  | device
  | extension
  | transform
  deriving DecidableEq

/-- Unified data source identifier. -/
structure DataSourceId where
  sourceType : DataSourceType
  sourceId : String
  fieldPath : String
  deriving DecidableEq

/-- Convert to storage key. -/
def DataSourceId.storageKey (s : DataSourceId) : String :=
  match s.sourceType with
  | .device => "device:" ++ s.sourceId ++ ":" ++ s.fieldPath
  | .extension => "extension:" ++ s.sourceId ++ ":" ++ s.fieldPath
  | .transform => "transform:" ++ s.sourceId ++ ":" ++ s.fieldPath

/-- A device data source. -/
def DataSourceId.ofDevice (deviceId metric : String) : DataSourceId :=
  ⟨.device, deviceId, metric⟩

/-! ## Values and operators -/

/-- A rule value that can be either numeric or textual. -/
inductive RuleValue (F : Type) : Type where
  | number (v : F)
  | text (s : String)

/-- Extract the numeric value if this is a `number`. -/
def RuleValue.asNumber {F : Type} : RuleValue F → Option F
  | .number v => some v
  | .text _ => none

inductive ComparisonOperator : Type where
  | greaterThan
  | lessThan
  | greaterEqual
  | lessEqual
  | equal
  | notEqual
  | contains
  | startsWith
  | endsWith
  | regex
  deriving DecidableEq

namespace ComparisonOperator

/-- Evaluate a numeric comparison.  String-only operators are false on numbers. -/
def evaluate {F : Type} [F64 F] (op : ComparisonOperator) (left right : F) : Bool :=
  match op with
  | greaterThan => decide (right < left)
  | lessThan => decide (left < right)
  | greaterEqual => decide (right ≤ left)
  | lessEqual => decide (left ≤ right)
  | equal => decide (F64.abs (left - right) < F64.tolerance)
  | notEqual => decide (F64.tolerance ≤ F64.abs (left - right))
  | contains | startsWith | endsWith | regex => false

/-- Evaluate a string comparison; `isMatch text pattern` is the regular-expression
match, false for a pattern that does not compile.  Numeric-only operators are false
on strings. -/
def evaluateStr (isMatch : String → String → Bool) (op : ComparisonOperator)
    (left right : String) : Bool :=
  match op with
  | equal => decide (left = right)
  | notEqual => decide (left ≠ right)
  | contains => decide (right.toList <:+: left.toList)
  | startsWith => decide (right.toList <+: left.toList)
  | endsWith => decide (right.toList <:+ left.toList)
  | regex => isMatch left right
  | greaterThan | lessThan | greaterEqual | lessEqual => false

/-- Returns true if this operator only makes sense for string values. -/
def isStringOp : ComparisonOperator → Bool
  | contains | startsWith | endsWith | regex => true
  | _ => false

/-- Human-readable symbol. -/
def symbol : ComparisonOperator → String
  | greaterThan => ">"
  | lessThan => "<"
  | greaterEqual => ">="
  | lessEqual => "<="
  | equal => "=="
  | notEqual => "!="
  | contains => "contains"
  | startsWith => "starts_with"
  | endsWith => "ends_with"
  | regex => "regex"

end ComparisonOperator

inductive LogicalOperator : Type where
  | and
  | or
  | not
  deriving DecidableEq

/-! ## Conditions -/

/-- A rule condition. -/
inductive RuleCondition (F : Type) : Type where
  | comparison (source : DataSourceId) (operator : ComparisonOperator) (threshold : F)
      (thresholdValue : Option String)
  | range (source : DataSourceId) (min max : F)
  | logical (operator : LogicalOperator) (conditions : List (RuleCondition F))

/-- Provides metric values for rule evaluation. -/
abbrev ValueProvider (F : Type) := DataSourceId → Option (RuleValue F)

mutual

/-- Collect all data sources referenced by this condition tree. -/
def RuleCondition.extractSources {F : Type} : RuleCondition F → List DataSourceId
  | .comparison source _ _ _ | .range source _ _ => [source]
  | .logical _ conditions => extractSourcesAll conditions

/-- The `flat_map` of `extractSources` over sub-conditions. -/
def extractSourcesAll {F : Type} : List (RuleCondition F) → List DataSourceId
  | [] => []
  | c :: cs => c.extractSources ++ extractSourcesAll cs

end

mutual

/-- Evaluate the condition against a value provider. -/
def RuleCondition.evaluate {F : Type} [F64 F] (isMatch : String → String → Bool)
    (provider : ValueProvider F) : RuleCondition F → Bool
  | .comparison source operator threshold thresholdValue =>
    match provider source with
    | some (.number v) => operator.evaluate v threshold
    | some (.text s) =>
      operator.evaluateStr isMatch s (thresholdValue.getD (toString threshold))
    | none => false
  | .range source min max =>
    match provider source with
    | some rv =>
      match rv.asNumber with
      | some v => decide (min ≤ v) && decide (v ≤ max)
      | none => false
    | none => false
  | .logical .and conditions => evaluateAll isMatch provider conditions
  | .logical .or conditions => evaluateAny isMatch provider conditions
  -- NOT is true only when none of the sub-conditions are met
  | .logical .not conditions => !evaluateAny isMatch provider conditions

/-- `conditions.iter().all(..)`. -/
def evaluateAll {F : Type} [F64 F] (isMatch : String → String → Bool)
    (provider : ValueProvider F) : List (RuleCondition F) → Bool
  | [] => true
  | c :: cs => c.evaluate isMatch provider && evaluateAll isMatch provider cs

/-- `conditions.iter().any(..)`. -/
def evaluateAny {F : Type} [F64 F] (isMatch : String → String → Bool)
    (provider : ValueProvider F) : List (RuleCondition F) → Bool
  | [] => false
  | c :: cs => c.evaluate isMatch provider || evaluateAny isMatch provider cs

end

/-! ## Actions and triggers -/

inductive ExecuteTarget : Type where
  | device
  | extension
  deriving DecidableEq

inductive NotifySeverity : Type where
  | info
  | warning
  | critical
  | emergency
  deriving DecidableEq

/-- A rule action. -/
inductive RuleAction (F : Type) : Type where
  | notify (message : String) (severity : NotifySeverity)
  | execute (target : String) (targetType : ExecuteTarget) (command : String)
      (params : Json F)
  | triggerAgent (agentId : String) (input : Option String) (data : Option (Json F))

/-- How a rule is triggered. -/
inductive RuleTrigger : Type where
  /-- Triggered when a subscribed data source changes. -/
  | dataChange (sources : List DataSourceId)
  /-- Triggered on a cron schedule. -/
  | schedule (cron : String)
  /-- Triggered manually. -/
  | manual
  deriving DecidableEq

/-- The sources whose updates reach the rule. -/
def RuleTrigger.sources : RuleTrigger → List DataSourceId
  | .dataChange sources => sources
  | .schedule _ | .manual => []

/-! ## Compiled rules -/

/-- Unique identifier for a rule. -/
structure RuleId where
  uuid : BitVec 128
  deriving DecidableEq

/-- Runtime state of a rule. -/
structure RuleState where
  triggerCount : ℕ
  lastTriggered : Option Instant
  /-- When the condition first became true (for `forDuration`). -/
  conditionSince : Option Instant
  deriving DecidableEq

/-- A compiled rule ready for evaluation and execution. -/
structure CompiledRule (F : Type) where
  id : RuleId
  name : String
  description : Option String
  enabled : Bool
  tags : List String
  trigger : RuleTrigger
  /-- `none` is unconditional (schedule, manual). -/
  condition : Option (RuleCondition F)
  actions : List (RuleAction F)
  /-- Minimum time between triggers. -/
  cooldown : Duration
  /-- Condition must hold for this long before triggering. -/
  forDuration : Option Duration
  state : RuleState
  dslPreview : String
  source : Option (Json F)
  createdAt : Instant
  updatedAt : Instant

/-- The rule with another `condition_since`. -/
def CompiledRule.withConditionSince {F : Type} (rule : CompiledRule F)
    (since : Option Instant) : CompiledRule F :=
  { rule with state := { rule.state with conditionSince := since } }

/-- The rule after a firing: counted, stamped, and no longer timing its condition. -/
def CompiledRule.triggered {F : Type} (rule : CompiledRule F) (now : Instant) :
    CompiledRule F :=
  { rule with state :=
    { triggerCount := rule.state.triggerCount + 1
      lastTriggered := some now
      conditionSince := none } }

/-- The rules table: every rule under its own id. -/
abbrev RuleMap (F : Type) := KeyedMap RuleId (CompiledRule F) CompiledRule.id

/-- Result of executing a rule. -/
structure RuleExecutionResult where
  ruleId : RuleId
  ruleName : String
  success : Bool
  actionsExecuted : List String
  error : Option String
  durationMs : ℕ
  triggeredAt : Instant
  deriving DecidableEq

/-! ## Code outside the repository -/

/-- The functions of other crates that the rules call. -/
structure Env (F : Type) where
  /-- `regex::Regex::new(pattern)` succeeds and matches the text. -/
  regexIsMatch : String → String → Bool
  /-- `cron.parse::<cron::Schedule>()`, with the error text. -/
  parseCron : String → Except String Unit
  /-- `serde_json::from_value::<CompiledRule>`, up to the id of a value without one. -/
  fromValue : Json F → Except String (CompiledRule F)
  /-- `Value::to_string`. -/
  jsonText : Json F → String
  /-- `Uuid::to_string`. -/
  uuidText : RuleId → String
  /-- The `Debug` text of a `Duration`. -/
  durationText : Duration → String

/-- `serde_json::from_value::<CompiledRule>`: a missing `id` defaults to a fresh one. -/
def Env.parseRule {F : Type} (env : Env F) (fresh : RuleId) (value : Json F) :
    Except String (CompiledRule F) :=
  match env.fromValue value with
  | .ok rule => .ok (if (value.get "id").isSome then rule else { rule with id := fresh })
  | .error e => .error e

/-! ## Evaluation depends on the extracted sources only -/

section Congruence

variable {F : Type} [F64 F] {isMatch : String → String → Bool} {p q : ValueProvider F}

mutual

/-- Providers that agree on the sources of a condition give it the same value. -/
theorem RuleCondition.evaluate_congr (c : RuleCondition F)
    (h : ∀ s ∈ c.extractSources, p s = q s) :
    c.evaluate isMatch p = c.evaluate isMatch q := by
  cases c with
  | comparison source operator threshold thresholdValue | range source min max =>
    have hs : p source = q source := h source (by simp [RuleCondition.extractSources])
    rw [RuleCondition.evaluate, RuleCondition.evaluate, hs]
  | logical operator conditions =>
    rw [RuleCondition.extractSources] at h
    cases operator with
    | and =>
      rw [RuleCondition.evaluate, RuleCondition.evaluate, evaluateAll_congr conditions h]
    | or | not =>
      rw [RuleCondition.evaluate, RuleCondition.evaluate, evaluateAny_congr conditions h]

theorem evaluateAll_congr (cs : List (RuleCondition F))
    (h : ∀ s ∈ extractSourcesAll cs, p s = q s) :
    evaluateAll isMatch p cs = evaluateAll isMatch q cs := by
  cases cs with
  | nil => rfl
  | cons c cs =>
    rw [extractSourcesAll] at h
    rw [evaluateAll, evaluateAll,
      c.evaluate_congr (fun s hs => h s (List.mem_append_left _ hs)),
      evaluateAll_congr cs (fun s hs => h s (List.mem_append_right _ hs))]

theorem evaluateAny_congr (cs : List (RuleCondition F))
    (h : ∀ s ∈ extractSourcesAll cs, p s = q s) :
    evaluateAny isMatch p cs = evaluateAny isMatch q cs := by
  cases cs with
  | nil => rfl
  | cons c cs =>
    rw [extractSourcesAll] at h
    rw [evaluateAny, evaluateAny,
      c.evaluate_congr (fun s hs => h s (List.mem_append_left _ hs)),
      evaluateAny_congr cs (fun s hs => h s (List.mem_append_right _ hs))]

end

end Congruence

end HeraMind.Rules
