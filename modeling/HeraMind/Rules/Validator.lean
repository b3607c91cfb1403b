/-
# Resource validation for rules

`crates/heramind-rules/src/validator.rs`, and the validation context that
`crates/heramind-api/src/handlers/rules.rs` builds from the registered devices.
-/
import HeraMind.Rules.Models

namespace HeraMind.Rules

variable {F : Type} [F64 F]

/-- Virtual metrics emitted by the rule engine itself. -/
def virtualMetrics : List String := ["__last_seen_age_secs"]

/-! ## Context -/

structure MetricInfo (F : Type) where
  name : String
  minValue : Option F
  maxValue : Option F

structure ParameterInfo where
  name : String
  required : Bool

structure CommandInfo where
  name : String
  parameters : List ParameterInfo

/-- Information about available devices for validation. -/
structure DeviceInfo (F : Type) where
  id : String
  metrics : List (MetricInfo F)
  commands : List CommandInfo

/-- Context for validation: the available resources.  An extension is known by its id. -/
structure ValidationContext (F : Type) where
  devices : KeyedMap String (DeviceInfo F) DeviceInfo.id
  extensions : List String

/-! ## Issues and errors -/

inductive ValidationSeverity : Type where
  | error
  | warning
  | info
  deriving DecidableEq

structure ValidationIssue where
  code : String
  message : String
  field : Option String
  severity : ValidationSeverity
  deriving DecidableEq

/-- Validation error with details about what failed. -/
inductive ValidationError : Type where
  | deviceNotFound (deviceId : String)
  | metricNotSupported (deviceId metric : String)
  | commandNotSupported (deviceId command : String)
  deriving DecidableEq

def ValidationError.code : ValidationError → String
  | deviceNotFound _ => "DEVICE_NOT_FOUND"
  | metricNotSupported _ _ => "METRIC_NOT_SUPPORTED"
  | commandNotSupported _ _ => "COMMAND_NOT_SUPPORTED"

def ValidationError.message : ValidationError → String
  | deviceNotFound deviceId => "Device not found: " ++ deviceId
  | metricNotSupported deviceId metric =>
    "Metric '" ++ metric ++ "' not supported by device '" ++ deviceId ++ "'"
  | commandNotSupported deviceId command =>
    "Command '" ++ command ++ "' not supported by device '" ++ deviceId ++ "'"

/-- An error that stopped the validation of a part of the rule, as an issue. -/
def ValidationError.toIssue (e : ValidationError) (field : String) : ValidationIssue :=
  ⟨e.code, e.message, some field, .error⟩

structure RuleValidationResult where
  isValid : Bool
  errors : List ValidationIssue
  warnings : List ValidationIssue

namespace RuleValidator

/-! ## Conditions -/

def validateVirtualMetricCondition (deviceId : String) (operator : ComparisonOperator)
    (context : ValidationContext F) : Except ValidationError (List ValidationIssue) :=
  match context.devices.lookup deviceId with
  | none => .error (.deviceNotFound deviceId)
  | some _ =>
    match operator with
    | .lessThan | .lessEqual | .contains | .startsWith | .endsWith | .regex =>
      .ok [⟨"VIRTUAL_METRIC_BAD_OPERATOR",
        "Operator '" ++ operator.symbol ++ "' is not meaningful for virtual metric (use > or >=)",
        some "condition.comparison.operator", .warning⟩]
    | _ => .ok []

def validateSimpleCondition (deviceId metric : String) (operator : ComparisonOperator)
    (threshold : F) (context : ValidationContext F) :
    Except ValidationError (List ValidationIssue) :=
  if metric ∈ virtualMetrics then
    validateVirtualMetricCondition deviceId operator context
  else
    match context.devices.lookup deviceId with
    | none => .error (.deviceNotFound deviceId)
    | some device =>
      match device.metrics.find? (·.name = metric) with
      | none => .error (.metricNotSupported deviceId metric)
      | some metricInfo =>
        let below := match metricInfo.minValue with
          | some min => if threshold < min then
              [⟨"THRESHOLD_BELOW_MIN",
                "Threshold " ++ toString threshold ++ " is below metric minimum " ++ toString min,
                some "condition.comparison.threshold", .warning⟩] else []
          | none => []
        let above := match metricInfo.maxValue with
          | some max => if max < threshold then
              [⟨"THRESHOLD_ABOVE_MAX",
                "Threshold " ++ toString threshold ++ " is above metric maximum " ++ toString max,
                some "condition.comparison.threshold", .warning⟩] else []
          | none => []
        .ok (below ++ above)

/-- The issue of an empty source id, reported under the field of its condition. -/
def emptySourceId (field : String) : ValidationIssue :=
  ⟨"EMPTY_SOURCE_ID", "Source ID cannot be empty", some field, .error⟩

mutual

/-- Validate a rule condition against available resources. -/
def validateCondition (context : ValidationContext F) :
    RuleCondition F → Except ValidationError (List ValidationIssue)
  | .comparison source operator threshold _ =>
    match source.sourceType with
    | .device =>
      validateSimpleCondition source.sourceId source.fieldPath operator threshold context
    | .extension =>
      if source.sourceId ∈ context.extensions then .ok [] else
        .ok [⟨"EXTENSION_NOT_FOUND",
          "Extension '" ++ source.sourceId ++ "' is not registered",
          some "condition.comparison.source", .warning⟩]
    | .transform =>
      .ok (if source.sourceId = "" then [emptySourceId "condition.comparison.source"] else [])
  | .range source min max =>
    let range := if max < min then
      [⟨"INVALID_RANGE", "Range min (" ++ toString min ++ ") > max (" ++ toString max ++ ")",
        some "condition.range", .error⟩] else []
    .ok (range ++ if source.sourceId = "" then [emptySourceId "condition.range.source"] else [])
  | .logical operator conditions =>
    -- NOT with several children evaluates as NOR
    let not := if operator = .not ∧ conditions.length ≠ 1 then
      [⟨"not_multi_child",
        "NOT operator with " ++ toString conditions.length
          ++ " conditions evaluates as NOR (none-true), not NAND. Use exactly one condition.",
        none, .warning⟩] else []
    match validateConditions context conditions with
    | .ok issues => .ok (not ++ issues)
    | .error e => .error e

def validateConditions (context : ValidationContext F) :
    List (RuleCondition F) → Except ValidationError (List ValidationIssue)
  | [] => .ok []
  | c :: cs =>
    match validateCondition context c with
    | .error e => .error e
    | .ok issues =>
      match validateConditions context cs with
      | .error e => .error e
      | .ok rest => .ok (issues ++ rest)

end

/-! ## Actions -/

/-- Validate a rule action against available resources. -/
def validateAction (context : ValidationContext F) :
    RuleAction F → Except ValidationError (List ValidationIssue)
  | .notify message _ =>
    .ok (if message = "" then
      [⟨"EMPTY_MESSAGE", "Notify message cannot be empty",
        some "actions.notify.message", .error⟩] else [])
  | .execute target .device command params =>
    match context.devices.lookup target with
    | none => .error (.deviceNotFound target)
    | some device =>
      match device.commands.find? (·.name = command) with
      | none => .error (.commandNotSupported target command)
      | some cmdInfo =>
        match params.asObject with
        | some obj =>
          .ok ((cmdInfo.parameters.filter fun p => p.required && !Json.hasKey obj p.name).map
            fun p => ⟨"MISSING_PARAMETER", "Missing required parameter: " ++ p.name,
              some ("actions." ++ command ++ ".params." ++ p.name), .error⟩)
        | none => .ok []
  | .execute target .extension _ _ =>
    .ok (if target = "" then
      [⟨"EMPTY_EXTENSION_ID", "Extension target ID cannot be empty",
        some "actions.execute.target", .error⟩] else [])
  | .triggerAgent agentId _ _ =>
    .ok (if agentId = "" then
      [⟨"EMPTY_AGENT_ID", "Agent ID cannot be empty",
        some "actions.trigger_agent.agent_id", .error⟩] else [])

/-! ## Rules -/

/-- The issues of one part of a rule; an error that stopped the validation becomes an
issue of the given field. -/
def issuesOf (field : String) :
    Except ValidationError (List ValidationIssue) → List ValidationIssue
  | .ok issues => issues
  | .error e => [e.toIssue field]

/-- Validate a complete rule (condition and actions). -/
def validateRule (condition : Option (RuleCondition F)) (actions : List (RuleAction F))
    (context : ValidationContext F) : RuleValidationResult :=
  let ofCondition := match condition with
    | some cond => issuesOf "condition" (validateCondition context cond)
    | none => []
  let issues := ofCondition
    ++ actions.flatMap fun a => issuesOf "actions" (validateAction context a)
  let errors := issues.filter (·.severity = .error)
  { isValid := errors.isEmpty
    errors := errors
    warnings := issues.filter (·.severity = .warning) }

/-- Minimum cooldown enforced on rules that subscribe to virtual metrics. -/
def minVirtualMetricCooldown : Duration := Duration.fromSecs 60

/-- The rule reads a virtual metric of a device. -/
def usesVirtual (condition : Option (RuleCondition F)) : Bool :=
  match condition with
  | some c => c.extractSources.any fun s =>
      s.sourceType = .device && decide (s.fieldPath ∈ virtualMetrics)
  | none => false

/-- Enforce a minimum cooldown on rules that subscribe to virtual metrics. -/
def validateVirtualMetricCooldown (rule : CompiledRule F) : Except String Unit :=
  if !usesVirtual rule.condition then .ok ()
  else if rule.cooldown < minVirtualMetricCooldown then
    .error ("Rules using virtual metrics (" ++ ", ".intercalate virtualMetrics
      ++ ") must set cooldown >= " ++ toString (minVirtualMetricCooldown.asMillis)
      ++ " ms (got " ++ toString (Duration.asMillis rule.cooldown)
      ++ " ms). Without a cooldown the rule would fire every 60 seconds.")
  else .ok ()

end RuleValidator

/-! ## The context of the registered devices -/

/-- A metric of a device-type template. -/
structure MetricDefinition (F : Type) where
  name : String
  min : Option F
  max : Option F

/-- A device-type template: its metrics and the names of its commands. -/
structure DeviceTypeTemplate (F : Type) where
  metrics : List (MetricDefinition F)
  commands : List String

structure DeviceConfig where
  deviceId : String
  deviceType : String
  deriving DecidableEq

/-- The registered devices and templates. -/
structure DeviceService (F : Type) where
  devices : List DeviceConfig
  templates : HashMap String (DeviceTypeTemplate F)

/-- Build the command list for rule validation from the device-type template. -/
def buildDeviceCommandsForValidation (service : DeviceService F) (device : DeviceConfig) :
    List CommandInfo :=
  match service.templates.lookup device.deviceType with
  | some template => template.commands.map fun c => ⟨c, []⟩
  | none => []

/-- The hardcoded metric of device types that have no template with metrics. -/
def legacyMetrics (deviceType : String) : List (MetricInfo F) :=
  if deviceType = "sensor" ∨ deviceType = "temperature_sensor" then
    [⟨"temperature", some (F64.ofInt (-50)), some (F64.ofInt 150)⟩]
  else [⟨"value", none, none⟩]

/-- Build the metric list for rule validation. -/
def buildDeviceMetricsForValidation (service : DeviceService F) (device : DeviceConfig) :
    List (MetricInfo F) :=
  match service.templates.lookup device.deviceType with
  | some template =>
    if template.metrics.isEmpty then legacyMetrics device.deviceType
    else template.metrics.map fun m => ⟨m.name, m.min, m.max⟩
  | none => legacyMetrics device.deviceType

/-- Build a validation context populated with the currently registered devices. -/
def buildValidationContext (service : DeviceService F) : ValidationContext F where
  devices := service.devices.foldl (fun devices device => devices.put
    { id := device.deviceId
      metrics := buildDeviceMetricsForValidation service device
      commands := buildDeviceCommandsForValidation service device }) .empty
  extensions := []

end HeraMind.Rules
