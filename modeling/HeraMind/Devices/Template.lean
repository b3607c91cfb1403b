/-
# Device types

The template of a device type (`crates/heramind-devices/src/registry.rs`,
`crates/heramind-devices/src/mdl.rs`, `crates/heramind-devices/src/mdl_format.rs`), its row in the
store (`crates/heramind-storage/src/device_registry.rs`), and the conversions between them.  The
store keeps a row as JSON text, written and read by `serde_json`.
-/
import Mathlib.Algebra.Group.Int.Defs
import Mathlib.Algebra.Group.Nat.Defs
import HeraMind.Lib.Serde

namespace HeraMind.Devices

open Serde

/-! ## Values -/

/-- A number of a JSON document; `F` stands for `f64`. -/
inductive Number (F : Type) : Type where
  | int (n : ℤ)
  | float (x : F)
  deriving DecidableEq

/-- `serde_json::Value`. -/
abbrev Value (F : Type) := Doc (Number F)

/-- What `serde_json` does with floating-point numbers, and how deeply nested a text it reads. -/
structure SerdeJson (F : Type) where
  /-- Whether JSON has the number. -/
  isFinite : F → Bool
  /-- The number read where one was written. -/
  readBack : F → F
  /-- The integer as a floating-point number. -/
  ofInt : ℤ → F
  recursionLimit : ℕ

/-- `MetricDataType`. -/
inductive MetricDataType : Type where
  | integer
  | float
  | string
  | boolean
  | array (elementType : Option MetricDataType)
  | binary
  | enum (options : List String)

/-- `MetricValue`. -/
inductive MetricValue (F : Type) : Type where
  | integer (n : Int64)
  | float (x : F)
  | string (s : String)
  | boolean (b : Bool)
  | array (items : List (MetricValue F))
  | binary (data : List UInt8)
  | null

/-! ## Templates -/

/-- `MetricDefinition`. -/
structure MetricDefinition (F : Type) where
  name : String
  displayName : String
  dataType : MetricDataType
  unit : String
  min : Option F
  max : Option F
  required : Bool

/-- `ValidationRule`. -/
inductive ValidationRule (F : Type) : Type where
  | pattern (regex errorMessage : String)
  | range (min max : F) (errorMessage : String)
  | length (min max : UInt64) (errorMessage : String)
  | custom (validator : String) (params : Value F)

/-- `ParameterGroup`. -/
structure ParameterGroup where
  id : String
  displayName : String
  description : String
  collapsed : Bool
  parameters : List String
  order : Int32

/-- `ParameterDefinition`. -/
structure ParameterDefinition (F : Type) where
  name : String
  displayName : String
  dataType : MetricDataType
  defaultValue : Option (MetricValue F)
  min : Option F
  max : Option F
  unit : String
  allowedValues : List (MetricValue F)
  required : Bool
  visibleWhen : Option String
  group : Option String
  helpText : String
  validation : List (ValidationRule F)

/-- `CommandDefinition`.  The fixed values are the entries of their map. -/
structure CommandDefinition (F : Type) where
  name : String
  displayName : String
  description : String
  payloadTemplate : String
  parameters : List (ParameterDefinition F)
  fixedValues : List (String × Value F)
  samples : List (Value F)
  parameterGroups : List ParameterGroup

/-- `DeviceTypeMode`. -/
inductive DeviceTypeMode : Type where
  | simple
  | full
  deriving DecidableEq

/-- `DeviceTypeTemplate`. -/
structure DeviceTypeTemplate (F : Type) where
  deviceType : String
  name : String
  description : String
  categories : List String
  mode : DeviceTypeMode
  metrics : List (MetricDefinition F)
  uplinkSamples : List (Value F)
  commands : List (CommandDefinition F)
  defaultOfflineTimeoutSecs : Option UInt64
  storeRaw : Option Bool

/-! ## Rows -/

/-- `MetricDataType` of the store. -/
inductive Storage.MetricDataType : Type where
  | float
  | integer
  | boolean
  | string
  | binary
  | enum (options : List String)

/-- `ParamMetricValue`. -/
inductive Storage.ParamMetricValue (F : Type) : Type where
  | integer (n : Int64)
  | float (x : F)
  | string (s : String)
  | boolean (b : Bool)
  | null

/-- `MetricDefinition` of the store. -/
structure Storage.MetricDefinition (F : Type) where
  name : String
  displayName : String
  dataType : Storage.MetricDataType
  unit : String
  min : Option F
  max : Option F
  required : Bool

/-- `ValidationRule` of the store. -/
inductive Storage.ValidationRule (F : Type) : Type where
  | pattern (regex errorMessage : String)
  | range (min max : F) (errorMessage : String)
  | length (min max : UInt64) (errorMessage : String)
  | custom (validator : String) (params : Value F)

/-- `ParameterGroup` of the store. -/
structure Storage.ParameterGroup where
  id : String
  displayName : String
  description : String
  collapsed : Bool
  parameters : List String
  order : Int32

/-- `ParameterDefinition` of the store. -/
structure Storage.ParameterDefinition (F : Type) where
  name : String
  displayName : String
  dataType : Storage.MetricDataType
  defaultValue : Option (Storage.ParamMetricValue F)
  min : Option F
  max : Option F
  unit : String
  allowedValues : List (Storage.ParamMetricValue F)
  required : Bool
  visibleWhen : Option String
  group : Option String
  helpText : String
  validation : List (Storage.ValidationRule F)

/-- `CommandDefinition` of the store. -/
structure Storage.CommandDefinition (F : Type) where
  name : String
  displayName : String
  description : String
  payloadTemplate : String
  parameters : List (Storage.ParameterDefinition F)
  fixedValues : List (String × Value F)
  samples : List (Value F)
  parameterGroups : List Storage.ParameterGroup

/-- `DeviceTypeMode` of the store. -/
inductive Storage.DeviceTypeMode : Type where
  | simple
  | full
  deriving DecidableEq

/-- `DeviceTypeTemplate` of the store. -/
structure Storage.DeviceTypeTemplate (F : Type) where
  deviceType : String
  name : String
  description : String
  categories : List String
  mode : Storage.DeviceTypeMode
  metrics : List (Storage.MetricDefinition F)
  uplinkSamples : List (Value F)
  commands : List (Storage.CommandDefinition F)
  defaultOfflineTimeoutSecs : Option UInt64
  storeRaw : Option Bool
  builtinVersion : Option String

variable {F : Type}

/-! ## Conversions -/

/-- `convert_metric_data_type`. -/
def convertMetricDataType : Storage.MetricDataType → MetricDataType
  | .float => .float
  | .integer => .integer
  | .boolean => .boolean
  | .string => .string
  | .binary => .binary
  | .enum options => .enum options

/-- `convert_metric_data_type_to_storage`: an array type is stored as text. -/
def convertMetricDataTypeToStorage : MetricDataType → Storage.MetricDataType
  | .float => .float
  | .integer => .integer
  | .boolean => .boolean
  | .string => .string
  | .binary => .binary
  | .array _ => .string
  | .enum options => .enum options

/-- `convert_metric_value`. -/
def convertMetricValue : Storage.ParamMetricValue F → MetricValue F
  | .integer n => .integer n
  | .float x => .float x
  | .string s => .string s
  | .boolean b => .boolean b
  | .null => .null

/-- `convert_metric_value_to_storage`: arrays and binary data are not stored. -/
def convertMetricValueToStorage : MetricValue F → Option (Storage.ParamMetricValue F)
  | .integer n => some (.integer n)
  | .float x => some (.float x)
  | .string s => some (.string s)
  | .boolean b => some (.boolean b)
  | .array _ => none
  | .null => some .null
  | .binary _ => none

/-- `convert_validation_rule_to_storage`. -/
def convertValidationRuleToStorage : ValidationRule F → Storage.ValidationRule F
  | .pattern regex errorMessage => .pattern regex errorMessage
  | .range min max errorMessage => .range min max errorMessage
  | .length min max errorMessage => .length min max errorMessage
  | .custom validator params => .custom validator params

/-- `convert_validation_rule_from_storage`. -/
def convertValidationRuleFromStorage : Storage.ValidationRule F → ValidationRule F
  | .pattern regex errorMessage => .pattern regex errorMessage
  | .range min max errorMessage => .range min max errorMessage
  | .length min max errorMessage => .length min max errorMessage
  | .custom validator params => .custom validator params

/-- `convert_parameter_group_to_storage`. -/
def convertParameterGroupToStorage (pg : ParameterGroup) : Storage.ParameterGroup where
  id := pg.id
  displayName := pg.displayName
  description := pg.description
  collapsed := pg.collapsed
  parameters := pg.parameters
  order := pg.order

/-- `convert_parameter_group_from_storage`. -/
def convertParameterGroupFromStorage (pg : Storage.ParameterGroup) : ParameterGroup where
  id := pg.id
  displayName := pg.displayName
  description := pg.description
  collapsed := pg.collapsed
  parameters := pg.parameters
  order := pg.order

/-- The row of a metric. -/
def MetricDefinition.toStorage (m : MetricDefinition F) : Storage.MetricDefinition F where
  name := m.name
  displayName := m.displayName
  dataType := convertMetricDataTypeToStorage m.dataType
  unit := m.unit
  min := m.min
  max := m.max
  required := m.required

/-- The metric of a row. -/
def Storage.MetricDefinition.toLocal (m : Storage.MetricDefinition F) :
    Devices.MetricDefinition F where
  name := m.name
  displayName := m.displayName
  dataType := convertMetricDataType m.dataType
  unit := m.unit
  min := m.min
  max := m.max
  required := m.required

/-- The row of a parameter. -/
def ParameterDefinition.toStorage (p : ParameterDefinition F) :
    Storage.ParameterDefinition F where
  name := p.name
  displayName := p.displayName
  dataType := convertMetricDataTypeToStorage p.dataType
  defaultValue := p.defaultValue.bind convertMetricValueToStorage
  min := p.min
  max := p.max
  unit := p.unit
  allowedValues := p.allowedValues.filterMap convertMetricValueToStorage
  required := p.required
  visibleWhen := p.visibleWhen
  group := p.group
  helpText := p.helpText
  validation := p.validation.map convertValidationRuleToStorage

/-- The parameter of a row. -/
def Storage.ParameterDefinition.toLocal (p : Storage.ParameterDefinition F) :
    Devices.ParameterDefinition F where
  name := p.name
  displayName := p.displayName
  dataType := convertMetricDataType p.dataType
  defaultValue := p.defaultValue.map convertMetricValue
  min := p.min
  max := p.max
  unit := p.unit
  allowedValues := p.allowedValues.map convertMetricValue
  required := p.required
  visibleWhen := p.visibleWhen
  group := p.group
  helpText := p.helpText
  validation := p.validation.map convertValidationRuleFromStorage

/-- The row of a command. -/
def CommandDefinition.toStorage (c : CommandDefinition F) : Storage.CommandDefinition F where
  name := c.name
  displayName := c.displayName
  payloadTemplate := c.payloadTemplate
  fixedValues := c.fixedValues
  parameters := c.parameters.map ParameterDefinition.toStorage
  samples := c.samples
  description := c.description
  parameterGroups := c.parameterGroups.map convertParameterGroupToStorage

/-- The command of a row. -/
def Storage.CommandDefinition.toLocal (c : Storage.CommandDefinition F) :
    Devices.CommandDefinition F where
  name := c.name
  displayName := c.displayName
  payloadTemplate := c.payloadTemplate
  fixedValues := c.fixedValues
  parameters := c.parameters.map Storage.ParameterDefinition.toLocal
  samples := c.samples
  description := c.description
  parameterGroups := c.parameterGroups.map convertParameterGroupFromStorage

/-- The row of a mode. -/
def DeviceTypeMode.toStorage : DeviceTypeMode → Storage.DeviceTypeMode
  | .simple => .simple
  | .full => .full

/-- The mode of a row. -/
def Storage.DeviceTypeMode.toLocal : Storage.DeviceTypeMode → Devices.DeviceTypeMode
  | .simple => .simple
  | .full => .full

/-- The row `register_template` and `save_to_storage` build of a template. -/
def DeviceTypeTemplate.toStorage (template : DeviceTypeTemplate F) :
    Storage.DeviceTypeTemplate F where
  deviceType := template.deviceType
  name := template.name
  description := template.description
  categories := template.categories
  mode := template.mode.toStorage
  metrics := template.metrics.map MetricDefinition.toStorage
  uplinkSamples := template.uplinkSamples
  commands := template.commands.map CommandDefinition.toStorage
  defaultOfflineTimeoutSecs := template.defaultOfflineTimeoutSecs
  storeRaw := template.storeRaw
  builtinVersion := none

/-- The template `load_from_storage` builds of a row. -/
def Storage.DeviceTypeTemplate.toLocal (row : Storage.DeviceTypeTemplate F) :
    Devices.DeviceTypeTemplate F where
  deviceType := row.deviceType
  name := row.name
  description := row.description
  categories := row.categories
  mode := row.mode.toLocal
  metrics := row.metrics.map Storage.MetricDefinition.toLocal
  uplinkSamples := row.uplinkSamples
  commands := row.commands.map Storage.CommandDefinition.toLocal
  defaultOfflineTimeoutSecs := row.defaultOfflineTimeoutSecs
  storeRaw := row.storeRaw

end HeraMind.Devices
