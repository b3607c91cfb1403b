/-
# Templates as JSON

How the rows of the device types are written as JSON and read
(`crates/heramind-storage/src/device_registry.rs`, the `serde` attributes of the types).
-/
import HeraMind.Devices.Template

namespace HeraMind.Devices

open Serde

variable {F : Type}

/-! ## Numbers -/

/-- The number read where one was written. -/
def SerdeJson.readNumber (sj : SerdeJson F) : Number F → Number F
  | .int n => .int n
  | .float x => .float (sj.readBack x)

/-- `from_str` of the text of a document; a text that is nested too deeply is refused. -/
def SerdeJson.readText (sj : SerdeJson F) (d : Value F) : Option (Value F) :=
  if d.depth < sj.recursionLimit then some (d.reread sj.readNumber) else none

/-- `f64`: JSON has no infinite numbers and no NaN, these are written as null. -/
def f64 (sj : SerdeJson F) : Codec (Number F) F where
  write x := if sj.isFinite x then .number (.float x) else .null
  read
    | .number (.float x) => some x
    | .number (.int n) => some (sj.ofInt n)
    | _ => none

/-- An integer between two bounds. -/
def integer {I : Type} (lo hi : ℤ) (toInt : I → ℤ) (ofInt : ℤ → I) : Codec (Number F) I where
  write n := .number (.int (toInt n))
  read
    | .number (.int n) => if lo ≤ n ∧ n ≤ hi then some (ofInt n) else none
    | _ => none

/-- `i64`. -/
def i64 : Codec (Number F) Int64 :=
  integer (-2 ^ 63) (2 ^ 63 - 1) Int64.toInt Int64.ofInt

/-- `i32`. -/
def i32 : Codec (Number F) Int32 :=
  integer (-2 ^ 31) (2 ^ 31 - 1) Int32.toInt Int32.ofInt

/-- `u64`, and `usize` on the supported platforms. -/
def u64 : Codec (Number F) UInt64 :=
  integer 0 (2 ^ 64 - 1) (fun n => n.toNat) fun n => UInt64.ofNat n.toNat

/-! ## Types and values -/

namespace Storage

/-- The variant without fields that goes by a name. -/
def MetricDataType.ofName : String → Option MetricDataType
  | "float" | "Float" => some .float
  | "integer" | "Integer" => some .integer
  | "boolean" | "Boolean" => some .boolean
  | "string" | "String" | "Array" => some .string
  | "binary" | "Binary" => some .binary
  | _ => none

/-- The fields of `Enum`. -/
def MetricDataType.options : Codec (Number F) (List String) :=
  .record ((Fields.nothing id).required "options" id Codec.string.list)

/-- `MetricDataType` as JSON. -/
def MetricDataType.codec : Codec (Number F) MetricDataType where
  write
    | .float => .string "float"
    | .integer => .string "integer"
    | .boolean => .string "boolean"
    | .string => .string "string"
    | .binary => .string "binary"
    | .enum names => .object [("enum", options.write names)]
  read
    | .string name => ofName name
    | .object [("enum", d)] => (options.read d).map .enum
    | .object [(name, .null)] => ofName name
    | _ => none

/-- `ParamMetricValue` as JSON. -/
def ParamMetricValue.codec (sj : SerdeJson F) : Codec (Number F) (ParamMetricValue F) where
  write
    | .integer n => .object [("integer", i64.write n)]
    | .float x => .object [("float", (f64 sj).write x)]
    | .string s => .object [("string", Codec.string.write s)]
    | .boolean b => .object [("boolean", Codec.bool.write b)]
    | .null => .string "null"
  read
    | .string "null" => some .null
    | .object [("integer", d)] => (i64.read d).map .integer
    | .object [("float", d)] => ((f64 sj).read d).map .float
    | .object [("string", d)] => (Codec.string.read d).map .string
    | .object [("boolean", d)] => (Codec.bool.read d).map .boolean
    | .object [("null", .null)] => some .null
    | _ => none

/-- The value of a bare JSON value. -/
def ParamMetricValue.ofBare (sj : SerdeJson F) : Value F → Option (ParamMetricValue F)
  | .bool b => some (.boolean b)
  | .number (.int n) =>
    if -2 ^ 63 ≤ n ∧ n ≤ 2 ^ 63 - 1 then some (.integer (Int64.ofInt n))
    else some (.float (sj.ofInt n))
  | .number (.float x) => some (.float x)
  | .string s => some (.string s)
  | .null => some .null
  | .array _ | .object _ => none

/-- `deserialize_default_value`: the tagged form, else a bare value. -/
def deserializeDefaultValue (sj : SerdeJson F) (d : Value F) :
    Option (Option (ParamMetricValue F)) :=
  if d.isNull then some none
  else match (ParamMetricValue.codec sj).read d with
    | some v => some (some v)
    | none => some (ParamMetricValue.ofBare sj d)

/-- A default value as JSON. -/
def defaultValueCodec (sj : SerdeJson F) : Codec (Number F) (Option (ParamMetricValue F)) where
  write := (ParamMetricValue.codec sj).option.write
  read := deserializeDefaultValue sj

/-! ## Validation rules -/

/-- The fields of `Pattern`. -/
def ValidationRule.patternFields : Fields (Number F) (String × String) (ValidationRule F) :=
  ((Fields.nothing .pattern).required "regex" Prod.fst .string).required
    "error_message" Prod.snd .string

/-- The fields of `Range`. -/
def ValidationRule.rangeFields (sj : SerdeJson F) :
    Fields (Number F) (F × F × String) (ValidationRule F) :=
  (((Fields.nothing .range).required "min" (·.1) (f64 sj)).required
    "max" (·.2.1) (f64 sj)).required "error_message" (·.2.2) .string

/-- The fields of `Length`. -/
def ValidationRule.lengthFields :
    Fields (Number F) (UInt64 × UInt64 × String) (ValidationRule F) :=
  (((Fields.nothing .length).required "min" (·.1) u64).required
    "max" (·.2.1) u64).required "error_message" (·.2.2) .string

/-- The fields of `Custom`. -/
def ValidationRule.customFields : Fields (Number F) (String × Value F) (ValidationRule F) :=
  ((Fields.nothing .custom).required "validator" Prod.fst .string).required "params" Prod.snd .value

/-- The fields of the variant that goes by a name. -/
def ValidationRule.readVariant (sj : SerdeJson F) (fields : List (String × Value F)) :
    String → Option (ValidationRule F)
  | "pattern" => patternFields.read fields
  | "range" => (rangeFields sj).read fields
  | "length" => lengthFields.read fields
  | "custom" => customFields.read fields
  | _ => none

/-- `ValidationRule` as JSON, with the name of the variant among the fields. -/
def ValidationRule.codec (sj : SerdeJson F) : Codec (Number F) (ValidationRule F) where
  write
    | .pattern regex errorMessage =>
      .object (("type", .string "pattern") :: patternFields.write (regex, errorMessage))
    | .range min max errorMessage =>
      .object (("type", .string "range") :: (rangeFields sj).write (min, max, errorMessage))
    | .length min max errorMessage =>
      .object (("type", .string "length") :: lengthFields.write (min, max, errorMessage))
    | .custom validator params =>
      .object (("type", .string "custom") :: customFields.write (validator, params))
  read
    | .object fields =>
      (readField .string none "type" fields).bind (readVariant sj fields)
    | _ => none

/-! ## Records -/

/-- `MetricDefinition` as JSON. -/
def MetricDefinition.codec (sj : SerdeJson F) : Codec (Number F) (MetricDefinition F) :=
  .record <| ((((((((Fields.nothing MetricDefinition.mk).required
    "name" name .string).withDefault
    "display_name" displayName .string "").withDefault
    "data_type" dataType MetricDataType.codec .string).withDefault
    "unit" unit .string "").withDefault
    "min" min (f64 sj).option none).withDefault
    "max" max (f64 sj).option none).withDefault
    "required" required .bool false)

/-- `ParameterGroup` as JSON. -/
def ParameterGroup.codec : Codec (Number F) ParameterGroup :=
  .record <| ((((((Fields.nothing ParameterGroup.mk).required
    "id" id .string).required
    "display_name" displayName .string).withDefault
    "description" description .string "").withDefault
    "collapsed" collapsed .bool false).required
    "parameters" parameters Codec.string.list).withDefault
    "order" order i32 0

/-- `ParameterDefinition` as JSON. -/
def ParameterDefinition.codec (sj : SerdeJson F) : Codec (Number F) (ParameterDefinition F) :=
  .record <| (((((((((((((Fields.nothing ParameterDefinition.mk).required
    "name" name .string).withDefault
    "display_name" displayName .string "").withDefault
    "data_type" dataType MetricDataType.codec .string).withDefault
    "default_value" defaultValue (defaultValueCodec sj) none).withDefault
    "min" min (f64 sj).option none).withDefault
    "max" max (f64 sj).option none).withDefault
    "unit" unit .string "").withDefault
    "allowed_values" allowedValues (ParamMetricValue.codec sj).list []).withDefault
    "required" required .bool false).withDefault
    "visible_when" visibleWhen Codec.string.option none).withDefault
    "group" group Codec.string.option none).withDefault
    "help_text" helpText .string "").withDefault
    "validation" validation (ValidationRule.codec sj).list []

/-- `CommandDefinition` as JSON. -/
def CommandDefinition.codec (sj : SerdeJson F) : Codec (Number F) (CommandDefinition F) :=
  .record <| ((((((((Fields.nothing CommandDefinition.mk).required
    "name" name .string).withDefault
    "display_name" displayName .string "").withDefault
    "description" description .string "").withDefault
    "payload_template" payloadTemplate .string "").withDefault
    "parameters" parameters (ParameterDefinition.codec sj).list []).withDefault
    "fixed_values" fixedValues Codec.value.entries []).withDefault
    "samples" samples Codec.value.list []).withDefault
    "parameter_groups" parameterGroups ParameterGroup.codec.list []

/-- `DeviceTypeMode` as JSON. -/
def DeviceTypeMode.codec : Codec (Number F) DeviceTypeMode where
  write
    | .simple => .string "simple"
    | .full => .string "full"
  read
    | .string "simple" => some .simple
    | .string "full" => some .full
    | _ => none

/-- `DeviceTypeTemplate` as JSON. -/
def DeviceTypeTemplate.codec (sj : SerdeJson F) : Codec (Number F) (DeviceTypeTemplate F) :=
  .record <| (((((((((((Fields.nothing DeviceTypeTemplate.mk).required
    "device_type" deviceType .string).required
    "name" name .string).withDefault
    "description" description .string "").withDefault
    "categories" categories Codec.string.list []).withDefault
    "mode" mode DeviceTypeMode.codec .simple).withDefault
    "metrics" metrics (MetricDefinition.codec sj).list []).withDefault
    "uplink_samples" uplinkSamples Codec.value.list []).withDefault
    "commands" commands (CommandDefinition.codec sj).list []).optional
    "default_offline_timeout_secs" defaultOfflineTimeoutSecs u64).optional
    "store_raw" storeRaw .bool).optional
    "builtin_version" builtinVersion .string

end Storage

end HeraMind.Devices
