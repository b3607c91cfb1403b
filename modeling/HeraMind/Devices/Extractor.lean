/-
# The extractor of device data

How the metrics of a device are read from the JSON it sends
(`crates/heramind-devices/src/unified_extractor.rs`): by the template of its type, where a metric's
name is a path into the data, or without a template, where every field becomes a metric.

A slice of a text that ends before it starts panics, which is `none`.
-/
import HeraMind.Devices.Template
import HeraMind.Im.Shards
import HeraMind.Lib.ByteText
import HeraMind.Lib.DocPaths
import HeraMind.Rules.Handlers

namespace HeraMind.Devices

open Serde
open HeraMind.Im (parseU64)
open HeraMind.Rules (isWhitespace)

/-- `ExtractionConfig`. -/
structure ExtractionConfig where
  storeRaw : Bool
  autoExtract : Bool
  maxDepth : ℕ
  includeArrays : Bool

/-- `ExtractedMetric`. -/
structure ExtractedMetric (F : Type) where
  name : String
  value : MetricValue F
  sourcePath : String

/-- `ExtractionMode`, of those `extract` gives. -/
inductive ExtractionMode : Type where
  | templateDriven
  | autoExtract
  | rawOnly
  deriving DecidableEq

/-- `ExtractionResult`. -/
structure ExtractionResult (F : Type) where
  rawStored : Bool
  metrics : List (ExtractedMetric F)
  mode : ExtractionMode
  warnings : List String

/-- `UnifiedExtractor`, with what it takes from the registry and from `serde_json`. -/
structure UnifiedExtractor (F : Type) where
  config : ExtractionConfig
  /-- `DeviceRegistry::get_template`. -/
  getTemplate : String → Option (DeviceTypeTemplate F)
  /-- `Number::as_f64` of an integer. -/
  ofInt : ℤ → F
  /-- `serde_json::to_string`. -/
  toText : Value F → String

/-- `SYSTEM_PASS_THROUGH_KEYS`. -/
def systemPassThroughKeys : List String := ["__webhook_image"]

/-- `str::trim`. -/
def trimText (s : String) : String := String.ofList (ByteText.trim isWhitespace s.toList)

namespace UnifiedExtractor

variable {F : Type} (x : UnifiedExtractor F)

/-- Convert a JSON value to a metric value. -/
def valueToMetricValue : Value F → MetricValue F
  | .number (.int n) =>
    if -2 ^ 63 ≤ n ∧ n < 2 ^ 63 then .integer (Int64.ofInt n) else .float (x.ofInt n)
  | .number (.float v) => .float v
  | .string s => .string s
  | .bool b => .boolean b
  | .null => .null
  | .array items => .string (x.toText (.array items))
  | .object fields => .string (x.toText (.object fields))

/-! ## Extraction by path -/

/-- What the extraction of a path gives: nothing where it panics, else `Result<Option<Value>>`. -/
abbrev PathResult (F : Type) := Option (Except String (Option (Value F)))

/-- The array notation `key[index]` within part `i`. -/
def followIndex (i : ℕ) (key indexStr : List Char) (current : Value F) :
    Except String (Option (Value F)) := do
  let target ←
    if key = [] then .ok (some current)
    else match current with
      | .object fields =>
        match fields.lookup (String.ofList key) with
        | some v => .ok (some v)
        | none =>
          .error ("Key '" ++ String.ofList key ++ "' not found at part " ++ toString i)
      | _ => .ok none
  match target with
  | none => .ok none
  | some v =>
    match parseU64 (String.ofList indexStr) with
    | none => .error ("Invalid array index: " ++ String.ofList indexStr)
    | some index =>
      match v with
      | .array items => .ok items[index]?
      | _ => .ok none

/-- The access by a key or by an index that stands alone. -/
def followKey (part : List Char) : Value F → Value F
  | .object fields => (fields.lookup (String.ofList part)).getD .null
  | .array items =>
    match parseU64 (String.ofList part) with
    | some index => items[index]?.getD .null
    | none => .null
  | _ => .null

/-- One part of a path, already trimmed. -/
def followPart (i : ℕ) (part : List Char) (current : Value F) : PathResult F :=
  if part = [] ∨ part = ['$'] then some (.ok (some current))
  else match ByteText.find ['['] part, ByteText.find [']'] part with
    | some bracketStart, some bracketEnd =>
      (ByteText.sliceTo part bracketStart).bind fun key =>
        (ByteText.slice part (bracketStart + 1) bracketEnd).map fun indexStr =>
          followIndex i key indexStr current
    | _, _ => some (.ok (some (followKey part current)))

/-- The parts of a path, from part `i` on. -/
def followParts : ℕ → List (List Char) → Value F → PathResult F
  | _, [], current => some (.ok (some current))
  | i, part :: parts, current =>
    match followPart i (ByteText.trim isWhitespace part) current with
    | some (.ok (some next)) => followParts (i + 1) parts next
    | stop => stop

/-- How many levels a path has. -/
def actualDepth (parts : List (List Char)) : ℕ :=
  (parts.filter fun part => ByteText.trim isWhitespace part ≠ [] ∧ part ≠ ['$']).length

/-- Extract a value using dot notation path. -/
def extractByPath (data : Value F) (path : String) (depth : ℕ) : PathResult F :=
  let trimmed := ByteText.trim isWhitespace path.toList
  if trimmed = [] then some (.ok none)
  else if trimmed = ['$'] then some (.ok (some data))
  else if trimmed.getLast? = some '.' then some (.ok none)
  else if x.config.maxDepth < depth then
    some (.error ("Max depth exceeded: " ++ toString x.config.maxDepth))
  else
    let parts := path.toList.splitOn '.'
    if parts.all List.isEmpty then some (.ok none)
    else if x.config.maxDepth < actualDepth parts then
      some (.error ("Max depth " ++ toString x.config.maxDepth ++ " exceeded: path has "
        ++ toString (actualDepth parts) ++ " levels"))
    else followParts 0 parts data

/-! ## Extraction without a template -/

/-- The metric of a value. -/
def metricAt (currentPath : String) (value : Value F) : ExtractedMetric F :=
  ⟨currentPath, x.valueToMetricValue value, "$." ++ currentPath⟩

/-- The path of a key below a parent. -/
def childPath (parentPath key : String) : String :=
  if parentPath = "" then key else parentPath ++ "." ++ key

mutual

/-- The metrics that the recursive helper of `auto_extract` pushes. -/
def autoExtractRecursive : Value F → String → ℕ → List (ExtractedMetric F)
  | .object fields, parentPath, depth =>
    if x.config.maxDepth < depth then [] else autoExtractFields fields parentPath depth
  | _, _, _ => []

/-- The loop over the fields of an object. -/
def autoExtractFields :
    List (String × Value F) → String → ℕ → List (ExtractedMetric F)
  | [], _, _ => []
  | (rawKey, value) :: fields, parentPath, depth =>
    let key := trimText rawKey
    (if key = "" then []
      else if key = "_raw" then []
      else
        let currentPath := childPath parentPath key
        match value with
        | .object nested =>
          -- objects of objects, objects of primitive values and mixed ones are entered alike
          if nested.isEmpty then []
          else autoExtractRecursive value currentPath (depth + 1)
        | .array items =>
          if x.config.includeArrays ∧ items.length ≤ 10 then [x.metricAt currentPath value]
          else [x.metricAt currentPath value]
        | _ => [x.metricAt currentPath value])
      ++ autoExtractFields fields parentPath depth

end

/-- Auto-extract metrics from the fields of the data. -/
def autoExtract (data : Value F) : List (ExtractedMetric F) := x.autoExtractRecursive data "" 0

/-! ## Extraction -/

/-- The system metric of a key, where the data has it. -/
def systemMetric (rawData : Value F) (sysKey : String) : Option (List (ExtractedMetric F)) := do
  match ← x.extractByPath rawData sysKey 0 with
  | .ok (some value) =>
    return if value.isNull then [] else [⟨sysKey, x.valueToMetricValue value, sysKey⟩]
  | _ => return []

/-- The metrics and warnings for one metric of a template. -/
def templateMetric (rawData : Value F) (metricDef : MetricDefinition F) :
    Option (List (ExtractedMetric F) × List String) := do
  match ← x.extractByPath rawData metricDef.name 0 with
  | .ok (some value) =>
    return ([⟨metricDef.name, x.valueToMetricValue value, metricDef.name⟩], [])
  | .ok none => return ([], [])
  | .error e => return ([], [metricDef.name ++ ": " ++ e])

/-- Extract metrics from raw device data. -/
def extract (deviceType : String) (rawData : Value F) : Option (ExtractionResult F) := do
  let system ← systemPassThroughKeys.mapM (x.systemMetric rawData)
  let template := x.getTemplate deviceType
  let storeRaw := (template.bind DeviceTypeTemplate.storeRaw).getD x.config.storeRaw
  let raw : List (ExtractedMetric F) :=
    if storeRaw then [⟨"_raw", x.valueToMetricValue rawData, "$"⟩] else []
  let metrics := system.flatten ++ raw
  match template with
  | some t =>
    if t.metrics.isEmpty then
      return ⟨storeRaw, metrics ++ x.autoExtract rawData, .autoExtract, []⟩
    else
      let found ← t.metrics.mapM (x.templateMetric rawData)
      return ⟨storeRaw, metrics ++ (found.map Prod.fst).flatten, .templateDriven,
        (found.map Prod.snd).flatten⟩
  | none =>
    if x.config.autoExtract then
      return ⟨storeRaw, metrics ++ x.autoExtract rawData, .autoExtract, []⟩
    else return ⟨storeRaw, metrics, .rawOnly, []⟩

end UnifiedExtractor

end HeraMind.Devices
