/-
# Payload templates

How the payload of a command is rendered (`crates/heramind-devices/src/payload_template.rs`): the
placeholders of a JSON template are marked with sentinels, the result is read as JSON, the sentinels
in it are replaced, and it is written.  A template that does not begin like an object or an array is
a plain text.

The scanner goes from byte to byte, and cuts the text before each of them.
-/
import HeraMind.Lib.JsonWrite
import HeraMind.Lib.Utf8
import HeraMind.Rules.Handlers
import HeraMind.Devices.Template

namespace HeraMind.Devices

open Serde JsonText
open HeraMind.Rules (isWhitespace)

variable {F : Type}

/-- What `serde_json` and the standard library make of numbers. -/
structure PayloadNumbers (F : Type) where
  /-- Whether `from_f64` takes the number. -/
  isFinite : F → Bool
  /-- `to_string` of the number. -/
  showFloat : F → String
  text : NumberText (Number F)

/-- The parameters of a command. -/
abbrev PayloadParams (F : Type) := HashMap String (MetricValue F)

/-- Why `serde_json` refuses a template. -/
inductive TemplateFault : Type where
  | notJson
  | malformedSentinel (rest : String)
  | invalidName (name : String)
  deriving DecidableEq

/-- `RenderError`. -/
inductive RenderError : Type where
  | invalidTemplate (fault : TemplateFault)
  | placeholderNotFound (name : String)
  | binaryUnsupported (name : String)
  | notStringifiable (name variant : String)
  deriving DecidableEq

namespace Payload

/-! ## Sentinels -/

def sentinelPrefix : List Char := "__PH:".toList

def sentinelSuffix : List Char := "__".toList

/-- `strip_prefix`. -/
def stripPrefix (p s : List Char) : Option (List Char) :=
  if p.isPrefixOf s then some (s.drop p.length) else none

/-- `strip_suffix`. -/
def stripSuffix (p s : List Char) : Option (List Char) :=
  if p.isSuffixOf s then some (s.take (s.length - p.length)) else none

/-- The characters of a name behind the first. -/
def isNameChar (c : Char) : Bool :=
  c.isAlphanum || c = '_' || c = '.'

/-- `is_valid_name`. -/
def isValidName : List Char → Bool
  | [] => false
  | c :: s => (c.isAlpha || c = '_') && s.all isNameChar

/-- `parse_exact_sentinel`. -/
def parseExactSentinel (s : List Char) : Option (List Char) :=
  match stripPrefix sentinelPrefix s with
  | none => none
  | some inner =>
    match stripSuffix sentinelSuffix inner with
    | none => none
    | some name => if isValidName name then some name else none

/-- `match_placeholder_at`. -/
def matchPlaceholderAt (s : List Char) : Option ℕ :=
  if s.length < 4 then none
  else
    match s with
    | '$' :: '\x7b' :: t =>
      let name := t.takeWhile (· ≠ '\x7d')
      if name.length = t.length then none
      else if isValidName name then some (name.length + 2) else none
    | _ => none

/-- The sentinel of a name. -/
def sentinel (name : List Char) : List Char :=
  sentinelPrefix ++ name ++ sentinelSuffix

/-- The bytes of a text, each as the character it is pushed as. -/
def bytes (text : String) : List Char :=
  (Utf8.asBytes text).map fun b => Char.ofNat b.toNat

/-- The byte continues a character, so that the text cannot be cut before it. -/
def continues (c : Char) : Bool :=
  0x80 ≤ c.toNat && c.toNat ≤ 0xBF

/-- The loop of `preprocess_template` over the bytes, after those to skip; no result is a panic. -/
def scan : ℕ → (inString escaped : Bool) → List Char → Option (List Char)
  | _, _, _, [] => some []
  | skip + 1, inString, escaped, _ :: t => scan skip inString escaped t
  | 0, inString, true, c :: t => (scan 0 inString false t).map (c :: ·)
  | 0, true, false, c :: t =>
    if c = '\\' then (scan 0 true true t).map ('\\' :: ·)
    else if c = '"' then (scan 0 false false t).map ('"' :: ·)
    -- `&template[i..]`
    else if continues c then none
    else
      match matchPlaceholderAt (c :: t) with
      | some n => (scan n true false t).map (sentinel (((c :: t).drop 2).take (n - 2)) ++ ·)
      | none => (scan 0 true false t).map (c :: ·)
  | 0, false, false, c :: t =>
    if c = '"' then (scan 0 true false t).map ('"' :: ·)
    else if continues c then none
    else
      match matchPlaceholderAt (c :: t) with
      | some n =>
        (scan n false false t).map fun out =>
          '"' :: (sentinel (((c :: t).drop 2).take (n - 2)) ++ '"' :: out)
      | none => (scan 0 false false t).map (c :: ·)

/-- `preprocess_template`; no result is a panic. -/
def preprocessTemplate (template : String) : Option (List Char) :=
  scan 0 false false (bytes template)

/-! ## Values -/

mutual

/-- `metric_to_json`. -/
def metricToJson (numbers : PayloadNumbers F) (name : String) :
    MetricValue F → Except RenderError (Value F)
  | .integer n => .ok (.number (.int n.toInt))
  | .float x => .ok (if numbers.isFinite x then .number (.float x) else .null)
  | .string s => .ok (.string s)
  | .boolean b => .ok (.bool b)
  | .null => .ok .null
  | .array items =>
    match metricsToJson numbers name 0 items with
    | .ok docs => .ok (.array docs)
    | .error e => .error e
  | .binary _ => .error (.binaryUnsupported name)

/-- The items of an array from an index on. -/
def metricsToJson (numbers : PayloadNumbers F) (name : String) (idx : ℕ) :
    List (MetricValue F) → Except RenderError (List (Value F))
  | [] => .ok []
  | item :: items =>
    match metricToJson numbers (name ++ "[" ++ toString idx ++ "]") item with
    | .error e => .error e
    | .ok doc =>
      match metricsToJson numbers name (idx + 1) items with
      | .ok docs => .ok (doc :: docs)
      | .error e => .error e

end

/-- `stringify_for_interpolation`. -/
def stringifyForInterpolation (numbers : PayloadNumbers F) (name : String) :
    MetricValue F → Except RenderError String
  | .string s => .ok s
  | .integer n => .ok (toString n.toInt)
  | .float x => .ok (numbers.showFloat x)
  | .boolean b => .ok (toString b)
  | .null => .ok "null"
  | .array _ => .error (.notStringifiable name "array")
  | .binary _ => .error (.notStringifiable name "binary")

/-- The parameter of a name. -/
def getParam (params : PayloadParams F) (name : List Char) : Except RenderError (MetricValue F) :=
  match params.lookup (String.ofList name) with
  | some value => .ok value
  | none => .error (.placeholderNotFound (String.ofList name))

/-! ## The tree -/

/-- `find`: the text before the first occurrence, and the text behind it. -/
def splitAtFirst (p : List Char) : List Char → Option (List Char × List Char)
  | [] => if p = [] then some ([], []) else none
  | c :: s =>
    if p.isPrefixOf (c :: s) then some ([], (c :: s).drop p.length)
    else (splitAtFirst p s).map fun r => (c :: r.1, r.2)

theorem length_splitAtFirst {p s : List Char} {r : List Char × List Char}
    (h : splitAtFirst p s = some r) : r.1.length + p.length + r.2.length = s.length := by
  induction s generalizing r with
  | nil =>
    unfold splitAtFirst at h
    split at h
    · rename_i hp
      cases h
      rw [hp]
      rfl
    · cases h
  | cons c s ih =>
    unfold splitAtFirst at h
    split at h
    · rename_i hp
      cases h
      have hle := (List.isPrefixOf_iff_prefix.mp hp).length_le
      rw [List.length_drop]
      simp only [List.length_nil]
      omega
    · obtain ⟨r', hr', rfl⟩ := Option.map_eq_some_iff.mp h
      have hlength := ih hr'
      simp only [List.length_cons]
      omega

/-- `interpolate_substrings`. -/
def interpolateSubstrings (numbers : PayloadNumbers F) (params : PayloadParams F)
    (s : List Char) : Except RenderError (List Char) :=
  match _h : splitAtFirst sentinelPrefix s with
  | none => .ok s
  | some (before, afterPrefix) =>
    match _h' : splitAtFirst sentinelSuffix afterPrefix with
    | none => .error (.invalidTemplate (.malformedSentinel (String.ofList s)))
    | some (name, rest) =>
      if isValidName name then
        match getParam params name with
        | .error e => .error e
        | .ok value =>
          match stringifyForInterpolation numbers (String.ofList name) value with
          | .error e => .error e
          | .ok text =>
            match interpolateSubstrings numbers params rest with
            | .error e => .error e
            | .ok out => .ok (before ++ text.toList ++ out)
      else .error (.invalidTemplate (.invalidName (String.ofList name)))
termination_by s.length
decreasing_by
  have hlength := length_splitAtFirst _h
  have hlength' := length_splitAtFirst _h'
  simp only [sentinelPrefix, sentinelSuffix] at hlength hlength'
  have hfront : "__PH:".toList.length = 5 := by decide
  omega

/-- `try_replace_leaf`. -/
def tryReplaceLeaf (numbers : PayloadNumbers F) (params : PayloadParams F) (s : List Char) :
    Except RenderError (Option (Value F)) :=
  match parseExactSentinel s with
  | some name =>
    match getParam params name with
    | .error e => .error e
    | .ok value => (metricToJson numbers (String.ofList name) value).map some
  | none =>
    if (splitAtFirst sentinelPrefix s).isNone then .ok none
    else
      (interpolateSubstrings numbers params s).map fun out =>
        some (.string (String.ofList out))

mutual

/-- `walk_value`. -/
def walkValue (numbers : PayloadNumbers F) (params : PayloadParams F) :
    Value F → Except RenderError (Value F)
  | .object fields =>
    match walkFields numbers params fields with
    | .ok fields => .ok (.object fields)
    | .error e => .error e
  | .array items =>
    match walkItems numbers params items with
    | .ok items => .ok (.array items)
    | .error e => .error e
  | .string s =>
    match tryReplaceLeaf numbers params s.toList with
    | .ok (some value) => .ok value
    | .ok none => .ok (.string s)
    | .error e => .error e
  | .null => .ok .null
  | .bool b => .ok (.bool b)
  | .number n => .ok (.number n)

/-- The items of an array. -/
def walkItems (numbers : PayloadNumbers F) (params : PayloadParams F) :
    List (Value F) → Except RenderError (List (Value F))
  | [] => .ok []
  | d :: items =>
    match walkValue numbers params d with
    | .error e => .error e
    | .ok d =>
      match walkItems numbers params items with
      | .ok items => .ok (d :: items)
      | .error e => .error e

/-- The fields of an object. -/
def walkFields (numbers : PayloadNumbers F) (params : PayloadParams F) :
    List (String × Value F) → Except RenderError (List (String × Value F))
  | [] => .ok []
  | (k, d) :: fields =>
    match walkValue numbers params d with
    | .error e => .error e
    | .ok d =>
      match walkFields numbers params fields with
      | .ok fields => .ok ((k, d) :: fields)
      | .error e => .error e

end

/-! ## Rendering -/

/-- How deeply `serde_json` lets a text be nested. -/
def maxDepth : ℕ := 127

/-- `render_json`; no result is a panic. -/
def renderJson (numbers : PayloadNumbers F) (template : String) (params : PayloadParams F) :
    Option (Except RenderError (List Char)) :=
  (preprocessTemplate template).map fun preprocessed =>
    match readText numbers.text maxDepth preprocessed with
    | none => .error (.invalidTemplate .notJson)
    | some tree => (walkValue numbers params tree).map (write numbers.text)

/-- `render_plain`. -/
def renderPlain (numbers : PayloadNumbers F) (params : PayloadParams F) (template : List Char) :
    Except RenderError (List Char) :=
  match _h : splitAtFirst "$\x7b".toList template with
  | none => .ok template
  | some (before, afterBrace) =>
    match _h' : splitAtFirst "\x7d".toList afterBrace with
    | none => .error (.placeholderNotFound "$\x7b…")
    | some (name, rest) =>
      if isValidName name then
        match getParam params name with
        | .error e => .error e
        | .ok value =>
          match stringifyForInterpolation numbers (String.ofList name) value with
          | .error e => .error e
          | .ok text =>
            match renderPlain numbers params rest with
            | .error e => .error e
            | .ok out => .ok (before ++ text.toList ++ out)
      else .error (.placeholderNotFound (String.ofList name))
termination_by template.length
decreasing_by
  have hlength := length_splitAtFirst _h
  have hlength' := length_splitAtFirst _h'
  simp only at hlength hlength'
  have hopen : "$\x7b".toList.length = 2 := by decide
  have hclose : "\x7d".toList.length = 1 := by decide
  omega

/-- Whether a template is taken for JSON. -/
def isJsonTemplate (template : String) : Bool :=
  match template.toList.dropWhile isWhitespace with
  | c :: _ => c = '\x7b' || c = '['
  | [] => false

/-- `render`; no result is a panic. -/
def render (numbers : PayloadNumbers F) (template : String) (params : PayloadParams F) :
    Option (Except RenderError (List Char)) :=
  if isJsonTemplate template then renderJson numbers template params
  else some (renderPlain numbers params template.toList)

end Payload

end HeraMind.Devices
