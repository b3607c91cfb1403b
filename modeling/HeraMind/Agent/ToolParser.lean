/-
# Tool calls in the text of a reply

`crates/heramind-agent/src/agent/tool_parser.rs`: five parsers look for tool calls in what a
model has written, one after the other.  The outer `none` of a parser is a slice that
panics or a loop that does not advance, the inner one that it has found nothing.

The JSON parser is a parameter.  The regular expression of the Pythonic format is a
function here.
-/
import HeraMind.Agent.Summary
import HeraMind.Lib.ByteText
import HeraMind.Lib.Descent
import HeraMind.Rules.Handlers

namespace HeraMind.Agent

open ByteText
open HeraMind.Rules (Json isWhitespace)

variable {F : Type}

/-! ## Tool calls -/

/-- `serde_json::from_str::<Value>`. -/
structure Serde (F : Type) where
  fromStr : Text → Option (Json F)

/-- `serde_json::from_str::<Vec<Value>>`. -/
def Serde.fromStrVec (serde : Serde F) (t : Text) : Option (List (Json F)) :=
  (serde.fromStr t).bind Json.asArray

/-- The id of a call: given by the model, or a new UUID. -/
inductive CallId : Type where
  | given (id : String)
  | generated
  deriving DecidableEq

/-- Tool call from LLM. -/
structure ToolCall (F : Type) where
  name : String
  id : CallId
  arguments : Json F

/-- The calls that a parser has found, with the rest of the text. -/
abbrev Parsed (F : Type) := Text × List (ToolCall F)

/-- The fields of a JSON object. -/
abbrev Fields (F : Type) := List (String × Json F)

/-- `Map::insert`. -/
def Fields.insert (fields : Fields F) (key : Text) (value : Json F) : Fields F :=
  let key := String.ofList key
  if fields.any fun f => f.1 = key then
    fields.map fun f => if f.1 = key then (key, value) else f
  else fields ++ [(key, value)]

/-- A text as a JSON string. -/
def jsonString (t : Text) : Json F := .string (String.ofList t)

/-- `str::trim`. -/
def trim (t : Text) : Text := ByteText.trim isWhitespace t

/-- `str::trim_end().ends_with("/>")`. -/
def isSelfClosing (tag : Text) : Bool :=
  "/>".toList.isSuffixOf (trimEnd isWhitespace tag)

/-! ## JSON -/

/-- The fields that are not arguments. -/
def reservedFields : List String :=
  ["name", "tool", "function", "arguments", "params", "parameters", "id"]

/-- Extract a tool call from a JSON value. -/
def extractToolCallFromJson (value : Json F) : Option (ToolCall F) :=
  let nameField :=
    (((value.get "name").or (value.get "tool")).or (value.get "function")).bind Json.asStr
  nameField.map fun name =>
    { name := name
      id := match (value.get "id").bind Json.asStr with
        | some id => .given id
        | none => .generated
      arguments :=
        (((value.get "arguments").or (value.get "params")).or (value.get "parameters")).getD
          (.object ((value.asObject.getD []).filter fun f => f.1 ∉ reservedFields)) }

/-- The scan for the bracket that closes the first one, from a depth on, in or out of a
string, behind a backslash or not: the number of bytes up to and with that bracket. -/
def closing (opening closer : Char) : ℤ → Bool → Bool → Text → Option ℕ
  | _, _, _, [] => none
  | depth, inString, true, c :: t =>
    (closing opening closer depth inString false t).map (c.utf8Size + ·)
  | depth, true, false, c :: t =>
    if c = '\\' then (closing opening closer depth true true t).map (c.utf8Size + ·)
    else if c = '"' then (closing opening closer depth false false t).map (c.utf8Size + ·)
    else (closing opening closer depth true false t).map (c.utf8Size + ·)
  | depth, false, false, c :: t =>
    if c = '"' then (closing opening closer depth true false t).map (c.utf8Size + ·)
    else if c = opening then
      (closing opening closer (depth + 1) false false t).map (c.utf8Size + ·)
    else if c = closer then
      if depth - 1 = 0 then some c.utf8Size
      else (closing opening closer (depth - 1) false false t).map (c.utf8Size + ·)
    else (closing opening closer depth false false t).map (c.utf8Size + ·)

/-- The span has a key that tool calls have. -/
def looksLikeToolCalls (json : Text) : Bool :=
  contains "\"name\"".toList json || contains "\"tool\"".toList json ||
    contains "\"function\"".toList json

/-- Try to parse JSON array format tool calls. -/
def tryParseJsonArray (serde : Serde F) (text : Text) : Option (Option (Parsed F)) :=
  match find ['['] text with
  | none => some none
  | some start => do
    let rest ← sliceFrom text start
    match closing '[' ']' 0 false false rest with
    | none => return none
    | some n =>
      let jsonStr ← slice text start (start + n)
      if looksLikeToolCalls jsonStr then
        match serde.fromStrVec jsonStr with
        | none => return none
        | some array =>
          let toolCalls := array.filterMap extractToolCallFromJson
          if toolCalls.isEmpty then return none
          else
            let before ← sliceTo text start
            return some (trim before, toolCalls)
      else return none

/-- The text from an object on is one JSON value with arguments. -/
def isToolCallShaped (serde : Serde F) (fromObject : Text) : Bool :=
  match serde.fromStr fromObject with
  | some v =>
    (v.get "arguments").isSome || (v.get "params").isSome || (v.get "parameters").isSome
  | none => false

/-- Try to parse JSON object format tool call. -/
def tryParseJsonObject (serde : Serde F) (text : Text) : Option (Option (Parsed F)) :=
  match find ['{'] text with
  | none => some none
  | some start => do
    let before ← sliceTo text start
    let rest ← sliceFrom text start
    if trim before ≠ [] ∧ ¬ "```".toList <+: trim before ∧ isToolCallShaped serde rest = false then
      return none
    else
      match closing '{' '}' 0 false false rest with
      | none => return none
      | some n =>
        let jsonStr ← slice text start (start + n)
        return ((serde.fromStr jsonStr).bind extractToolCallFromJson).map fun toolCall =>
          (trim before, [toolCall])

/-! ## XML -/

/-- The text from an offset to the next quote. -/
def untilQuote (t : Text) (i : ℕ) : Option (Option Text) := do
  let rest ← sliceFrom t i
  match find ['"'] rest with
  | none => return none
  | some stop =>
    let value ← sliceTo rest stop
    return some value

/-- Extract the value of an attribute from a tag. -/
def extractXmlAttr (tag attr : Text) : Option (Option Text) :=
  let needle := attr ++ "=\"".toList
  match find needle tag with
  | none => some none
  | some start => untilQuote tag (start + len needle)

/-- A round of the loop over the parameters of an invoke element. -/
def parameterRound (section_ : Text) :
    ℕ × Fields F → Option (LoopFlow (ℕ × Fields F) (Option (Fields F)))
  | (searchStart, arguments) =>
    if searchStart < len section_ then do
      let rest ← sliceFrom section_ searchStart
      match find "<parameter".toList rest with
      | none => return .leave (some arguments)
      | some paramStart =>
        let paramStart := searchStart + paramStart
        let fromParam ← sliceFrom section_ paramStart
        match find ['>'] fromParam with
        | none => return .leave none
        | some tagEnd =>
          let tagEnd := paramStart + tagEnd
          let tagSection ← slice section_ paramStart (tagEnd + 1)
          match ← extractXmlAttr tagSection "name".toList with
          | none => return .next (paramStart + len "<parameter".toList, arguments)
          | some paramName =>
            match find "value=\"".toList tagSection with
            | some vStart =>
              match ← untilQuote tagSection (vStart + len "value=\"".toList) with
              | some value =>
                return .next (tagEnd + 1, arguments.insert paramName (jsonString value))
              | none => return .next (tagEnd + 1, arguments)
            | none =>
              if isSelfClosing tagSection then return .next (tagEnd + 1, arguments)
              else
                let contentStart := tagEnd + 1
                let content ← sliceFrom section_ contentStart
                match find "</parameter>".toList content with
                | some closeEnd =>
                  let value ← slice section_ contentStart (contentStart + closeEnd)
                  return .next (contentStart + closeEnd + len "</parameter>".toList,
                    arguments.insert paramName (jsonString (trim value)))
                | none => return .next (paramStart + len "<parameter".toList, arguments)
    else some (.leave (some arguments))

/-- Parse a single invoke element from XML. -/
def parseInvokeElement (invokeSection : Text) : Option (Option (ToolCall F)) := do
  match ← extractXmlAttr invokeSection "name".toList with
  | none => return none
  | some toolName =>
    let arguments ← Descent.loop (fun s => len invokeSection - s.1)
      (parameterRound invokeSection) (0, [])
    return arguments.map fun arguments =>
      { name := String.ofList toolName, id := .generated, arguments := .object arguments }

/-- A round of the loop over the invoke elements.  What is left begins with the last byte of
the closing tag. -/
def invokeRound : Text × List (ToolCall F) →
    Option (LoopFlow (Text × List (ToolCall F)) (Option (List (ToolCall F))))
  | (remaining, toolCalls) =>
    match find "<invoke".toList remaining with
    | none => some (.leave (some toolCalls))
    | some invokeStart =>
      match find "</invoke>".toList remaining with
      | none => some (.leave none)
      | some invokeEnd => do
        let invokeSection ← slice remaining invokeStart (invokeEnd + 8)
        let toolCall ← parseInvokeElement invokeSection
        let rest ← sliceFrom remaining (invokeEnd + 8)
        return .next (rest, toolCalls ++ toolCall.toList)

/-- Try to parse XML format tool calls. -/
def tryParseXml (text : Text) : Option (Option (Parsed F)) :=
  match find "<tool_calls>".toList text with
  | none => some none
  | some start =>
    match find "</tool_calls>".toList text with
    | none => some none
    | some stop => do
      let xmlSection ← slice text start (stop + 13)
      let before ← sliceTo text start
      let after ← sliceFrom text (stop + 13)
      let toolCalls ← Descent.loop (fun s => len s.1) invokeRound (xmlSection, [])
      match toolCalls with
      | none => return none
      | some toolCalls =>
        if toolCalls.isEmpty then return none
        else return some (trim (before ++ after), toolCalls)

/-! ## Hermes -/

/-- A round of the loop over the parameters of a function. -/
def hermesParamRound (body : Text) : ℕ × Fields F → Option (LoopFlow (ℕ × Fields F) (Fields F))
  | (cursor, args) =>
    if cursor < len body then do
      let rest ← sliceFrom body cursor
      match find "<param".toList rest with
      | none => return .leave args
      | some rel =>
        let pStart := cursor + rel
        let fromParam ← sliceFrom body pStart
        match find ['>'] fromParam with
        | none => return .leave args
        | some tagEnd =>
          let tagEnd := pStart + tagEnd
          let tag ← slice body pStart (tagEnd + 1)
          match ← extractXmlAttr tag "name".toList with
          | none => return .next (tagEnd + 1, args)
          | some name =>
            if isSelfClosing tag then return .next (tagEnd + 1, args.insert name (jsonString []))
            else
              let valStart := tagEnd + 1
              let fromValue ← sliceFrom body valStart
              match find "</param>".toList fromValue with
              | some closeRel =>
                let value ← slice body valStart (valStart + closeRel)
                return .next (valStart + closeRel + len "</param>".toList,
                  args.insert name (jsonString (trim value)))
              | none => return .next (tagEnd + 1, args)
    else some (.leave args)

/-- Parse every parameter of a function body. -/
def parseHermesParams (body : Text) : Option (Fields F) :=
  Descent.loop (fun s => len body - s.1) (hermesParamRound body) (0, [])

/-- The calls found so far, and the byte ranges to strip. -/
abbrev Found (F : Type) := List (ToolCall F) × List (ℕ × ℕ)

/-- A round of the loop over the functions. -/
def hermesRound (text : Text) : ℕ × Found F → Option (LoopFlow (ℕ × Found F) (Found F))
  | (cursor, toolCalls, spans) =>
    if cursor < len text then do
      let rest ← sliceFrom text cursor
      match find "<function".toList rest with
      | none => return .leave (toolCalls, spans)
      | some rel =>
        let funcStart := cursor + rel
        let fromFunc ← sliceFrom text funcStart
        match find ['>'] fromFunc with
        | none => return .leave (toolCalls, spans)
        | some openEnd =>
          let openEnd := funcStart + openEnd
          let bodyStart := openEnd + 1
          let fromBody ← sliceFrom text bodyStart
          match find "</function>".toList fromBody with
          | none => return .leave (toolCalls, spans)
          | some closeRel =>
            let funcEnd := bodyStart + closeRel + len "</function>".toList
            let openTag ← slice text funcStart (openEnd + 1)
            let body ← slice text bodyStart (bodyStart + closeRel)
            let spans := spans ++ [(funcStart, funcEnd)]
            match ← extractXmlAttr openTag "name".toList with
            | none => return .next (funcEnd, toolCalls, spans)
            | some name =>
              let args ← parseHermesParams body
              return .next (funcEnd, toolCalls ++ [⟨String.ofList name, .generated, .object args⟩],
                spans)
    else some (.leave (toolCalls, spans))

/-- The text without the spans, from an offset on. -/
def removeSpans (text : Text) : ℕ → List (ℕ × ℕ) → Option Text
  | prev, [] => sliceFrom text prev
  | prev, (start, stop) :: spans => do
    let kept ← slice text prev start
    let rest ← removeSpans text stop spans
    return kept ++ rest

/-- Try to parse Hermes-style tool calls. -/
def tryParseHermes (text : Text) : Option (Option (Parsed F)) :=
  if contains "<function".toList text then do
    let (toolCalls, spans) ← Descent.loop (fun s => len text - s.1) (hermesRound text) (0, [], [])
    if toolCalls.isEmpty then return none
    else
      let content ← removeSpans text 0 spans
      return some (trim content, toolCalls)
  else some none

/-! ## Pythonic -/

/-- A match of `([A-Za-z_][A-Za-z0-9_]*)\(([^()]*)\)`. -/
structure CallMatch where
  start : ℕ
  stop : ℕ
  name : Text
  args : Text

/-- `[A-Za-z_]`. -/
def isNameStart (c : Char) : Bool :=
  'A' ≤ c ∧ c ≤ 'Z' || 'a' ≤ c ∧ c ≤ 'z' || c == '_'

/-- `[A-Za-z0-9_]`. -/
def isNamePart (c : Char) : Bool := isNameStart c || '0' ≤ c ∧ c ≤ '9'

/-- `[^()]`. -/
def isNoParen (c : Char) : Bool := c != '(' && c != ')'

/-- A match at the beginning of a text: its name, its arguments, and what is left. -/
def callAt (t : Text) : Option (Text × Text × Text) :=
  match t with
  | [] => none
  | c :: _ =>
    if isNameStart c then
      match t.dropWhile isNamePart with
      | '(' :: u =>
        match u.dropWhile isNoParen with
        | ')' :: rest => some (t.takeWhile isNamePart, u.takeWhile isNoParen, rest)
        | _ => none
      | _ => none
    else none

/-- A match takes its name, its arguments and the parentheses. -/
theorem eq_of_callAt {t name args rest : Text} (h : callAt t = some (name, args, rest)) :
    t = name ++ '(' :: (args ++ ')' :: rest) := by
  unfold callAt at h
  split at h
  · cases h
  · rename_i c t
    split at h
    · split at h
      · rename_i u hu
        split at h
        · rename_i rest' hrest
          cases h
          rw [← hrest, List.takeWhile_append_dropWhile, ← hu, List.takeWhile_append_dropWhile]
        · cases h
      · cases h
    · cases h

/-- `call_re().captures_iter`, from an offset on. -/
def callMatches (i : ℕ) (t : Text) : List CallMatch :=
  match t with
  | [] => []
  | c :: u =>
    match h : callAt (c :: u) with
    | some (name, args, rest) =>
      let stop := i + len name + 1 + len args + 1
      ⟨i, stop, name, args⟩ :: callMatches stop rest
    | none => callMatches (i + c.utf8Size) u
termination_by t.length
decreasing_by
  · have hlen := congrArg List.length (eq_of_callAt h)
    simp only [List.length_cons, List.length_append] at hlen ⊢
    omega
  · simp

/-- Split on commas that are not inside single or double quotes. -/
def splitTopLevelCommas (current : Text) : Bool → Bool → Bool → Text → List Text
  | _, _, _, [] => [current]
  | inSingle, inDouble, true, c :: t =>
    splitTopLevelCommas (current ++ [c]) inSingle inDouble false t
  | inSingle, inDouble, false, c :: t =>
    if c = '\\' ∧ (inSingle ∨ inDouble) then
      splitTopLevelCommas (current ++ [c]) inSingle inDouble true t
    else if c = '\'' ∧ inSingle then splitTopLevelCommas (current ++ [c]) false inDouble false t
    else if c = '\'' ∧ ¬ inDouble then splitTopLevelCommas (current ++ [c]) true inDouble false t
    else if c = '"' ∧ inDouble then splitTopLevelCommas (current ++ [c]) inSingle false false t
    else if c = '"' ∧ ¬ inSingle then splitTopLevelCommas (current ++ [c]) inSingle true false t
    else if c = ',' ∧ ¬ inSingle ∧ ¬ inDouble then
      current :: splitTopLevelCommas [] inSingle inDouble false t
    else splitTopLevelCommas (current ++ [c]) inSingle inDouble false t

/-- The text is between two quotes of this kind. -/
def isQuoted (quote : Char) (raw : Text) : Bool :=
  raw.head? == some quote && raw.getLast? == some quote && decide (2 ≤ len raw)

/-- Interpret a Pythonic argument value. -/
def parsePythonicValue (raw : Text) : Option Text :=
  let raw := trim raw
  if isQuoted '\'' raw || isQuoted '"' raw then do
    let inner ← slice raw 1 (len raw - 1)
    let inner := replace "\\'".toList ['\''] 0 inner
    let inner := replace "\\\"".toList ['"'] 0 inner
    return replace "\\\\".toList ['\\'] 0 inner
  else some raw

/-- `part.split_once('=')`. -/
def splitOnceEq (part : Text) : Option (Text × Text) :=
  match part.dropWhile (· != '=') with
  | [] => none
  | _ :: rest => some (part.takeWhile (· != '='), rest)

/-- The keyword arguments of a call, from those already read on. -/
def pythonicArguments (arguments : Fields F) : List Text → Option (Fields F)
  | [] => some arguments
  | part :: parts =>
    match splitOnceEq (trim part) with
    | none => pythonicArguments arguments parts
    | some (key, rawValue) => do
      let key := ByteText.trim (· == '\'') (ByteText.trim (· == '"') (trim key))
      if key.isEmpty then pythonicArguments arguments parts
      else
        let value ← parsePythonicValue (trim rawValue)
        pythonicArguments (arguments.insert key (jsonString value)) parts

/-- The arguments of a match, if any of them is a keyword argument. -/
def CallMatch.arguments (m : CallMatch) : Option (Fields F) :=
  if '=' ∈ m.args then pythonicArguments [] (splitTopLevelCommas [] false false false m.args)
  else some []

/-- The calls among the matches, with their spans. -/
def pythonicCalls : List CallMatch → Option (Found F)
  | [] => some ([], [])
  | m :: ms => do
    let arguments ← m.arguments
    let (toolCalls, spans) ← pythonicCalls ms
    if arguments.isEmpty then return (toolCalls, spans)
    else return (⟨String.ofList m.name, .generated, .object arguments⟩ :: toolCalls,
      (m.start, m.stop) :: spans)

/-- Every call sits inside of one bracket group, whose other content is only separators. -/
def pythonicGroup (scan : Text) (spans : List (ℕ × ℕ)) : Option (Option (ℕ × ℕ)) :=
  match find ['['] scan, rfind ']' scan with
  | some start, some stop =>
    if start < stop ∧ ∀ s ∈ spans, start < s.1 ∧ s.2 ≤ stop then do
      let inner ← slice scan (start + 1) stop
      if (charIndices (start + 1) inner).all fun p =>
          p.2 == ',' || isWhitespace p.2 || spans.any fun s => s.1 ≤ p.1 && p.1 ≤ s.2 then
        return some (start, stop)
      else return none
    else some none
  | _, _ => some none

/-- The text behind the thinking block, if there is one. -/
def afterThinking (text : Text) : Option Text :=
  match find "</think>".toList text with
  | some pos => sliceFrom text (pos + len "</think>".toList)
  | none => some text

/-- Try to parse Pythonic-style tool calls. -/
def tryParsePythonic (text : Text) : Option (Option (Parsed F)) := do
  let scan ← afterThinking text
  let (toolCalls, spans) ← pythonicCalls (callMatches 0 scan)
  if toolCalls.isEmpty then return none
  else
    match ← pythonicGroup scan spans with
    | some (start, stop) =>
      let before ← sliceTo scan start
      let after ← sliceFrom scan (stop + 1)
      return some (before ++ after, toolCalls)
    | none =>
      let remaining ← removeSpans scan 0 spans
      return some (remaining, toolCalls)

/-! ## All formats -/

/-- Parse tool calls from LLM response text. -/
def parseToolCalls (serde : Serde F) (text : Text) : Option (Parsed F) := do
  match ← tryParseJsonArray serde text with
  | some result => return result
  | none =>
    match ← tryParseJsonObject serde text with
    | some result => return result
    | none =>
      match ← tryParseXml text with
      | some result => return result
      | none =>
        match ← tryParseHermes text with
        | some result => return result
        | none =>
          match ← tryParsePythonic text with
          | some result => return result
          | none => return (text, [])

end HeraMind.Agent
