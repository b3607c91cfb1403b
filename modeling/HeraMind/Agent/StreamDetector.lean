/-
# Tool calls in a stream

`crates/heramind-agent/src/agent/streaming/tool_detect.rs` and `stream_multimodal.rs`: while
a reply streams in, the buffer is searched for an array of tool calls after every chunk.
The arrays are tried one after the other, with a bracket matcher of its own; the array
found is then read by the parser, and the rest of the buffer is discarded.
-/
import HeraMind.Agent.ParserSafety

namespace HeraMind.Agent

open List Option
open ByteText
open HeraMind.Rules (Json isWhitespace)

variable {F : Type} {serde : Serde F} {text t u : Text}

/-! ## Definitions -/

/-- The scan for the bracket that closes the first one, from a depth on, in or out of a
string: the number of characters up to and with that bracket. -/
def arrayEnd : ℤ → Bool → Text → Option ℕ
  | _, _, [] => none
  | depth, true, c :: t =>
    if c = '\\' then
      match t with
      | [] => none
      | _ :: t => (arrayEnd depth true t).map (· + 2)
    else if c = '"' then (arrayEnd depth false t).map (· + 1)
    else (arrayEnd depth true t).map (· + 1)
  | depth, false, c :: t =>
    if c = '"' then (arrayEnd depth true t).map (· + 1)
    else if c = '[' then (arrayEnd (depth + 1) false t).map (· + 1)
    else if c = ']' then
      if depth - 1 = 0 then some 1 else (arrayEnd (depth - 1) false t).map (· + 1)
    else (arrayEnd depth false t).map (· + 1)

/-- The name is a simple string, not a JSON string containing nested JSON. -/
def isToolName (name : String) : Bool :=
  let trimmed := trim name.toList
  trimmed.head? != some '[' && trimmed.head? != some '{'

/-- The item is an object whose name is the name of a tool. -/
def hasToolName (item : Json F) : Bool :=
  match item.asObject with
  | none => false
  | some _ =>
    match (((item.get "name").or (item.get "tool")).or (item.get "function")).bind Json.asStr with
    | some name => isToolName name
    | none => false

/-- The span is an array with a tool call. -/
def isToolCall (serde : Serde F) (jsonStr : Text) : Bool :=
  looksLikeToolCalls jsonStr &&
    match (serde.fromStr jsonStr).bind Json.asArray with
    | some arr => arr.any hasToolName
    | none => false

/-- Where an array of tool calls starts, its text, and the remaining buffer. -/
abbrev Detected := ℕ × Text × Text

/-- A round of the scan: a span that isn't a tool call advances the scan to its end. -/
def detectRound (serde : Serde F) (buffer : Text) (searchFrom : ℕ) :
    Option (LoopFlow ℕ (Option Detected)) := do
  let rest ← sliceFrom buffer searchFrom
  match find ['['] rest with
  | none => return .leave none
  | some start =>
    let start := searchFrom + start
    let rest ← sliceFrom buffer start
    match arrayEnd 0 false rest with
    | none => return .leave none
    | some n =>
      let stop := start + len (rest.take n)
      let jsonStr ← slice buffer start stop
      if isToolCall serde jsonStr then
        let remaining ← sliceFrom buffer stop
        return .leave (some (start, jsonStr, remaining))
      else return .next stop

/-- Detect JSON tool calls in buffer. -/
def detectJsonToolCalls (serde : Serde F) (buffer : Text) : Option (Option Detected) :=
  Descent.loop (fun searchFrom => len buffer - searchFrom) (detectRound serde buffer) 0

/-- What the stream has read. -/
structure StreamState (F : Type) where
  buffer : Text
  contentBeforeTools : Text
  toolCallsDetected : Bool
  toolCalls : List (ToolCall F)

/-- A chunk arrives. -/
def receive (serde : Serde F) (s : StreamState F) (text : Text) : Option (StreamState F) :=
  if text.isEmpty then some s
  else do
    let buffer := s.buffer ++ text
    match ← detectJsonToolCalls serde buffer with
    | some (jsonStart, toolJson, _) =>
      let beforeTool ← sliceTo buffer jsonStart
      let (_, calls) ← parseToolCalls serde toolJson
      -- the remaining buffer is discarded
      return ⟨[], s.contentBeforeTools ++ beforeTool, true, s.toolCalls ++ calls⟩
    | none =>
      match find "<tool_calls>".toList buffer with
      | none => return { s with buffer := buffer }
      | some toolStart =>
        let beforeTool ← sliceTo buffer toolStart
        match find "</tool_calls>".toList buffer with
        | none =>
          return { s with buffer := buffer, contentBeforeTools := s.contentBeforeTools ++ beforeTool }
        | some toolEnd =>
          let toolContent ← slice buffer toolStart (toolEnd + 13)
          let (_, calls) ← parseToolCalls serde toolContent
          return ⟨[], s.contentBeforeTools ++ beforeTool, true, s.toolCalls ++ calls⟩

/-- The chunks of a reply arrive one after the other. -/
def listen (serde : Serde F) (chunks : List Text) : Option (StreamState F) :=
  chunks.foldlM (receive serde) ⟨[], [], false, []⟩

/-! ## Two matchers -/

/-- Both matchers find the same bracket. -/
theorem arrayEnd_eq_closing (depth : ℤ) (inString : Bool) (t : Text) :
    (arrayEnd depth inString t).map (fun n => len (t.take n)) =
      closing '[' ']' depth inString false t := by
  have hcons : ∀ {o : Option ℕ} {o' : Option ℕ} {c : Char} {t : Text},
      o.map (fun n => len (t.take n)) = o' →
      (o.map (· + 1)).map (fun n => len ((c :: t).take n)) = o'.map (c.utf8Size + ·) := by
    rintro o o' c t rfl
    cases o with
    | none | some n => rfl
  fun_induction arrayEnd depth inString t with
  | case1 depth inString => cases inString <;> rfl
  | case2 depth =>
    rfl
  | case3 depth d t ih =>
    rw [closing, if_pos rfl, closing, ← ih]
    cases arrayEnd depth true t with
    | none | some n => rfl
  | case4 depth t hne ih =>
    rw [closing, if_neg hne, if_pos rfl]
    exact hcons ih
  | case5 depth c t hne hquote ih =>
    rw [closing, if_neg hne, if_neg hquote]
    exact hcons ih
  | case6 depth t ih =>
    rw [closing, if_pos rfl]
    exact hcons ih
  | case7 depth t hquote ih =>
    rw [closing, if_neg hquote, if_pos rfl]
    exact hcons ih
  | case8 depth t hzero hquote hopen =>
    rw [closing, if_neg hquote, if_neg hopen, if_pos rfl, if_pos hzero]
    rfl
  | case9 depth t hzero hquote hopen ih =>
    rw [closing, if_neg hquote, if_neg hopen, if_pos rfl, if_neg hzero]
    exact hcons ih
  | case10 depth c t hquote hopen hclose ih =>
    rw [closing, if_neg hquote, if_neg hopen, if_neg hclose]
    exact hcons ih

/-! ## Spans in longer texts -/

/-- Whether the scan ends with a text does not depend on what follows the text. -/
theorem closing_append {opening closer : Char} {depth : ℤ} {inString escaped : Bool}
    (a b : Text) : closing opening closer depth inString escaped (a ++ b) = some (len a) ↔
      closing opening closer depth inString escaped a = some (len a) := by
  induction a generalizing depth inString escaped with
  | nil =>
    rw [nil_append]
    constructor
    · intro h
      obtain ⟨u, v, -, hlen, hne⟩ := exists_of_closing h
      exact absurd (len_eq_zero.mp hlen) hne
    · intro h
      cases inString <;> cases escaped <;> cases h
  | cons c a ih =>
    have hcons : ∀ {o : Option ℕ}, o.map (c.utf8Size + ·) = some (len (c :: a)) ↔
        o = some (len a) := by
      intro o
      rw [map_eq_some_iff, len_cons]
      constructor
      · rintro ⟨n, rfl, hn⟩
        rw [Nat.add_left_cancel hn]
      · rintro rfl
        exact ⟨_, rfl, rfl⟩
    cases escaped with
    | true =>
      cases inString <;> simp only [cons_append, closing, hcons, ih]
    | false =>
      cases inString with
      | true =>
        simp only [cons_append, closing]
        split
        · rw [hcons, hcons, ih]
        · split
          · rw [hcons, hcons, ih]
          · rw [hcons, hcons, ih]
      | false =>
        simp only [cons_append, closing]
        split
        · rw [hcons, hcons, ih]
        · split
          · rw [hcons, hcons, ih]
          · split
            · split
              · rfl
              · rw [hcons, hcons, ih]
            · rw [hcons, hcons, ih]

namespace SpanAt

variable {opening closer : Char} {before span after : Text}

/-- A text has one span at most. -/
theorem unique {before' span' after' : Text} (h : SpanAt opening closer t before span after)
    (h' : SpanAt opening closer t before' span' after') :
    before = before' ∧ span = span' ∧ after = after' :=
  h.opensAt.unique h'.opensAt h.closes h'.closes

theorem append (h : SpanAt opening closer t before span after) (c : Text) :
    SpanAt opening closer (t ++ c) before span (after ++ c) := by
  refine ⟨by rw [h.eq]; simp only [append_assoc], h.first, h.head, ?_⟩
  rw [closing_append, ← closing_append span after]
  exact h.closes

/-- The span is a span by itself. -/
theorem self (h : SpanAt opening closer t before span after) :
    SpanAt opening closer span [] span [] := by
  refine ⟨(append_nil span).symm, not_mem_nil, h.head, ?_⟩
  rw [closing_append, ← closing_append span after]
  exact h.closes

theorem append_left {a : Text} (ha : opening ∉ a) (h : SpanAt opening closer t before span after) :
    SpanAt opening closer (a ++ t) (a ++ before) span after := by
  refine ⟨by rw [h.eq, append_assoc], ?_, h.head, h.closes⟩
  rw [mem_append]
  rintro (hmem | hmem)
  · exact ha hmem
  · exact h.first hmem

/-- A span behind a text without the bracket is a span of what follows that text. -/
theorem of_append_left {a : Text} (ha : opening ∉ a)
    (h : SpanAt opening closer (a ++ t) before span after) :
    ∃ before', before = a ++ before' ∧ SpanAt opening closer t before' span after := by
  obtain ⟨w, hw⟩ := h.head
  rcases append_eq_append_iff.mp h.eq with ⟨v, hbefore, ht⟩ | ⟨v, hbefore, hspan⟩
  · refine ⟨v, hbefore, ht, ?_, h.head, h.closes⟩
    intro hmem
    exact h.first (by rw [hbefore]; exact mem_append_right a hmem)
  · cases v with
    | nil =>
      rw [append_nil] at hbefore
      rw [nil_append] at hspan
      exact ⟨[], by rw [hbefore, append_nil], hspan.symm, not_mem_nil, h.head, h.closes⟩
    | cons d v =>
      rw [hw, cons_append, cons_append, cons.injEq] at hspan
      exact absurd (by rw [hbefore, hspan.1]; simp) ha

end SpanAt

/-! ## Detection -/

/-- The first array of a text that is a tool call, after arrays that are not. -/
inductive Detects (serde : Serde F) : Text → ℕ → Text → Text → Prop
  | here {t before span after : Text} : SpanAt '[' ']' t before span after →
      isToolCall serde span = true → Detects serde t (len before) span after
  | later {t before span after json rest : Text} {start : ℕ} :
      SpanAt '[' ']' t before span after → isToolCall serde span = false →
      Detects serde after start json rest →
      Detects serde t (len (before ++ span) + start) json rest

variable {start start' : ℕ} {json json' rest rest' : Text}

theorem Detects.unique (h : Detects serde t start json rest)
    (h' : Detects serde t start' json' rest') :
    start = start' ∧ json = json' ∧ rest = rest' := by
  induction h generalizing start' json' rest' with
  | here hspan hcall =>
    cases h' with
    | here hspan' _ =>
      obtain ⟨rfl, rfl, rfl⟩ := hspan.unique hspan'
      exact ⟨rfl, rfl, rfl⟩
    | later hspan' hnot _ =>
      obtain ⟨rfl, rfl, rfl⟩ := hspan.unique hspan'
      rw [hcall] at hnot
      cases hnot
  | later hspan hnot _ ih =>
    cases h' with
    | here hspan' hcall =>
      obtain ⟨rfl, rfl, rfl⟩ := hspan.unique hspan'
      rw [hcall] at hnot
      cases hnot
    | later hspan' _ hrest =>
      obtain ⟨rfl, rfl, rfl⟩ := hspan.unique hspan'
      obtain ⟨rfl, rfl, rfl⟩ := ih hrest
      exact ⟨rfl, rfl, rfl⟩

/-- What is detected stays detected when the text goes on. -/
theorem Detects.append (h : Detects serde t start json rest) (c : Text) :
    Detects serde (t ++ c) start json (rest ++ c) := by
  induction h with
  | here hspan hcall => exact .here (hspan.append c) hcall
  | later hspan hnot _ ih => exact .later (hspan.append c) hnot ih

/-- A text without a bracket in front only moves what is detected. -/
theorem Detects.append_left {a : Text} (ha : '[' ∉ a) (h : Detects serde t start json rest) :
    Detects serde (a ++ t) (len a + start) json rest := by
  cases h with
  | here hspan hcall =>
    rw [← len_append]
    exact .here (hspan.append_left ha) hcall
  | later hspan hnot hrest =>
    rw [← Nat.add_assoc, ← len_append, ← append_assoc]
    exact .later (hspan.append_left ha) hnot hrest

theorem Detects.of_append_left {a : Text} (ha : '[' ∉ a)
    (h : Detects serde (a ++ t) start json rest) : ∃ start', Detects serde t start' json rest := by
  cases h with
  | here hspan hcall =>
    obtain ⟨before', -, hspan'⟩ := hspan.of_append_left ha
    exact ⟨_, .here hspan' hcall⟩
  | later hspan hnot hrest =>
    obtain ⟨before', -, hspan'⟩ := hspan.of_append_left ha
    exact ⟨_, .later hspan' hnot hrest⟩

/-- What is detected is a span, with an array that has a tool call. -/
theorem Detects.exists_span (h : Detects serde t start json rest) :
    (∃ t' before, SpanAt '[' ']' t' before json rest) ∧ isToolCall serde json = true := by
  induction h with
  | here hspan hcall => exact ⟨⟨_, _, hspan⟩, hcall⟩
  | later _ _ _ ih => exact ih

/-- What is detected stands in the text. -/
theorem Detects.exists_before (h : Detects serde t start json rest) :
    ∃ before, t = before ++ (json ++ rest) ∧ len before = start := by
  induction h with
  | here hspan _ => exact ⟨_, hspan.eq, rfl⟩
  | @later t before span after json rest start hspan _ _ ih =>
    obtain ⟨before', hafter, rfl⟩ := ih
    refine ⟨before ++ (span ++ before'), ?_, by simp only [len_append]; omega⟩
    rw [hspan.eq, hafter]
    simp only [append_assoc]

theorem detectRound_of_span (serde : Serde F) {pre before span after : Text}
    (htext : text = pre ++ t)
    (h : SpanAt '[' ']' t before span after) :
    detectRound serde text (len pre) = some
      (if isToolCall serde span then .leave (some (len (pre ++ before), span, after))
      else .next (len (pre ++ (before ++ span)))) := by
  have hrest : sliceFrom text (len pre) = some t := by
    rw [htext]
    exact sliceFrom_append _ _
  have htext' : text = (pre ++ before) ++ (span ++ after) := by
    rw [htext, h.eq, append_assoc]
  have hfrom : sliceFrom text (len (pre ++ before)) = some (span ++ after) := by
    rw [htext']
    exact sliceFrom_append _ _
  have hspan : slice text (len (pre ++ before)) (len (pre ++ before) + len span) = some span := by
    rw [htext']
    exact slice_append _ _ _
  have hafter : sliceFrom text (len (pre ++ before) + len span) = some after := by
    rw [htext', ← append_assoc, ← len_append]
    exact sliceFrom_append _ _
  obtain ⟨n, hn, hlen⟩ : ∃ n, arrayEnd 0 false (span ++ after) = some n ∧
      len ((span ++ after).take n) = len span := by
    have hcloses := h.closes
    rw [← arrayEnd_eq_closing] at hcloses
    exact map_eq_some_iff.mp hcloses
  unfold detectRound
  rw [hrest, bind_eq_bind, bind_some, h.opensAt.find_eq]
  dsimp only
  rw [← len_append, hfrom, bind_some, hn]
  dsimp only
  rw [hlen, hspan, bind_some]
  split
  · rw [hafter]
    rfl
  · rw [← len_append, append_assoc]
    rfl

theorem detectRound_of_no_span {pre : Text} (htext : text = pre ++ t)
    (h : ∀ before span after, ¬ SpanAt '[' ']' t before span after) :
    detectRound serde text (len pre) = some (.leave none) := by
  have hrest : sliceFrom text (len pre) = some t := by
    rw [htext]
    exact sliceFrom_append _ _
  unfold detectRound
  rw [hrest, bind_eq_bind, bind_some]
  rcases span_cases '[' ']' t with ⟨before, span, after, hspan⟩ |
    ⟨start, rest, hstart, -, hfrom, hclosing⟩ | hnone
  · exact absurd hspan (h before span after)
  · obtain ⟨before, rfl, rfl⟩ := sliceFrom_eq_some.mp hfrom
    have hfrom' : sliceFrom text (len pre + len before) = some rest := by
      rw [htext, ← append_assoc, ← len_append]
      exact sliceFrom_append _ _
    rw [← arrayEnd_eq_closing, map_eq_none_iff] at hclosing
    rw [hstart]
    dsimp only
    rw [hfrom', bind_some, hclosing]
    rfl
  · rw [hnone]
    rfl

/-- From an offset on, the scan returns, and finds what is detected there. -/
theorem loop_detectRound (serde : Serde F) (pre : Text) (htext : text = pre ++ t) :
    ∃ o, Descent.loop (fun searchFrom => len text - searchFrom) (detectRound serde text) (len pre) =
        some o ∧
      ∀ start json rest, o = some (start, json, rest) ↔
        ∃ start', start = len pre + start' ∧ Detects serde t start' json rest := by
  induction hn : t.length using Nat.strongRecOn generalizing pre t with
  | ind n ih =>
    by_cases hspan : ∃ before span after, SpanAt '[' ']' t before span after
    · obtain ⟨before, span, after, hspan⟩ := hspan
      have hround := detectRound_of_span serde htext hspan
      cases hcall : isToolCall serde span with
      | true =>
        rw [hcall, if_pos rfl] at hround
        refine ⟨_, Descent.loop_of_leave hround, ?_⟩
        intro start json rest
        constructor
        · rintro ⟨⟩
          exact ⟨len before, len_append _ _, .here hspan hcall⟩
        · rintro ⟨start', rfl, hdetects⟩
          obtain ⟨rfl, rfl, rfl⟩ := hdetects.unique (.here hspan hcall)
          rw [len_append]
      | false =>
        obtain ⟨w, hw⟩ := hspan.head
        have htext' : text = (pre ++ (before ++ span)) ++ after := by
          rw [htext, hspan.eq]
          simp only [append_assoc]
        have hpos : 0 < '['.utf8Size := by decide
        have hless : len text - len (pre ++ (before ++ span)) < len text - len pre := by
          rw [htext', hw]
          simp only [len_append, len_cons]
          omega
        have hshort : after.length < n := by
          rw [← hn, hspan.eq, hw]
          simp only [length_append, length_cons]
          omega
        rw [hcall, if_neg Bool.false_ne_true] at hround
        rw [Descent.loop_of_next hround hless]
        obtain ⟨o, ho, hiff⟩ := ih after.length hshort _ htext' rfl
        refine ⟨o, ho, ?_⟩
        intro start json rest
        rw [hiff]
        constructor
        · rintro ⟨start', rfl, hdetects⟩
          exact ⟨len (before ++ span) + start', by rw [len_append pre]; omega,
            .later hspan hcall hdetects⟩
        · rintro ⟨start', rfl, hdetects⟩
          cases hdetects with
          | here hspan' hcall' =>
            obtain ⟨-, rfl, -⟩ := hspan.unique hspan'
            rw [hcall] at hcall'
            cases hcall'
          | later hspan' _ hrest =>
            obtain ⟨rfl, rfl, rfl⟩ := hspan.unique hspan'
            exact ⟨_, by rw [len_append pre]; omega, hrest⟩
    · have hnone : ∀ before span after, ¬ SpanAt '[' ']' t before span after :=
        fun before span after h => hspan ⟨before, span, after, h⟩
      refine ⟨none, Descent.loop_of_leave (detectRound_of_no_span htext hnone), ?_⟩
      intro start json rest
      constructor
      · intro h
        cases h
      · rintro ⟨start', -, hdetects⟩
        cases hdetects with
        | here hspan' _ | later hspan' _ _ => exact absurd hspan' (hnone _ _ _)

/-- The detector returns, and finds the first array with a tool call. -/
theorem detectJsonToolCalls_spec (serde : Serde F) (text : Text) :
    ∃ o, detectJsonToolCalls serde text = some o ∧
      ∀ start json rest, o = some (start, json, rest) ↔ Detects serde text start json rest := by
  obtain ⟨o, ho, hiff⟩ := loop_detectRound serde [] (nil_append text).symm
  refine ⟨o, ho, ?_⟩
  intro start json rest
  rw [hiff]
  constructor
  · rintro ⟨start', rfl, h⟩
    rw [len_nil, Nat.zero_add]
    exact h
  · intro h
    exact ⟨start, by rw [len_nil, Nat.zero_add], h⟩

theorem detectJsonToolCalls_eq_some :
    detectJsonToolCalls serde t = some (some (start, json, rest)) ↔
      Detects serde t start json rest := by
  obtain ⟨o, ho, hiff⟩ := detectJsonToolCalls_spec serde t
  rw [ho, some.injEq, hiff]

/-! ## What the parser makes of it -/

/-- The tool calls of an array. -/
def toolCallsOf (serde : Serde F) (json : Text) : List (ToolCall F) :=
  ((serde.fromStrVec json).getD []).filterMap extractToolCallFromJson

theorem extract_of_hasToolName {item : Json F} (h : hasToolName item = true) :
    (extractToolCallFromJson item).isSome := by
  unfold hasToolName at h
  split at h
  · cases h
  · split at h
    · rename_i name hname
      unfold extractToolCallFromJson
      rw [hname]
      rfl
    · cases h

/-- The parser finds the tool calls of exactly the array that is detected. -/
theorem parseToolCalls_of_detects (h : Detects serde t start json rest) :
    parseToolCalls serde json = some ([], toolCallsOf serde json) := by
  obtain ⟨⟨t', before, hspan⟩, hcall⟩ := h.exists_span
  unfold isToolCall at hcall
  rw [Bool.and_eq_true] at hcall
  obtain ⟨hlooks, harray⟩ := hcall
  cases hvec : (serde.fromStr json).bind Json.asArray with
  | none =>
    rw [hvec] at harray
    cases harray
  | some array =>
    rw [hvec] at harray
    have hvec' : serde.fromStrVec json = some array := hvec
    obtain ⟨item, hmem, hname⟩ := any_eq_true.mp harray
    have hcalls : (array.filterMap extractToolCallFromJson).isEmpty = false := by
      rw [isEmpty_eq_false_iff_exists_mem]
      obtain ⟨toolCall, htoolCall⟩ := isSome_iff_exists.mp (extract_of_hasToolName hname)
      exact ⟨toolCall, mem_filterMap.mpr ⟨item, hmem, htoolCall⟩⟩
    unfold parseToolCalls toolCallsOf
    rw [tryParseJsonArray_of_span serde hspan.self, if_pos hlooks, hvec', bind_some, hcalls]
    rfl

/-! ## Chunks -/

/-- The tool calls of the arrays in a text, one array after the other. -/
inductive Executes (serde : Serde F) : Text → List (ToolCall F) → Prop
  | none {t : Text} : (∀ start json rest, ¬ Detects serde t start json rest) → Executes serde t []
  | next {t json rest : Text} {start : ℕ} {calls : List (ToolCall F)} :
      Detects serde t start json rest → Executes serde rest calls →
      Executes serde t (toolCallsOf serde json ++ calls)

theorem Executes.unique {calls calls' : List (ToolCall F)} (h : Executes serde t calls)
    (h' : Executes serde t calls') : calls = calls' := by
  induction h generalizing calls' with
  | none hnone =>
    cases h' with
    | none _ => rfl
    | next hdetects _ => exact absurd hdetects (hnone _ _ _)
  | next hdetects _ ih =>
    cases h' with
    | none hnone => exact absurd hdetects (hnone _ _ _)
    | next hdetects' hrest =>
      obtain ⟨-, rfl, rfl⟩ := hdetects.unique hdetects'
      rw [ih hrest]

theorem Executes.append_left {a : Text} {calls : List (ToolCall F)} (ha : '[' ∉ a)
    (h : Executes serde t calls) : Executes serde (a ++ t) calls := by
  cases h with
  | none hnone =>
    apply Executes.none
    intro start json rest hdetects
    obtain ⟨start', h⟩ := hdetects.of_append_left ha
    exact hnone start' json rest h
  | next hdetects hrest => exact .next (hdetects.append_left ha) hrest

/-- Behind the arrays that are detected while the chunks arrive there is no other bracket in
the buffer, so nothing of an array is discarded. -/
def NothingLost (serde : Serde F) : StreamState F → List Text → Prop
  | _, [] => True
  | s, chunk :: chunks =>
    (∀ detected ∈ (detectJsonToolCalls serde (s.buffer ++ chunk)).join, '[' ∉ detected.2.2) ∧
      ∀ s' ∈ receive serde s chunk, NothingLost serde s' chunks

instance decidableNothingLost (serde : Serde F) (s : StreamState F) (chunks : List Text) :
    Decidable (NothingLost serde s chunks) :=
  match chunks with
  | [] => inferInstanceAs (Decidable True)
  | chunk :: chunks =>
    have : ∀ s', Decidable (NothingLost serde s' chunks) := fun s' =>
      decidableNothingLost serde s' chunks
    inferInstanceAs (Decidable ((∀ detected ∈ (detectJsonToolCalls serde (s.buffer ++ chunk)).join,
      '[' ∉ detected.2.2) ∧ ∀ s' ∈ receive serde s chunk, NothingLost serde s' chunks))

/-- What is in the buffer, and what has been taken out of it, after a text has arrived. -/
structure Arrived (serde : Serde F) (arrived : Text) (s : StreamState F) : Prop where
  buffer : s.buffer <:+ arrived
  undetected : ∀ start json rest, ¬ Detects serde s.buffer start json rest
  executes : ∀ future calls, Executes serde (s.buffer ++ future) calls →
    Executes serde (arrived ++ future) (s.toolCalls ++ calls)

theorem Arrived.receive {arrived chunk : Text} {s : StreamState F} (h : Arrived serde arrived s)
    (htag : ¬ "<tool_calls>".toList <:+: arrived ++ chunk)
    (hlost : ∀ detected ∈ (detectJsonToolCalls serde (s.buffer ++ chunk)).join,
      '[' ∉ detected.2.2) :
    ∃ s', receive serde s chunk = some s' ∧ Arrived serde (arrived ++ chunk) s' := by
  unfold Agent.receive
  split
  · rename_i hempty
    rw [List.isEmpty_iff] at hempty
    rw [hempty, append_nil]
    exact ⟨s, rfl, h⟩
  · obtain ⟨pre, hpre⟩ := h.buffer
    have hsuffix : s.buffer ++ chunk <:+ arrived ++ chunk :=
      ⟨pre, by rw [← append_assoc, hpre]⟩
    obtain ⟨o, ho, hiff⟩ := detectJsonToolCalls_spec serde (s.buffer ++ chunk)
    dsimp only
    rw [ho, bind_eq_bind, bind_some]
    cases o with
    | none =>
      have hnone : find "<tool_calls>".toList (s.buffer ++ chunk) = none := by
        rw [find_eq_none]
        exact fun hin => htag (hin.trans hsuffix.isInfix)
      dsimp only
      rw [hnone]
      refine ⟨_, rfl, hsuffix, ?_, ?_⟩
      · intro start json rest hdetects
        have hcontra := (hiff start json rest).mpr hdetects
        cases hcontra
      · intro future calls hcalls
        rw [append_assoc] at hcalls ⊢
        exact h.executes _ _ hcalls
    | some detected =>
      obtain ⟨start, json, rest⟩ := detected
      have hdetects : Detects serde (s.buffer ++ chunk) start json rest := (hiff _ _ _).mp rfl
      have hrest : '[' ∉ rest := hlost (start, json, rest) (by rw [ho]; rfl)
      obtain ⟨before, heq, hlen⟩ := hdetects.exists_before
      have hbefore : sliceTo (s.buffer ++ chunk) start = some before :=
        sliceTo_eq_some.mpr ⟨_, heq, hlen⟩
      dsimp only
      rw [hbefore, bind_eq_bind, bind_some, parseToolCalls_of_detects hdetects,
        bind_eq_bind, bind_some]
      refine ⟨_, rfl, nil_suffix, ?_, ?_⟩
      · intro start json rest hdetects
        obtain ⟨before, heq, -⟩ := hdetects.exists_before
        obtain ⟨⟨t', before', hspan⟩, -⟩ := hdetects.exists_span
        obtain ⟨w, hw⟩ := hspan.head
        rw [hw] at heq
        have hlen := congrArg List.length heq
        simp at hlen
      · intro future calls hcalls
        dsimp only
        rw [append_assoc, append_assoc]
        apply h.executes
        rw [← append_assoc]
        exact .next (hdetects.append future) (hcalls.append_left hrest)

/-- After all chunks, the tool calls are those of the arrays in the whole text. -/
theorem Arrived.foldlM {arrived : Text} {chunks : List Text} {s : StreamState F}
    (h : Arrived serde arrived s) (htag : ¬ "<tool_calls>".toList <:+: arrived ++ chunks.flatten)
    (hlost : NothingLost serde s chunks) :
    ∃ s', chunks.foldlM (Agent.receive serde) s = some s' ∧
      Arrived serde (arrived ++ chunks.flatten) s' := by
  induction chunks generalizing arrived s with
  | nil => exact ⟨s, rfl, by rw [flatten_nil, append_nil]; exact h⟩
  | cons chunk chunks ih =>
    rw [flatten_cons, ← append_assoc] at htag ⊢
    have htag' : ¬ "<tool_calls>".toList <:+: arrived ++ chunk :=
      fun hin => htag (hin.trans (prefix_append _ _).isInfix)
    obtain ⟨s', hs', harrived⟩ := h.receive htag' hlost.1
    rw [foldlM_cons, hs']
    exact ih harrived htag (hlost.2 s' hs')

/-- Detecting something takes a text that is not empty. -/
theorem not_detects_nil : ¬ Detects serde [] start json rest := by
  intro hdetects
  obtain ⟨before, heq, -⟩ := hdetects.exists_before
  obtain ⟨⟨t', before', hspan⟩, -⟩ := hdetects.exists_span
  obtain ⟨w, hw⟩ := hspan.head
  rw [hw] at heq
  have hlen := congrArg List.length heq
  simp at hlen

theorem listen_executes {chunks : List Text} (htag : ¬ "<tool_calls>".toList <:+: chunks.flatten)
    (hlost : NothingLost serde ⟨[], [], false, []⟩ chunks) :
    ∃ s, listen serde chunks = some s ∧ Executes serde chunks.flatten s.toolCalls := by
  have hstart : Arrived serde [] ⟨[], [], false, []⟩ :=
    ⟨nil_suffix, fun _ _ _ => not_detects_nil, fun _ _ h => h⟩
  obtain ⟨s, hs, harrived⟩ := hstart.foldlM htag hlost
  have hbuffer : Executes serde (s.buffer ++ []) [] := by
    rw [append_nil]
    exact .none harrived.undetected
  have hcalls := harrived.executes [] [] hbuffer
  rw [append_nil, append_nil, nil_append] at hcalls
  exact ⟨s, hs, hcalls⟩

/-- What is detected stays detected, and the parser finds exactly its calls.  So two ways to
cut a reply into chunks give the same calls, unless something of an array is discarded behind
another one, or there are tagged sections. -/
theorem detection_stable (serde : Serde F) :
    (∀ b c start json rest, detectJsonToolCalls serde b = some (some (start, json, rest)) →
      detectJsonToolCalls serde (b ++ c) = some (some (start, json, rest ++ c)) ∧
        parseToolCalls serde json = some ([], toolCallsOf serde json)) ∧
    ∀ chunks chunks' : List Text, chunks.flatten = chunks'.flatten →
      ¬ "<tool_calls>".toList <:+: chunks.flatten →
      NothingLost serde ⟨[], [], false, []⟩ chunks →
      NothingLost serde ⟨[], [], false, []⟩ chunks' →
      ∃ s s', listen serde chunks = some s ∧ listen serde chunks' = some s' ∧
        s.toolCalls = s'.toolCalls := by
  constructor
  · intro b c start json rest h
    rw [detectJsonToolCalls_eq_some] at h ⊢
    exact ⟨h.append c, parseToolCalls_of_detects h⟩
  · intro chunks chunks' heq htag hlost hlost'
    obtain ⟨s, hs, hcalls⟩ := listen_executes htag hlost
    rw [heq] at htag hcalls
    obtain ⟨s', hs', hcalls'⟩ := listen_executes htag hlost'
    exact ⟨s, s', hs, hs', hcalls.unique hcalls'⟩

/-! ### A reply with two arrays -/

/-- `[{"name":"a"}]`. -/
def arrayA : Text := "[\x7b\"name\":\"a\"\x7d]".toList

/-- `[{"name":"b"}]`. -/
def arrayB : Text := "[\x7b\"name\":\"b\"\x7d]".toList

/-- A tagged section that calls `x`. -/
def sectionX : Text := "<tool_calls><invoke name=\"x\"></invoke></tool_calls>".toList

/-- A JSON parser that knows the two arrays. -/
def twoArrays : Serde ℤ where
  fromStr t :=
    if t = arrayA then some (.array [.object [("name", .string "a")]])
    else if t = arrayB then some (.array [.object [("name", .string "b")]])
    else none

/-- The names of the calls that a stream has found. -/
def calledNames (chunks : List Text) : Option (List String) :=
  (listen twoArrays chunks).map fun s => s.toolCalls.map ToolCall.name

/-- In one chunk the second array is discarded, and so is a tagged section before an array. -/
theorem one_chunk_discards :
    ([arrayA ++ arrayB].flatten = [arrayA, arrayB].flatten ∧
      calledNames [arrayA ++ arrayB] = some ["a"] ∧
        calledNames [arrayA, arrayB] = some ["a", "b"]) ∧
    ([sectionX ++ arrayA].flatten = [sectionX, arrayA].flatten ∧
      calledNames [sectionX ++ arrayA] = some ["a"] ∧
        calledNames [sectionX, arrayA] = some ["x", "a"]) := by
  decide +kernel

/-- The first array may come in two chunks. -/
theorem detection_stable_twoArrays :
    ∃ s s', listen twoArrays [arrayA, arrayB] = some s ∧
      listen twoArrays [arrayA.take 8, arrayA.drop 8, arrayB] = some s' ∧
        s.toolCalls = s'.toolCalls :=
  (detection_stable twoArrays).2 _ _ (by decide) (by decide) (by decide +kernel) (by decide +kernel)

end HeraMind.Agent
