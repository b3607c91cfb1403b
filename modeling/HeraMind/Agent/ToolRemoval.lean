/-
# Tool calls taken out of a reply

`crates/heramind-agent/src/agent/tool_parser.rs`: what is kept of a reply in the memory is
the reply without its tool calls.  Code blocks go first, then three loops search the whole
text again and again: for arrays, for objects at the beginning, and for tagged sections.
An array or an object ends at the bracket that closes it when strings are not looked at.
-/
import HeraMind.Agent.ParserSafety
import HeraMind.Lib.TextPattern

namespace HeraMind.Agent

open Option List
open ByteText
open HeraMind.Rules (Json isWhitespace)

variable {F : Type} {serde : Serde F} {text t u : Text}

/-! ## Definitions -/

/-- The fence that opens a block, with the spaces behind it. -/
def fenceOpen : TextPattern :=
  .all [.lit "```", .maybe (.lit "json"), .many isWhitespace, .maybe (.char (· == '\n')),
    .many isWhitespace]

/-- The fence that closes a block, with the spaces before it. -/
def fenceClose : TextPattern :=
  .all [.many isWhitespace, .maybe (.char (· == '\n')), .many isWhitespace, .lit "```"]

/-- `[\s\S]*?`. -/
def anything : TextPattern := .few fun _ => true

/-- Code blocks with an array of tool calls. -/
def codeBlockArrayRe : TextPattern :=
  .all [fenceOpen, .char (· == '['), .many isWhitespace, .char (· == '{'), anything,
    .lit "\"name\"", anything, .char (· == '}'), .many isWhitespace, .char (· == ']'),
    fenceClose]

/-- Code blocks with a single tool call. -/
def codeBlockObjRe : TextPattern :=
  .all [fenceOpen, .char (· == '{'), .many isWhitespace, .lit "\"name\"", anything,
    .lit "\"arguments\"", anything, .char (· == '}'), fenceClose]

/-- The text without the code blocks. -/
def withoutCodeBlocks (response : Text) : Text :=
  codeBlockObjRe.removeAll 0 (codeBlockArrayRe.removeAll 0 response)

/-- The scan for the bracket that closes the first one, whether in a string or not: the number
of bytes up to and with that bracket. -/
def matching (opening closer : Char) : ℤ → Text → Option ℕ
  | _, [] => none
  | depth, c :: t =>
    if c = opening then (matching opening closer (depth + 1) t).map (c.utf8Size + ·)
    else if c = closer then
      if depth - 1 = 0 then some c.utf8Size
      else (matching opening closer (depth - 1) t).map (c.utf8Size + ·)
    else (matching opening closer depth t).map (c.utf8Size + ·)

/-- The value has a key that names a tool. -/
def namesTool (value : Json F) : Bool := (value.get "name").isSome || (value.get "tool").isSome

/-- The text is a JSON array, and an element of it names a tool. -/
def isToolArray (serde : Serde F) (jsonStr : Text) : Bool :=
  match serde.fromStrVec jsonStr with
  | some array => array.any namesTool
  | none => false

/-- The text is a JSON value that names a tool. -/
def isToolObject (serde : Serde F) (jsonStr : Text) : Bool :=
  match serde.fromStr jsonStr with
  | some value => namesTool value
  | none => false

/-- A round of a loop that takes out what is between a bracket and the one that closes it. -/
def bracketRound (opening closer : Char) (leads : Text → ℕ → Option Bool) (isCall : Text → Bool)
    (result : Text) : Option (LoopFlow Text Text) :=
  match find [opening] result with
  | none => some (.leave result)
  | some start => do
    if ← leads result start then
      let rest ← sliceFrom result start
      match matching opening closer 0 rest with
      | none => return .leave result
      | some n =>
        let jsonStr ← slice result start (start + n)
        if isCall jsonStr then
          let result ← replaceRange result start (start + n) []
          return .next result
        else return .leave result
    else return .leave result

/-- Remove JSON array format. -/
def arrayRound (serde : Serde F) : Text → Option (LoopFlow Text Text) :=
  bracketRound '[' ']' (fun _ _ => some true) (isToolArray serde)

/-- There is only whitespace before the offset. -/
def leadsContent (result : Text) (start : ℕ) : Option Bool :=
  (sliceTo result start).map fun before => (trim before).isEmpty

/-- Remove JSON object format. -/
def objectRound (serde : Serde F) : Text → Option (LoopFlow Text Text) :=
  bracketRound '{' '}' leadsContent (isToolObject serde)

/-- Remove XML format. -/
def sectionRound (result : Text) : Option (LoopFlow Text Text) :=
  match find "<tool_calls>".toList result with
  | none => some (.leave result)
  | some start =>
    match find "</tool_calls>".toList result with
    | none => some (.leave result)
    | some stop => do
      let result ← replaceRange result start (stop + 13) []
      return .next result

/-- Remove tool call markers from response for memory storage. -/
def removeToolCallsFromResponse (serde : Serde F) (response : Text) : Option Text := do
  let result ← Descent.loop len (arrayRound serde) (withoutCodeBlocks response)
  let result ← Descent.loop len (objectRound serde) result
  let result ← Descent.loop len sectionRound result
  return trim result

/-! ## Brackets -/

/-- The text up to its first opening bracket, the span to the bracket that closes it when
strings are not looked at, and what follows. -/
structure BlindSpan (opening closer : Char) (text before span after : Text) : Prop
    extends OpensAt opening text before span after where
  closes : matching opening closer 0 (span ++ after) = some (len span)

/-- A call between brackets is taken out of a text. -/
def TakesOut (opening closer : Char) (leads isCall : Text → Prop) (t t' : Text) : Prop :=
  ∃ before span after, BlindSpan opening closer t before span after ∧ leads before ∧
    isCall span ∧ t' = before ++ after

/-- Calls are taken out as long as there is one. -/
def TakenOut (opening closer : Char) (leads isCall : Text → Prop) (t u : Text) : Prop :=
  Relation.ReflTransGen (TakesOut opening closer leads isCall) t u ∧
    ∀ v, ¬ TakesOut opening closer leads isCall u v

theorem exists_of_matching {opening closer : Char} {depth : ℤ} {n : ℕ}
    (h : matching opening closer depth t = some n) :
    ∃ a b, t = a ++ b ∧ len a = n ∧ a ≠ [] := by
  fun_induction matching opening closer depth t generalizing n with
  | case1 => cases h
  | case2 depth t ih => exact exists_of_scan_cons ih h
  | case3 depth t _ _ =>
    cases h
    exact ⟨[closer], t, rfl, by simp, cons_ne_nil _ _⟩
  | case4 depth t _ _ ih | case5 depth c t _ _ ih => exact exists_of_scan_cons ih h

/-- A text has one span at most. -/
theorem BlindSpan.unique {opening closer : Char} {before span after before' span' after' : Text}
    (h : BlindSpan opening closer t before span after)
    (h' : BlindSpan opening closer t before' span' after') :
    before = before' ∧ span = span' ∧ after = after' :=
  h.toOpensAt.unique h'.toOpensAt h.closes h'.closes

theorem OpensAt.replaceRange_eq {opening : Char} {before span after : Text}
    (h : OpensAt opening t before span after) :
    replaceRange t (len before) (len before + len span) [] = some (before ++ after) := by
  have hfrom : sliceFrom t (len before + len span) = some after :=
    sliceFrom_eq_some.mpr ⟨before ++ span, by rw [h.eq, append_assoc], len_append _ _⟩
  unfold replaceRange
  rw [if_pos (Nat.le_add_right _ _), h.sliceTo_eq, bind_eq_bind, bind_some, hfrom]
  rfl

section Brackets

variable {opening closer : Char} {leads : Text → ℕ → Option Bool} {lead isCall : Text → Bool}

theorem bracketRound_of_span (isCall : Text → Bool)
    (hleads : ∀ a b, leads (a ++ b) (len a) = some (lead a)) {before span after : Text}
    (h : BlindSpan opening closer t before span after) :
    bracketRound opening closer leads isCall t =
      some (if lead before ∧ isCall span then .next (before ++ after) else .leave t) := by
  have hlead : leads t (len before) = some (lead before) := by
    rw [h.eq]
    exact hleads before (span ++ after)
  unfold bracketRound
  rw [h.find_eq]
  dsimp only
  rw [hlead, bind_eq_bind, bind_some]
  cases hbefore : lead before with
  | false => rfl
  | true =>
    rw [if_pos rfl, h.sliceFrom_eq, bind_eq_bind, bind_some, h.closes]
    dsimp only
    rw [h.slice_eq, bind_some]
    cases hcall : isCall span with
    | false => rfl
    | true =>
      rw [if_pos rfl, h.replaceRange_eq]
      rfl

theorem bracketRound_of_no_span (hleads : ∀ a b, leads (a ++ b) (len a) = some (lead a))
    (h : ∀ before span after, ¬ BlindSpan opening closer t before span after) :
    bracketRound opening closer leads isCall t = some (.leave t) := by
  unfold bracketRound
  cases hstart : find [opening] t with
  | none => rfl
  | some start =>
    obtain ⟨before, rest, rfl, hfirst, rfl⟩ := find_singleton.mp hstart
    have hrest : sliceFrom (before ++ opening :: rest) (len before) = some (opening :: rest) :=
      sliceFrom_eq_some.mpr ⟨before, rfl, rfl⟩
    dsimp only
    rw [hleads, bind_eq_bind, bind_some]
    split
    · rw [hrest, bind_eq_bind, bind_some]
      cases hclosing : matching opening closer 0 (opening :: rest) with
      | none => rfl
      | some n =>
        -- the bracket is closed, so there is a span
        obtain ⟨span, after, heq, rfl, hne⟩ := exists_of_matching hclosing
        obtain ⟨c, u, rfl⟩ := exists_cons_of_ne_nil hne
        have hc : opening = c := (List.cons.inj heq).1
        refine absurd ⟨⟨by rw [heq], hfirst, u, by rw [hc]⟩, ?_⟩ (h before (c :: u) after)
        rw [← heq, hclosing]
    · rfl

/-- A round takes out the first span if that is a call, and leaves the loop otherwise. -/
theorem bracketRound_cases (opening closer : Char) (isCall : Text → Bool)
    (hleads : ∀ a b, leads (a ++ b) (len a) = some (lead a)) (t : Text) :
    (∃ t', bracketRound opening closer leads isCall t = some (.next t') ∧ len t' < len t ∧
      ∀ v, TakesOut opening closer (lead ·) (isCall ·) t v ↔ v = t') ∨
    (bracketRound opening closer leads isCall t = some (.leave t) ∧
      ∀ v, ¬ TakesOut opening closer (lead ·) (isCall ·) t v) := by
  by_cases hspan : ∃ before span after, BlindSpan opening closer t before span after
  · obtain ⟨before, span, after, hspan⟩ := hspan
    have hround := bracketRound_of_span isCall hleads hspan
    by_cases hcall : lead before ∧ isCall span
    · rw [if_pos hcall] at hround
      refine Or.inl ⟨before ++ after, hround, ?_, ?_⟩
      · obtain ⟨w, hw⟩ := hspan.head
        have hpos : 0 < opening.utf8Size := Char.utf8Size_pos opening
        rw [hspan.eq, hw, len_append, len_append, len_append, len_cons]
        omega
      · intro v
        constructor
        · rintro ⟨before', span', after', hspan', -, -, rfl⟩
          obtain ⟨rfl, rfl, rfl⟩ := hspan.unique hspan'
          rfl
        · rintro rfl
          exact ⟨before, span, after, hspan, hcall.1, hcall.2, rfl⟩
    · rw [if_neg hcall] at hround
      refine Or.inr ⟨hround, ?_⟩
      rintro v ⟨before', span', after', hspan', hlead, hcall', -⟩
      obtain ⟨rfl, rfl, rfl⟩ := hspan.unique hspan'
      exact hcall ⟨hlead, hcall'⟩
  · have hnone : ∀ before span after, ¬ BlindSpan opening closer t before span after :=
      fun before span after h => hspan ⟨before, span, after, h⟩
    refine Or.inr ⟨bracketRound_of_no_span hleads hnone, ?_⟩
    rintro v ⟨before, span, after, h, -⟩
    exact hnone before span after h

/-- The loop takes calls out as long as there is one. -/
theorem loop_bracketRound (hleads : ∀ a b, leads (a ++ b) (len a) = some (lead a)) :
    Descent.loop len (bracketRound opening closer leads isCall) t = some u ↔
      TakenOut opening closer (lead ·) (isCall ·) t u := by
  apply Descent.loop_eq_some_iff
  · intro t t'
    rcases bracketRound_cases opening closer isCall hleads t with
      ⟨v, hround, hlt, htakes⟩ | ⟨hround, htakes⟩
    · rw [hround, htakes]
      constructor
      · rintro ⟨⟨⟩, -⟩
        rfl
      · rintro rfl
        exact ⟨rfl, hlt⟩
    · rw [hround]
      constructor
      · rintro ⟨⟨⟩, -⟩
      · intro h
        exact absurd h (htakes t')
  · intro t u
    rcases bracketRound_cases opening closer isCall hleads t with
      ⟨v, hround, hlt, htakes⟩ | ⟨hround, htakes⟩
    · rw [hround]
      constructor
      · rintro ⟨⟩
      · rintro ⟨hdone, -⟩
        exact absurd ((htakes v).mpr rfl) (hdone v)
    · rw [hround]
      constructor
      · rintro ⟨⟩
        exact ⟨htakes, rfl⟩
      · rintro ⟨-, rfl⟩
        rfl

/-- The loop always returns. -/
theorem exists_takenOut (opening closer : Char) (leads : Text → ℕ → Option Bool)
    (lead isCall : Text → Bool)
    (hleads : ∀ a b, leads (a ++ b) (len a) = some (lead a)) (t : Text) :
    ∃ u, TakenOut opening closer (lead ·) (isCall ·) t u := by
  have hloop : (Descent.loop len (bracketRound opening closer leads isCall) t).isSome := by
    apply Descent.isSome_of_invariant (I := fun _ => True) ?_ trivial
    intro t _
    rcases bracketRound_cases opening closer isCall hleads t with ⟨v, hround, hlt, -⟩ | ⟨hround, -⟩
    · refine ⟨_, hround, ?_⟩
      rintro t' ⟨⟩
      exact ⟨hlt, trivial⟩
    · exact ⟨_, hround, fun _ h => by cases h⟩
  obtain ⟨u, hu⟩ := isSome_iff_exists.mp hloop
  exact ⟨u, (loop_bracketRound hleads).mp hu⟩

end Brackets

/-- The arrays of calls are taken out of a text. -/
def ArraysTakenOut (serde : Serde F) : Text → Text → Prop :=
  TakenOut '[' ']' (fun _ => true) (isToolArray serde ·)

/-- The objects of calls that lead a text are taken out of it. -/
def ObjectsTakenOut (serde : Serde F) : Text → Text → Prop :=
  TakenOut '{' '}' (fun before => (trim before).isEmpty) (isToolObject serde ·)

/-- The code blocks, then the arrays, then the objects of calls are taken out of a response. -/
def JsonTakenOut (serde : Serde F) (response t : Text) : Prop :=
  ∃ a, ArraysTakenOut serde (withoutCodeBlocks response) a ∧ ObjectsTakenOut serde a t

theorem loop_arrayRound : Descent.loop len (arrayRound serde) t = some u ↔
    ArraysTakenOut serde t u :=
  loop_bracketRound fun _ _ => rfl

theorem leadsContent_append (a b : Text) :
    leadsContent (a ++ b) (len a) = some (trim a).isEmpty := by
  unfold leadsContent
  rw [sliceTo_eq_some.mpr ⟨b, rfl, rfl⟩]
  rfl

theorem loop_objectRound : Descent.loop len (objectRound serde) t = some u ↔
    ObjectsTakenOut serde t u :=
  loop_bracketRound leadsContent_append

theorem exists_jsonTakenOut (serde : Serde F) (response : Text) :
    ∃ t, JsonTakenOut serde response t := by
  obtain ⟨a, ha⟩ := exists_takenOut '[' ']' (fun _ _ => some true) (fun _ => true)
    (isToolArray serde) (fun _ _ => rfl) (withoutCodeBlocks response)
  obtain ⟨t, ht⟩ := exists_takenOut '{' '}' leadsContent (fun before => (trim before).isEmpty)
    (isToolObject serde) leadsContent_append a
  exact ⟨t, a, ha, ht⟩

theorem JsonTakenOut.unique {t t' : Text} (h : JsonTakenOut serde text t)
    (h' : JsonTakenOut serde text t') : t = t' := by
  obtain ⟨a, ha, ht⟩ := h
  obtain ⟨a', ha', ht'⟩ := h'
  rw [← loop_arrayRound] at ha ha'
  rw [← loop_objectRound] at ht ht'
  rw [some.inj (ha.symm.trans ha')] at ht
  exact some.inj (ht.symm.trans ht')

/-! ## Tags -/

/-- The first opening tag stands before the first closing tag, and the section from the one to
the other is taken out of a text. -/
def TakesSection (t t' : Text) : Prop :=
  ∃ before section_ after stop, t = before ++ (section_ ++ after) ∧
    find "<tool_calls>".toList t = some (len before) ∧
    find "</tool_calls>".toList t = some stop ∧ len before < stop ∧
    len (before ++ section_) = stop + 13 ∧ t' = before ++ after

/-- Sections are taken out until a text lacks one of the tags. -/
def SectionsTakenOut (t u : Text) : Prop :=
  Relation.ReflTransGen TakesSection t u ∧
    (find "<tool_calls>".toList u = none ∨ find "</tool_calls>".toList u = none)

variable {start stop : ℕ}

theorem tag_before_or_after (hstart : find "<tool_calls>".toList t = some start)
    (hstop : find "</tool_calls>".toList t = some stop) :
    start + 12 ≤ stop ∨ stop + 13 ≤ start :=
  before_or_after (c := '<') (p := "tool_calls>".toList) (q := "/tool_calls>".toList) (by decide)
    (by decide) (by decide) (by decide) hstart hstop

theorem sectionRound_of_tags (hstart : find "<tool_calls>".toList t = some start)
    (hstop : find "</tool_calls>".toList t = some stop) :
    sectionRound t = (replaceRange t start (stop + 13) []).map .next := by
  unfold sectionRound
  rw [hstart, hstop]
  dsimp only
  cases replaceRange t start (stop + 13) [] with
  | none | some t' => rfl

/-- With the tags in order there is one section to take out. -/
theorem exists_section (hstart : find "<tool_calls>".toList t = some start)
    (hstop : find "</tool_calls>".toList t = some stop) (hlt : start < stop) :
    ∃ t', replaceRange t start (stop + 13) [] = some t' ∧ len t' < len t ∧
      ∀ v, TakesSection t v ↔ v = t' := by
  obtain ⟨before, hto, hlen⟩ := (boundary_of_find hstart).1.sliceTo
  obtain ⟨rest, heq, -⟩ := sliceTo_eq_some.mp hto
  have hend : Boundary t (stop + 13) := (boundary_of_find hstop).2
  obtain ⟨after, hfrom, -⟩ := hend.sliceFrom
  obtain ⟨upto, heq', hlen'⟩ := sliceFrom_eq_some.mp hfrom
  -- the section ends behind its beginning
  obtain ⟨section_, rfl⟩ : ∃ section_, upto = before ++ section_ := by
    rcases append_eq_append_iff.mp (heq'.symm.trans heq) with ⟨w, h, -⟩ | ⟨w, h, -⟩
    · have hsum := congrArg len h
      rw [len_append] at hsum
      omega
    · exact ⟨w, h⟩
  rw [append_assoc] at heq'
  refine ⟨before ++ after, ?_, ?_, ?_⟩
  · unfold replaceRange
    rw [if_pos (by omega), hto, hfrom]
    rfl
  · rw [len_append] at hlen'
    rw [heq', len_append, len_append, len_append]
    omega
  · intro v
    constructor
    · rintro ⟨before', section', after', stop', heq'', hfind, hfind', -, hlen'', rfl⟩
      rw [hstart, some.injEq] at hfind
      rw [hstop, some.injEq] at hfind'
      obtain ⟨rfl, hrest⟩ := append_inj (heq'.symm.trans heq'') (hlen.trans hfind)
      have hsection : len section_ = len section' := by
        rw [len_append] at hlen' hlen''
        omega
      rw [(append_inj hrest hsection).2]
    · rintro rfl
      exact ⟨before, section_, after, stop, heq', by rw [hstart, hlen], hstop, by omega, hlen', rfl⟩

/-- With a closing tag first, what is to be taken out has no characters, or begins behind its
end. -/
theorem replaceRange_of_le (hstart : find "<tool_calls>".toList t = some start)
    (hle : stop + 13 ≤ start) : replaceRange t start (stop + 13) [] = none ∨
      replaceRange t start (stop + 13) [] = some t := by
  unfold replaceRange
  rcases Nat.lt_or_eq_of_le hle with hlt | rfl
  · left
    rw [if_neg (by omega)]
  · right
    obtain ⟨⟨before, rest, heq, hlen⟩, -⟩ := boundary_of_find hstart
    rw [if_pos le_rfl, sliceTo_eq_some.mpr ⟨rest, heq, hlen⟩, bind_eq_bind,
      bind_some, sliceFrom_eq_some.mpr ⟨before, heq, hlen⟩, heq]
    rfl

/-- A round leaves the loop at a text that lacks a tag, takes out a section whose tags are in
order, and otherwise panics or stands still. -/
theorem sectionRound_cases (t : Text) :
    ((find "<tool_calls>".toList t = none ∨ find "</tool_calls>".toList t = none) ∧
      sectionRound t = some (.leave t) ∧ ∀ v, ¬ TakesSection t v) ∨
    (¬ (find "<tool_calls>".toList t = none ∨ find "</tool_calls>".toList t = none) ∧
      ((∃ t', sectionRound t = some (.next t') ∧ len t' < len t ∧ ∀ v, TakesSection t v ↔ v = t') ∨
        ((sectionRound t = none ∨ sectionRound t = some (.next t)) ∧
          ∀ v, ¬ TakesSection t v))) := by
  cases hstart : find "<tool_calls>".toList t with
  | none =>
    refine Or.inl ⟨Or.inl rfl, by unfold sectionRound; rw [hstart], ?_⟩
    rintro v ⟨before, section_, after, stop, -, hfind, -⟩
    rw [hstart] at hfind
    cases hfind
  | some start =>
    cases hstop : find "</tool_calls>".toList t with
    | none =>
      refine Or.inl ⟨Or.inr rfl, by unfold sectionRound; rw [hstart, hstop], ?_⟩
      rintro v ⟨before, section_, after, stop, -, -, hfind, -⟩
      rw [hstop] at hfind
      cases hfind
    | some stop =>
      refine Or.inr ⟨by simp, ?_⟩
      rw [sectionRound_of_tags hstart hstop]
      rcases tag_before_or_after hstart hstop with hlt | hle
      · obtain ⟨t', hreplace, hless, htakes⟩ := exists_section hstart hstop (by omega)
        exact Or.inl ⟨t', by rw [hreplace]; rfl, hless, htakes⟩
      · right
        constructor
        · rcases replaceRange_of_le hstart hle with h | h
          · exact Or.inl (by rw [h]; rfl)
          · exact Or.inr (by rw [h]; rfl)
        · rintro v ⟨before', section', after', stop', -, hfind, hfind', hlt, -⟩
          rw [hstart, some.injEq] at hfind
          rw [hstop, some.injEq] at hfind'
          omega

/-- The loop over the sections returns exactly when they can be taken out. -/
theorem loop_sectionRound :
    Descent.loop len sectionRound t = some u ↔ SectionsTakenOut t u := by
  apply Descent.loop_eq_some_iff
  · intro t t'
    rcases sectionRound_cases t with ⟨-, hround, htakes⟩ | ⟨-, ⟨v, hround, hlt, htakes⟩ |
      ⟨hround | hround, htakes⟩⟩
    · rw [hround]
      exact ⟨fun h => (nomatch h.1), fun h => absurd h (htakes t')⟩
    · rw [hround, htakes]
      constructor
      · rintro ⟨⟨⟩, -⟩
        rfl
      · rintro rfl
        exact ⟨rfl, hlt⟩
    · rw [hround]
      exact ⟨fun h => (nomatch h.1), fun h => absurd h (htakes t')⟩
    · rw [hround]
      constructor
      · rintro ⟨⟨⟩, hlt⟩
        exact absurd hlt (lt_irrefl _)
      · intro h
        exact absurd h (htakes t')
  · intro t u
    rcases sectionRound_cases t with ⟨hdone, hround, -⟩ | ⟨hnot, hround⟩
    · rw [hround]
      constructor
      · rintro ⟨⟩
        exact ⟨hdone, rfl⟩
      · rintro ⟨-, rfl⟩
        rfl
    · constructor
      · intro h
        rcases hround with ⟨v, hround, -⟩ | ⟨hround | hround, -⟩
        · rw [hround] at h
          cases h
        · rw [hround] at h
          cases h
        · rw [hround] at h
          cases h
      · intro h
        exact absurd h.1 hnot

/-! ## All formats -/

/-- What is kept of a response. -/
theorem removeToolCallsFromResponse_eq_some :
    removeToolCallsFromResponse serde text = some u ↔
      ∃ t v, JsonTakenOut serde text t ∧ SectionsTakenOut t v ∧ trim v = u := by
  unfold removeToolCallsFromResponse JsonTakenOut
  simp only [bind_eq_bind, bind_eq_some_iff, loop_arrayRound, loop_objectRound,
    loop_sectionRound, Option.pure_def, some.injEq]
  constructor
  · rintro ⟨a, ha, t, ht, v, hv, rfl⟩
    exact ⟨t, v, ⟨a, ha, ht⟩, hv, rfl⟩
  · rintro ⟨t, v, ⟨a, ha, ht⟩, hv, rfl⟩
    exact ⟨a, ha, t, ht, v, hv, rfl⟩

/-- The cleaner returns exactly when the tagged sections can be taken out of what the code
blocks, the arrays and the objects leave. -/
theorem removeToolCallsFromResponse_isSome_iff (serde : Serde F) (text : Text) :
    (removeToolCallsFromResponse serde text).isSome ↔
      ∀ t, JsonTakenOut serde text t → ∃ u, SectionsTakenOut t u := by
  rw [isSome_iff_exists]
  constructor
  · rintro ⟨u, hu⟩ t ht
    obtain ⟨t', v, ht', hv, -⟩ := removeToolCallsFromResponse_eq_some.mp hu
    rw [ht.unique ht']
    exact ⟨v, hv⟩
  · intro h
    obtain ⟨t, ht⟩ := exists_jsonTakenOut serde text
    obtain ⟨v, hv⟩ := h t ht
    exact ⟨trim v, removeToolCallsFromResponse_eq_some.mpr ⟨t, v, ht, hv, rfl⟩⟩

/-- Behind a closing tag, an opening tag makes the loop stand still, and one further on makes
it panic. -/
theorem closing_tag_first_hangs_or_panics :
    ¬ (removeToolCallsFromResponse noJson "</tool_calls><tool_calls>".toList).isSome ∧
      ¬ (removeToolCallsFromResponse noJson "</tool_calls> <tool_calls>".toList).isSome := by
  decide +kernel

end HeraMind.Agent
