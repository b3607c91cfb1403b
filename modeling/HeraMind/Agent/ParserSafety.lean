/-
# Slices of the parsers

Every offset at which a parser slices comes from `find` in a slice that begins at a
boundary, so it is a boundary itself; what can go wrong is the order of two offsets.  In
the XML parser they come from two independent searches, for an opening and for a closing
tag.  Everywhere else the second search begins where the first one has ended.
-/
import HeraMind.Agent.ToolParser

namespace HeraMind.Agent

open List Option
open ByteText
open HeraMind.Rules (Json isWhitespace)

variable {F : Type} {serde : Serde F} {text t : Text} {i : ℕ}

/-! ## Attributes -/

theorem exists_untilQuote (h : Boundary t i) : ∃ value, untilQuote t i = some value := by
  obtain ⟨rest, hrest, -⟩ := h.sliceFrom
  unfold untilQuote
  rw [hrest, bind_eq_bind, bind_some]
  cases hquote : find ['"'] rest with
  | none => exact ⟨none, rfl⟩
  | some stop =>
    obtain ⟨value, hvalue, -⟩ := (boundary_of_find hquote).1.sliceTo
    exact ⟨some value, by dsimp only; rw [hvalue]; rfl⟩

theorem exists_extractXmlAttr (tag attr : Text) :
    ∃ value, extractXmlAttr tag attr = some value := by
  unfold extractXmlAttr
  dsimp only
  cases hattr : find (attr ++ "=\"".toList) tag with
  | none => exact ⟨none, rfl⟩
  | some start => exact exists_untilQuote (boundary_of_find hattr).2

/-! ## XML -/

/-- The tag that begins at a boundary is sliced out with its name. -/
theorem exists_tagName {fromTag : Text} {start tagEnd : ℕ} (h : Boundary text start)
    (hfrom : sliceFrom text start = some fromTag) (htag : find ['>'] fromTag = some tagEnd) :
    Boundary text (start + tagEnd + 1) ∧ ∃ tag name,
      slice text start (start + tagEnd + 1) = some tag ∧
        extractXmlAttr tag "name".toList = some name := by
  obtain ⟨-, hclose⟩ := boundary_of_find_sliceFrom hfrom htag
  have hclose : Boundary text (start + tagEnd + 1) := hclose
  obtain ⟨tag, hslice, -⟩ := h.slice hclose (by omega)
  obtain ⟨name, hname⟩ := exists_extractXmlAttr tag "name".toList
  exact ⟨hclose, tag, name, hslice, hname⟩

/-- A loop over a text that goes on at a later boundary comes closer to the end. -/
theorem next_behind {α β : Type} {cursor stop : ℕ} {a : α}
    (hlt : cursor < len text) (hstop : cursor < stop) (hb : Boundary text stop) :
    ∃ r : LoopFlow (ℕ × α) β, some (.next (stop, a)) = some r ∧ ∀ s', r = .next s' →
      len text - s'.1 < len text - cursor ∧ Boundary text s'.1 := by
  refine ⟨_, rfl, fun s' h => ?_⟩
  cases h
  exact ⟨by dsimp only; omega, hb⟩

/-- A round of the parameter loop does not fail, and goes on behind where it was. -/
theorem parameterRound_spec {section_ : Text} {s : ℕ × Fields F} (h : Boundary section_ s.1) :
    ∃ r, parameterRound section_ s = some r ∧ ∀ s', r = .next s' →
      len section_ - s'.1 < len section_ - s.1 ∧ Boundary section_ s'.1 := by
  obtain ⟨searchStart, arguments⟩ := s
  unfold parameterRound
  dsimp only
  by_cases hlt : searchStart < len section_
  · rw [if_pos hlt]
    obtain ⟨rest, hrest, -⟩ := h.sliceFrom
    rw [hrest, bind_eq_bind, bind_some]
    cases hparam : find "<parameter".toList rest with
    | none => exact ⟨_, rfl, nofun⟩
    | some rel =>
      obtain ⟨hstart, hopen⟩ := boundary_of_find_sliceFrom hrest hparam
      obtain ⟨fromParam, hfrom, -⟩ := hstart.sliceFrom
      dsimp only
      rw [hfrom, bind_eq_bind, bind_some]
      have hpos : 0 < len "<parameter".toList := by decide
      cases htag : find ['>'] fromParam with
      | none => exact ⟨_, rfl, nofun⟩
      | some tagEnd =>
        -- the loop goes on behind the opening of the parameter
        obtain ⟨hclose, tag, name, hslice, hname⟩ := exists_tagName hstart hfrom htag
        dsimp only
        rw [hslice, bind_some, hname, bind_some]
        cases name with
        | none => exact next_behind hlt (by omega) hopen
        | some name =>
          dsimp only
          cases hvalue : find "value=\"".toList tag with
          | some vStart =>
            obtain ⟨value, hquote⟩ := exists_untilQuote (boundary_of_find hvalue).2
            dsimp only
            rw [hquote, bind_some]
            cases value with
            | none | some value => exact next_behind hlt (by omega) hclose
          | none =>
            dsimp only
            split
            · exact next_behind hlt (by omega) hclose
            · obtain ⟨content, hcontent, -⟩ := hclose.sliceFrom
              rw [hcontent, bind_some]
              cases hend : find "</parameter>".toList content with
              | none => exact next_behind hlt (by omega) hopen
              | some closeEnd =>
                obtain ⟨hvalueEnd, hparamEnd⟩ := boundary_of_find_sliceFrom hcontent hend
                obtain ⟨value, hvalue', -⟩ := hclose.slice hvalueEnd (by omega)
                dsimp only
                rw [hvalue', bind_some]
                exact next_behind hlt (by omega) hparamEnd
  · rw [if_neg hlt]
    exact ⟨_, rfl, nofun⟩

theorem exists_parseInvokeElement (section_ : Text) :
    ∃ toolCall : Option (ToolCall F), parseInvokeElement section_ = some toolCall := by
  obtain ⟨name, hname⟩ := exists_extractXmlAttr section_ "name".toList
  unfold parseInvokeElement
  rw [hname, bind_eq_bind, bind_some]
  cases name with
  | none => exact ⟨none, rfl⟩
  | some name =>
    have hloop : (Descent.loop (fun s => len section_ - s.1) (parameterRound section_)
        ((0, []) : ℕ × Fields F)).isSome :=
      Descent.isSome_of_invariant (I := fun s => Boundary section_ s.1)
        (fun _ hs => parameterRound_spec hs) (boundary_zero section_)
    obtain ⟨arguments, hloop⟩ := isSome_iff_exists.mp hloop
    dsimp only
    rw [hloop]
    exact ⟨_, rfl⟩

/-! ### Tags that do not overlap -/

/-- Of two patterns that begin with a character which the first one does not have again, and
of which none begins with the other one, the first one ends before the second begins. -/
theorem not_overlapping {c : Char} {p q a a' b b' : Text} (hp : c ∉ p)
    (hpq : ¬ p <+: q) (hqp : ¬ q <+: p) (heq : a ++ (c :: p ++ b) = a' ++ (c :: q ++ b'))
    (hle : len a ≤ len a') : len a + len (c :: p) ≤ len a' := by
  -- the second pattern begins in what the first one is followed by
  have hcase : ∀ u, a' = a ++ u → len a + len (c :: p) ≤ len a' := by
    rintro u rfl
    rw [append_assoc, append_cancel_left_eq] at heq
    cases u with
    | nil =>
      rw [nil_append, cons_append, cons_append, cons.injEq] at heq
      have hpre : p <+: q ∨ q <+: p :=
        prefix_or_prefix_of_prefix ⟨b, heq.2⟩ (prefix_append q b')
      rcases hpre with h | h
      · exact absurd h hpq
      · exact absurd h hqp
    | cons d u =>
      rw [cons_append, cons_append, cons.injEq] at heq
      obtain ⟨rfl, heq⟩ := heq
      rcases append_eq_append_iff.mp heq with ⟨v, hu, -⟩ | ⟨v, hp', hv⟩
      · rw [hu, ← cons_append, len_append, len_append]
        omega
      · cases v with
        | nil =>
          rw [append_nil] at hp'
          rw [hp', len_append]
        | cons e v =>
          have he : c = e := (cons.inj hv).1
          exact absurd (by rw [hp', ← he]; simp) hp
  rcases append_eq_append_iff.mp heq with ⟨u, ha', -⟩ | ⟨u, ha, -⟩
  · exact hcase u ha'
  · have hu : u = [] := by
      rw [← len_eq_zero]
      rw [ha, len_append] at hle
      omega
    rw [hu, append_nil] at ha
    exact hcase [] (by rw [ha, append_nil])

/-- Where two such patterns are found, one of them ends before the other one begins. -/
theorem before_or_after {c : Char} {p q : Text} {i j : ℕ} (hp : c ∉ p) (hq : c ∉ q)
    (hpq : ¬ p <+: q) (hqp : ¬ q <+: p) (hi : find (c :: p) t = some i)
    (hj : find (c :: q) t = some j) : i + len (c :: p) ≤ j ∨ j + len (c :: q) ≤ i := by
  obtain ⟨a, b, ha, rfl, -⟩ := exists_of_find hi
  obtain ⟨a', b', ha', rfl, -⟩ := exists_of_find hj
  rcases Nat.le_total (len a) (len a') with hle | hle
  · exact Or.inl (not_overlapping hp hpq hqp (ha.symm.trans ha') hle)
  · exact Or.inr (not_overlapping hq hqp hpq (ha'.symm.trans ha) hle)

/-! ### Invoke elements -/

/-- In every round of the scan for invoke elements, the first opening tag stands before the
first closing tag. -/
inductive InvokesOrdered : Text → Prop
  | done {t : Text} : find "<invoke".toList t = none → InvokesOrdered t
  | unclosed {t : Text} : find "</invoke>".toList t = none → InvokesOrdered t
  | next {t rest : Text} {i j : ℕ} : find "<invoke".toList t = some i →
      find "</invoke>".toList t = some j → i < j → sliceFrom t (j + 8) = some rest →
      InvokesOrdered rest → InvokesOrdered t

theorem invoke_before_or_after {i j : ℕ} (hi : find "<invoke".toList t = some i)
    (hj : find "</invoke>".toList t = some j) : i + 7 ≤ j ∨ j + 9 ≤ i :=
  before_or_after (c := '<') (p := "invoke".toList) (q := "/invoke>".toList) (by decide)
    (by decide) (by decide) (by decide) hi hj

/-- The last byte of a closing tag begins at a boundary. -/
theorem boundary_in_closing_tag {j : ℕ} (hj : find "</invoke>".toList t = some j) :
    Boundary t (j + 8) := by
  obtain ⟨a, b, rfl, rfl, -⟩ := exists_of_find hj
  exact ⟨a ++ "</invoke".toList, '>' :: b, by rw [append_assoc]; rfl, len_append _ _⟩

/-- A round with the tags in order goes on with what is behind the closing tag. -/
theorem invokeRound_of_lt (toolCalls : List (ToolCall F)) {i j : ℕ} {rest : Text}
    (hi : find "<invoke".toList t = some i) (hj : find "</invoke>".toList t = some j)
    (hlt : i < j) (hrest : sliceFrom t (j + 8) = some rest) :
    ∃ toolCalls', invokeRound (t, toolCalls) = some (.next (rest, toolCalls')) := by
  obtain ⟨section_, hslice, -⟩ :=
    (boundary_of_find hi).1.slice (boundary_in_closing_tag hj) (by omega)
  obtain ⟨toolCall, htoolCall⟩ := exists_parseInvokeElement (F := F) section_
  unfold invokeRound
  dsimp only
  rw [hi, hj]
  dsimp only
  rw [hslice, bind_eq_bind, bind_some, htoolCall, bind_eq_bind, bind_some, hrest]
  exact ⟨_, rfl⟩

/-- A round with a closing tag first panics. -/
theorem invokeRound_of_le {toolCalls : List (ToolCall F)} {i j : ℕ}
    (hi : find "<invoke".toList t = some i) (hj : find "</invoke>".toList t = some j)
    (hle : j ≤ i) : invokeRound (t, toolCalls) = none := by
  have hafter : ¬ i ≤ j + 8 := by
    have htags := invoke_before_or_after hi hj
    omega
  unfold invokeRound
  dsimp only
  rw [hi, hj]
  dsimp only [slice]
  rw [if_neg hafter]
  rfl

theorem InvokesOrdered.of_round {toolCalls : List (ToolCall F)}
    {r : LoopFlow (Text × List (ToolCall F)) (Option (List (ToolCall F)))}
    (h : invokeRound (t, toolCalls) = some r)
    (hnext : ∀ s, r = .next s → InvokesOrdered s.1) : InvokesOrdered t := by
  cases hi : find "<invoke".toList t with
  | none => exact .done hi
  | some i =>
    cases hj : find "</invoke>".toList t with
    | none => exact .unclosed hj
    | some j =>
      by_cases hlt : i < j
      · obtain ⟨rest, hrest, -⟩ := (boundary_in_closing_tag hj).sliceFrom
        obtain ⟨toolCalls', hround⟩ := invokeRound_of_lt toolCalls hi hj hlt hrest
        rw [hround] at h
        exact .next hi hj hlt hrest (hnext _ (some.inj h).symm)
      · rw [invokeRound_of_le hi hj (by omega)] at h
        cases h

theorem len_lt_of_sliceFrom {rest : Text} {n : ℕ} (h : sliceFrom t n = some rest) (hpos : 0 < n) :
    len rest < len t := by
  obtain ⟨a, rfl, rfl⟩ := sliceFrom_eq_some.mp h
  rw [len_append]
  omega

/-- The scan for invoke elements ends exactly when their tags are in order. -/
theorem isSome_invokes (toolCalls : List (ToolCall F)) :
    (Descent.loop (fun s => len s.1) invokeRound (t, toolCalls)).isSome ↔ InvokesOrdered t := by
  rw [Descent.isSome_loop]
  constructor
  · intro h
    generalize hs : (t, toolCalls) = s at h
    induction h generalizing t toolCalls with
    | leave hbody =>
      subst hs
      exact .of_round hbody nofun
    | @next s s' hbody hlt _ ih =>
      subst hs
      refine .of_round hbody ?_
      rintro s'' ⟨⟩
      exact ih _ rfl
  · intro h
    induction h generalizing toolCalls with
    | done hi =>
      apply Descent.Ends.leave (b := some toolCalls)
      unfold invokeRound
      dsimp only
      rw [hi]
    | @unclosed t hj =>
      cases hi : find "<invoke".toList t with
      | none =>
        apply Descent.Ends.leave (b := some toolCalls)
        unfold invokeRound
        dsimp only
        rw [hi]
      | some i =>
        apply Descent.Ends.leave (b := none)
        unfold invokeRound
        dsimp only
        rw [hi, hj]
    | next hi hj hlt hrest _ ih =>
      obtain ⟨toolCalls', hround⟩ := invokeRound_of_lt toolCalls hi hj hlt hrest
      exact .next hround (len_lt_of_sliceFrom hrest (by omega)) (ih _)

/-- The first opening tag of a section is not behind the first closing tag and whatever
follows it, and the invoke elements of the section are in order. -/
def XmlOrdered (text : Text) : Prop :=
  ∀ start ∈ find "<tool_calls>".toList text, ∀ stop ∈ find "</tool_calls>".toList text,
    start ≤ stop + 13 ∧ ∀ section_ ∈ slice text start (stop + 13), InvokesOrdered section_

/-- The XML parser does not panic exactly when its tags are in order. -/
theorem isSome_tryParseXml :
    (tryParseXml text : Option (Option (Parsed F))).isSome ↔ XmlOrdered text := by
  unfold tryParseXml XmlOrdered
  cases hstart : find "<tool_calls>".toList text with
  | none => simp
  | some start =>
    cases hstop : find "</tool_calls>".toList text with
    | none => simp
    | some stop =>
      have hend : Boundary text (stop + 13) := (boundary_of_find hstop).2
      obtain ⟨before, hbefore, -⟩ := (boundary_of_find hstart).1.sliceTo
      obtain ⟨after, hafter, -⟩ := hend.sliceFrom
      simp only [mem_def, some.injEq, forall_eq']
      by_cases hle : start ≤ stop + 13
      · obtain ⟨section_, hsection, -⟩ := (boundary_of_find hstart).1.slice hend hle
        simp only [hsection, hbefore, hafter, bind_eq_bind, bind_some,
          some.injEq, forall_eq', hle, true_and]
        rw [← isSome_invokes ([] : List (ToolCall F))]
        cases hloop : Descent.loop (fun s => len s.1) invokeRound
            ((section_, []) : Text × List (ToolCall F)) with
        | none => simp
        | some toolCalls =>
          cases toolCalls with
          | none => simp
          | some toolCalls =>
            simp only [bind_some, isSome_some, iff_true]
            split
            · rfl
            · rfl
      · have hnone : slice text start (stop + 13) = none := if_neg hle
        simp [hnone, hle]

/-! ## JSON -/

/-- A scan that ends behind a character does so after one character more. -/
theorem exists_of_scan_cons {o : Option ℕ} {c : Char} {n : ℕ}
    (ih : ∀ {m}, o = some m → ∃ a b, t = a ++ b ∧ len a = m ∧ a ≠ [])
    (hn : o.map (c.utf8Size + ·) = some n) : ∃ a b, c :: t = a ++ b ∧ len a = n ∧ a ≠ [] := by
  obtain ⟨m, hm, rfl⟩ := map_eq_some_iff.mp hn
  obtain ⟨a, b, rfl, rfl, -⟩ := ih hm
  exact ⟨c :: a, b, rfl, rfl, cons_ne_nil _ _⟩

/-- The scan ends behind a character. -/
theorem exists_of_closing {opening closer : Char} {depth : ℤ} {inString escaped : Bool} {n : ℕ}
    (h : closing opening closer depth inString escaped t = some n) :
    ∃ a b, t = a ++ b ∧ len a = n ∧ a ≠ [] := by
  fun_induction closing opening closer depth inString escaped t generalizing n with
  | case1 => cases h
  | case2 depth inString c t ih | case3 depth t ih | case4 depth t _ ih | case5 depth c t _ _ ih
  | case6 depth t ih | case7 depth t _ ih => exact exists_of_scan_cons ih h
  | case8 depth t _ _ _ =>
    cases h
    exact ⟨[closer], t, rfl, by simp, cons_ne_nil _ _⟩
  | case9 depth t _ _ _ ih | case10 depth c t _ _ _ ih => exact exists_of_scan_cons ih h

/-- The text up to its first opening bracket, a span that begins with it, and what follows. -/
structure OpensAt (opening : Char) (text before span after : Text) : Prop where
  eq : text = before ++ (span ++ after)
  first : opening ∉ before
  head : ∃ u, span = opening :: u

namespace OpensAt

variable {opening : Char} {before span after : Text}

theorem find_eq (h : OpensAt opening text before span after) :
    find [opening] text = some (len before) := by
  obtain ⟨u, hu⟩ := h.head
  refine find_singleton.mpr ⟨before, u ++ after, ?_, h.first, rfl⟩
  rw [h.eq, hu]
  rfl

theorem sliceFrom_eq (h : OpensAt opening text before span after) :
    sliceFrom text (len before) = some (span ++ after) :=
  sliceFrom_eq_some.mpr ⟨before, h.eq, rfl⟩

theorem sliceTo_eq (h : OpensAt opening text before span after) :
    sliceTo text (len before) = some before :=
  sliceTo_eq_some.mpr ⟨span ++ after, h.eq, rfl⟩

theorem slice_eq (h : OpensAt opening text before span after) :
    slice text (len before) (len before + len span) = some span := by
  have hto : sliceTo text (len before + len span) = some (before ++ span) :=
    sliceTo_eq_some.mpr ⟨after, by rw [h.eq, append_assoc], len_append before span⟩
  unfold slice
  rw [if_pos (Nat.le_add_right _ _), hto, bind_some]
  exact sliceFrom_eq_some.mpr ⟨before, rfl, rfl⟩

/-- Two spans of a text whose lengths the same scan finds are one. -/
theorem unique {before' span' after' : Text} {scan : Text → Option ℕ}
    (h : OpensAt opening text before span after) (h' : OpensAt opening text before' span' after')
    (hscan : scan (span ++ after) = some (len span))
    (hscan' : scan (span' ++ after') = some (len span')) :
    before = before' ∧ span = span' ∧ after = after' := by
  have hbefore : len before = len before' := some.inj (h.find_eq.symm.trans h'.find_eq)
  obtain ⟨rfl, hrest⟩ := append_inj (h.eq.symm.trans h'.eq) hbefore
  rw [hrest, hscan'] at hscan
  obtain ⟨rfl, rfl⟩ := append_inj hrest (some.inj hscan).symm
  exact ⟨rfl, rfl, rfl⟩

end OpensAt

/-- The text up to its first opening bracket, the span to the bracket that closes it, and
what follows. -/
structure SpanAt (opening closer : Char) (text before span after : Text) : Prop where
  eq : text = before ++ (span ++ after)
  first : opening ∉ before
  head : ∃ u, span = opening :: u
  closes : closing opening closer 0 false false (span ++ after) = some (len span)

variable {before span after : Text}

theorem SpanAt.opensAt {opening closer : Char} (h : SpanAt opening closer text before span after) :
    OpensAt opening text before span after :=
  ⟨h.eq, h.first, h.head⟩

/-- A text has a bracket that is closed, or one that is not, or none. -/
theorem span_cases (opening closer : Char) (text : Text) :
    (∃ before span after, SpanAt opening closer text before span after) ∨
      (∃ start rest, find [opening] text = some start ∧ Boundary text start ∧
        sliceFrom text start = some rest ∧ closing opening closer 0 false false rest = none) ∨
      find [opening] text = none := by
  cases hstart : find [opening] text with
  | none => exact Or.inr (Or.inr rfl)
  | some start =>
    obtain ⟨before, rest, rfl, hfirst, rfl⟩ := find_singleton.mp hstart
    cases hclosing : closing opening closer 0 false false (opening :: rest) with
    | none =>
      exact Or.inr (Or.inl ⟨len before, opening :: rest, rfl, (boundary_of_find hstart).1,
        sliceFrom_eq_some.mpr ⟨before, rfl, rfl⟩, hclosing⟩)
    | some n =>
      obtain ⟨span, after, hrest, rfl, hne⟩ := exists_of_closing hclosing
      obtain ⟨c, u, rfl⟩ := exists_cons_of_ne_nil hne
      have hc : opening = c := (cons.inj hrest).1
      exact Or.inl ⟨before, c :: u, after, by rw [hrest], hfirst, ⟨u, by rw [hc]⟩,
        by rw [← hrest, hclosing]⟩

/-- The text has a JSON array of tool calls, from its first `[` on. -/
def ArrayCalls (serde : Serde F) (text : Text) : Prop :=
  ∃ before span after, SpanAt '[' ']' text before span after ∧ looksLikeToolCalls span = true ∧
    ∃ array, serde.fromStrVec span = some array ∧ array.filterMap extractToolCallFromJson ≠ []

/-- The text has a JSON object that is a tool call, from its first `{` on: at the beginning, or
behind a code fence, or with arguments. -/
def ObjectCall (serde : Serde F) (text : Text) : Prop :=
  ∃ before span after, SpanAt '{' '}' text before span after ∧
    (trim before = [] ∨ "```".toList <+: trim before ∨ isToolCallShaped serde (span ++ after)) ∧
      ((serde.fromStr span).bind extractToolCallFromJson).isSome

theorem tryParseJsonArray_of_span (serde : Serde F) (h : SpanAt '[' ']' text before span after) :
    tryParseJsonArray serde text = some
      (if looksLikeToolCalls span then
        (serde.fromStrVec span).bind fun array =>
          if (array.filterMap extractToolCallFromJson).isEmpty then none
          else some (trim before, array.filterMap extractToolCallFromJson)
      else none) := by
  unfold tryParseJsonArray
  rw [h.opensAt.find_eq]
  dsimp only
  rw [h.opensAt.sliceFrom_eq, bind_eq_bind, bind_some, h.closes]
  dsimp only
  rw [h.opensAt.slice_eq, bind_some]
  split
  · cases harray : serde.fromStrVec span with
    | none => rfl
    | some array =>
      dsimp only
      rw [h.opensAt.sliceTo_eq, bind_some, bind_some]
      by_cases hempty : (array.filterMap extractToolCallFromJson).isEmpty
      · rw [if_pos hempty, if_pos hempty]
        rfl
      · rw [if_neg hempty, if_neg hempty]
        rfl
  · rfl

theorem tryParseJsonArray_of_no_span
    (h : ∀ before span after, ¬ SpanAt '[' ']' text before span after) :
    tryParseJsonArray serde text = some none := by
  unfold tryParseJsonArray
  rcases span_cases '[' ']' text with hspan | ⟨start, rest, hstart, -, hrest, hclosing⟩ | hnone
  · obtain ⟨before, span, after, hspan⟩ := hspan
    exact absurd hspan (h before span after)
  · rw [hstart]
    dsimp only
    rw [hrest, bind_eq_bind, bind_some, hclosing]
    rfl
  · rw [hnone]

/-- The array parser does not panic, and finds something exactly in arrays of calls. -/
theorem tryParseJsonArray_spec (serde : Serde F) (text : Text) :
    ∃ o, tryParseJsonArray serde text = some o ∧ (o.isSome ↔ ArrayCalls serde text) := by
  by_cases hspan : ∃ before span after, SpanAt '[' ']' text before span after
  · obtain ⟨before, span, after, hspan⟩ := hspan
    refine ⟨_, tryParseJsonArray_of_span serde hspan, ?_⟩
    constructor
    · intro hsome
      split at hsome
      · rename_i hlooks
        obtain ⟨parsed, hparsed⟩ := isSome_iff_exists.mp hsome
        obtain ⟨array, harray, hif⟩ := bind_eq_some_iff.mp hparsed
        split at hif
        · cases hif
        · rename_i hne
          exact ⟨before, span, after, hspan, hlooks, array, harray,
            fun hnil => hne (List.isEmpty_iff.mpr hnil)⟩
      · cases hsome
    · rintro ⟨before', span', after', hspan', hlooks, array, harray, hne⟩
      -- both spans give the result of the parser
      have hsame := (tryParseJsonArray_of_span serde hspan).symm.trans
        (tryParseJsonArray_of_span serde hspan')
      rw [some.inj hsame, if_pos hlooks, harray, bind_some, if_neg]
      · rfl
      · rw [List.isEmpty_iff]
        exact hne
  · have hnone : ∀ before span after, ¬ SpanAt '[' ']' text before span after :=
      fun before span after h => hspan ⟨before, span, after, h⟩
    refine ⟨none, tryParseJsonArray_of_no_span hnone, ?_⟩
    constructor
    · intro h
      cases h
    · rintro ⟨before, span, after, h, -⟩
      exact absurd h (hnone before span after)

theorem tryParseJsonObject_of_span (serde : Serde F) (h : SpanAt '{' '}' text before span after) :
    tryParseJsonObject serde text = some
      (if trim before = [] ∨ "```".toList <+: trim before ∨
          isToolCallShaped serde (span ++ after) then
        ((serde.fromStr span).bind extractToolCallFromJson).map fun toolCall =>
          (trim before, [toolCall])
      else none) := by
  unfold tryParseJsonObject
  rw [h.opensAt.find_eq]
  dsimp only
  rw [h.opensAt.sliceTo_eq, bind_eq_bind, bind_some, h.opensAt.sliceFrom_eq, bind_some, h.closes]
  dsimp only
  rw [h.opensAt.slice_eq, bind_some]
  by_cases hlead : trim before = [] ∨ "```".toList <+: trim before ∨
      isToolCallShaped serde (span ++ after)
  · rw [if_pos hlead, if_neg]
    · rfl
    · rintro ⟨hne, hfence, hshape⟩
      rcases hlead with h | h | h
      · exact hne h
      · exact hfence h
      · rw [hshape] at h
        cases h
  · rw [if_neg hlead, if_pos]
    · rfl
    · rw [not_or, not_or, Bool.not_eq_true] at hlead
      exact hlead

theorem tryParseJsonObject_of_no_span
    (h : ∀ before span after, ¬ SpanAt '{' '}' text before span after) :
    tryParseJsonObject serde text = some none := by
  unfold tryParseJsonObject
  rcases span_cases '{' '}' text with hspan | ⟨start, rest, hstart, hb, hrest, hclosing⟩ | hnone
  · obtain ⟨before, span, after, hspan⟩ := hspan
    exact absurd hspan (h before span after)
  · obtain ⟨before, hbefore, -⟩ := hb.sliceTo
    rw [hstart]
    dsimp only
    rw [hbefore, bind_eq_bind, bind_some, hrest, bind_some, hclosing]
    split
    · rfl
    · rfl
  · rw [hnone]

theorem tryParseJsonObject_spec (serde : Serde F) (text : Text) :
    ∃ o, tryParseJsonObject serde text = some o ∧ (o.isSome ↔ ObjectCall serde text) := by
  by_cases hspan : ∃ before span after, SpanAt '{' '}' text before span after
  · obtain ⟨before, span, after, hspan⟩ := hspan
    refine ⟨_, tryParseJsonObject_of_span serde hspan, ?_⟩
    constructor
    · intro hsome
      split at hsome
      · rename_i hlead
        rw [isSome_map] at hsome
        exact ⟨before, span, after, hspan, hlead, hsome⟩
      · cases hsome
    · rintro ⟨before', span', after', hspan', hlead, hcall⟩
      have hsame := (tryParseJsonObject_of_span serde hspan).symm.trans
        (tryParseJsonObject_of_span serde hspan')
      rw [some.inj hsame, if_pos hlead, isSome_map]
      exact hcall
  · have hnone : ∀ before span after, ¬ SpanAt '{' '}' text before span after :=
      fun before span after h => hspan ⟨before, span, after, h⟩
    refine ⟨none, tryParseJsonObject_of_no_span hnone, ?_⟩
    constructor
    · intro h
      cases h
    · rintro ⟨before, span, after, h, -⟩
      exact absurd h (hnone before span after)

/-! ## Spans to remove -/

/-- The spans follow each other from an offset on and end at another one. -/
def Spans (text : Text) : ℕ → List (ℕ × ℕ) → ℕ → Prop
  | prev, [], last => prev ≤ last
  | prev, (start, stop) :: spans, last =>
    prev ≤ start ∧ start ≤ stop ∧ Boundary text start ∧ Boundary text stop ∧
      Spans text stop spans last

namespace Spans

variable {prev last : ℕ} {spans : List (ℕ × ℕ)}

theorem of_le {prev' : ℕ} (h : Spans text prev spans last) (hle : prev' ≤ prev) :
    Spans text prev' spans last := by
  cases spans with
  | nil => exact Nat.le_trans hle h
  | cons s spans => exact ⟨Nat.le_trans hle h.1, h.2⟩

theorem snoc {start stop : ℕ} (h : Spans text prev spans last) (hlast : last ≤ start)
    (hle : start ≤ stop) (hstart : Boundary text start) (hstop : Boundary text stop) :
    Spans text prev (spans ++ [(start, stop)]) stop := by
  induction spans generalizing prev with
  | nil => exact ⟨Nat.le_trans h hlast, hle, hstart, hstop, Nat.le_refl _⟩
  | cons s spans ih =>
    obtain ⟨hprev, hs, hb, hb', hrest⟩ := h
    exact ⟨hprev, hs, hb, hb', ih hrest⟩

/-- Spans that follow each other can be removed. -/
theorem exists_removeSpans (h : Spans text prev spans last) (hprev : Boundary text prev) :
    ∃ rest, removeSpans text prev spans = some rest := by
  induction spans generalizing prev with
  | nil =>
    obtain ⟨rest, hrest, -⟩ := hprev.sliceFrom
    exact ⟨rest, hrest⟩
  | cons s spans ih =>
    obtain ⟨start, stop⟩ := s
    obtain ⟨hle, -, hstart, hstop, hrest⟩ := h
    obtain ⟨kept, hkept, -⟩ := hprev.slice hstart hle
    obtain ⟨rest, hremove⟩ := ih hrest hstop
    rw [removeSpans, hkept, bind_eq_bind, bind_some, hremove]
    exact ⟨_, rfl⟩

end Spans

/-! ## Hermes -/

theorem hermesParamRound_spec {body : Text} {s : ℕ × Fields F} (h : Boundary body s.1) :
    ∃ r, hermesParamRound body s = some r ∧ ∀ s', r = .next s' →
      len body - s'.1 < len body - s.1 ∧ Boundary body s'.1 := by
  obtain ⟨cursor, args⟩ := s
  unfold hermesParamRound
  dsimp only
  by_cases hlt : cursor < len body
  · rw [if_pos hlt]
    obtain ⟨rest, hrest, -⟩ := h.sliceFrom
    rw [hrest, bind_eq_bind, bind_some]
    cases hparam : find "<param".toList rest with
    | none => exact ⟨_, rfl, nofun⟩
    | some rel =>
      obtain ⟨hstart, -⟩ := boundary_of_find_sliceFrom hrest hparam
      obtain ⟨fromParam, hfrom, -⟩ := hstart.sliceFrom
      dsimp only
      rw [hfrom, bind_eq_bind, bind_some]
      cases htag : find ['>'] fromParam with
      | none => exact ⟨_, rfl, nofun⟩
      | some tagEnd =>
        obtain ⟨hclose, tag, name, hslice, hname⟩ := exists_tagName hstart hfrom htag
        dsimp only
        rw [hslice, bind_some, hname, bind_some]
        cases name with
        | none => exact next_behind hlt (by omega) hclose
        | some name =>
          dsimp only
          split
          · exact next_behind hlt (by omega) hclose
          · obtain ⟨fromValue, hvalue, -⟩ := hclose.sliceFrom
            rw [hvalue, bind_some]
            cases hend : find "</param>".toList fromValue with
            | none => exact next_behind hlt (by omega) hclose
            | some closeRel =>
              obtain ⟨hvalueEnd, hparamEnd⟩ := boundary_of_find_sliceFrom hvalue hend
              obtain ⟨value, hslice', -⟩ := hclose.slice hvalueEnd (by omega)
              dsimp only
              rw [hslice', bind_some]
              exact next_behind hlt (by omega) hparamEnd
  · rw [if_neg hlt]
    exact ⟨_, rfl, nofun⟩

theorem exists_parseHermesParams (body : Text) :
    ∃ args : Fields F, parseHermesParams body = some args :=
  isSome_iff_exists.mp (Descent.isSome_of_invariant (I := fun s => Boundary body s.1)
    (fun _ hs => hermesParamRound_spec hs) (boundary_zero body))

/-- The cursor stands at a boundary, behind the spans found so far. -/
def AtSpans (text : Text) (s : ℕ × Found F) : Prop :=
  Boundary text s.1 ∧ Spans text 0 s.2.2 s.1

theorem hermesRound_spec {s : ℕ × Found F} (h : AtSpans text s) :
    ∃ r, hermesRound text s = some r ∧
      (∀ found, r = .leave found → Spans text 0 found.2 s.1) ∧
      ∀ s', r = .next s' → len text - s'.1 < len text - s.1 ∧ AtSpans text s' := by
  obtain ⟨cursor, toolCalls, spans⟩ := s
  obtain ⟨hcursor, hspans⟩ := h
  have hleave : ∃ r : LoopFlow (ℕ × Found F) (Found F),
      some (LoopFlow.leave (toolCalls, spans)) = some r ∧
      (∀ found, r = .leave found → Spans text 0 found.2 cursor) ∧
      ∀ s', r = .next s' → len text - s'.1 < len text - cursor ∧ AtSpans text s' := by
    refine ⟨_, rfl, ?_, nofun⟩
    rintro found ⟨⟩
    exact hspans
  unfold hermesRound
  dsimp only
  by_cases hlt : cursor < len text
  · rw [if_pos hlt]
    obtain ⟨rest, hrest, -⟩ := hcursor.sliceFrom
    rw [hrest, bind_eq_bind, bind_some]
    cases hfunc : find "<function".toList rest with
    | none => exact hleave
    | some rel =>
      obtain ⟨hstart, -⟩ := boundary_of_find_sliceFrom hrest hfunc
      obtain ⟨fromFunc, hfrom, -⟩ := hstart.sliceFrom
      dsimp only
      rw [hfrom, bind_eq_bind, bind_some]
      cases htag : find ['>'] fromFunc with
      | none => exact hleave
      | some openEnd =>
        obtain ⟨hopen, openTag, name, htagSlice, hname⟩ := exists_tagName hstart hfrom htag
        obtain ⟨fromBody, hbody, -⟩ := hopen.sliceFrom
        dsimp only
        rw [hbody, bind_some]
        cases hclose : find "</function>".toList fromBody with
        | none => exact hleave
        | some closeRel =>
          obtain ⟨hbodyEnd, hend⟩ := boundary_of_find_sliceFrom hbody hclose
          obtain ⟨body, hbodySlice, -⟩ := hopen.slice hbodyEnd (by omega)
          -- the next round begins behind the function, which is one more span
          have hnext : ∀ {toolCalls' : List (ToolCall F)} {s' : ℕ × Found F},
              (LoopFlow.next (cursor + rel + openEnd + 1 + closeRel + len "</function>".toList,
                toolCalls', spans ++ [(cursor + rel,
                  cursor + rel + openEnd + 1 + closeRel + len "</function>".toList)]) :
                LoopFlow _ (Found F)) = .next s' →
              len text - s'.1 < len text - cursor ∧ AtSpans text s' := by
            rintro toolCalls' s' ⟨⟩
            exact ⟨by dsimp only; omega, hend, hspans.snoc (by omega) (by omega) hstart hend⟩
          dsimp only
          rw [htagSlice, bind_some, hbodySlice, bind_some, hname, bind_some]
          cases name with
          | none => exact ⟨_, rfl, nofun, fun _ => hnext⟩
          | some name =>
            obtain ⟨args, hargs⟩ := exists_parseHermesParams (F := F) body
            dsimp only
            rw [hargs, bind_eq_bind, bind_some]
            exact ⟨_, rfl, nofun, fun _ => hnext⟩
  · rw [if_neg hlt]
    exact hleave

theorem exists_tryParseHermes (text : Text) :
    ∃ o : Option (Parsed F), tryParseHermes text = some o := by
  unfold tryParseHermes
  split
  · have hstart : AtSpans text ((0, [], []) : ℕ × Found F) :=
      ⟨boundary_zero text, Nat.le_refl 0⟩
    have hstep : ∀ s : ℕ × Found F, AtSpans text s → ∃ r, hermesRound text s = some r ∧
        ∀ s', r = .next s' → len text - s'.1 < len text - s.1 ∧ AtSpans text s' := by
      intro s hs
      obtain ⟨r, hr, -, hnext⟩ := hermesRound_spec hs
      exact ⟨r, hr, hnext⟩
    obtain ⟨⟨toolCalls, spans⟩, hloop⟩ := isSome_iff_exists.mp
      (Descent.isSome_of_invariant (μ := fun s : ℕ × Found F => len text - s.1) hstep hstart)
    rw [hloop, bind_eq_bind, bind_some]
    dsimp only
    split
    · exact ⟨none, rfl⟩
    · -- the loop is left with spans that follow each other
      obtain ⟨s, hs, hleave⟩ := Descent.of_loop (I := AtSpans text) (fun s s' hs hnext => by
        obtain ⟨r, hr, hnext'⟩ := hstep s hs
        rw [hr] at hnext
        exact (hnext' s' (some.inj hnext)).2) hstart hloop
      obtain ⟨r, hr, hspans, -⟩ := hermesRound_spec hs
      rw [hr] at hleave
      obtain ⟨content, hcontent⟩ :=
        (hspans _ (some.inj hleave)).exists_removeSpans (boundary_zero text)
      rw [hcontent]
      exact ⟨_, rfl⟩
  · exact ⟨none, rfl⟩

/-! ## Pythonic -/

/-- The matches follow each other. -/
theorem spans_callMatches (before : Text) (h : text = before ++ t) :
    Spans text (len before) ((callMatches (len before) t).map fun m => (m.start, m.stop))
      (len text) := by
  induction hn : t.length using Nat.strongRecOn generalizing before t with
  | ind n ih =>
    cases t with
    | nil =>
      rw [callMatches]
      show len before ≤ len text
      rw [h, append_nil]
    | cons c u =>
      rw [callMatches]
      split
      · rename_i name args rest hcall
        have hmatch := eq_of_callAt hcall
        have htext : text = (before ++ (name ++ '(' :: (args ++ [')']))) ++ rest := by
          rw [h, hmatch]
          simp
        have hstop : len before + len name + 1 + len args + 1 =
            len (before ++ (name ++ '(' :: (args ++ [')']))) := by
          have hopen : '('.utf8Size = 1 := by decide
          have hclose : ')'.utf8Size = 1 := by decide
          simp [hopen, hclose]
          omega
        have hlen := congrArg List.length hmatch
        simp only [length_cons, length_append] at hlen hn
        rw [map_cons]
        refine ⟨Nat.le_refl _, by dsimp only; omega, ⟨before, c :: u, h, rfl⟩, ?_, ?_⟩
        · exact ⟨_, rest, htext, hstop.symm⟩
        · dsimp only
          rw [hstop]
          exact ih rest.length (by omega) _ htext rfl
      · rw [length_cons] at hn
        have htext : text = (before ++ [c]) ++ u := by
          rw [h, append_assoc]
          rfl
        have hrest := ih u.length (by omega) _ htext rfl
        have hlen : len (before ++ [c]) = len before + c.utf8Size := by simp
        rw [hlen] at hrest
        exact hrest.of_le (Nat.le_add_right _ _)

theorem exists_parsePythonicValue (raw : Text) : ∃ value, parsePythonicValue raw = some value := by
  -- between two quotes there is a slice
  have hquoted : ∀ (quote : Char) (raw : Text), quote.utf8Size = 1 → isQuoted quote raw = true →
      ∃ inner, slice raw 1 (len raw - 1) = some inner := by
    intro quote raw hquote hraw
    unfold isQuoted at hraw
    rw [Bool.and_eq_true, Bool.and_eq_true, beq_iff_eq, beq_iff_eq, decide_eq_true_eq] at hraw
    obtain ⟨⟨hhead, hlast⟩, hlen⟩ := hraw
    obtain ⟨u, rfl⟩ := head?_eq_some_iff.mp hhead
    obtain ⟨w, hw⟩ := getLast?_eq_some_iff.mp hlast
    have hstart : Boundary (quote :: u) 1 := ⟨[quote], u, rfl, by simp [hquote]⟩
    have hend : Boundary (quote :: u) (len (quote :: u) - 1) :=
      ⟨w, [quote], hw, by rw [hw, len_append, len_cons, hquote, len_nil]; omega⟩
    obtain ⟨inner, hinner, -⟩ := hstart.slice hend (by omega)
    exact ⟨inner, hinner⟩
  unfold parsePythonicValue
  dsimp only
  split
  · rename_i hraw
    have hslice : ∃ inner, slice (trim raw) 1 (len (trim raw) - 1) = some inner := by
      rw [Bool.or_eq_true] at hraw
      rcases hraw with hraw | hraw
      · exact hquoted '\'' _ (by decide) hraw
      · exact hquoted '"' _ (by decide) hraw
    obtain ⟨inner, hinner⟩ := hslice
    rw [hinner]
    exact ⟨_, rfl⟩
  · exact ⟨_, rfl⟩

theorem exists_pythonicArguments (arguments : Fields F) (parts : List Text) :
    ∃ arguments', pythonicArguments arguments parts = some arguments' := by
  induction parts generalizing arguments with
  | nil => exact ⟨arguments, rfl⟩
  | cons part parts ih =>
    rw [pythonicArguments]
    split
    · exact ih arguments
    · rename_i key rawValue _
      dsimp only
      split
      · exact ih arguments
      · obtain ⟨value, hvalue⟩ := exists_parsePythonicValue (trim rawValue)
        rw [hvalue]
        exact ih _

theorem exists_arguments (m : CallMatch) : ∃ arguments : Fields F, m.arguments = some arguments := by
  unfold CallMatch.arguments
  split
  · exact exists_pythonicArguments _ _
  · exact ⟨_, rfl⟩

/-- The spans of the calls are among those of the matches. -/
theorem pythonicCalls_spec {ms : List CallMatch} {prev last : ℕ}
    (h : Spans text prev (ms.map fun m => (m.start, m.stop)) last) :
    ∃ found : Found F, pythonicCalls ms = some found ∧ Spans text prev found.2 last := by
  induction ms generalizing prev with
  | nil => exact ⟨([], []), rfl, h⟩
  | cons m ms ih =>
    obtain ⟨hprev, hle, hstart, hstop, hrest⟩ := h
    obtain ⟨⟨toolCalls, spans⟩, hfound, hspans⟩ := ih hrest
    obtain ⟨arguments, harguments⟩ := exists_arguments (F := F) m
    rw [pythonicCalls, harguments, bind_eq_bind, bind_some, hfound, bind_eq_bind, bind_some]
    dsimp only
    split
    · exact ⟨_, rfl, hspans.of_le (Nat.le_trans hprev hle)⟩
    · exact ⟨_, rfl, hprev, hle, hstart, hstop, hspans⟩

theorem pythonicGroup_spec (scan : Text) (spans : List (ℕ × ℕ)) :
    ∃ o, pythonicGroup scan spans = some o ∧ ∀ start stop, o = some (start, stop) →
      Boundary scan start ∧ Boundary scan (stop + 1) := by
  have hnone : ∃ o : Option (ℕ × ℕ), some none = some o ∧ ∀ start stop, o = some (start, stop) →
      Boundary scan start ∧ Boundary scan (stop + 1) :=
    ⟨none, rfl, nofun⟩
  unfold pythonicGroup
  split
  · rename_i start stop hstart hstop
    obtain ⟨hopen, hinside⟩ := boundary_of_find hstart
    obtain ⟨a, b, ha, hlen⟩ := exists_of_rfind hstop
    have hclose : Boundary scan stop := ⟨a, ']' :: b, ha, hlen⟩
    have hbehind : Boundary scan (stop + 1) :=
      ⟨a ++ [']'], b, by rw [ha, append_assoc]; rfl, by rw [len_append, hlen]; rfl⟩
    split
    · rename_i hlt
      have hinside : Boundary scan (start + 1) := hinside
      obtain ⟨inner, hinner, -⟩ := hinside.slice hclose (by omega)
      rw [hinner, bind_eq_bind, bind_some]
      split
      · refine ⟨_, rfl, ?_⟩
        rintro start' stop' ⟨⟩
        exact ⟨hopen, hbehind⟩
      · exact hnone
    · exact hnone
  · exact hnone

theorem exists_afterThinking (text : Text) : ∃ scan, afterThinking text = some scan := by
  unfold afterThinking
  split
  · rename_i pos hpos
    obtain ⟨scan, hscan, -⟩ := (boundary_of_find hpos).2.sliceFrom
    exact ⟨scan, hscan⟩
  · exact ⟨text, rfl⟩

theorem exists_tryParsePythonic (text : Text) :
    ∃ o : Option (Parsed F), tryParsePythonic text = some o := by
  obtain ⟨scan, hscan⟩ := exists_afterThinking text
  obtain ⟨⟨toolCalls, spans⟩, hcalls, hspans⟩ :=
    pythonicCalls_spec (F := F) (spans_callMatches [] (nil_append scan).symm)
  have hcalls : pythonicCalls (callMatches 0 scan) = some (toolCalls, spans) := hcalls
  unfold tryParsePythonic
  rw [hscan, bind_eq_bind, bind_some, hcalls, bind_eq_bind, bind_some]
  dsimp only
  split
  · exact ⟨none, rfl⟩
  · obtain ⟨group, hgroup, hboundary⟩ := pythonicGroup_spec scan spans
    rw [hgroup, bind_eq_bind, bind_some]
    cases group with
    | none =>
      obtain ⟨remaining, hremaining⟩ := hspans.exists_removeSpans (boundary_zero scan)
      have hremaining : removeSpans scan 0 spans = some remaining := hremaining
      dsimp only
      rw [hremaining]
      exact ⟨_, rfl⟩
    | some group =>
      obtain ⟨start, stop⟩ := group
      obtain ⟨hstart, hstop⟩ := hboundary start stop rfl
      obtain ⟨before, hbefore, -⟩ := hstart.sliceTo
      obtain ⟨after, hafter, -⟩ := hstop.sliceFrom
      dsimp only
      rw [hbefore, bind_some, hafter]
      exact ⟨_, rfl⟩

/-! ## All formats -/

/-- The parser returns exactly on the texts that have JSON calls, or whose XML tags are in
order. -/
theorem parseToolCalls_isSome_iff (serde : Serde F) (text : Text) :
    (parseToolCalls serde text).isSome ↔
      ArrayCalls serde text ∨ ObjectCall serde text ∨ XmlOrdered text := by
  obtain ⟨array, harray, hcalls⟩ := tryParseJsonArray_spec serde text
  obtain ⟨object, hobject, hcall⟩ := tryParseJsonObject_spec serde text
  unfold parseToolCalls
  rw [harray, ← hcalls, ← hcall, bind_eq_bind, bind_some]
  cases array with
  | some result => simp
  | none =>
    dsimp only
    rw [hobject, bind_some]
    cases object with
    | some result => simp
    | none =>
      rw [← isSome_tryParseXml (F := F)]
      dsimp only
      cases hxml : (tryParseXml text : Option (Option (Parsed F))) with
      | none => simp
      | some xml =>
        rw [bind_some]
        cases xml with
        | some result => simp
        | none =>
          obtain ⟨hermes, hhermes⟩ := exists_tryParseHermes (F := F) text
          dsimp only
          rw [hhermes, bind_some]
          cases hermes with
          | some result => simp
          | none =>
            obtain ⟨pythonic, hpythonic⟩ := exists_tryParsePythonic (F := F) text
            dsimp only
            rw [hpythonic, bind_some]
            cases pythonic with
            | some result | none => simp

/-! ### A closing tag in front -/

/-- A JSON parser that accepts nothing. -/
def noJson : Serde ℤ := ⟨fun _ => none⟩

/-- The section between the tags would begin behind its end. -/
theorem closing_tag_first_panics :
    ¬ (parseToolCalls noJson "</tool_calls> <tool_calls>".toList).isSome := by
  decide

end HeraMind.Agent
