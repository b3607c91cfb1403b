/-
# The contract of the renderer

For which templates the renderer keeps its contract with all parameters: those that begin like an
object or an array, are not nested too deeply and have all their sentinels recognized, and the others
without anything that looks like a placeholder.
-/
import Mathlib.Data.List.TakeWhile
import HeraMind.Devices.PayloadRendering

namespace HeraMind.Devices.Payload

open List
open Serde JsonText
open HeraMind.Rules (isWhitespace)

variable {F : Type} {numbers : PayloadNumbers F} {params : PayloadParams F}

/-! ## Trees -/

variable {tree : Doc (Slot (Number F))}

/-- The tree is walked slot by slot. -/
theorem walkValue_graft {f g : Slot (Number F) → Value F} (htree : WellFormed tree)
    (h : All (fun s => walkValue numbers params (f s) = .ok (g s)) tree) :
    walkValue numbers params (graft f tree) = .ok (graft g tree) := by
  induction htree with
  | null | bool b => rw [graft, graft, walkValue]
  | number =>
    rw [graft, graft]
    cases h with
    | number hs => exact hs
  | @array items _ ih =>
    cases h with
    | array hall =>
      have hitems : ∀ items : List (Doc (Slot (Number F))),
          (∀ d ∈ items, walkValue numbers params (graft f d) = .ok (graft g d)) →
          walkItems numbers params (items.map (graft f)) = .ok (items.map (graft g)) := by
        intro items
        induction items with
        | nil =>
          intro _
          rw [map_nil, map_nil, walkItems]
        | cons d items ih =>
          intro hall
          rw [map_cons, map_cons, walkItems, hall d mem_cons_self]
          simp only [ih fun e he => hall e (mem_cons_of_mem _ he)]
      rw [graft, graft, graftItems_eq_map, graftItems_eq_map, walkValue,
        hitems items fun d hd => ih d hd (hall d hd)]
  | @object fields _ _ ih =>
    cases h with
    | object hall =>
      have hfields : ∀ fields : List (String × Doc (Slot (Number F))),
          (∀ e ∈ fields, walkValue numbers params (graft f e.2) = .ok (graft g e.2)) →
          walkFields numbers params (fields.map (Prod.map id (graft f))) =
            .ok (fields.map (Prod.map id (graft g))) := by
        intro fields
        induction fields with
        | nil =>
          intro _
          rw [map_nil, map_nil, walkFields]
        | cons e fields ih =>
          intro hall
          obtain ⟨k, d⟩ := e
          rw [map_cons, map_cons, Prod.map_apply, Prod.map_apply, walkFields,
            hall (k, d) mem_cons_self]
          simp only [ih fun e he => hall e (mem_cons_of_mem _ he)]
      rw [graft, graft, graftFields_eq_map, graftFields_eq_map, walkValue,
        hfields fields fun e he => ih e he (hall e he)]

/-- A tree that is walked without an error has every slot walked without one. -/
theorem all_of_walkValue {f : Slot (Number F) → Value F} (htree : WellFormed tree) {d : Value F}
    (h : walkValue numbers params (graft f tree) = .ok d) :
    All (fun s => ∃ e, walkValue numbers params (f s) = .ok e) tree := by
  induction htree generalizing d with
  | null => exact .null
  | bool b => exact .bool b
  | number =>
    rw [graft] at h
    exact .number ⟨d, h⟩
  | @array items _ ih =>
    have hitems : ∀ (items : List (Doc (Slot (Number F)))) {docs : List (Value F)},
        walkItems numbers params (items.map (graft f)) = .ok docs →
        ∀ e ∈ items, ∃ d, walkValue numbers params (graft f e) = .ok d := by
      intro items
      induction items with
      | nil => exact fun _ => forall_mem_nil _
      | cons e items ih =>
        intro docs h
        rw [map_cons, walkItems] at h
        split at h
        · cases h
        · rename_i d hd
          split at h
          · rename_i docs' hdocs
            exact forall_mem_cons.mpr ⟨⟨d, hd⟩, ih hdocs⟩
          · cases h
    rw [graft, graftItems_eq_map, walkValue] at h
    split at h
    · rename_i docs hdocs
      refine .array fun e he => ?_
      obtain ⟨d, hd⟩ := hitems items hdocs e he
      exact ih e he hd
    · cases h
  | @object fields _ _ ih =>
    have hfields : ∀ (fields : List (String × Doc (Slot (Number F))))
        {docs : List (String × Value F)},
        walkFields numbers params (fields.map (Prod.map id (graft f))) = .ok docs →
        ∀ e ∈ fields, ∃ d, walkValue numbers params (graft f e.2) = .ok d := by
      intro fields
      induction fields with
      | nil => exact fun _ => forall_mem_nil _
      | cons e fields ih =>
        intro docs h
        obtain ⟨k, e⟩ := e
        rw [map_cons, Prod.map_apply, walkFields] at h
        split at h
        · cases h
        · rename_i d hd
          split at h
          · rename_i docs' hdocs
            exact forall_mem_cons.mpr ⟨⟨d, hd⟩, ih hdocs⟩
          · cases h
    rw [graft, graftFields_eq_map, walkValue] at h
    split at h
    · rename_i docs hdocs
      refine .object fun e he => ?_
      obtain ⟨d, hd⟩ := hfields fields hdocs e he
      exact ih e he hd
    · cases h

/-- What a slot is walked to. -/
def walked (numbers : PayloadNumbers F) (params : PayloadParams F) (s : Slot (Number F)) :
    Value F :=
  match walkValue numbers params s.marked with
  | .ok d => d
  | .error _ => .null

theorem uniqueKeys_of_tryReplaceLeaf {s : List Char} {d : Value F}
    (h : tryReplaceLeaf numbers params s = .ok (some d)) : UniqueKeys d := by
  unfold tryReplaceLeaf at h
  split at h
  · split at h
    · cases h
    · rename_i name _ _ v _
      cases hv : metricToJson numbers (String.ofList name) v with
      | error e =>
        rw [hv] at h
        cases h
      | ok d' =>
        rw [hv] at h
        cases h
        rw [eq_typedValue_of_metricToJson hv]
        exact uniqueKeys_typedValue v
  · split at h
    · cases h
    · cases hout : interpolateSubstrings numbers params s with
      | error e =>
        rw [hout] at h
        cases h
      | ok out =>
        rw [hout] at h
        cases h
        exact .string _

theorem uniqueKeys_walked (numbers : PayloadNumbers F) (params : PayloadParams F)
    (s : Slot (Number F)) : UniqueKeys (walked numbers params s) := by
  have hstring (t : String) (d : Value F) (h : walkValue numbers params (.string t) = .ok d) :
      UniqueKeys d := by
    rw [walkValue] at h
    split at h
    · rename_i value hvalue
      cases h
      exact uniqueKeys_of_tryReplaceLeaf hvalue
    · cases h
      exact .string _
    · cases h
  unfold walked
  split
  · rename_i d hd
    cases s with
    | number n =>
      rw [Slot.marked, walkValue] at hd
      cases hd
      exact .number n
    | placeholder n | text i => exact hstring _ d hd
  · exact .null

theorem uniqueKeys_fillSlot (s : Slot (Number F)) : UniqueKeys (fillSlot numbers params s) := by
  cases s with
  | number n => exact .number n
  | placeholder n => exact uniqueKeys_typedValue _
  | text i =>
    rw [fillSlot]
    split
    · exact uniqueKeys_typedValue _
    · exact .string _

/-! ## Parameters for a tree -/

/-- The names of a slot. -/
def Slot.names {N : Type} : Slot N → List String
  | .number _ => []
  | .placeholder n => [String.ofList n]
  | .text i => i.parts.map fun p => String.ofList p.2

/-- Parameters with a value for each of some names. -/
def bindNames (f : String → MetricValue F) (names : List String) : PayloadParams F :=
  names.foldl (fun params n => params.insert n (f n)) ∅

theorem lookup_bindNames (f : String → MetricValue F) (names : List String) (n : String) :
    (bindNames f names).lookup n = if n ∈ names then some (f n) else none := by
  have hfold : ∀ (names : List String) (params : PayloadParams F),
      (names.foldl (fun params n => params.insert n (f n)) params).lookup n =
        if n ∈ names then some (f n) else params.lookup n := by
    intro names
    induction names with
    | nil => exact fun params => rfl
    | cons m names ih =>
      intro params
      rw [foldl_cons, ih]
      by_cases hn : n ∈ names
      · rw [if_pos hn, if_pos (mem_cons_of_mem _ hn)]
      · rw [if_neg hn]
        by_cases hm : n = m
        · subst hm
          rw [AList.lookup_insert, if_pos mem_cons_self]
        · rw [AList.lookup_insert_ne hm, if_neg]
          exact fun hmem => (mem_cons.mp hmem).elim hm hn
  rw [bindNames, hfold, AList.lookup_empty]

theorem isNonBinary_of_isSimple {v : MetricValue F} (h : isSimple v = true) :
    isNonBinary v = true := by
  cases v with
  | array items | binary data => cases h
  | integer n | float x | string s | boolean b | null => rw [isNonBinary]

/-- Every tree has parameters with values of one's choice. -/
theorem exists_bound (htree : WellFormed tree)
    {f : String → MetricValue F} (hf : ∀ n, isSimple (f n) = true) :
    ∃ params : PayloadParams F, All (Slot.Bound params) tree ∧
      ∀ n v, params.lookup n = some v → v = f n := by
  obtain ⟨slots, hslots⟩ := exists_all_mem htree.uniqueKeys
  refine ⟨bindNames f (slots.flatMap Slot.names), hslots.mono ?_, ?_⟩
  · intro s hs
    have hgiven (p : MetricValue F → Bool) (hp : ∀ n, p (f n) = true) (n : List Char)
        (hn : String.ofList n ∈ s.names) : Given (bindNames f (slots.flatMap Slot.names)) p n := by
      refine ⟨f (String.ofList n), ?_, hp _⟩
      rw [lookup_bindNames, if_pos (mem_flatMap.mpr ⟨s, hs, hn⟩)]
    have hnonbinary : ∀ n, isNonBinary (f n) = true := fun n => isNonBinary_of_isSimple (hf n)
    cases s with
    | number n => trivial
    | placeholder n => exact hgiven _ hnonbinary n (mem_singleton_self _)
    | text i =>
      have hnames (p : List Char × List Char) (hp : p ∈ i.parts) :
          String.ofList p.2 ∈ (Slot.text i : Slot (Number F)).names :=
        mem_map.mpr ⟨p, hp, rfl⟩
      rw [Slot.Bound]
      split
      · rename_i n hwhole
        refine hgiven _ hnonbinary n (hnames ([], n) ?_)
        rw [whole_eq_some hwhole]
        exact mem_cons_self
      · exact fun p hp => hgiven _ hf p.2 (hnames p hp)
  · intro n v hv
    rw [lookup_bindNames] at hv
    split at hv
    · exact (Option.some.inj hv).symm
    · cases hv

/-! ## Templates taken for JSON -/

variable {template : String}

theorem renders_of_recognized {k : ℕ} (htemplate : IsTemplate numbers.text k template tree)
    (hascii : ∀ c ∈ template.toList, isAscii c = true) (hjson : isJsonTemplate template = true)
    (hdepth : k ≤ maxDepth) (hrecognized : All Slot.Recognized tree)
    (hbound : All (Slot.Bound params) tree) : Renders numbers template tree params := by
  obtain ⟨preprocessed, hpreprocess, hread⟩ := readText_preprocessTemplate htemplate hascii
  have htree := wellFormed_of_isTemplate htemplate
  have hslots := (htree.valid.and hbound).and hrecognized
  have hwalk := walkValue_graft (f := Slot.marked) htree
    (hslots.mono fun s hs => walkValue_marked numbers hs.1.1 hs.1.2 hs.2)
  refine ⟨write numbers.text (graft (fillSlot numbers params) tree), ?_, ?_⟩
  · unfold render renderJson
    rw [if_pos hjson, hpreprocess, Option.map_some]
    simp only [hread, if_pos hdepth, hwalk]
    rfl
  · intro depth hle
    rw [readText_write numbers.text (uniqueKeys_graft uniqueKeys_fillSlot htree.uniqueKeys),
      if_pos hle]

theorem recognized_of_renders {k : ℕ} (htemplate : IsTemplate numbers.text k template tree)
    (hascii : ∀ c ∈ template.toList, isAscii c = true) (hjson : isJsonTemplate template = true)
    (hrenders : ∀ params, All (Slot.Bound params) tree → Renders numbers template tree params) :
    k ≤ maxDepth ∧ All Slot.Recognized tree := by
  obtain ⟨preprocessed, hpreprocess, hread⟩ := readText_preprocessTemplate htemplate hascii
  have htree := wellFormed_of_isTemplate htemplate
  obtain ⟨params, hbound, hvalues⟩ := exists_bound htree
    (f := fun n => .string (n ++ "$")) (fun _ => rfl)
  have hnames : NamesItself params := by
    intro n v hv
    rw [hvalues _ v hv, String.ofList_append]
  obtain ⟨out, hout, hparse⟩ := hrenders params hbound
  unfold render renderJson at hout
  rw [if_pos hjson, hpreprocess, Option.map_some] at hout
  simp only [hread] at hout
  by_cases hdepth : k ≤ maxDepth
  · refine ⟨hdepth, ?_⟩
    rw [if_pos hdepth] at hout
    simp only at hout
    cases hwalk : walkValue numbers params (graft Slot.marked tree) with
    | error e =>
      rw [hwalk] at hout
      cases hout
    | ok d =>
      rw [hwalk] at hout
      have hwrite : write numbers.text d = out := Except.ok.inj (Option.some.inj hout)
      have hall := all_of_walkValue htree hwalk
      have hwalked : All (fun s => walkValue numbers params (Slot.marked s) =
          .ok (walked numbers params s)) tree := by
        refine hall.mono ?_
        rintro s ⟨e, he⟩
        rw [walked, he]
      have hd : d = graft (walked numbers params) tree := by
        have heq := walkValue_graft htree hwalked
        rw [hwalk] at heq
        exact Except.ok.inj heq
      have hunique := uniqueKeys_graft (uniqueKeys_walked numbers params) htree.uniqueKeys
      -- the output is read back as what was written, and as what was claimed
      have hsame : graft (walked numbers params) tree = graft (fillSlot numbers params) tree := by
        have hread' := hparse (max (graft (fillSlot numbers params) tree).depth
          (graft (walked numbers params) tree).depth) (Nat.le_max_left _ _)
        rw [← hwrite, hd, readText_write numbers.text hunique,
          if_pos (Nat.le_max_right _ _)] at hread'
        exact Option.some.inj hread'
      have hslots := (((all_of_graft_eq htree.uniqueKeys hsame).and hwalked).and htree.valid).and
        hbound
      refine hslots.mono ?_
      rintro s ⟨⟨⟨heq, hs⟩, hvalid⟩, hs'⟩
      rw [heq] at hs
      exact recognized_of_walkValue hnames hvalid hs' hs
  · exfalso
    rw [if_neg hdepth] at hout
    cases hout

/-! ## Plain templates -/

/-- How a placeholder begins. -/
def opening : List Char := "$\x7b".toList

theorem isWhitespace_of_isSpace {c : Char} (h : isSpace c = true) : isWhitespace c = true := by
  unfold isSpace at h
  rw [Bool.or_eq_true_iff, Bool.or_eq_true_iff, Bool.or_eq_true_iff] at h
  rcases h with ((h | h) | h) | h
  all_goals
    rw [of_decide_eq_true h]
    decide

theorem dropWhile_spaces {w : List Char} (hw : IsSpaces w) {c : Char} (hc : isWhitespace c = false)
    (t : List Char) : (w ++ c :: t).dropWhile isWhitespace = c :: t := by
  rw [dropWhile_append_of_pos fun c hc => isWhitespace_of_isSpace (hw c hc), dropWhile_cons, hc]
  rfl

/-- A template that is not taken for JSON is a leaf. -/
theorem exists_leaf {num : NumberText (Number F)} {k : ℕ}
    (h : IsTemplate num k template tree) (hplain : isJsonTemplate template = false) :
    ∃ w t w', template.toList = w ++ (t ++ w') ∧ IsSpaces w ∧ IsSpaces w' ∧
      IsTemplateLeaf num t tree := by
  obtain ⟨w, t, w', htemplate, hw, hw', htext⟩ := h
  have hjson (c : Char) (t' : List Char) (ht : t = c :: t') (hc : c = '\x7b' ∨ c = '[') : False := by
    have hspace : isWhitespace c = false := by
      rcases hc with rfl | rfl
      · decide
      · decide
    have htrue : isJsonTemplate template = true := by
      unfold isJsonTemplate
      rw [htemplate, ht, cons_append, dropWhile_spaces hw hspace]
      simp only
      rw [Bool.or_eq_true_iff]
      exact hc.imp decide_eq_true decide_eq_true
    rw [htrue] at hplain
    cases hplain
  cases htext with
  | leaf hleaf => exact ⟨w, t, w', htemplate, hw, hw', hleaf⟩
  | emptyArray | array => exact (hjson _ _ rfl (Or.inr rfl)).elim
  | emptyObject | object => exact (hjson _ _ rfl (Or.inl rfl)).elim

theorem isBody_of_isTemplateBody {b : List Char} {i : Interpolation} (h : IsTemplateBody b i)
    (hopening : ¬opening <:+: b) : i.parts = [] ∧ IsBody b i.tail := by
  have hchar (c : Char) {i : Interpolation} (hi : i.parts = []) :
      (i.char c).parts = [] ∧ (i.char c).tail = c :: i.tail := by
    unfold Interpolation.char
    rw [hi]
    exact ⟨rfl, rfl⟩
  induction h with
  | nil => exact ⟨rfl, .nil⟩
  | @char c t i hquote hslash hcontrol _ _ ih =>
    obtain ⟨hparts, hbody⟩ := ih fun hwithin => hopening (hwithin.trans (infix_cons infix_rfl))
    refine ⟨(hchar c hparts).1, ?_⟩
    rw [(hchar c hparts).2]
    exact .char hquote hslash hcontrol hbody
  | @escape e t c i he _ ih =>
    obtain ⟨hparts, hbody⟩ := ih fun hwithin =>
      hopening (hwithin.trans (infix_cons ⟨e, [], append_nil _⟩))
    refine ⟨(hchar c hparts).1, ?_⟩
    rw [(hchar c hparts).2]
    exact .escape he hbody
  | @placeholder n t i _ _ _ =>
    exact absurd ⟨[], n ++ ['\x7d'] ++ t, rfl⟩ hopening

theorem renderPlain_of_none {t : List Char} (h : splitAtFirst opening t = none) :
    renderPlain numbers params t = .ok t := by
  rw [renderPlain]
  split
  · rfl
  · rename_i heq
    rw [show splitAtFirst "$\x7b".toList t = none from h] at heq
    cases heq

theorem renders_of_no_opening {k : ℕ} (htemplate : IsTemplate numbers.text k template tree)
    (hplain : isJsonTemplate template = false) (hopening : ¬opening <:+: template.toList) :
    Renders numbers template tree params := by
  obtain ⟨w, t, w', htext, hw, hw', hleaf⟩ := exists_leaf htemplate hplain
  refine ⟨template.toList, ?_, ?_⟩
  · have hsplit : splitAtFirst opening template.toList = none := by
      cases hsplit : splitAtFirst opening template.toList with
      | none => rfl
      | some r =>
        obtain ⟨heq, -⟩ := splitAtFirst_spec hsplit
        exact absurd ⟨r.1, r.2, by rw [heq, append_assoc]⟩ hopening
    unfold render
    rw [hplain, renderPlain_of_none hsplit]
    rfl
  · intro depth _
    have ht : ¬opening <:+: t := by
      intro hwithin
      apply hopening
      rw [htext]
      exact hwithin.trans ⟨w, w', append_assoc _ _ _⟩
    have hleaf' : IsLeaf numbers.text t (graft (fillSlot numbers params) tree) := by
      cases hleaf with
      | null =>
        rw [graft]
        exact .null
      | bool b =>
        rw [graft]
        exact .bool b
      | number htoken hn =>
        rw [graft]
        exact .number htoken hn
      | @placeholder n => exact absurd ⟨[], n ++ ['\x7d'], rfl⟩ ht
      | @text b i hb =>
        have hb' : ¬opening <:+: b :=
          fun hwithin => ht (hwithin.trans ⟨['"'], ['"'], rfl⟩)
        obtain ⟨hparts, hbody⟩ := isBody_of_isTemplateBody hb hb'
        obtain ⟨parts, tail⟩ := i
        obtain rfl : parts = [] := hparts
        rw [graft]
        refine .string ⟨b, rfl, ?_⟩
        rw [String.toList_ofList]
        exact hbody
    rw [htext, readText_of_isText hw hw' (.leaf hleaf') depth, if_pos (Nat.zero_le _)]

/-- A plain template is rendered piece by piece. -/
theorem exists_of_renderPlain {t before afterBrace out : List Char}
    (hsplit : splitAtFirst opening t = some (before, afterBrace))
    (h : renderPlain numbers params t = .ok out) :
    ∃ name v text out', getParam params name = .ok v ∧
      stringifyForInterpolation numbers (String.ofList name) v = .ok text ∧
      out = before ++ (text.toList ++ out') := by
  rw [renderPlain] at h
  split at h
  · rename_i heq
    rw [show splitAtFirst "$\x7b".toList t = some _ from hsplit] at heq
    cases heq
  · rename_i before' afterBrace' heq
    rw [show splitAtFirst "$\x7b".toList t = some _ from hsplit] at heq
    cases heq
    split at h
    · cases h
    · rename_i name rest _
      split at h
      · split at h
        · cases h
        · rename_i v hparam
          split at h
          · cases h
          · rename_i text htext
            split at h
            · cases h
            · rename_i out' _
              cases h
              exact ⟨name, v, text, out', hparam, htext, append_assoc _ _ _⟩
      · cases h

/-- A control character. -/
def control : Char := Char.ofNat 1

/-- A control character is not read in place of a value or in a string. -/
theorem readText_control (num : NumberText (Number F)) {w b : List Char} (hw : IsSpaces w)
    (hb : b = [] ∨ ∃ b', b = '"' :: b') (t : List Char) (depth : ℕ) :
    readText num depth (w ++ (b ++ control :: t)) = none := by
  have hskip : skipSpaces (w ++ (b ++ control :: t)) = b ++ control :: t := by
    rw [skipSpaces_append hw]
    rcases hb with rfl | ⟨b', rfl⟩
    · exact skipSpaces_cons (by decide) _
    · exact skipSpaces_cons (by decide) _
  have hread (nested : Option (List Char → Option (Value F × List Char))) :
      ∀ r, readWith num nested (b ++ control :: t) = some r → skipSpaces r.2 ≠ [] := by
    intro r hr hnil
    rcases hb with rfl | ⟨b', rfl⟩
    · have hnone : readWith num nested (control :: t) = none := rfl
      rw [nil_append, hnone] at hr
      cases hr
    · obtain ⟨r', hr', rfl⟩ := Option.map_eq_some_iff.mp hr
      have hmem : control ∈ r'.2 :=
        mem_of_readString (by decide) hr' (mem_append_right _ mem_cons_self)
      have hspace := dropWhile_eq_nil_iff.mp hnil control hmem
      revert hspace
      decide
  unfold readText
  rw [hskip]
  have hvalue : ∀ r, readValue num depth (b ++ control :: t) = some r → skipSpaces r.2 ≠ [] := by
    cases depth with
    | zero => exact hread none
    | succ depth => exact hread (some (readValue num depth))
  split
  · rfl
  · rename_i d rest heq
    exact if_neg (hvalue _ heq)

theorem no_opening_of_renders {k : ℕ} (htemplate : IsTemplate numbers.text k template tree)
    (hplain : isJsonTemplate template = false)
    (hrenders : ∀ params, All (Slot.Bound params) tree → Renders numbers template tree params) :
    ¬opening <:+: template.toList := by
  intro hwithin
  obtain ⟨params, hbound, hvalues⟩ := exists_bound (wellFormed_of_isTemplate htemplate)
    (f := fun _ => .string (String.ofList [control])) (fun _ => rfl)
  obtain ⟨out, hout, hparse⟩ := hrenders params hbound
  obtain ⟨w, t, w', htext, hw, hw', hleaf⟩ := exists_leaf htemplate hplain
  unfold render at hout
  rw [hplain, if_neg (by decide)] at hout
  cases hsplit : splitAtFirst opening template.toList with
  | none => exact not_infix_of_splitAtFirst hsplit hwithin
  | some r =>
    obtain ⟨before, afterBrace⟩ := r
    obtain ⟨hbefore, hfirst⟩ := splitAtFirst_spec hsplit
    obtain ⟨name, v, text, out', hparam, hstringify, rfl⟩ :=
      exists_of_renderPlain hsplit (Option.some.inj hout)
    have hvalue : text.toList = [control] := by
      unfold getParam at hparam
      split at hparam
      · rename_i v' hv'
        cases hparam
        rw [hvalues _ _ hv'] at hstringify
        cases hstringify
        exact String.toList_ofList
      · cases hparam
    have hdollar : ∀ w : List Char, IsSpaces w → '$' ∉ w := by
      intro w hw hmem
      have hspace := hw '$' hmem
      revert hspace
      decide
    -- the text before the placeholder is white space, or begins like a string
    obtain ⟨b, hb, hrest⟩ : ∃ b, before = w ++ b ∧ t ++ w' = b ++ (opening ++ afterBrace) := by
      rw [htext] at hbefore
      rcases append_eq_append_iff.mp hbefore with ⟨b, hb, hrest⟩ | ⟨x, hwx, hx⟩
      · exact ⟨b, hb, hrest⟩
      · cases x with
        | nil => exact ⟨[], by rw [append_nil, hwx, append_nil], hx.symm⟩
        | cons c x =>
          exfalso
          apply hdollar w hw
          rw [hwx, ← (cons.inj hx).1]
          exact mem_append_right _ mem_cons_self
    have hmem : '$' ∈ t ++ w' := by
      rw [hrest]
      exact mem_append_right _ (mem_append_left _ (by decide))
    have hmem_t : '$' ∈ t := (mem_append.mp hmem).resolve_right (hdollar w' hw')
    have hshape : b = [] ∨ ∃ b', b = '"' :: b' := by
      cases hleaf with
      | null => exact absurd hmem_t (by decide)
      | bool b =>
        cases b with
        | false | true => exact absurd hmem_t (by decide)
      | number htoken => exact absurd (isNumberChar_of_isToken htoken '$' hmem_t) (by decide)
      | @placeholder n =>
        left
        have hle := hfirst w (n ++ ['\x7d'] ++ w') htext
        rw [hb, length_append] at hle
        exact length_eq_zero_iff.mp (by omega)
      | text =>
        cases b with
        | nil => exact Or.inl rfl
        | cons c b => exact Or.inr ⟨b, by rw [← (cons.inj hrest).1]⟩
    have hnone := readText_control numbers.text hw hshape out'
      (graft (fillSlot numbers params) tree).depth
    have hsome := hparse _ (Nat.le_refl _)
    rw [hvalue, hb, append_assoc] at hsome
    rw [show b ++ ([control] ++ out') = b ++ control :: out' from rfl, hnone] at hsome
    cases hsome

/-! ## The contract -/

/-- A template renders to its tree, whatever its parameters are, exactly if it begins like an object
or an array, is not nested too deeply and has all sentinels recognized, or begins like neither and
has nothing that begins like a placeholder. -/
theorem renders_iff {k : ℕ} {template : String} {tree : Doc (Slot (Number F))}
    (htemplate : IsTemplate numbers.text k template tree)
    (hascii : ∀ c ∈ template.toList, isAscii c = true) :
    (∀ params, All (Slot.Bound params) tree → Renders numbers template tree params) ↔
      if isJsonTemplate template then k ≤ maxDepth ∧ All Slot.Recognized tree
      else ¬opening <:+: template.toList := by
  cases hjson : isJsonTemplate template with
  | true =>
    rw [if_pos rfl]
    constructor
    · exact recognized_of_renders htemplate hascii hjson
    · rintro ⟨hdepth, hrecognized⟩ params hbound
      exact renders_of_recognized htemplate hascii hjson hdepth hrecognized hbound
  | false =>
    rw [if_neg (by decide)]
    constructor
    · exact no_opening_of_renders htemplate hjson
    · intro hopening params _
      exact renders_of_no_opening htemplate hjson hopening

/-! ## Examples -/

namespace Sample

/-- The digits of an integer. -/
def writeInt : ℤ → List Char
  | .ofNat n => Nat.toDigits 10 n
  | .negSucc n => '-' :: Nat.toDigits 10 (n + 1)

def readInt : List Char → ℤ
  | '-' :: t => -(Nat.ofDigitChars 10 t 0 : ℤ)
  | t => (Nat.ofDigitChars 10 t 0 : ℤ)

theorem readInt_writeInt (n : ℤ) : readInt (writeInt n) = n := by
  cases n with
  | ofNat n =>
    have hdigits : ∀ c ∈ Nat.toDigits 10 n, c.isDigit = true :=
      fun c hc => Nat.isDigit_of_mem_toDigits (by decide) (by decide) hc
    have hvalue := Nat.ofDigitChars_ten_toDigits (n := n)
    rw [writeInt]
    unfold readInt
    split
    · rename_i heq
      have hminus := hdigits '-' (by rw [heq]; exact mem_cons_self)
      exact absurd hminus (by decide)
    · rw [hvalue]
      rfl
  | negSucc n =>
    rw [writeInt, readInt, Nat.ofDigitChars_ten_toDigits]
    rfl

theorem isToken_writeInt (n : ℤ) : isToken (writeInt n) = true := by
  have hdigits (m : ℕ) : ∀ c ∈ Nat.toDigits 10 m, c.isDigit = true :=
    fun c hc => Nat.isDigit_of_mem_toDigits (by decide) (by decide) hc
  have hnumber (m : ℕ) : ∀ c ∈ Nat.toDigits 10 m, isNumberChar c = true := by
    intro c hc
    unfold isNumberChar
    rw [hdigits m c hc]
    rfl
  cases n with
  | ofNat n =>
    rw [writeInt]
    obtain ⟨c, t, ht⟩ := exists_cons_of_ne_nil (Nat.toDigits_ne_nil (n := n) (b := 10))
    rw [ht, isToken, hdigits n c (ht ▸ mem_cons_self), Bool.true_or, Bool.true_and, all_eq_true]
    exact fun d hd => hnumber n d (ht ▸ mem_cons_of_mem _ hd)
  | negSucc n =>
    rw [writeInt, isToken, Bool.and_eq_true_iff, all_eq_true]
    exact ⟨by decide, hnumber (n + 1)⟩

/-- Integers only. -/
def integers : PayloadNumbers Empty where
  isFinite := nofun
  showFloat := nofun
  text :=
    { read := fun t => if writeInt (readInt t) = t then some (.int (readInt t)) else none
      write := fun n =>
        match n with
        | .int n => writeInt n
        | .float x => nomatch x
      isToken_write := by
        rintro (n | x)
        · exact isToken_writeInt n
        · exact nomatch x
      read_write := by
        rintro (n | x)
        · simp only [readInt_writeInt, if_true]
        · exact nomatch x }

theorem isTemplateBody_append {s t : List Char} {i : Interpolation}
    (hs : ∀ c ∈ s, c ≠ '"' ∧ c ≠ '\\' ∧ c ≠ '$' ∧ 32 ≤ c.toNat) (h : IsTemplateBody t i) :
    IsTemplateBody (s ++ t) (s.foldr Interpolation.char i) := by
  induction s with
  | nil => exact h
  | cons c s ih =>
    obtain ⟨hquote, hslash, hdollar, hcontrol⟩ := hs c mem_cons_self
    refine .char hquote hslash hcontrol ?_ (ih fun c' hc' => hs c' (mem_cons_of_mem _ hc'))
    rintro ⟨n, t', heq, -⟩
    exact hdollar (cons.inj heq).1

/-- The template of a motor. -/
def motor : String :=
  "\x7b\"to\":$\x7bpos\x7d,\"note\":\"at $\x7bpos\x7d.\"\x7d"

def motorTree : Doc (Slot (Number Empty)) :=
  .object [("to", .number (.placeholder "pos".toList)),
    ("note", .number (.text ⟨[("at ".toList, "pos".toList)], ".".toList⟩))]

theorem isTemplateKey_literal (s : String)
    (hs : ∀ c ∈ s.toList, c ≠ '"' ∧ c ≠ '\\' ∧ c ≠ '$' ∧ 32 ≤ c.toNat) :
    IsTemplateKey ('"' :: (s.toList ++ ['"'])) s := by
  have hbody := isTemplateBody_append hs .nil
  have hfold : ∀ t : List Char, t.foldr Interpolation.char ⟨[], []⟩ = ⟨[], t⟩ := by
    intro t
    induction t with
    | nil => rfl
    | cons c t ih =>
      rw [foldr_cons, ih]
      rfl
  rw [append_nil, hfold] at hbody
  exact ⟨_, rfl, hbody⟩

theorem isTemplate_motor : IsTemplate integers.text 1 motor motorTree := by
  have hspaces : IsSpaces [] := nofun
  have hpos : isValidName "pos".toList = true := by decide
  have hdot := isTemplateBody_append (s := ".".toList) (ByteText.forall_mem_of_all (by decide)) .nil
  have hnote := isTemplateBody_append (s := "at ".toList)
    (ByteText.forall_mem_of_all (by decide)) (.placeholder hpos hdot)
  have hleaf : IsTemplateLeaf integers.text _ _ := .text hnote
  have hlast := IsText.lastField hspaces hspaces hspaces hspaces
    (isTemplateKey_literal "note" (ByteText.forall_mem_of_all (by decide))) (.leaf hleaf)
  have hfields := IsText.field hspaces hspaces hspaces hspaces
    (isTemplateKey_literal "to" (ByteText.forall_mem_of_all (by decide)))
    (.leaf (.placeholder hpos)) hlast
  exact ⟨[], _, [], by decide, hspaces, hspaces, .object hfields⟩

/-- The motor goes to 5. -/
def motorParams : PayloadParams Empty :=
  AList.insert "pos" (.integer 5) ∅

/-- A template with a name that ends where the text goes on with an underscore. -/
def topic : String :=
  "\x7b\"topic\":\"$\x7bunit\x7d_\"\x7d"

def topicTree : Doc (Slot (Number Empty)) :=
  .object [("topic", .number (.text ⟨[([], "unit".toList)], "_".toList⟩))]

theorem isTemplate_topic : IsTemplate integers.text 1 topic topicTree := by
  have hspaces : IsSpaces [] := nofun
  have hunit : isValidName "unit".toList = true := by decide
  have hbody := IsTemplateBody.placeholder hunit
    (isTemplateBody_append (s := "_".toList) (ByteText.forall_mem_of_all (by decide)) .nil)
  have hleaf : IsTemplateLeaf integers.text _ _ := .text hbody
  have hlast := IsText.lastField hspaces hspaces hspaces hspaces
    (isTemplateKey_literal "topic" (ByteText.forall_mem_of_all (by decide))) (.leaf hleaf)
  exact ⟨[], _, [], by decide, hspaces, hspaces, .object hlast⟩

def topicParams : PayloadParams Empty :=
  AList.insert "unit" (.string "a") ∅

end Sample

open Sample

theorem renders_iff_motor : Renders integers motor motorTree motorParams := by
  have hlookup : motorParams.lookup (String.ofList "pos".toList) = some (.integer 5) := by
    rw [String.ofList_toList]
    exact AList.lookup_insert _
  refine (renders_iff isTemplate_motor (ByteText.forall_mem_of_all (by decide))).mpr ?_ motorParams ?_
  · have hclear : ∀ p ∈ [("at ".toList, "pos".toList)],
        ¬sentinelPrefix <:+: p.1 ∧ ¬sentinelSuffix <:+: p.2 ∧ ¬['_'] <:+ p.2 := by
      decide
    refine ⟨by decide, .object (forall_mem_cons.mpr ⟨.number trivial,
      forall_mem_singleton.mpr (.number fun _ => ⟨hclear, by decide, ?_⟩)⟩)⟩
    rintro ⟨n, m, hparts, -⟩
    have hliteral : "at ".toList = [] := congrArg Prod.fst (cons.inj hparts).1
    exact absurd hliteral (by decide)
  · refine .object (forall_mem_cons.mpr ⟨.number ⟨_, hlookup, ?_⟩,
      forall_mem_singleton.mpr (.number ?_)⟩)
    · rw [isNonBinary]
    · exact forall_mem_singleton.mpr ⟨_, hlookup, rfl⟩

/-- A string that is a placeholder and an underscore is taken for a placeholder of another name. -/
theorem underscore_not_rendered :
    IsTemplate integers.text 1 topic topicTree ∧ (∀ c ∈ topic.toList, isAscii c = true) ∧
      All (Slot.Bound topicParams) topicTree ∧ ¬Renders integers topic topicTree topicParams := by
  refine ⟨isTemplate_topic, ByteText.forall_mem_of_all (by decide), ?_, ?_⟩
  · have hlookup : topicParams.lookup (String.ofList "unit".toList) = some (.string "a") := by
      rw [String.ofList_toList]
      exact AList.lookup_insert _
    exact .object (forall_mem_singleton.mpr (.number (forall_mem_singleton.mpr ⟨_, hlookup, rfl⟩)))
  · rintro ⟨out, hout, -⟩
    have herror : render integers topic topicParams =
        some (.error (.placeholderNotFound "unit_")) := by
      decide +kernel
    rw [herror] at hout
    cases hout

end HeraMind.Devices.Payload
