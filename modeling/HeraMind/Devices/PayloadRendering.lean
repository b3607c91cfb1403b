/-
# What a template renders to

A JSON template renders to its tree with the typed value of its parameter for every placeholder that
stands alone, and the string form of its parameter for every other one.

This is so for all parameters if, in every string with more than a placeholder, each name has no two
underscores in a row and none at its end, and the string is not one placeholder with some text behind
it that makes a longer name of it.
-/
import HeraMind.Devices.PayloadSearch

namespace HeraMind.Devices.Payload

open List Option Bool
open Serde JsonText

variable {F N : Type} {numbers : PayloadNumbers F} {params : PayloadParams F}

/-! ## What is claimed -/

mutual

/-- The JSON value of a parameter; JSON has no infinite numbers and no NaN. -/
def typedValue (numbers : PayloadNumbers F) : MetricValue F → Value F
  | .integer n => .number (.int n.toInt)
  | .float x => if numbers.isFinite x then .number (.float x) else .null
  | .string s => .string s
  | .boolean b => .bool b
  | .null => .null
  | .array items => .array (typedValues numbers items)
  | .binary _ => .null

def typedValues (numbers : PayloadNumbers F) : List (MetricValue F) → List (Value F)
  | [] => []
  | item :: items => typedValue numbers item :: typedValues numbers items

end

mutual

/-- The value has no bytes in it. -/
def isNonBinary : MetricValue F → Bool
  | .integer _ | .float _ | .string _ | .boolean _ | .null => true
  | .array items => areNonBinary items
  | .binary _ => false

def areNonBinary : List (MetricValue F) → Bool
  | [] => true
  | item :: items => isNonBinary item && areNonBinary items

end

/-- The value is neither bytes nor an array. -/
def isSimple : MetricValue F → Bool
  | .array _ | .binary _ => false
  | _ => true

/-- The string form of a parameter. -/
def stringForm (numbers : PayloadNumbers F) : MetricValue F → List Char
  | .string s => s.toList
  | .integer n => (toString n.toInt).toList
  | .float x => (numbers.showFloat x).toList
  | .boolean b => (toString b).toList
  | .null => "null".toList
  | .array _ | .binary _ => []

/-- The value of a name. -/
def paramOf (params : PayloadParams F) (n : List Char) : MetricValue F :=
  (params.lookup (String.ofList n)).getD .null

/-- The name, if the string is exactly one placeholder. -/
def Interpolation.whole (i : Interpolation) : Option (List Char) :=
  match i.parts, i.tail with
  | [([], n)], [] => some n
  | _, _ => none

/-- What a slot is replaced by. -/
def fillSlot (numbers : PayloadNumbers F) (params : PayloadParams F) :
    Slot (Number F) → Value F
  | .number n => .number n
  | .placeholder n => typedValue numbers (paramOf params n)
  | .text i =>
    match i.whole with
    | some n => typedValue numbers (paramOf params n)
    | none => .string (String.ofList (i.fill fun n => stringForm numbers (paramOf params n)))

/-- A value is given for the name. -/
def Given (params : PayloadParams F) (p : MetricValue F → Bool) (n : List Char) : Prop :=
  ∃ v, params.lookup (String.ofList n) = some v ∧ p v = true

/-- The parameters bind the names of a slot. -/
def Slot.Bound (params : PayloadParams F) : Slot N → Prop
  | .number _ => True
  | .placeholder n => Given params isNonBinary n
  | .text i =>
    match i.whole with
    | some n => Given params isNonBinary n
    | none => ∀ p ∈ i.parts, Given params isSimple p.2

/-- The template renders to its tree with the parameters in it. -/
def Renders (numbers : PayloadNumbers F) (template : String) (tree : Doc (Slot (Number F)))
    (params : PayloadParams F) : Prop :=
  ∃ out, render numbers template params = some (.ok out) ∧
    ∀ depth, (graft (fillSlot numbers params) tree).depth ≤ depth →
      readText numbers.text depth out = some (graft (fillSlot numbers params) tree)

/-- A string that begins with a placeholder is taken for one of a longer name. -/
def Interpolation.IsMistaken (i : Interpolation) : Prop :=
  ∃ n m, i.parts = [([], n)] ∧ n ++ (sentinelSuffix ++ i.tail) = m ++ sentinelSuffix ∧
    isValidName m = true

/-- The sentinels of a slot are recognized. -/
def Slot.Recognized : Slot N → Prop
  | .text i => i.whole = none →
    (∀ p ∈ i.parts, ¬sentinelPrefix <:+: p.1 ∧ IsClear p.2) ∧ ¬sentinelPrefix <:+: i.tail ∧
      ¬i.IsMistaken
  | _ => True

/-! ## Values -/

mutual

theorem metricToJson_of_isNonBinary (name : String) :
    ∀ v : MetricValue F, isNonBinary v = true →
      metricToJson numbers name v = .ok (typedValue numbers v)
  | .integer _, _ | .float _, _ | .string _, _ | .boolean _, _ | .null, _ =>
    by rw [metricToJson, typedValue]
  | .array items, h => by
    rw [isNonBinary] at h
    rw [metricToJson, typedValue, metricsToJson_of_areNonBinary name 0 items h]
  | .binary _, h => by
    rw [isNonBinary] at h
    cases h

theorem metricsToJson_of_areNonBinary (name : String) (idx : ℕ) :
    ∀ items : List (MetricValue F), areNonBinary items = true →
      metricsToJson numbers name idx items = .ok (typedValues numbers items)
  | [], _ => by rw [metricsToJson, typedValues]
  | item :: items, h => by
    rw [areNonBinary, and_eq_true_iff] at h
    rw [metricsToJson, typedValues, metricToJson_of_isNonBinary _ item h.1]
    simp only
    rw [metricsToJson_of_areNonBinary name (idx + 1) items h.2]

end

mutual

theorem uniqueKeys_typedValue : ∀ v : MetricValue F, UniqueKeys (typedValue numbers v)
  | .integer _ => by
    rw [typedValue]
    exact .number _
  | .float _ => by
    rw [typedValue]
    split
    · exact .number _
    · exact .null
  | .string _ => by
    rw [typedValue]
    exact .string _
  | .boolean _ => by
    rw [typedValue]
    exact .bool _
  | .null => by
    rw [typedValue]
    exact .null
  | .array items => by
    rw [typedValue]
    exact .array (uniqueKeys_typedValues items)
  | .binary _ => by
    rw [typedValue]
    exact .null

theorem uniqueKeys_typedValues :
    ∀ items : List (MetricValue F), ∀ d ∈ typedValues numbers items, UniqueKeys d
  | [] => by
    rw [typedValues]
    exact nofun
  | item :: items => by
    rw [typedValues]
    exact forall_mem_cons.mpr ⟨uniqueKeys_typedValue item, uniqueKeys_typedValues items⟩

end

mutual

theorem isNonBinary_of_metricToJson {name : String} {d : Value F} :
    ∀ v : MetricValue F, metricToJson numbers name v = .ok d → isNonBinary v = true
  | .integer _, _ | .float _, _ | .string _, _ | .boolean _, _ | .null, _ => by rw [isNonBinary]
  | .array items, h => by
    rw [metricToJson] at h
    rw [isNonBinary]
    split at h
    · rename_i docs hdocs
      exact areNonBinary_of_metricsToJson items hdocs
    · cases h
  | .binary _, h => by
    rw [metricToJson] at h
    cases h

theorem areNonBinary_of_metricsToJson {name : String} {idx : ℕ} {docs : List (Value F)} :
    ∀ items : List (MetricValue F), metricsToJson numbers name idx items = .ok docs →
      areNonBinary items = true
  | [], _ => by rw [areNonBinary]
  | item :: items, h => by
    rw [metricsToJson] at h
    rw [areNonBinary, and_eq_true_iff]
    split at h
    · cases h
    · rename_i doc hdoc
      split at h
      · rename_i docs' hdocs
        exact ⟨isNonBinary_of_metricToJson item hdoc, areNonBinary_of_metricsToJson items hdocs⟩
      · cases h

end

variable {v : MetricValue F}

theorem eq_typedValue_of_metricToJson {name : String} {d : Value F}
    (h : metricToJson numbers name v = .ok d) : d = typedValue numbers v := by
  rw [metricToJson_of_isNonBinary name v (isNonBinary_of_metricToJson v h)] at h
  exact (Except.ok.inj h).symm

theorem stringify_of_isSimple (numbers : PayloadNumbers F) (name : String) (h : isSimple v = true) :
    ∃ text, stringifyForInterpolation numbers name v = .ok text ∧
      text.toList = stringForm numbers v := by
  cases v with
  | integer n | float x | string s | boolean b | null => exact ⟨_, rfl, rfl⟩
  | array items | binary data => cases h

variable {n : List Char}

theorem paramOf_of_lookup
    (h : params.lookup (String.ofList n) = some v) : paramOf params n = v := by
  rw [paramOf, h, getD_some]

theorem getParam_of_lookup
    (h : params.lookup (String.ofList n) = some v) : getParam params n = .ok v := by
  rw [getParam, h]

/-! ## Strings -/

theorem interpolateSubstrings_of_none {s : List Char} (h : splitAtFirst sentinelPrefix s = none) :
    interpolateSubstrings numbers params s = .ok s := by
  rw [interpolateSubstrings]
  split
  · rfl
  · rename_i heq
    rw [h] at heq
    cases heq

theorem interpolateSubstrings_of_some {s before afterPrefix name rest : List Char} {text : String}
    (h : splitAtFirst sentinelPrefix s = some (before, afterPrefix))
    (h' : splitAtFirst sentinelSuffix afterPrefix = some (name, rest))
    (hname : isValidName name = true) (hparam : getParam params name = .ok v)
    (htext : stringifyForInterpolation numbers (String.ofList name) v = .ok text) :
    interpolateSubstrings numbers params s =
      (interpolateSubstrings numbers params rest).map (before ++ text.toList ++ ·) := by
  rw [interpolateSubstrings]
  split
  · rename_i heq
    rw [h] at heq
    cases heq
  · rename_i heq
    rw [h] at heq
    cases heq
    split
    · rename_i heq'
      rw [h'] at heq'
      cases heq'
    · rename_i heq'
      rw [h'] at heq'
      cases heq'
      rw [if_pos hname, hparam]
      simp only [htext]
      cases interpolateSubstrings numbers params rest with
      | error e | ok out => rfl

/-- How a string was interpolated. -/
theorem exists_of_interpolateSubstrings {s out : List Char}
    (h : interpolateSubstrings numbers params s = .ok out) :
    splitAtFirst sentinelPrefix s = none ∧ out = s ∨
    ∃ before afterPrefix name rest v text out',
      splitAtFirst sentinelPrefix s = some (before, afterPrefix) ∧
      splitAtFirst sentinelSuffix afterPrefix = some (name, rest) ∧ isValidName name = true ∧
      getParam params name = .ok v ∧
      stringifyForInterpolation numbers (String.ofList name) v = .ok text ∧
      interpolateSubstrings numbers params rest = .ok out' ∧
      out = before ++ (text.toList ++ out') := by
  rw [interpolateSubstrings] at h
  split at h
  · rename_i heq
    cases h
    exact Or.inl ⟨heq, rfl⟩
  · rename_i before afterPrefix heq
    split at h
    · cases h
    · rename_i name rest heq'
      split at h
      · rename_i hname
        split at h
        · cases h
        · rename_i v hparam
          split at h
          · cases h
          · rename_i text htext
            split at h
            · cases h
            · rename_i out' hout
              cases h
              exact Or.inr ⟨before, afterPrefix, name, rest, v, text, out', heq, heq', hname,
                hparam, htext, hout, append_assoc _ _ _⟩
      · cases h

variable {parts : List (List Char × List Char)}

/-- A string whose sentinels are found is interpolated. -/
theorem interpolateSubstrings_marked (numbers : PayloadNumbers F) {tail : List Char}
    (hvalid : ∀ p ∈ parts, isValidName p.2 = true)
    (hclear : ∀ p ∈ parts, ¬sentinelPrefix <:+: p.1 ∧ IsClear p.2)
    (htail : ¬sentinelPrefix <:+: tail) (hgiven : ∀ p ∈ parts, Given params isSimple p.2) :
    interpolateSubstrings numbers params (Interpolation.marked ⟨parts, tail⟩) =
      .ok (Interpolation.fill (fun n => stringForm numbers (paramOf params n)) ⟨parts, tail⟩) := by
  induction parts with
  | nil =>
    apply interpolateSubstrings_of_none
    cases hsplit : splitAtFirst sentinelPrefix tail with
    | none => exact hsplit
    | some r =>
      obtain ⟨heq, -⟩ := splitAtFirst_spec hsplit
      exact absurd ⟨r.1, r.2, by rw [heq, append_assoc]⟩ htail
  | cons p parts ih =>
    obtain ⟨l, n⟩ := p
    obtain ⟨hl, hn⟩ := hclear (l, n) mem_cons_self
    obtain ⟨v, hv, hsimple⟩ := hgiven (l, n) mem_cons_self
    obtain ⟨text, htext, hform⟩ := stringify_of_isSimple numbers (String.ofList n) hsimple
    unfold Interpolation.marked at ih ⊢
    rw [Interpolation.fill_cons, Interpolation.fill_cons, sentinel, append_assoc, append_assoc]
    rw [interpolateSubstrings_of_some (splitAtFirst_of_first (first_sentinel hl _))
      (splitAtFirst_of_first (first_suffix hn _)) (hvalid (l, n) mem_cons_self)
      (getParam_of_lookup hv) htext,
      ih (fun q hq => hvalid q (mem_cons_of_mem _ hq))
        (fun q hq => hclear q (mem_cons_of_mem _ hq))
        (fun q hq => hgiven q (mem_cons_of_mem _ hq))]
    rw [paramOf_of_lookup hv, ← hform, Except.map, append_assoc]

/-! ## Slots -/

/-- The names of a slot are valid. -/
def Slot.Valid : Slot N → Prop
  | .number _ => True
  | .placeholder n => isValidName n = true
  | .text i => ∀ p ∈ i.parts, isValidName p.2 = true

variable {i : Interpolation}

theorem valid_of_isTemplateBody {b : List Char} (h : IsTemplateBody b i) :
    ∀ p ∈ i.parts, isValidName p.2 = true := by
  have hchar (c : Char) (i : Interpolation) (hi : ∀ p ∈ i.parts, isValidName p.2 = true) :
      ∀ p ∈ (i.char c).parts, isValidName p.2 = true := by
    obtain ⟨parts, tail⟩ := i
    cases parts with
    | nil => exact hi
    | cons p parts =>
      refine forall_mem_cons.mpr ⟨?_, fun q hq => hi q (mem_cons_of_mem _ hq)⟩
      exact hi p mem_cons_self
  induction h with
  | nil => exact nofun
  | char _ _ _ _ _ ih | escape _ _ ih => exact hchar _ _ ih
  | placeholder hn _ ih => exact forall_mem_cons.mpr ⟨hn, ih⟩

/-- The tree of a template: the names are valid, the strings are in slots, and no key repeats. -/
inductive WellFormed : Doc (Slot N) → Prop
  | null : WellFormed .null
  | bool (b : Bool) : WellFormed (.bool b)
  | number {s : Slot N} : s.Valid → WellFormed (.number s)
  | array {items : List (Doc (Slot N))} : (∀ d ∈ items, WellFormed d) → WellFormed (.array items)
  | object {fields : List (String × Doc (Slot N))} : (fields.map Prod.fst).Nodup →
      (∀ f ∈ fields, WellFormed f.2) → WellFormed (.object fields)

theorem wellFormed_of_isTemplate {num : NumberText N} {k : ℕ} {template : String}
    {tree : Doc (Slot N)} (h : IsTemplate num k template tree) : WellFormed tree := by
  obtain ⟨-, t, -, -, -, -, htext⟩ := h
  refine of_isText ?_ (fun _ => WellFormed.array) (fun _ => WellFormed.object) htext
  intro t d hleaf
  cases hleaf with
  | null => exact .null
  | bool b => exact .bool b
  | number => exact .number trivial
  | placeholder hn => exact .number hn
  | text hb => exact .number (valid_of_isTemplateBody hb)

theorem WellFormed.uniqueKeys {d : Doc (Slot N)} (h : WellFormed d) : UniqueKeys d := by
  induction h with
  | null => exact .null
  | bool b => exact .bool b
  | number => exact .number _
  | array _ ih => exact .array ih
  | object hnodup _ ih => exact .object hnodup ih

theorem WellFormed.valid {d : Doc (Slot N)} (h : WellFormed d) : All Slot.Valid d := by
  induction h with
  | null => exact .null
  | bool b => exact .bool b
  | number hs => exact .number hs
  | array _ ih => exact .array ih
  | object _ _ ih => exact .object ih

theorem whole_eq_some (h : i.whole = some n) :
    i = ⟨[([], n)], []⟩ := by
  unfold Interpolation.whole at h
  split at h
  · rename_i hparts htail
    obtain ⟨parts, tail⟩ := i
    cases h
    rw [show parts = _ from hparts, show tail = _ from htail]
  · cases h

theorem marked_of_whole (h : i.whole = some n) :
    i.marked = sentinel n := by
  rw [whole_eq_some h]
  exact (append_nil _).trans (append_nil _)

/-- A sentinel alone is replaced by the value. -/
theorem walkValue_sentinel (hn : isValidName n = true) (hgiven : Given params isNonBinary n) :
    walkValue numbers params (.string (String.ofList (sentinel n))) =
      .ok (typedValue numbers (paramOf params n)) := by
  obtain ⟨v, hv, hnonbinary⟩ := hgiven
  rw [walkValue, String.toList_ofList, tryReplaceLeaf, parseExactSentinel_eq_some.mpr ⟨rfl, hn⟩]
  simp only [getParam_of_lookup hv]
  rw [metricToJson_of_isNonBinary _ v hnonbinary, paramOf_of_lookup hv]
  rfl

theorem mem_colon_marked (h : parts ≠ [])
    (tail : List Char) : ':' ∈ Interpolation.marked ⟨parts, tail⟩ := by
  obtain ⟨p, parts, rfl⟩ := exists_cons_of_ne_nil h
  unfold Interpolation.marked
  rw [Interpolation.fill_cons]
  refine mem_append_right _ (mem_append_left _ ?_)
  unfold sentinel
  exact mem_append_left _ (mem_append_left _ (by decide))

/-- A string whose sentinels are found is not taken for a sentinel alone. -/
theorem parseExactSentinel_marked (hwhole : i.whole = none)
    (hclear : ∀ p ∈ i.parts, ¬sentinelPrefix <:+: p.1 ∧ IsClear p.2)
    (htail : ¬sentinelPrefix <:+: i.tail) (hmistaken : ¬i.IsMistaken) :
    parseExactSentinel i.marked = none := by
  obtain ⟨parts, tail⟩ := i
  rw [eq_none_iff_forall_not_mem]
  intro m hm
  obtain ⟨hmarked, hvalid⟩ := parseExactSentinel_eq_some.mp hm
  rw [sentinel, append_assoc] at hmarked
  cases parts with
  | nil => exact htail ⟨[], m ++ sentinelSuffix, hmarked.symm⟩
  | cons p parts =>
    obtain ⟨l, n⟩ := p
    obtain ⟨hl, -⟩ := hclear (l, n) mem_cons_self
    unfold Interpolation.marked at hmarked
    rw [Interpolation.fill_cons, sentinel, append_assoc, append_assoc] at hmarked
    have hlength := first_sentinel hl _ [] _ hmarked
    obtain rfl : l = [] := length_eq_zero_iff.mp (Nat.le_zero.mp hlength)
    rw [nil_append, append_cancel_left_eq] at hmarked
    by_cases hparts : parts = []
    · subst hparts
      exact hmistaken ⟨n, m, rfl, hmarked, hvalid⟩
    · have hcolon : ':' ∈ m ++ sentinelSuffix := by
        rw [← hmarked]
        exact mem_append_right _ (mem_append_right _ (mem_colon_marked hparts tail))
      rcases mem_append.mp hcolon with hcolon | hcolon
      · exact ne_of_isNameChar (isNameChar_of_isValidName hvalid _ hcolon) (d := ':') (by decide) rfl
      · revert hcolon
        decide

/-- A slot whose sentinels are recognized is filled. -/
theorem walkValue_marked (numbers : PayloadNumbers F) {s : Slot (Number F)} (hvalid : s.Valid)
    (hbound : s.Bound params) (hrecognized : s.Recognized) :
    walkValue numbers params s.marked = .ok (fillSlot numbers params s) := by
  cases s with
  | number n => rw [Slot.marked, walkValue, fillSlot]
  | placeholder n => exact walkValue_sentinel hvalid hbound
  | text i =>
    rw [Slot.marked, fillSlot]
    rw [Slot.Bound] at hbound
    cases hwhole : i.whole with
    | some n =>
      rw [hwhole] at hbound
      have hi := whole_eq_some hwhole
      rw [marked_of_whole hwhole]
      have hn : isValidName n = true := hvalid ([], n) (by rw [hi]; exact mem_cons_self)
      exact walkValue_sentinel hn hbound
    | none =>
      rw [hwhole] at hbound
      obtain ⟨hclear, htail, hmistaken⟩ := hrecognized hwhole
      have hinterpolate :=
        interpolateSubstrings_marked numbers hvalid hclear htail hbound
      rw [walkValue, String.toList_ofList, tryReplaceLeaf,
        parseExactSentinel_marked hwhole hclear htail hmistaken]
      cases hsplit : splitAtFirst sentinelPrefix i.marked with
      | none =>
        rw [interpolateSubstrings_of_none hsplit] at hinterpolate
        simp only [isNone_none, if_true]
        rw [Except.ok.inj hinterpolate]
      | some r =>
        have hinterpolate' : interpolateSubstrings numbers params i.marked = _ := hinterpolate
        simp only [isNone_some, false_eq_true, if_false]
        rw [hinterpolate']
        rfl

/-! ## Parameters that tell names apart -/

/-- Every name that is bound has itself with a `$` behind it for a value. -/
def NamesItself (params : PayloadParams F) : Prop :=
  ∀ n v, params.lookup (String.ofList n) = some v → v = .string (String.ofList (n ++ ['$']))

theorem not_mem_of_isValidName (h : isValidName n = true) {c : Char}
    (hc : isNameChar c = false) : c ∉ n :=
  fun hmem => ne_of_isNameChar (isNameChar_of_isValidName h c hmem) hc rfl

/-- A name with a `$` behind it is not the prefix of a sentinel. -/
theorem named_ne_prefix {m x y : List Char} (hm : isValidName m = true) :
    m ++ '$' :: x ≠ sentinelPrefix ++ y := by
  intro heq
  have hcolon : ':' ∉ m := not_mem_of_isValidName hm (by decide)
  have hmem : ':' ∈ sentinelPrefix := by decide
  rcases append_eq_append_iff.mp heq with ⟨a, hfront, hrest⟩ | ⟨a, hname, -⟩
  · cases a with
    | nil =>
      rw [append_nil] at hfront
      exact hcolon (hfront ▸ hmem)
    | cons c a =>
      have hdollar : '$' ∉ sentinelPrefix := by decide
      apply hdollar
      rw [hfront, (cons.inj hrest).1]
      exact mem_append_right _ mem_cons_self
  · apply hcolon
    rw [hname]
    exact mem_append_left _ hmem

/-- The text before the first occurrence of a character, and the text behind it. -/
theorem append_cons_inj {α : Type} {c : α} {a b x y : List α} (ha : c ∉ a) (hb : c ∉ b)
    (heq : a ++ c :: x = b ++ c :: y) : a = b ∧ x = y := by
  induction a generalizing b with
  | nil =>
    cases b with
    | nil => exact ⟨rfl, (cons.inj heq).2⟩
    | cons d b => exact absurd ((cons.inj heq).1 ▸ mem_cons_self) hb
  | cons d a ih =>
    cases b with
    | nil => exact absurd ((cons.inj heq).1 ▸ mem_cons_self) ha
    | cons e b =>
      obtain ⟨hhead, htail⟩ := cons.inj heq
      obtain ⟨hab, hxy⟩ := ih (fun hc => ha (mem_cons_of_mem _ hc))
        (fun hc => hb (mem_cons_of_mem _ hc)) htail
      exact ⟨by rw [hhead, hab], hxy⟩

theorem named_inj {m n x y : List Char} (hm : isValidName m = true) (hn : isValidName n = true)
    (heq : m ++ '$' :: x = n ++ '$' :: y) : m = n ∧ x = y := by
  have hdollar : isNameChar '$' = false := by decide
  exact append_cons_inj (not_mem_of_isValidName hm hdollar) (not_mem_of_isValidName hn hdollar) heq

/-- The string with every name and a `$` behind it. -/
def Interpolation.named (i : Interpolation) : List Char :=
  i.fill fun n => n ++ ['$']

theorem named_cons (l n : List Char) (parts : List (List Char × List Char)) (tail : List Char) :
    Interpolation.named ⟨(l, n) :: parts, tail⟩ =
      l ++ (n ++ '$' :: Interpolation.named ⟨parts, tail⟩) := by
  unfold Interpolation.named
  rw [Interpolation.fill_cons, append_assoc]
  rfl

theorem marked_cons (l n : List Char) (parts : List (List Char × List Char)) (tail : List Char) :
    Interpolation.marked ⟨(l, n) :: parts, tail⟩ = l ++ (sentinelPrefix ++ (n ++ (sentinelSuffix ++
      Interpolation.marked ⟨parts, tail⟩))) := by
  unfold Interpolation.marked
  rw [Interpolation.fill_cons, sentinel, append_assoc, append_assoc]

theorem fill_eq_named (hnames : NamesItself params)
    (hgiven : ∀ p ∈ i.parts, Given params isSimple p.2) :
    i.fill (fun n => stringForm numbers (paramOf params n)) = i.named := by
  obtain ⟨parts, tail⟩ := i
  unfold Interpolation.named
  induction parts with
  | nil => rfl
  | cons p parts ih =>
    obtain ⟨l, n⟩ := p
    obtain ⟨v, hv, -⟩ := hgiven (l, n) mem_cons_self
    rw [Interpolation.fill_cons, Interpolation.fill_cons, paramOf_of_lookup hv, hnames n v hv,
      stringForm, String.toList_ofList, ih fun q hq => hgiven q (mem_cons_of_mem _ hq)]

/-- The value of a name that is found. -/
theorem exists_of_getParam (hnames : NamesItself params)
    (h : getParam params n = .ok v) : v = .string (String.ofList (n ++ ['$'])) := by
  unfold getParam at h
  split at h
  · rename_i v' hv
    cases h
    exact hnames n _ hv
  · cases h

/-- A string that is interpolated to the right names has its sentinels found. -/
theorem isClear_of_interpolateSubstrings (hnames : NamesItself params) {tail : List Char}
    (hvalid : ∀ p ∈ parts, isValidName p.2 = true)
    (h : interpolateSubstrings numbers params (Interpolation.marked ⟨parts, tail⟩) =
      .ok (Interpolation.named ⟨parts, tail⟩)) :
    (∀ p ∈ parts, ¬sentinelPrefix <:+: p.1 ∧ IsClear p.2) ∧ ¬sentinelPrefix <:+: tail := by
  induction parts with
  | nil =>
    refine ⟨nofun, ?_⟩
    rcases exists_of_interpolateSubstrings h with ⟨hsplit, -⟩ |
      ⟨before, afterPrefix, name, rest, v, text, out, hsplit, -, hname, hparam, htext, -, heq⟩
    · exact not_infix_of_splitAtFirst hsplit
    · exfalso
      obtain ⟨htail, -⟩ := splitAtFirst_spec hsplit
      rw [exists_of_getParam hnames hparam] at htext
      cases htext
      have hsame : Interpolation.named ⟨[], tail⟩ = Interpolation.marked ⟨[], tail⟩ := rfl
      rw [hsame, htail, append_cancel_left_eq, String.toList_ofList, append_assoc] at heq
      exact named_ne_prefix hname heq.symm
  | cons p parts ih =>
    obtain ⟨l, n⟩ := p
    have hn : isValidName n = true := hvalid (l, n) mem_cons_self
    rw [marked_cons] at h
    rcases exists_of_interpolateSubstrings h with ⟨hsplit, -⟩ |
      ⟨before, afterPrefix, name, rest, v, text, out, hsplit, hsplit', hname, hparam, htext, hout,
        heq⟩
    · exact absurd ⟨l, _, append_assoc _ _ _⟩ (not_infix_of_splitAtFirst hsplit)
    · rw [exists_of_getParam hnames hparam] at htext
      cases htext
      rw [named_cons, String.toList_ofList, append_assoc] at heq
      have hl : ¬sentinelPrefix <:+: l := by
        rintro ⟨a, b, hab⟩
        obtain ⟨hmarked, hfirst⟩ := splitAtFirst_spec hsplit
        have hle := hfirst a (b ++ (sentinelPrefix ++ (n ++ (sentinelSuffix ++
          Interpolation.marked ⟨parts, tail⟩)))) (by rw [← hab]; simp only [append_assoc])
        have hlength : l.length = a.length + sentinelPrefix.length + b.length := by
          rw [← hab, length_append, length_append]
        have hpos : 0 < sentinelPrefix.length := by decide
        obtain ⟨x, -, hlx, hx⟩ := exists_of_before hmarked (by omega)
        have hlong : sentinelPrefix.length ≤ x.length := by
          have hlx' := congrArg List.length hlx
          rw [length_append] at hlx'
          omega
        obtain ⟨y, rfl⟩ : sentinelPrefix <+: x := by
          rw [← @List.take_left _ sentinelPrefix afterPrefix, ← hx, take_append_of_le_length hlong]
          exact take_prefix _ _
        rw [hlx, append_assoc, append_cancel_left_eq, append_assoc] at heq
        exact named_ne_prefix hname heq.symm
      rw [splitAtFirst_of_first (first_sentinel hl _)] at hsplit
      cases hsplit
      rw [append_cancel_left_eq] at heq
      obtain ⟨rfl, rfl⟩ := named_inj hn hname heq
      obtain ⟨hafter, hfirst⟩ := splitAtFirst_spec hsplit'
      rw [append_cancel_left_eq, append_cancel_left_eq] at hafter
      subst hafter
      obtain ⟨hclear, htail⟩ := ih (fun q hq => hvalid q (mem_cons_of_mem _ hq)) hout
      exact ⟨forall_mem_cons.mpr ⟨⟨hl, isClear_of_first hfirst⟩, hclear⟩, htail⟩

/-- A string with more than a placeholder that is filled with the right names is not taken for a
sentinel alone. -/
theorem not_exact {m : List Char} (hwhole : i.whole = none)
    (hm : isValidName m = true) (hmarked : i.marked = sentinel m) :
    m ++ ['$'] ≠ i.named := by
  intro hnamed
  obtain ⟨parts, tail⟩ := i
  rw [sentinel, append_assoc] at hmarked
  have hdollar : '$' ∉ m := not_mem_of_isValidName hm (by decide)
  cases parts with
  | nil =>
    have hsame : Interpolation.named ⟨[], tail⟩ = Interpolation.marked ⟨[], tail⟩ := rfl
    rw [hsame, hmarked] at hnamed
    exact named_ne_prefix hm hnamed
  | cons p parts =>
    obtain ⟨l, n⟩ := p
    rw [named_cons] at hnamed
    rw [marked_cons] at hmarked
    -- the only `$` is the last character
    have hcount := congrArg (List.count '$') hnamed
    rw [count_append, count_append, count_append, count_cons_self,
      count_cons_self, count_eq_zero.mpr hdollar, count_nil] at hcount
    have hl : '$' ∉ l := count_eq_zero.mp (by omega)
    have hn : '$' ∉ n := count_eq_zero.mp (by omega)
    have hln : '$' ∉ l ++ n := by
      rw [mem_append]
      exact fun hmem => hmem.elim hl hn
    rw [← append_assoc] at hnamed
    obtain ⟨rfl, hrest⟩ := append_cons_inj hdollar hln hnamed
    have hparts : parts = [] := by
      by_contra hne
      obtain ⟨q, parts', rfl⟩ := exists_cons_of_ne_nil hne
      rw [named_cons] at hrest
      have hlength := congrArg List.length hrest
      simp only [length_append, length_cons, length_nil] at hlength
      omega
    subst hparts
    obtain rfl : tail = [] := hrest.symm
    have hfront : ¬sentinelPrefix <:+: l := by
      intro hwithin
      have hcolon : ':' ∈ l := hwithin.subset (by decide)
      exact not_mem_of_isValidName hm (c := ':') (by decide) (mem_append_left _ hcolon)
    have hlength := first_sentinel hfront _ [] _ hmarked
    obtain rfl : l = [] := length_eq_zero_iff.mp (Nat.le_zero.mp hlength)
    cases hwhole

/-- A slot that is filled with the right names has its sentinels recognized. -/
theorem recognized_of_walkValue (hnames : NamesItself params) {s : Slot (Number F)}
    (hvalid : s.Valid) (hbound : s.Bound params)
    (h : walkValue numbers params s.marked = .ok (fillSlot numbers params s)) :
    s.Recognized := by
  cases s with
  | number n | placeholder n => trivial
  | text i =>
    intro hwhole
    rw [Slot.Bound, hwhole] at hbound
    rw [Slot.marked, fillSlot, hwhole] at h
    simp only [fill_eq_named hnames hbound] at h
    rw [walkValue, String.toList_ofList, tryReplaceLeaf] at h
    cases hexact : parseExactSentinel i.marked with
    | some m =>
      exfalso
      obtain ⟨hmarked, hm⟩ := parseExactSentinel_eq_some.mp hexact
      rw [hexact] at h
      simp only at h
      cases hparam : getParam params m with
      | error e =>
        rw [hparam] at h
        cases h
      | ok v =>
        rw [hparam, exists_of_getParam hnames hparam] at h
        have hstring : String.ofList (m ++ ['$']) = String.ofList i.named := by
          simp only [metricToJson] at h
          exact Doc.string.inj (Except.ok.inj h)
        exact not_exact hwhole hm hmarked (String.ofList_injective hstring)
    | none =>
      have hinterpolate : interpolateSubstrings numbers params i.marked = .ok i.named := by
        rw [hexact] at h
        cases hsplit : splitAtFirst sentinelPrefix i.marked with
        | none =>
          rw [hsplit] at h
          have hstring := Doc.string.inj (Except.ok.inj h)
          rw [interpolateSubstrings_of_none hsplit, String.ofList_injective hstring]
        | some r =>
          rw [hsplit] at h
          simp only [isNone_some, false_eq_true, if_false] at h
          cases hout : interpolateSubstrings numbers params i.marked with
          | error e =>
            rw [hout] at h
            cases h
          | ok out =>
            rw [hout] at h
            have hstring := Doc.string.inj (Except.ok.inj h)
            rw [String.ofList_injective hstring]
      obtain ⟨hclear, htail⟩ := isClear_of_interpolateSubstrings hnames hvalid hinterpolate
      refine ⟨hclear, htail, ?_⟩
      rintro ⟨n, m, hparts, hrest, hm⟩
      have hmarked : i.marked = sentinel m := by
        obtain ⟨parts, tail⟩ := i
        obtain rfl : parts = [([], n)] := hparts
        rw [marked_cons, nil_append, sentinel, append_assoc, ← hrest]
        rfl
      rw [parseExactSentinel_eq_some.mpr ⟨hmarked, hm⟩] at hexact
      cases hexact

end HeraMind.Devices.Payload
