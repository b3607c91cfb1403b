/-
# What the preview of a condition says

`render_condition` (`crates/heramind-rules/src/preview.rs`) writes a condition as a text, which is
never read again.  Here it is asked what the text tells about the condition.  A part of an AND or OR
gets parentheses unless its text starts with one, and the text of an AND or OR of several parts
always does; so an AND inside an OR stands without parentheses of its own, and so does an OR inside
an AND.  A NOT shows its first part only, and a comparison with a text does not show its number.
-/
import HeraMind.Lib.Parens
import HeraMind.Rules.Preview

namespace HeraMind.Rules

open List
open Parens

variable {F : Type} [F64 F]

/-- What `f64::to_string` writes has neither blanks nor quotes. -/
def PrintsPlainly (F : Type) [F64 F] : Prop :=
  ∀ x : F, ' ' ∉ (toString x).toList ∧ '\'' ∉ (toString x).toList

/-! ## Conditions that can be read -/

/-- What stands between blanks behind the key of a leaf. -/
def conditionWords : List String :=
  [">", "<", ">=", "<=", "==", "!=", "contains", "starts_with", "ends_with", "regex", "BETWEEN"]

/-- No word of a key could be taken for the operator. -/
def LegibleKey (key : String) : Prop :=
  ∀ w ∈ conditionWords, ¬ ' ' :: (w.toList ++ [' ']) <:+: key.toList ++ [' ']

mutual

/-- The operator that joins the parts of a condition, if there are several. -/
def RuleCondition.joinOf : RuleCondition F → Option LogicalOperator
  | .comparison _ _ _ _ | .range _ _ _ | .logical .not _ => none
  | .logical .and conditions => joinOfAll .and conditions
  | .logical .or conditions => joinOfAll .or conditions

def joinOfAll (operator : LogicalOperator) : List (RuleCondition F) → Option LogicalOperator
  | [] => some operator
  | c :: cs => if cs.isEmpty then c.joinOf else some operator

end

/-- The parts of an AND or OR can be told apart: where there are several, none of them is joined by
the other operator, and the parentheses in their texts are balanced. -/
def LegibleParts (operator : LogicalOperator) (conditions : List (RuleCondition F)) : Prop :=
  conditions ≠ [] ∧ (conditions.length ≠ 1 → ∀ c ∈ conditions,
    (c.joinOf = none ∨ c.joinOf = some operator) ∧ Balanced '(' ')' (renderCondition c).toList)

mutual

/-- A condition that its text shows: a NOT has one part, the parts of every AND and OR can be told
apart, no key contains an operator, and a number that is not shown is the default. -/
def RuleCondition.Legible : RuleCondition F → Prop
  | .comparison source operator threshold thresholdValue =>
    LegibleKey source.storageKey ∧
      (thresholdValue.isSome = true → operator.isStringOp = true ∨ threshold = F64.ofInt 0)
  | .range source _ _ => LegibleKey source.storageKey
  | .logical .not conditions => conditions.length = 1 ∧ LegibleAll conditions
  | .logical .and conditions => LegibleParts .and conditions ∧ LegibleAll conditions
  | .logical .or conditions => LegibleParts .or conditions ∧ LegibleAll conditions

def LegibleAll : List (RuleCondition F) → Prop
  | [] => True
  | c :: cs => c.Legible ∧ LegibleAll cs

end

mutual

/-- The numbers of a condition. -/
def RuleCondition.thresholds : RuleCondition F → List F
  | .comparison _ _ threshold _ => [threshold]
  | .range _ min max => [min, max]
  | .logical _ conditions => thresholdsAll conditions

def thresholdsAll : List (RuleCondition F) → List F
  | [] => []
  | c :: cs => c.thresholds ++ thresholdsAll cs

end

/-- The sources of two conditions have different keys, and their numbers different texts, unless
they are the same. -/
structure Distinct (a b : RuleCondition F) : Prop where
  sources : ∀ s ∈ a.extractSources, ∀ s' ∈ b.extractSources, s.storageKey = s'.storageKey → s = s'
  thresholds : ∀ x ∈ a.thresholds, ∀ y ∈ b.thresholds, toString x = toString y → x = y

/-! ## The text of a leaf -/

/-- The operator of a leaf, as its text has it. -/
def RuleCondition.word : RuleCondition F → String
  | .comparison _ operator _ _ => operator.symbol
  | .range _ _ _ => "BETWEEN"
  | .logical _ _ => ""

/-- What the text of a leaf has behind the operator. -/
def RuleCondition.tail : RuleCondition F → String
  | .comparison _ operator threshold thresholdValue =>
    if operator.isStringOp || thresholdValue.isSome then
      "'" ++ thresholdValue.getD (toString threshold) ++ "'"
    else toString threshold
  | .range _ min max => toString min ++ " AND " ++ toString max
  | .logical _ _ => ""

/-- The text of a leaf of a source: its key, the operator and the rest, with blanks between. -/
structure IsLeaf (c : RuleCondition F) (source : DataSourceId) : Prop where
  text : (renderCondition c).toList
    = source.storageKey.toList ++ ' ' :: (c.word.toList ++ ' ' :: c.tail.toList)
  word : c.word ∈ conditionWords
  key : c.Legible → LegibleKey source.storageKey
  source : source ∈ c.extractSources

theorem symbol_mem_conditionWords (operator : ComparisonOperator) :
    operator.symbol ∈ conditionWords := by
  cases operator <;> decide

theorem isLeaf_comparison (source : DataSourceId) (operator : ComparisonOperator) (threshold : F)
    (thresholdValue : Option String) :
    IsLeaf (.comparison source operator threshold thresholdValue) source where
  text := by
    rw [renderCondition, RuleCondition.word, RuleCondition.tail]
    split
    · simp
    · simp
  word := symbol_mem_conditionWords operator
  key := fun h => by
    rw [RuleCondition.Legible] at h
    exact h.1
  source := by
    rw [RuleCondition.extractSources]
    exact mem_singleton_self _

theorem isLeaf_range (source : DataSourceId) (min max : F) :
    IsLeaf (.range source min max) source where
  text := by
    rw [renderCondition, RuleCondition.word, RuleCondition.tail]
    simp
  word := by
    show "BETWEEN" ∈ conditionWords
    decide
  key := fun h => by
    rw [RuleCondition.Legible] at h
    exact h
  source := by
    rw [RuleCondition.extractSources]
    exact mem_singleton_self _

theorem blank_not_mem_word : ∀ w ∈ conditionWords, ' ' ∉ w.toList := by decide

/-- The key of a leaf ends at the first operator of its text. -/
theorem key_eq_of_text {k k' w w' : String} {t t' : List Char} (hk : LegibleKey k)
    (hk' : LegibleKey k') (hw : w ∈ conditionWords) (hw' : w' ∈ conditionWords)
    (h : k.toList ++ ' ' :: (w.toList ++ ' ' :: t) = k'.toList ++ ' ' :: (w'.toList ++ ' ' :: t')) :
    k.toList = k'.toList := by
  have hstart : ∀ {k k' w w' : String} {t t' : List Char}, LegibleKey k' → w ∈ conditionWords →
      k.toList ++ ' ' :: (w.toList ++ ' ' :: t) = k'.toList ++ ' ' :: (w'.toList ++ ' ' :: t') →
      ∀ d, k'.toList = k.toList ++ d → d = [] := by
    intro k k' w w' t t' hk' hw h d hd
    rw [hd, append_assoc, append_cancel_left_eq] at h
    cases d with
    | nil => rfl
    | cons a d =>
      rw [cons_append] at h
      obtain ⟨rfl, hrest⟩ := cons.inj h
      -- the first operator would stand in the longer key
      have hword : w.toList ++ [' '] <+: d ++ [' '] := by
        have hleft : w.toList ++ [' '] <+: w.toList ++ ' ' :: t := ⟨t, by simp⟩
        have hright : d ++ [' '] <+: w.toList ++ ' ' :: t := ⟨w'.toList ++ ' ' :: t', by simp [hrest]⟩
        rcases prefix_or_prefix_of_prefix hleft hright with hpre | hpre
        · exact hpre
        · rcases prefix_concat_iff.mp hpre with heq | hpre
          · rw [heq]
          · refine absurd (hpre.subset ?_) (blank_not_mem_word w hw)
            exact mem_append_right _ (mem_singleton_self _)
      refine absurd ?_ (hk' w hw)
      obtain ⟨r, hr⟩ := hword
      exact ⟨k.toList, r, by rw [hd]; simp [← hr]⟩
  rcases append_eq_append_iff.mp h with ⟨d, hd, -⟩ | ⟨d, hd, -⟩
  · rw [hd, hstart hk' hw h d hd, append_nil]
  · rw [hd, hstart hk hw' h.symm d hd, append_nil]

theorem symbol_injective : Function.Injective ComparisonOperator.symbol := by
  intro op op' h
  cases op <;> cases op' <;> first | rfl | exact absurd h (by decide)

theorem symbol_ne_between (op : ComparisonOperator) : op.symbol ≠ "BETWEEN" := by
  cases op <;> decide

omit [F64 F] in
theorem quoted_inj {v v' : String} (h : ("'" ++ v ++ "'").toList = ("'" ++ v' ++ "'").toList) :
    v = v' := by
  rw [String.toList_append, String.toList_append, String.toList_append, String.toList_append] at h
  exact String.toList_inj.mp (append_cancel_left (append_cancel_right h))

variable {source : DataSourceId}

/-- Comparisons of one source with the same operator and the same rest of the text have the same
value. -/
theorem evaluate_comparison_eq (hprint : PrintsPlainly F)
    {operator : ComparisonOperator} {x y : F} {v v' : Option String}
    (hx : v.isSome = true → operator.isStringOp = true ∨ x = F64.ofInt 0)
    (hy : v'.isSome = true → operator.isStringOp = true ∨ y = F64.ofInt 0)
    (hxy : toString x = toString y → x = y)
    (h : (RuleCondition.comparison source operator x v).tail.toList
      = (RuleCondition.comparison source operator y v').tail.toList)
    (isMatch : String → String → Bool) (p : ValueProvider F) :
    (RuleCondition.comparison source operator x v).evaluate isMatch p
      = (RuleCondition.comparison source operator y v').evaluate isMatch p := by
  rw [RuleCondition.tail, RuleCondition.tail] at h
  have hquote : ∀ t : String, '\'' ∈ ("'" ++ t ++ "'").toList := by
    intro t
    simp
  by_cases hv : (operator.isStringOp || v.isSome) = true
  · rw [if_pos hv] at h
    by_cases hv' : (operator.isStringOp || v'.isSome) = true
    · rw [if_pos hv'] at h
      have htext := quoted_inj h
      rw [RuleCondition.evaluate, RuleCondition.evaluate]
      cases p source with
      | none => rfl
      | some value =>
        cases value with
        | text s =>
          dsimp only
          rw [htext]
        | number n =>
          dsimp only
          by_cases hop : operator.isStringOp = true
          · cases operator <;> first | rfl | exact absurd hop (by decide)
          · -- the number is not shown, and is the default
            rw [Bool.eq_false_iff.mpr hop, Bool.false_or] at hv hv'
            rw [(hx hv).resolve_left hop, (hy hv').resolve_left hop]
    · rw [if_neg hv'] at h
      exact absurd (h ▸ hquote _) (hprint y).2
  · rw [if_neg hv] at h
    by_cases hv' : (operator.isStringOp || v'.isSome) = true
    · rw [if_pos hv'] at h
      exact absurd (h ▸ hquote _) (hprint x).2
    · rw [if_neg hv'] at h
      obtain rfl := hxy (String.toList_inj.mp h)
      have hnone : ∀ w : Option String, ¬ (operator.isStringOp || w.isSome) = true → w = none := by
        intro w hw
        cases w with
        | none => rfl
        | some t => exact absurd (by rw [Option.isSome_some, Bool.or_true]) hw
      rw [hnone v hv, hnone v' hv']

/-- Ranges of one source with the same rest of the text have the same bounds. -/
theorem bounds_eq (hprint : PrintsPlainly F) {min max min' max' : F}
    (h : (RuleCondition.range source min max).tail.toList
      = (RuleCondition.range source min' max').tail.toList) :
    toString min = toString min' ∧ toString max = toString max' := by
  have htail : ∀ x y : F, (RuleCondition.range source x y).tail.toList
      = (toString x).toList ++ ' ' :: ("AND ".toList ++ (toString y).toList) := by
    intro x y
    rw [RuleCondition.tail]
    simp
  rw [htail, htail] at h
  obtain ⟨hmin, hrest⟩ := append_cons_inj (hprint min).1 (hprint min').1 h
  exact ⟨String.toList_inj.mp hmin, String.toList_inj.mp (append_cancel_left hrest)⟩

/-- Leaves with the same text have the same value. -/
theorem evaluate_leaf_eq (hprint : PrintsPlainly F) {a b : RuleCondition F} {s s' : DataSourceId}
    (ha : IsLeaf a s) (hb : IsLeaf b s') (hla : a.Legible) (hlb : b.Legible) (hab : Distinct a b)
    (h : renderCondition a = renderCondition b) (isMatch : String → String → Bool)
    (p : ValueProvider F) : a.evaluate isMatch p = b.evaluate isMatch p := by
  have htext := congrArg String.toList h
  rw [ha.text, hb.text] at htext
  have hkey := key_eq_of_text (ha.key hla) (hb.key hlb) ha.word hb.word htext
  obtain rfl := hab.sources s ha.source s' hb.source (String.toList_inj.mp hkey)
  rw [append_cancel_left_eq] at htext
  obtain ⟨hword, htail⟩ := append_cons_inj (blank_not_mem_word _ ha.word)
    (blank_not_mem_word _ hb.word) (cons.inj htext).2
  replace hword := String.toList_inj.mp hword
  have hsource := ha.source
  have hsource' := hb.source
  cases a with
  | logical operator conditions => exact absurd ha.word (by show "" ∉ conditionWords; decide)
  | comparison source operator x v =>
    rw [RuleCondition.extractSources, mem_singleton] at hsource
    subst hsource
    cases b with
    | logical operator conditions => exact absurd hb.word (by show "" ∉ conditionWords; decide)
    | range source' min max => exact absurd hword (symbol_ne_between operator)
    | comparison source' operator' y v' =>
      rw [RuleCondition.extractSources, mem_singleton] at hsource'
      subst hsource'
      obtain rfl := symbol_injective hword
      rw [RuleCondition.Legible] at hla hlb
      refine evaluate_comparison_eq hprint hla.2 hlb.2 (hab.thresholds x ?_ y ?_) htail isMatch p
      · rw [RuleCondition.thresholds]
        exact mem_singleton_self _
      · rw [RuleCondition.thresholds]
        exact mem_singleton_self _
  | range source min max =>
    rw [RuleCondition.extractSources, mem_singleton] at hsource
    subst hsource
    cases b with
    | logical operator conditions => exact absurd hb.word (by show "" ∉ conditionWords; decide)
    | comparison source' operator' y v' => exact absurd hword.symm (symbol_ne_between operator')
    | range source' min' max' =>
      rw [RuleCondition.extractSources, mem_singleton] at hsource'
      subst hsource'
      obtain ⟨hmin, hmax⟩ := bounds_eq hprint htail
      have hbounds := hab.thresholds
      rw [RuleCondition.thresholds, RuleCondition.thresholds] at hbounds
      rw [hbounds min (by simp) min' (by simp) hmin, hbounds max (by simp) max' (by simp) hmax]

/-! ## The parts of a condition -/

/-- A leaf or a NOT. -/
def RuleCondition.IsPart : RuleCondition F → Prop
  | .comparison _ _ _ _ | .range _ _ _ => True
  | .logical operator _ => operator = .not

mutual

/-- The leaves and NOTs that a condition consists of, as its text shows them. -/
def RuleCondition.parts : RuleCondition F → List (RuleCondition F)
  | .comparison source operator threshold thresholdValue =>
    [.comparison source operator threshold thresholdValue]
  | .range source min max => [.range source min max]
  | .logical .not conditions => [.logical .not conditions]
  | .logical .and conditions | .logical .or conditions => partsAll conditions

def partsAll : List (RuleCondition F) → List (RuleCondition F)
  | [] => []
  | c :: cs => c.parts ++ partsAll cs

end

/-- What a part has of a condition. -/
structure PartOf (x c : RuleCondition F) : Prop where
  isPart : x.IsPart
  legible : c.Legible → x.Legible
  smaller : sizeOf x ≤ sizeOf c
  sources : x.extractSources ⊆ c.extractSources
  thresholds : x.thresholds ⊆ c.thresholds

theorem PartOf.refl {c : RuleCondition F} (h : c.IsPart) : PartOf c c :=
  ⟨h, id, Nat.le_refl _, List.Subset.refl _, List.Subset.refl _⟩

theorem legibleAll_iff {cs : List (RuleCondition F)} : LegibleAll cs ↔ ∀ c ∈ cs, c.Legible := by
  induction cs with
  | nil =>
    rw [LegibleAll]
    exact ⟨fun _ => forall_mem_nil _, fun _ => trivial⟩
  | cons c cs ih => rw [LegibleAll, forall_mem_cons, ih]

/-- A child of a condition that is joined by AND or OR. -/
theorem partOf_logical {x c : RuleCondition F} {operator : LogicalOperator}
    {cs : List (RuleCondition F)} (hop : operator ≠ .not) (hc : c ∈ cs) (h : PartOf x c) :
    PartOf x (.logical operator cs) := by
  have hsize : sizeOf c < sizeOf cs := sizeOf_lt_of_mem hc
  have hsources : ∀ {cs : List (RuleCondition F)}, c ∈ cs →
      c.extractSources ⊆ extractSourcesAll cs := by
    intro cs hc
    induction cs with
    | nil => cases hc
    | cons d cs ih =>
      rw [extractSourcesAll]
      rcases mem_cons.mp hc with rfl | hc
      · exact subset_append_left _ _
      · exact fun s hs => mem_append_right _ (ih hc hs)
  have hthresholds : ∀ {cs : List (RuleCondition F)}, c ∈ cs →
      c.thresholds ⊆ thresholdsAll cs := by
    intro cs hc
    induction cs with
    | nil => cases hc
    | cons d cs ih =>
      rw [thresholdsAll]
      rcases mem_cons.mp hc with rfl | hc
      · exact subset_append_left _ _
      · exact fun s hs => mem_append_right _ (ih hc hs)
  refine ⟨h.isPart, fun hl => h.legible ?_, ?_, ?_, ?_⟩
  · cases operator with
    | not => exact absurd rfl hop
    | and | or =>
      rw [RuleCondition.Legible] at hl
      exact legibleAll_iff.mp hl.2 c hc
  · have := h.smaller
    simp only [RuleCondition.logical.sizeOf_spec]
    omega
  · rw [RuleCondition.extractSources]
    exact fun s hs => hsources hc (h.sources hs)
  · rw [RuleCondition.thresholds]
    exact fun s hs => hthresholds hc (h.thresholds hs)

mutual

theorem partOf_of_mem_parts (c : RuleCondition F) : ∀ x ∈ c.parts, PartOf x c := by
  intro x hx
  cases c with
  | comparison source operator threshold thresholdValue | range source min max =>
    rw [RuleCondition.parts, mem_singleton] at hx
    subst hx
    exact .refl trivial
  | logical operator conditions =>
    cases operator with
    | not =>
      rw [RuleCondition.parts, mem_singleton] at hx
      subst hx
      exact .refl rfl
    | and | or =>
      rw [RuleCondition.parts] at hx
      obtain ⟨c, hc, hpart⟩ := partOf_of_mem_partsAll conditions x hx
      exact partOf_logical (by decide) hc hpart

theorem partOf_of_mem_partsAll (cs : List (RuleCondition F)) :
    ∀ x ∈ partsAll cs, ∃ c ∈ cs, PartOf x c := by
  intro x hx
  cases cs with
  | nil =>
    rw [partsAll] at hx
    cases hx
  | cons c cs =>
    rw [partsAll] at hx
    rcases mem_append.mp hx with hx | hx
    · exact ⟨c, mem_cons_self, partOf_of_mem_parts c x hx⟩
    · obtain ⟨d, hd, hpart⟩ := partOf_of_mem_partsAll cs x hx
      exact ⟨d, mem_cons_of_mem _ hd, hpart⟩

end

/-! ## What an AND or OR shows -/

/-- The word between the parts of an AND or OR. -/
def joinWord : LogicalOperator → String
  | .and => " AND "
  | .or | .not => " OR "

/-- The value of parts joined by AND or OR. -/
def evaluateJoin (isMatch : String → String → Bool) (p : ValueProvider F)
    (operator : LogicalOperator) (cs : List (RuleCondition F)) : Bool :=
  match operator with
  | .and => evaluateAll isMatch p cs
  | .or | .not => evaluateAny isMatch p cs

section Join

variable {operator : LogicalOperator} {cs : List (RuleCondition F)}
  {isMatch : String → String → Bool} {p : ValueProvider F}

omit [F64 F] in
theorem joinOf_logical (hop : operator ≠ .not) :
    (RuleCondition.logical operator cs).joinOf = joinOfAll operator cs := by
  cases operator with
  | not => exact absurd rfl hop
  | and | or => rw [RuleCondition.joinOf]

omit [F64 F] in
theorem parts_logical (hop : operator ≠ .not) :
    (RuleCondition.logical operator cs).parts = partsAll cs := by
  cases operator with
  | not => exact absurd rfl hop
  | and | or => rw [RuleCondition.parts]

theorem evaluate_logical (hop : operator ≠ .not) :
    (RuleCondition.logical operator cs).evaluate isMatch p
      = evaluateJoin isMatch p operator cs := by
  cases operator with
  | not => exact absurd rfl hop
  | and | or => rw [RuleCondition.evaluate, evaluateJoin]

theorem renderConditions_eq (cs : List (RuleCondition F)) :
    renderConditions cs = cs.map renderCondition := by
  induction cs with
  | nil => rw [renderConditions, map_nil]
  | cons c cs ih => rw [renderConditions, map_cons, ih]

theorem renderCondition_logical (hop : operator ≠ .not) :
    renderCondition (.logical operator cs)
      = renderJoined (joinWord operator) (cs.map renderCondition) := by
  cases operator with
  | not => exact absurd rfl hop
  | and | or => rw [renderCondition, renderConditions_eq, joinWord]

theorem evaluateJoin_singleton (c : RuleCondition F) :
    evaluateJoin isMatch p operator [c] = c.evaluate isMatch p := by
  cases operator with
  | and => rw [evaluateJoin, evaluateAll, evaluateAll, Bool.and_true]
  | or | not => rw [evaluateJoin, evaluateAny, evaluateAny, Bool.or_false]

theorem evaluateAll_append (cs ds : List (RuleCondition F)) :
    evaluateAll isMatch p (cs ++ ds) = (evaluateAll isMatch p cs && evaluateAll isMatch p ds) := by
  induction cs with
  | nil => rw [nil_append, evaluateAll, Bool.true_and]
  | cons c cs ih => rw [cons_append, evaluateAll, evaluateAll, ih, Bool.and_assoc]

theorem evaluateAny_append (cs ds : List (RuleCondition F)) :
    evaluateAny isMatch p (cs ++ ds) = (evaluateAny isMatch p cs || evaluateAny isMatch p ds) := by
  induction cs with
  | nil => rw [nil_append, evaluateAny, Bool.false_or]
  | cons c cs ih => rw [cons_append, evaluateAny, evaluateAny, ih, Bool.or_assoc]

/-- Parts that have the same values can take the place of a child. -/
theorem evaluateJoin_cons_congr {c : RuleCondition F} {xs ys : List (RuleCondition F)}
    (hc : c.evaluate isMatch p = evaluateJoin isMatch p operator xs)
    (hcs : evaluateJoin isMatch p operator cs = evaluateJoin isMatch p operator ys) :
    evaluateJoin isMatch p operator (c :: cs) = evaluateJoin isMatch p operator (xs ++ ys) := by
  cases operator with
  | and =>
    rw [evaluateJoin, evaluateJoin] at hcs
    rw [evaluateJoin] at hc
    rw [evaluateJoin, evaluateJoin, evaluateAll, evaluateAll_append, hc, hcs]
  | or | not =>
    rw [evaluateJoin, evaluateJoin] at hcs
    rw [evaluateJoin] at hc
    rw [evaluateJoin, evaluateJoin, evaluateAny, evaluateAny_append, hc, hcs]

end Join

/-! ## The first letter of a text -/

omit [F64 F] in
theorem exists_storageKey (s : DataSourceId) :
    ∃ a r, s.storageKey.toList = a :: r ∧ a ∈ ['d', 'e', 't'] := by
  unfold DataSourceId.storageKey
  cases s.sourceType with
  | device =>
    exact ⟨'d', "evice:".toList ++ (s.sourceId ++ ":" ++ s.fieldPath).toList, by simp, by simp⟩
  | extension =>
    exact ⟨'e', "xtension:".toList ++ (s.sourceId ++ ":" ++ s.fieldPath).toList, by simp, by simp⟩
  | transform =>
    exact ⟨'t', "ransform:".toList ++ (s.sourceId ++ ":" ++ s.fieldPath).toList, by simp, by simp⟩

/-- The text of a leaf begins with the type of its source. -/
theorem IsLeaf.exists_text {c : RuleCondition F} {s : DataSourceId} (h : IsLeaf c s) :
    ∃ a r, (renderCondition c).toList = a :: r ∧ a ∈ ['d', 'e', 't'] ∧ ' ' ∈ r := by
  obtain ⟨a, r, hkey, ha⟩ := exists_storageKey s
  refine ⟨a, r ++ ' ' :: (c.word.toList ++ ' ' :: c.tail.toList), ?_, ha, ?_⟩
  · rw [h.text, hkey, cons_append]
  · exact mem_append_right _ mem_cons_self

theorem exists_not_text (cs : List (RuleCondition F)) :
    ∃ r, (renderCondition (.logical .not cs)).toList = 'N' :: r ∧ ' ' ∈ r := by
  rw [renderCondition]
  split
  · rename_i first rest _
    exact ⟨"OT (".toList ++ (first ++ ")").toList, by simp, by simp⟩
  · exact ⟨"OT ()".toList, by simp, by simp⟩

variable {x : RuleCondition F}

/-- The text of a leaf or a NOT gets parentheses. -/
theorem parenthesise_part (hx : x.IsPart) :
    (parenthesise (renderCondition x)).toList = wrap '(' ')' (renderCondition x).toList := by
  have hfirst : ∃ a r, (renderCondition x).toList = a :: r ∧ a ≠ '(' ∧ ' ' ∈ r := by
    cases x with
    | comparison source operator threshold thresholdValue =>
      obtain ⟨a, r, htext, ha, hr⟩ :=
        (isLeaf_comparison source operator threshold thresholdValue).exists_text
      refine ⟨a, r, htext, ?_, hr⟩
      rintro rfl
      exact absurd ha (by decide)
    | range source min max =>
      obtain ⟨a, r, htext, ha, hr⟩ := (isLeaf_range source min max).exists_text
      refine ⟨a, r, htext, ?_, hr⟩
      rintro rfl
      exact absurd ha (by decide)
    | logical operator cs =>
      obtain rfl : operator = .not := hx
      obtain ⟨r, htext, hr⟩ := exists_not_text cs
      exact ⟨'N', r, htext, by decide, hr⟩
  obtain ⟨a, r, htext, ha, hr⟩ := hfirst
  unfold parenthesise
  rw [if_pos]
  · unfold wrap
    simp
  · rw [htext, head?_cons, Bool.and_eq_true]
    refine ⟨contains_iff_mem.mpr (mem_cons_of_mem _ hr), decide_eq_true ?_⟩
    exact fun h => ha (Option.some.inj h)

/-- A text that starts with a parenthesis gets no other ones. -/
theorem parenthesise_of_open {r : String} {l : List Char} (h : r.toList = '(' :: l) :
    parenthesise r = r := by
  unfold parenthesise
  rw [if_neg]
  rw [h, head?_cons, Bool.and_eq_true]
  exact fun hand => of_decide_eq_true hand.2 rfl

/-- The texts of some conditions, each in parentheses, with the word of an operator between. -/
def joinedTexts (operator : LogicalOperator) (cs : List (RuleCondition F)) : List Char :=
  joined '(' ')' (joinWord operator).toList (cs.map fun c => (renderCondition c).toList)

/-- The text of a condition is that of its parts, and so is its value. -/
inductive Shown (c : RuleCondition F) : Prop
  | part (x : RuleCondition F) (join : c.joinOf = none) (parts : c.parts = [x])
      (text : renderCondition c = renderCondition x)
      (value : ∀ isMatch p, c.evaluate isMatch p = x.evaluate isMatch p)
  | join (operator : LogicalOperator) (join : c.joinOf = some operator) (op : operator ≠ .not)
      (several : 2 ≤ c.parts.length)
      (text : (renderCondition c).toList = joinedTexts operator c.parts)
      (value : ∀ isMatch p, c.evaluate isMatch p = evaluateJoin isMatch p operator c.parts)
      (balanced : ∀ x ∈ c.parts, Balanced '(' ')' (renderCondition x).toList)

variable {c : RuleCondition F} {operator : LogicalOperator} {cs : List (RuleCondition F)}

theorem Shown.parts_ne_nil (h : Shown c) : c.parts ≠ [] := by
  cases h with
  | part x _ hparts _ _ =>
    rw [hparts]
    exact cons_ne_nil _ _
  | join operator _ _ hseveral _ _ _ =>
    intro hnil
    rw [hnil] at hseveral
    exact absurd hseveral (Nat.not_succ_le_zero 1)

/-- A child of an AND or OR adds its parts to the text. -/
theorem Shown.parenthesise (h : Shown c) (hjoin : c.joinOf = none ∨ c.joinOf = some operator) :
    (parenthesise (renderCondition c)).toList = joinedTexts operator c.parts := by
  have hne := h.parts_ne_nil
  cases h with
  | part x _ hparts htext _ =>
    have hpart := (partOf_of_mem_parts c x (by rw [hparts]; exact mem_singleton_self x)).isPart
    unfold joinedTexts
    rw [htext, parenthesise_part hpart, hparts, map_singleton, joined_singleton]
  | join operator' hjoin' _ hseveral htext _ _ =>
    rw [hjoin'] at hjoin
    obtain rfl : operator' = operator := by
      rcases hjoin with h | h
      · cases h
      · exact Option.some.inj h
    obtain ⟨x, xs, hparts⟩ := exists_cons_of_ne_nil hne
    obtain ⟨r, hr⟩ := exists_joined_cons '(' ')' (joinWord operator').toList
      (renderCondition x).toList (xs.map fun c => (renderCondition c).toList)
    rw [parenthesise_of_open (l := r), htext]
    rw [htext, hparts]
    exact hr

theorem Shown.value (h : Shown c) (hjoin : c.joinOf = none ∨ c.joinOf = some operator)
    (isMatch : String → String → Bool) (p : ValueProvider F) :
    c.evaluate isMatch p = evaluateJoin isMatch p operator c.parts := by
  cases h with
  | part x _ hparts _ hvalue => rw [hvalue, hparts, evaluateJoin_singleton]
  | join operator' hjoin' _ _ _ hvalue _ =>
    rw [hjoin'] at hjoin
    obtain rfl : operator' = operator := by
      rcases hjoin with h | h
      · cases h
      · exact Option.some.inj h
    exact hvalue isMatch p

theorem Shown.balanced (h : Shown c) (hc : Balanced '(' ')' (renderCondition c).toList) :
    ∀ x ∈ c.parts, Balanced '(' ')' (renderCondition x).toList := by
  cases h with
  | part x _ hparts htext _ =>
    intro y hy
    rw [hparts, mem_singleton] at hy
    rw [hy, ← htext]
    exact hc
  | join _ _ _ _ _ _ hbalanced => exact hbalanced

/-- Children that can be told apart show their parts one after the other. -/
theorem joinedTexts_partsAll (hne : cs ≠ []) (hshown : ∀ c ∈ cs, Shown c)
    (hjoin : ∀ c ∈ cs, c.joinOf = none ∨ c.joinOf = some operator) :
    (joinWord operator).toList.intercalate
        (cs.map fun c => (HeraMind.Rules.parenthesise (renderCondition c)).toList)
      = joinedTexts operator (partsAll cs) ∧ partsAll cs ≠ [] := by
  induction cs with
  | nil => exact absurd rfl hne
  | cons c cs ih =>
    have hc := hshown c mem_cons_self
    have hjc := hjoin c mem_cons_self
    rw [partsAll]
    refine ⟨?_, append_ne_nil_of_left_ne_nil hc.parts_ne_nil _⟩
    rw [map_cons, hc.parenthesise hjc]
    by_cases hcs : cs = []
    · rw [hcs, partsAll, append_nil, map_nil, intercalate_singleton]
    · obtain ⟨htext, hparts⟩ := ih hcs (fun d hd => hshown d (mem_cons_of_mem _ hd))
        (fun d hd => hjoin d (mem_cons_of_mem _ hd))
      rw [intercalate_cons_of_ne_nil (by simpa using hcs), htext, append_assoc]
      unfold joinedTexts
      rw [map_append, joined_append (by simpa using hc.parts_ne_nil) (by simpa using hparts)]

theorem evaluateJoin_partsAll (hshown : ∀ c ∈ cs, Shown c)
    (hjoin : ∀ c ∈ cs, c.joinOf = none ∨ c.joinOf = some operator)
    (isMatch : String → String → Bool) (p : ValueProvider F) :
    evaluateJoin isMatch p operator cs = evaluateJoin isMatch p operator (partsAll cs) := by
  induction cs with
  | nil => rw [partsAll]
  | cons c cs ih =>
    rw [partsAll]
    exact evaluateJoin_cons_congr
      ((hshown c mem_cons_self).value (hjoin c mem_cons_self) isMatch p)
      (ih (fun d hd => hshown d (mem_cons_of_mem _ hd))
        (fun d hd => hjoin d (mem_cons_of_mem _ hd)))

omit [F64 F] in
theorem mem_partsAll : x ∈ partsAll cs ↔ ∃ c ∈ cs, x ∈ c.parts := by
  induction cs with
  | nil =>
    rw [partsAll]
    exact ⟨fun h => (nomatch h), fun ⟨_, h, _⟩ => nomatch h⟩
  | cons c cs ih =>
    rw [partsAll, mem_append, ih]
    simp [or_and_right, exists_or]

/-- An AND or OR shows the parts of its children. -/
theorem shown_logical (hop : operator ≠ .not) (hlegible : LegibleParts operator cs)
    (hshown : ∀ c ∈ cs, Shown c) : Shown (.logical operator cs) := by
  obtain ⟨hne, hapart⟩ := hlegible
  cases cs with
  | nil => exact absurd rfl hne
  | cons c cs =>
    cases cs with
    | nil =>
      -- one child stands for the whole condition
      have hc := hshown c mem_cons_self
      have hjoin : (RuleCondition.logical operator [c]).joinOf = c.joinOf := by
        rw [joinOf_logical hop, joinOfAll, isEmpty_nil, if_pos rfl]
      have hparts : (RuleCondition.logical operator [c]).parts = c.parts := by
        rw [parts_logical hop, partsAll, partsAll, append_nil]
      have htext : renderCondition (.logical operator [c]) = renderCondition c := by
        rw [renderCondition_logical hop, map_singleton, renderJoined]
      have hvalue : ∀ isMatch p, (RuleCondition.logical operator [c]).evaluate isMatch p
          = c.evaluate isMatch p := by
        intro isMatch p
        rw [evaluate_logical hop, evaluateJoin_singleton]
      cases hc with
      | part x hj hp ht hv =>
        exact .part x (hjoin.trans hj) (hparts.trans hp) (htext.trans ht)
          fun isMatch p => (hvalue isMatch p).trans (hv isMatch p)
      | join operator' hj ho hs ht hv hb =>
        refine .join operator' (hjoin.trans hj) ho (by rw [hparts]; exact hs) ?_ ?_ ?_
        · rw [htext, hparts]
          exact ht
        · intro isMatch p
          rw [hvalue, hparts]
          exact hv isMatch p
        · rw [hparts]
          exact hb
    | cons d cs =>
      have hall := hapart (by simp)
      have hjoin : ∀ e ∈ c :: d :: cs, e.joinOf = none ∨ e.joinOf = some operator :=
        fun e he => (hall e he).1
      have hc := hshown c mem_cons_self
      have hd := hshown d (mem_cons_of_mem _ mem_cons_self)
      have htexts := (joinedTexts_partsAll (cons_ne_nil _ _) hshown hjoin).1
      refine .join operator ?_ hop ?_ ?_ ?_ ?_
      · rw [joinOf_logical hop, joinOfAll, isEmpty_cons, if_neg Bool.false_ne_true]
      · have hcpos := length_pos_of_ne_nil hc.parts_ne_nil
        have hdpos := length_pos_of_ne_nil hd.parts_ne_nil
        rw [parts_logical hop, partsAll, partsAll, length_append, length_append]
        omega
      · rw [renderCondition_logical hop, parts_logical hop, ← htexts, map_cons, map_cons,
          renderJoined]
        · rw [String.toList_intercalate, ← map_cons, ← map_cons, map_map,
            map_map]
          rfl
        · exact fun r h => nomatch h
      · intro isMatch p
        rw [evaluate_logical hop, parts_logical hop]
        exact evaluateJoin_partsAll hshown hjoin isMatch p
      · intro x hx
        rw [parts_logical hop] at hx
        obtain ⟨e, he, hx⟩ := mem_partsAll.mp hx
        exact (hshown e he).balanced (hall e he).2 x hx

mutual

/-- A legible condition is shown by its text. -/
theorem shown_of_legible (c : RuleCondition F) (h : c.Legible) : Shown c := by
  cases c with
  | comparison source operator threshold thresholdValue | range source min max =>
    exact .part _ (by rw [RuleCondition.joinOf]) (by rw [RuleCondition.parts]) rfl
      fun _ _ => rfl
  | logical operator conditions =>
    cases operator with
    | not =>
      exact .part _ (by rw [RuleCondition.joinOf]) (by rw [RuleCondition.parts]) rfl
        fun _ _ => rfl
    | and | or =>
      rw [RuleCondition.Legible] at h
      exact shown_logical (by decide) h.1 (shown_of_legibleAll conditions h.2)

theorem shown_of_legibleAll (cs : List (RuleCondition F)) (h : LegibleAll cs) :
    ∀ c ∈ cs, Shown c := by
  intro d hd
  cases cs with
  | nil => cases hd
  | cons c cs =>
    rw [LegibleAll] at h
    rcases mem_cons.mp hd with rfl | hd
    · exact shown_of_legible d h.1
    · exact shown_of_legibleAll cs h.2 d hd

end

/-! ## Conditions with the same text -/

/-- The texts of two parts begin with the same letter only if they are of the same kind. -/
theorem kind_of_part {x y : RuleCondition F} (hx : x.IsPart) (hy : y.IsPart)
    (h : renderCondition x = renderCondition y) :
    (∃ s s', IsLeaf x s ∧ IsLeaf y s') ∨ ∃ cs ds, x = .logical .not cs ∧ y = .logical .not ds := by
  have hkind : ∀ {z : RuleCondition F}, z.IsPart →
      (∃ s, IsLeaf z s) ∨ ∃ cs, z = .logical .not cs := by
    intro z hz
    cases z with
    | comparison source operator threshold thresholdValue =>
      exact Or.inl ⟨source, isLeaf_comparison source operator threshold thresholdValue⟩
    | range source min max => exact Or.inl ⟨source, isLeaf_range source min max⟩
    | logical operator cs =>
      obtain rfl : operator = .not := hz
      exact Or.inr ⟨cs, rfl⟩
  have hapart : ∀ {z : RuleCondition F} {s : DataSourceId} {cs : List (RuleCondition F)},
      IsLeaf z s → renderCondition z ≠ renderCondition (.logical .not cs) := by
    intro z s cs hz heq
    obtain ⟨a, r, htext, ha, -⟩ := hz.exists_text
    obtain ⟨r', htext', -⟩ := exists_not_text cs
    rw [heq, htext'] at htext
    cases htext
    exact absurd ha (by decide)
  rcases hkind hx with ⟨s, hs⟩ | ⟨cs, rfl⟩
  · rcases hkind hy with ⟨s', hs'⟩ | ⟨ds, rfl⟩
    · exact Or.inl ⟨s, s', hs, hs'⟩
    · exact absurd h (hapart hs)
  · rcases hkind hy with ⟨s', hs'⟩ | ⟨ds, rfl⟩
    · exact absurd h.symm (hapart hs')
    · exact Or.inr ⟨cs, ds, rfl, rfl⟩

/-- The text of a part is not that of a join. -/
theorem text_part_ne_join {xs : List (RuleCondition F)} (hx : x.IsPart)
    (hxs : xs ≠ []) : (renderCondition x).toList ≠ joinedTexts operator xs := by
  intro h
  obtain ⟨y, ys, rfl⟩ := exists_cons_of_ne_nil hxs
  obtain ⟨r, hr⟩ := exists_joined_cons '(' ')' (joinWord operator).toList
    (renderCondition y).toList (ys.map fun c => (renderCondition c).toList)
  have hopen : (renderCondition x).toList = '(' :: r := h.trans hr
  have hwrapped := parenthesise_part hx
  rw [parenthesise_of_open hopen] at hwrapped
  have hlength := congrArg List.length hwrapped
  unfold wrap at hlength
  rw [length_cons, length_append] at hlength
  omega

theorem Distinct.of_parts {a b x y : RuleCondition F} (h : Distinct a b) (hx : PartOf x a)
    (hy : PartOf y b) : Distinct x y where
  sources := fun s hs s' hs' => h.sources s (hx.sources hs) s' (hy.sources hs')
  thresholds := fun u hu v hv => h.thresholds u (hx.thresholds hu) v (hy.thresholds hv)

/-- What is known of smaller conditions, for parts. -/
theorem evaluate_part_eq (hprint : PrintsPlainly F) {n : ℕ}
    (ih : ∀ a b : RuleCondition F, sizeOf a ≤ n → a.Legible → b.Legible → Distinct a b →
      renderCondition a = renderCondition b → ∀ isMatch p,
        a.evaluate isMatch p = b.evaluate isMatch p)
    {x y : RuleCondition F} (hn : sizeOf x ≤ n + 1) (hx : x.IsPart) (hy : y.IsPart)
    (hlx : x.Legible) (hly : y.Legible) (hxy : Distinct x y)
    (h : renderCondition x = renderCondition y) (isMatch : String → String → Bool)
    (p : ValueProvider F) : x.evaluate isMatch p = y.evaluate isMatch p := by
  rcases kind_of_part hx hy h with ⟨s, s', hs, hs'⟩ | ⟨cs, ds, rfl, rfl⟩
  · exact evaluate_leaf_eq hprint hs hs' hlx hly hxy h isMatch p
  · -- both NOTs have one part, and these have the same text
    rw [RuleCondition.Legible, length_eq_one_iff] at hlx hly
    obtain ⟨⟨c, rfl⟩, hlc⟩ := hlx
    obtain ⟨⟨d, rfl⟩, hld⟩ := hly
    rw [LegibleAll] at hlc hld
    have htext : renderCondition c = renderCondition d := by
      rw [renderCondition, renderCondition, renderConditions_eq, renderConditions_eq] at h
      have hchars := congrArg String.toList h
      simp only [map_cons, map_nil, String.toList_append] at hchars
      exact String.toList_inj.mp (append_cancel_left (append_cancel_right hchars))
    have hsize : sizeOf c ≤ n := by
      simp only [RuleCondition.logical.sizeOf_spec, List.cons.sizeOf_spec] at hn
      omega
    have hcd : Distinct c d := by
      refine ⟨fun s hs s' hs' => hxy.sources s ?_ s' ?_,
        fun u hu v hv => hxy.thresholds u ?_ v ?_⟩
      · rw [RuleCondition.extractSources, extractSourcesAll]
        exact mem_append_left _ hs
      · rw [RuleCondition.extractSources, extractSourcesAll]
        exact mem_append_left _ hs'
      · rw [RuleCondition.thresholds, thresholdsAll]
        exact mem_append_left _ hu
      · rw [RuleCondition.thresholds, thresholdsAll]
        exact mem_append_left _ hv
    have hvalue := ih c d hsize hlc.1 hld.1 hcd htext isMatch p
    rw [RuleCondition.evaluate, RuleCondition.evaluate, evaluateAny, evaluateAny, hvalue,
      evaluateAny, evaluateAny]

/-- Parts with the same texts, one by one, have the same values together. -/
theorem evaluateJoin_eq {isMatch : String → String → Bool} {p : ValueProvider F}
    {xs ys : List (RuleCondition F)}
    (h : xs.map (fun c => (renderCondition c).toList) = ys.map fun c => (renderCondition c).toList)
    (heq : ∀ x ∈ xs, ∀ y ∈ ys, renderCondition x = renderCondition y →
      x.evaluate isMatch p = y.evaluate isMatch p) :
    evaluateJoin isMatch p operator xs = evaluateJoin isMatch p operator ys := by
  induction xs generalizing ys with
  | nil =>
    rw [map_nil] at h
    rw [map_eq_nil_iff.mp h.symm]
  | cons x xs ih =>
    cases ys with
    | nil => cases h
    | cons y ys =>
      rw [map_cons, map_cons] at h
      obtain ⟨htext, hrest⟩ := cons.inj h
      have hx := heq x mem_cons_self y mem_cons_self (String.toList_inj.mp htext)
      have hxs := ih hrest fun u hu v hv =>
        heq u (mem_cons_of_mem _ hu) v (mem_cons_of_mem _ hv)
      have hy : evaluateJoin isMatch p operator [y] = y.evaluate isMatch p := evaluateJoin_singleton y
      rw [← hy] at hx
      exact evaluateJoin_cons_congr hx hxs

theorem joinWord_inj {operator operator' : LogicalOperator} (hop : operator ≠ .not)
    (hop' : operator' ≠ .not) (h : (joinWord operator).toList = (joinWord operator').toList) :
    operator = operator' := by
  cases operator <;> cases operator' <;>
    first
      | rfl
      | exact absurd rfl hop
      | exact absurd rfl hop'
      | exact absurd h (by decide)

theorem open_not_mem_joinWord (operator : LogicalOperator) : '(' ∉ (joinWord operator).toList := by
  cases operator <;> decide

/-- Legible conditions with the same text have the same value, whatever the values of the
sources. -/
theorem evaluate_eq_of_renderCondition_eq (hprint : PrintsPlainly F) {a b : RuleCondition F}
    (ha : a.Legible) (hb : b.Legible) (hab : Distinct a b)
    (h : renderCondition a = renderCondition b) (isMatch : String → String → Bool)
    (p : ValueProvider F) : a.evaluate isMatch p = b.evaluate isMatch p := by
  -- by induction on the size: the part of a NOT is smaller than the NOT
  obtain ⟨n, hn⟩ : ∃ n, sizeOf a ≤ n := ⟨_, Nat.le_refl _⟩
  induction n generalizing a b isMatch p with
  | zero =>
    have hpos : 0 < sizeOf a := by cases a <;> simp
    omega
  | succ n ih =>
    have hsmaller : ∀ a b : RuleCondition F, sizeOf a ≤ n → a.Legible → b.Legible →
        Distinct a b → renderCondition a = renderCondition b → ∀ isMatch p,
        a.evaluate isMatch p = b.evaluate isMatch p :=
      fun a b hn ha hb hab h isMatch p => ih ha hb hab h isMatch p hn
    have hparts : ∀ x ∈ a.parts, ∀ y ∈ b.parts, renderCondition x = renderCondition y →
        x.evaluate isMatch p = y.evaluate isMatch p := by
      intro x hx y hy hxy
      have hpx := partOf_of_mem_parts a x hx
      have hpy := partOf_of_mem_parts b y hy
      exact evaluate_part_eq hprint hsmaller (Nat.le_trans hpx.smaller hn) hpx.isPart hpy.isPart
        (hpx.legible ha) (hpy.legible hb) (hab.of_parts hpx hpy) hxy isMatch p
    have hsa := shown_of_legible a ha
    have hsb := shown_of_legible b hb
    have hna := hsa.parts_ne_nil
    have hnb := hsb.parts_ne_nil
    cases hsa with
    | part x _ hpx htx hvx =>
      have hx : x ∈ a.parts := by
        rw [hpx]
        exact mem_singleton_self x
      cases hsb with
      | part y _ hpy hty hvy =>
        have hy : y ∈ b.parts := by
          rw [hpy]
          exact mem_singleton_self y
        rw [hvx, hvy]
        exact hparts x hx y hy (by rw [← htx, ← hty, h])
      | join operator _ _ _ htext _ _ =>
        rw [← h, htx] at htext
        exact absurd htext (text_part_ne_join (partOf_of_mem_parts a x hx).isPart hnb)
    | join operator _ hop hseveral htext hvalue hbalanced =>
      cases hsb with
      | part y _ hpy hty hvy =>
        have hy : y ∈ b.parts := by
          rw [hpy]
          exact mem_singleton_self y
        rw [h, hty] at htext
        exact absurd htext (text_part_ne_join (partOf_of_mem_parts b y hy).isPart hna)
      | join operator' _ hop' _ htext' hvalue' hbalanced' =>
        rw [h, htext'] at htext
        obtain ⟨htexts, hword⟩ := joined_inj (by decide) (open_not_mem_joinWord operator)
          (open_not_mem_joinWord operator') (forall_mem_map.mpr hbalanced)
          (forall_mem_map.mpr hbalanced') htext.symm
        obtain rfl := joinWord_inj hop hop' (hword (by rw [length_map]; exact hseveral))
        rw [hvalue, hvalue']
        exact evaluateJoin_eq htexts hparts

/-- The text of two children that are joined. -/
theorem renderCondition_pair (hop : operator ≠ .not) (a b : RuleCondition F) :
    (renderCondition (.logical operator [a, b])).toList
      = (parenthesise (renderCondition a)).toList ++
        ((joinWord operator).toList ++ (parenthesise (renderCondition b)).toList) := by
  rw [renderCondition_logical hop, map_cons, map_singleton, renderJoined]
  · rw [map_cons, map_singleton, String.toList_intercalate, map_cons,
      map_singleton, intercalate_cons_cons, intercalate_singleton,
      append_assoc]
  · exact fun r h => nomatch h

/-- Of three parts with two operators between them the text does not show which two belong
together. -/
theorem renderCondition_regroup {operator' : LogicalOperator} {x y z : RuleCondition F}
    (hop : operator ≠ .not) (hop' : operator' ≠ .not) (hx : x.IsPart) (hy : y.IsPart) :
    renderCondition (.logical operator [x, .logical operator' [y, z]])
      = renderCondition (.logical operator' [.logical operator [x, y], z]) := by
  have hopen : ∀ {operator : LogicalOperator} {u v : RuleCondition F}, operator ≠ .not →
      u.IsPart → ∃ r, (renderCondition (.logical operator [u, v])).toList = '(' :: r := by
    intro operator u v hop hu
    rw [renderCondition_pair hop, parenthesise_part hu]
    exact ⟨_, cons_append⟩
  obtain ⟨r, hr⟩ := hopen (v := z) hop' hy
  obtain ⟨r', hr'⟩ := hopen (v := y) hop hx
  rw [← String.toList_inj, renderCondition_pair hop, renderCondition_pair hop',
    parenthesise_of_open hr, parenthesise_of_open hr', renderCondition_pair hop',
    renderCondition_pair hop]
  simp only [append_assoc]

/-! ## A room with a window and a heater -/

theorem printsPlainly_int : PrintsPlainly ℤ := by
  have hdigits : ∀ (n : ℕ) (c : Char), c.isDigit = false → c ∉ (toString n).toList := by
    intro n c hc hmem
    rw [Nat.toString_eq_repr, Nat.toList_repr] at hmem
    rw [Nat.isDigit_of_mem_toDigits (by decide) (by decide) hmem] at hc
    cases hc
  have hint : ∀ (x : ℤ) (c : Char), c.isDigit = false → c ≠ '-' → c ∉ (toString x).toList := by
    intro x c hc hne
    cases x with
    | ofNat n => exact hdigits n c hc
    | negSucc n =>
      show c ∉ ("-" ++ toString (n + 1)).toList
      rw [String.toList_append, mem_append, not_or]
      exact ⟨fun h => hne (mem_singleton.mp h), hdigits (n + 1) c hc⟩
  exact fun x => ⟨hint x ' ' (by decide) (by decide), hint x '\'' (by decide) (by decide)⟩

/-- It is warmer than 20 degrees in the room. -/
def roomWarm : RuleCondition ℤ := .comparison (.ofDevice "room" "temp") .greaterThan 20 none

/-- The window is open. -/
def windowOpen : RuleCondition ℤ := .comparison (.ofDevice "window" "open") .equal 1 none

/-- The heater is on. -/
def heaterOn : RuleCondition ℤ := .comparison (.ofDevice "heater" "power") .greaterThan 0 none

theorem distinct_rooms {a b : RuleCondition ℤ}
    (ha : a.extractSources = [.ofDevice "room" "temp", .ofDevice "window" "open",
      .ofDevice "heater" "power"] ∧ a.thresholds = [20, 1, 0])
    (hb : b.extractSources = [.ofDevice "room" "temp", .ofDevice "window" "open",
      .ofDevice "heater" "power"] ∧ b.thresholds = [20, 1, 0]) : Distinct a b := by
  refine ⟨?_, ?_⟩
  · rw [ha.1, hb.1]
    decide
  · rw [ha.2, hb.2]
    decide

theorem legible_plain {operator : ComparisonOperator} {x : ℤ} (h : LegibleKey source.storageKey) :
    (RuleCondition.comparison source operator x none).Legible := by
  rw [RuleCondition.Legible]
  exact ⟨h, nofun⟩

theorem legible_rooms : roomWarm.Legible ∧ windowOpen.Legible ∧ heaterOn.Legible := by
  refine ⟨legible_plain ?_, legible_plain ?_, legible_plain ?_⟩
  · unfold LegibleKey
    decide
  · unfold LegibleKey
    decide
  · unfold LegibleKey
    decide

/-- Two parts of an AND, one of which may be an AND itself. -/
theorem legible_and {a b : RuleCondition ℤ} (ha : a.Legible) (hb : b.Legible)
    (hja : a.joinOf = none ∨ a.joinOf = some .and) (hjb : b.joinOf = none ∨ b.joinOf = some .and)
    (hba : Balanced '(' ')' (renderCondition a).toList)
    (hbb : Balanced '(' ')' (renderCondition b).toList) :
    (RuleCondition.logical .and [a, b]).Legible := by
  rw [RuleCondition.Legible, LegibleAll, LegibleAll, LegibleAll]
  refine ⟨⟨cons_ne_nil _ _, fun _ c hc => ?_⟩, ha, hb, trivial⟩
  rcases mem_pair.mp hc with rfl | rfl
  · exact ⟨hja, hba⟩
  · exact ⟨hjb, hbb⟩

/-- Two ANDs of the same three parts. -/
theorem evaluate_eq_of_renderCondition_eq_rooms :
    (RuleCondition.logical .and [.logical .and [roomWarm, windowOpen], heaterOn]).evaluate
        (fun _ _ => false) (fun _ => some (.number 1))
      = (RuleCondition.logical .and [roomWarm, .logical .and [windowOpen, heaterOn]]).evaluate
        (fun _ _ => false) (fun _ => some (.number 1)) := by
  obtain ⟨hroom, hwindow, hheater⟩ := legible_rooms
  have hleft : (RuleCondition.logical .and [roomWarm, windowOpen]).Legible :=
    legible_and hroom hwindow (Or.inl rfl) (Or.inl rfl) (by decide) (by decide)
  have hright : (RuleCondition.logical .and [windowOpen, heaterOn]).Legible :=
    legible_and hwindow hheater (Or.inl rfl) (Or.inl rfl) (by decide) (by decide)
  refine evaluate_eq_of_renderCondition_eq printsPlainly_int ?_ ?_
    (distinct_rooms (by decide) (by decide)) (by decide +kernel) _ _
  · exact legible_and hleft hheater (Or.inr rfl) (Or.inl rfl) (by decide +kernel)
      (by decide +kernel)
  · exact legible_and hroom hright (Or.inl rfl) (Or.inr rfl) (by decide)
      (by decide +kernel)

/-- The room is warm and the window open or the heater on: the text does not tell which two belong
together. -/
theorem grouping_not_shown :
    renderCondition (.logical .and [roomWarm, .logical .or [windowOpen, heaterOn]])
      = renderCondition (.logical .or [.logical .and [roomWarm, windowOpen], heaterOn]) ∧
    Distinct (.logical .and [roomWarm, .logical .or [windowOpen, heaterOn]])
      (.logical .or [.logical .and [roomWarm, windowOpen], heaterOn]) ∧
    ∃ p : ValueProvider ℤ,
      (RuleCondition.logical .and [roomWarm, .logical .or [windowOpen, heaterOn]]).evaluate
          (fun _ _ => false) p
        ≠ (RuleCondition.logical .or [.logical .and [roomWarm, windowOpen], heaterOn]).evaluate
          (fun _ _ => false) p := by
  refine ⟨renderCondition_regroup (by decide) (by decide) trivial trivial,
    distinct_rooms (by decide) (by decide), ?_⟩
  exact ⟨fun s => if s = .ofDevice "heater" "power" then some (.number 5) else none, by decide⟩

end HeraMind.Rules
