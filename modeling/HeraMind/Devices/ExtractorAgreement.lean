/-
# Auto-extraction and extraction by path

A metric's name is followed key by key.  The two ways to extract agree on an object if and only if
the paths of the emitted leaves are not longer than the depth limit, and their keys were trimmed in
the data, or the leaf is null: auto-extraction enters one level more than extraction by path, and
it trims the keys that extraction by path looks for.
-/
import HeraMind.Devices.ExtractorPaths

namespace HeraMind.Devices

open List
open Serde
open HeraMind.Im (parseU64)
open HeraMind.Rules (isWhitespace)

namespace UnifiedExtractor

variable {F : Type} (x : UnifiedExtractor F)

/-! ## Following the keys of a name -/

theorem followPart_of_plain {i : ℕ} {part : List Char} {current : Value F} (hne : part ≠ [])
    (hroot : part ≠ ['$']) (hplain : '[' ∉ part) :
    followPart i part current = some (.ok (some (followKey part current))) := by
  have hfind : ByteText.find ['['] part = none := by
    rw [ByteText.find_eq_none, singleton_infix_iff]
    exact hplain
  unfold followPart
  rw [if_neg (by simp [hne, hroot]), hfind]

variable {parts : List (List Char)}

theorem followParts_of_parts (h : ∀ part ∈ parts, NamePart part) :
    ∀ (i : ℕ) (current : Value F),
      followParts i parts current
        = some (.ok (some (parts.foldl (fun value part => followKey part value) current))) := by
  induction parts with
  | nil => exact fun _ _ => rfl
  | cons part parts ih =>
    intro i current
    have hpart := h part (mem_cons_self ..)
    have hroot : part ≠ ['$'] := by
      rintro rfl
      exact hpart.plain '$' (mem_cons_self ..) (by decide)
    rw [followParts, hpart.trimmed, followPart_of_plain hpart.ne_nil hroot fun hmem =>
      hpart.plain '[' hmem (by decide)]
    exact ih (fun part' h' => h part' (mem_cons_of_mem _ h')) (i + 1) _

theorem actualDepth_of_parts (h : ∀ part ∈ parts, NamePart part) :
    actualDepth parts = parts.length := by
  unfold actualDepth
  rw [filter_eq_self.mpr]
  intro part hpart
  have hroot : part ≠ ['$'] := by
    rintro rfl
    exact (h _ hpart).plain '$' (mem_cons_self ..) (by decide)
  rw [(h part hpart).trimmed]
  simp [(h part hpart).ne_nil, hroot]

/-- What the trimmed keys of a path lead to. -/
def follow (path : List String) (data : Value F) : Value F :=
  path.foldl (fun value key => followKey (trimText key).toList value) data

/-- The result for a path that is too deep. -/
def tooDeep (levels : ℕ) : PathResult F :=
  some (.error ("Max depth " ++ toString x.config.maxDepth ++ " exceeded: path has "
    ++ toString levels ++ " levels"))

variable {path : List String}

/-- A name is followed key by key, if it does not have too many. -/
theorem extractByPath_metricName (hne : path ≠ [])
    (h : ∀ key ∈ path, PlainKey key) (data : Value F) :
    x.extractByPath data (metricName path) 0
      = if path.length ≤ x.config.maxDepth then some (.ok (some (follow path data)))
        else x.tooDeep path.length := by
  have hkeys : path.map trimText ≠ [] := by simpa using hne
  have hsplit : (metricName path).toList.splitOn '.' = (path.map trimText).map String.toList :=
    splitOn_dotted hkeys (parts_of_plain h)
  have hparts : ∀ part ∈ (path.map trimText).map String.toList, NamePart part := by
    intro part hpart
    obtain ⟨key, hkey, rfl⟩ := mem_map.mp hpart
    exact parts_of_plain h key hkey
  have htext : (metricName path).toList
      = ['.'].intercalate ((path.map trimText).map String.toList) := String.toList_ofList
  obtain ⟨hnil, htrim, hlast⟩ := ends_of_parts (by simpa using hne) hparts
  rw [← htext] at hnil htrim hlast
  -- a name that is `$` would have `$` as a key
  have hroot : (metricName path).toList ≠ ['$'] := by
    intro heq
    have hone : (path.map trimText).map String.toList = [['$']] := by
      rw [← hsplit, heq]
      rfl
    have hmem : ['$'] ∈ (path.map trimText).map String.toList := by
      rw [hone]
      exact mem_singleton_self _
    exact (hparts _ hmem).plain '$' (mem_cons_self ..) (by decide)
  have hall : ((path.map trimText).map String.toList).all List.isEmpty = false := by
    obtain ⟨part, parts, hcons⟩ := exists_cons_of_ne_nil
      (show (path.map trimText).map String.toList ≠ [] by simpa using hne)
    have hpart := (hparts part (by rw [hcons]; exact mem_cons_self ..)).ne_nil
    rw [hcons, all_cons, isEmpty_eq_false_iff.mpr hpart]
    rfl
  have hlen : ((path.map trimText).map String.toList).length = path.length := by
    rw [length_map, length_map]
  unfold extractByPath
  simp only [htrim]
  rw [if_neg hnil, if_neg hroot, if_neg hlast, if_neg (Nat.not_lt_zero _), hsplit,
    if_neg (by rw [hall]; decide), actualDepth_of_parts hparts, hlen]
  by_cases hdepth : path.length ≤ x.config.maxDepth
  · rw [if_neg (by omega), if_pos hdepth, followParts_of_parts hparts, foldl_map,
      foldl_map]
    rfl
  · rw [if_pos (by omega), if_neg hdepth]
    rfl

theorem follow_null (path : List String) : follow path (.null : Value F) = .null := by
  unfold follow
  induction path with
  | nil => rfl
  | cons key path ih => exact ih

variable {v : Value F}

/-- The keys of the path of a leaf lead to the leaf, unless one of them was trimmed. -/
theorem follow_leaf : ∀ {data : Value F} {path}, PlainKeys data → (path, v) ∈ data.leaves →
      follow path data = if ∀ key ∈ path, trimText key = key then v else .null := by
  intro data
  induction data using Doc.record_induction with
  | leaf d hd =>
    intro path _ hleaf
    rw [leaves_of_not_object hd, mem_singleton] at hleaf
    cases hleaf
    rw [if_pos (fun _ h => absurd h not_mem_nil)]
    rfl
  | record fields ih =>
    intro path hkeys hleaf
    obtain ⟨⟨key, value⟩, hfield, rest, hrest, rfl⟩ := mem_leaves_object.mp hleaf
    obtain ⟨-, hnodup⟩ := hkeys fields (mem_records_object.mpr (Or.inl rfl))
    have hbelow : PlainKeys value := fun r hr => hkeys r (records_subset hfield hr)
    show follow rest (followKey (trimText key).toList (.object fields)) = _
    rw [followKey, String.ofList_toList]
    by_cases hkey : trimText key = key
    · have hfst : (fields.map Prod.fst).Nodup := by
        refine List.Nodup.of_map trimText ?_
        rw [map_map]
        exact hnodup
      rw [hkey, lookup_eq_some_of_mem hfst hfield, Option.getD_some, ih _ hfield hbelow hrest]
      simp [hkey]
    · -- the trimmed key is no key of the object: it would be the same after trimming
      have hnone : trimText key ∉ fields.map Prod.fst := by
        intro hmem
        obtain ⟨field, hfield', heq⟩ := mem_map.mp hmem
        have hsame : trimText field.1 = trimText key := by rw [heq, trimText_trimText]
        have hinj := inj_on_of_nodup_map hnodup hfield' hfield hsame
        rw [hinj] at heq
        exact hkey heq.symm
      rw [lookup_eq_none_of_not_mem hnone, Option.getD_none, follow_null,
        if_neg fun hall => hkey (hall key (mem_cons_self ..))]

theorem valueToMetricValue_eq_null :
    x.valueToMetricValue v = .null ↔ v = .null := by
  constructor
  · intro h
    cases v with
    | null => rfl
    | number n =>
      cases n with
      | int n =>
        rw [valueToMetricValue] at h
        split at h <;> cases h
      | float v => cases h
    | bool b | string s | array items | object fields => cases h
  · rintro rfl
    rfl

/-! ## Extraction by a template -/

/-- A metric without the path it was found at. -/
def nameAndValue (m : ExtractedMetric F) : String × MetricValue F := (m.name, m.value)

/-- The path of a metric leads to its value. -/
def LeadsTo (data : Value F) (m : ExtractedMetric F) : Prop :=
  ∃ v, x.extractByPath data m.name 0 = some (.ok (some v)) ∧ x.valueToMetricValue v = m.value

/-- A path without brackets is extracted without a panic. -/
theorem exists_followParts {i : ℕ} (h : ∀ part ∈ parts, '[' ∉ part) :
    ∀ current : Value F, ∃ r, followParts i parts current = some r := by
  induction parts generalizing i with
  | nil => exact fun current => ⟨_, rfl⟩
  | cons part parts ih =>
    intro current
    have hplain : '[' ∉ ByteText.trim isWhitespace part := fun hmem =>
      h part (mem_cons_self ..) ((ByteText.trim_isInfix isWhitespace part).subset hmem)
    have hrest := ih (i := i + 1) fun part' h' => h part' (mem_cons_of_mem _ h')
    rw [followParts]
    by_cases hskip : ByteText.trim isWhitespace part = [] ∨ ByteText.trim isWhitespace part = ['$']
    · rw [followPart, if_pos hskip]
      exact hrest current
    · have hne : ByteText.trim isWhitespace part ≠ [] := fun heq => hskip (Or.inl heq)
      have hroot : ByteText.trim isWhitespace part ≠ ['$'] := fun heq => hskip (Or.inr heq)
      rw [followPart_of_plain hne hroot hplain]
      exact hrest _

theorem subset_intercalate (sep : List Char) {part : List Char} (h : part ∈ parts) :
    part ⊆ sep.intercalate parts := by
  induction parts with
  | nil => cases h
  | cons first parts ih =>
    by_cases hnil : parts = []
    · subst hnil
      rw [mem_singleton.mp h, intercalate_singleton]
      exact fun _ hc => hc
    · rw [intercalate_cons_of_ne_nil hnil]
      rcases mem_cons.mp h with rfl | h
      · exact fun _ hc => mem_append_left _ (mem_append_left _ hc)
      · exact fun _ hc => mem_append_right _ (ih h hc)

theorem exists_extractByPath (path : String) (h : '[' ∉ path.toList) (data : Value F)
    (depth : ℕ) : ∃ r, x.extractByPath data path depth = some r := by
  have hparts : ∀ part ∈ path.toList.splitOn '.', '[' ∉ part := by
    intro part hpart hmem
    refine h ?_
    have hsub := subset_intercalate ['.'] hpart hmem
    rwa [intercalate_splitOn] at hsub
  unfold extractByPath
  dsimp only
  split
  · exact ⟨_, rfl⟩
  split
  · exact ⟨_, rfl⟩
  split
  · exact ⟨_, rfl⟩
  split
  · exact ⟨_, rfl⟩
  split
  · exact ⟨_, rfl⟩
  split
  · exact ⟨_, rfl⟩
  · exact exists_followParts hparts data

theorem exists_systemMetrics (data : Value F) :
    ∃ system, systemPassThroughKeys.mapM (x.systemMetric data) = some system := by
  obtain ⟨r, hr⟩ := x.exists_extractByPath "__webhook_image" (by decide) data 0
  obtain ⟨metrics, hmetrics⟩ : ∃ metrics, x.systemMetric data "__webhook_image" = some metrics := by
    unfold systemMetric
    rw [hr]
    cases r with
    | error e => exact ⟨_, rfl⟩
    | ok value =>
      cases value with
      | none | some v => exact ⟨_, rfl⟩
  refine ⟨[metrics], ?_⟩
  show ["__webhook_image"].mapM (x.systemMetric data) = _
  rw [mapM_cons, hmetrics]
  rfl

/-- The metric that a template gives for one of auto-extraction. -/
def underTemplate (m : ExtractedMetric F) : ExtractedMetric F := ⟨m.name, m.value, m.name⟩

theorem templateMetrics_eq {data : Value F} :
    ∀ {defs : List (MetricDefinition F)} {metrics : List (ExtractedMetric F)},
      defs.map MetricDefinition.name = metrics.map ExtractedMetric.name →
      (∀ m ∈ metrics, x.LeadsTo data m) →
        defs.mapM (x.templateMetric data) = some (metrics.map fun m => ([underTemplate m], []))
  | [], [], _, _ => rfl
  | [], _ :: _, h, _ | _ :: _, [], h, _ => by cases h
  | d :: defs, m :: metrics, h, hlead => by
    obtain ⟨hname, hnames⟩ := cons.inj h
    obtain ⟨v, hpath, hvalue⟩ := hlead m (mem_cons_self ..)
    have hfirst : x.templateMetric data d = some ([underTemplate m], []) := by
      unfold templateMetric underTemplate
      rw [hname, hpath, ← hvalue]
      rfl
    rw [mapM_cons, hfirst, templateMetrics_eq hnames fun m' hm' =>
      hlead m' (mem_cons_of_mem _ hm')]
    rfl

/-! ## Agreement -/

/-- The two ways to extract agree on some data. -/
structure AgreesOn (data : Value F) : Prop where
  /-- The metrics have pairwise distinct names. -/
  distinct : ((x.autoExtract data).map ExtractedMetric.name).Nodup
  /-- Different leaves have different names. -/
  apart : ∀ path v path' v', (path, v) ∈ data.leaves → (path', v') ∈ data.leaves →
    metricName path = metricName path' → path = path'
  /-- A leaf within the depth limit and not under `_raw` is emitted exactly once. -/
  once : ∀ path v, (path, v) ∈ data.leaves → x.Emits path →
    (x.autoExtract data).filter (fun m => m.name = metricName path)
      = [x.metricAt (metricName path) v]
  /-- The name of a metric leads to its value. -/
  leads : ∀ m ∈ x.autoExtract data, x.LeadsTo data m
  /-- A template with the names of the metrics gives the same metrics as no template. -/
  template : ∀ deviceType deviceType' t, x.getTemplate deviceType = none →
    x.config.autoExtract = true → x.getTemplate deviceType' = some t → t.storeRaw = none →
    t.metrics.map MetricDefinition.name = (x.autoExtract data).map ExtractedMetric.name →
    ∃ r r', x.extract deviceType data = some r ∧ x.extract deviceType' data = some r' ∧
      r.metrics.map nameAndValue = r'.metrics.map nameAndValue

theorem extract_of_template {data : Value F} (hleads : ∀ m ∈ x.autoExtract data, x.LeadsTo data m)
    {deviceType deviceType' : String} {t : DeviceTypeTemplate F}
    (hnone : x.getTemplate deviceType = none) (hauto : x.config.autoExtract = true)
    (hsome : x.getTemplate deviceType' = some t) (hraw : t.storeRaw = none)
    (hnames : t.metrics.map MetricDefinition.name = (x.autoExtract data).map ExtractedMetric.name) :
    ∃ r r', x.extract deviceType data = some r ∧ x.extract deviceType' data = some r' ∧
      r.metrics.map nameAndValue = r'.metrics.map nameAndValue := by
  obtain ⟨system, hsystem⟩ := x.exists_systemMetrics data
  have hfound := x.templateMetrics_eq hnames hleads
  unfold extract
  rw [hsystem, hnone, hsome]
  dsimp only [Option.bind_eq_bind, Option.bind_some, Option.bind_none, Option.getD_none]
  rw [if_pos hauto, hfound]
  simp only [hraw, Option.getD_none]
  by_cases hempty : t.metrics.isEmpty
  · rw [if_pos hempty]
    exact ⟨_, _, rfl, rfl, rfl⟩
  · rw [if_neg hempty]
    refine ⟨_, _, rfl, rfl, ?_⟩
    have hone : ((x.autoExtract data).map fun m => [underTemplate m]).flatten
        = (x.autoExtract data).map underTemplate := by
      rw [← flatMap_def, ← map_eq_flatMap]
    simp only [map_append, map_map, Function.comp_def, hone]
    rfl

theorem plainKey_of_mem_path {data : Value F} (hkeys : PlainKeys data)
    (hleaf : (path, v) ∈ data.leaves) : ∀ key ∈ path, PlainKey key := by
  intro key hkey
  obtain ⟨r, hr, hmem⟩ := exists_record_of_mem_path hleaf hkey
  obtain ⟨field, hfield, rfl⟩ := mem_map.mp hmem
  exact (hkeys r hr).1 field hfield

variable {fields : List (String × Value F)}

theorem path_ne_nil (hleaf : (path, v) ∈ (Doc.object fields).leaves) : path ≠ [] := by
  obtain ⟨field, -, rest, -, rfl⟩ := mem_leaves_object.mp hleaf
  exact cons_ne_nil _ _

/-- Different leaves have different names. -/
theorem leaf_eq_of_metricName_eq (hkeys : PlainKeys (.object fields)) :
    ∀ leaf ∈ (Doc.object fields).leaves, ∀ leaf' ∈ (Doc.object fields).leaves,
      metricName leaf.1 = metricName leaf'.1 → leaf = leaf' := by
  rintro ⟨path, v⟩ hleaf ⟨path', v'⟩ hleaf' heq
  have htrim : path.map trimText = path'.map trimText :=
    dotted_injective (by simpa using path_ne_nil hleaf) (by simpa using path_ne_nil hleaf')
      (parts_of_plain (plainKey_of_mem_path hkeys hleaf))
      (parts_of_plain (plainKey_of_mem_path hkeys hleaf')) heq
  have hnodup := nodup_leaves (d := .object fields) (f := trimText) fun r hr => (hkeys r hr).2
  exact inj_on_of_nodup_map hnodup hleaf hleaf' htrim

theorem nodup_names (hkeys : PlainKeys (.object fields)) :
    ((x.autoExtract (.object fields)).map ExtractedMetric.name).Nodup := by
  have hnodup : (Doc.object fields).leaves.Nodup :=
    (nodup_leaves (d := .object fields) (f := trimText) fun r hr => (hkeys r hr).2).of_map _
  rw [x.autoExtract_eq hkeys, map_map]
  refine List.Nodup.map_on ?_ (hnodup.filter _)
  intro leaf hleaf leaf' hleaf' heq
  exact leaf_eq_of_metricName_eq hkeys leaf (mem_of_mem_filter hleaf) leaf'
    (mem_of_mem_filter hleaf') heq

/-- Where a key does not repeat, one element has it. -/
theorem filter_eq_singleton {α : Type} {f : α → String} {a : α} :
    ∀ {l : List α}, (l.map f).Nodup → a ∈ l → (l.filter fun b => f b = f a) = [a]
  | [], _, h => absurd h not_mem_nil
  | b :: l, hnodup, h => by
    obtain ⟨hnotin, hnodup'⟩ := nodup_cons.mp hnodup
    rcases mem_cons.mp h with rfl | h
    · rw [filter_cons_of_pos (by simp), filter_eq_nil_iff.mpr]
      intro c hc heq
      refine hnotin (mem_map.mpr ⟨c, hc, by simpa using heq⟩)
    · rw [filter_cons_of_neg, filter_eq_singleton hnodup' h]
      intro heq
      exact hnotin (mem_map.mpr ⟨a, h, (by simpa using heq : f b = f a).symm⟩)

theorem mem_autoExtract (hkeys : PlainKeys (.object fields)) {m : ExtractedMetric F} :
    m ∈ x.autoExtract (.object fields) ↔ ∃ path v, (path, v) ∈ (Doc.object fields).leaves ∧
      x.Emits path ∧ m = x.metricAt (metricName path) v := by
  rw [x.autoExtract_eq hkeys, mem_map]
  constructor
  · rintro ⟨⟨path, v⟩, hmem, rfl⟩
    obtain ⟨hleaf, hemits⟩ := mem_filter.mp hmem
    exact ⟨path, v, hleaf, of_decide_eq_true hemits, rfl⟩
  · rintro ⟨path, v, hleaf, hemits, rfl⟩
    exact ⟨(path, v), mem_filter.mpr ⟨hleaf, decide_eq_true hemits⟩, rfl⟩

/-- The name of a leaf's metric leads to its value where the path is not too deep and its keys
were trimmed, or the leaf is null. -/
theorem leadsTo_leaf (hkeys : PlainKeys (.object fields))
    (hleaf : (path, v) ∈ (Doc.object fields).leaves) :
    x.LeadsTo (.object fields) (x.metricAt (metricName path) v) ↔
      path.length ≤ x.config.maxDepth ∧ ((∀ key ∈ path, trimText key = key) ∨ v = .null) := by
  have hextract := x.extractByPath_metricName (path_ne_nil hleaf)
    (plainKey_of_mem_path hkeys hleaf) (.object fields)
  rw [follow_leaf hkeys hleaf] at hextract
  unfold LeadsTo
  show (∃ w, x.extractByPath _ (metricName path) 0 = _ ∧ _ = x.valueToMetricValue v) ↔ _
  rw [hextract]
  by_cases hdepth : path.length ≤ x.config.maxDepth
  · rw [if_pos hdepth]
    by_cases htrim : ∀ key ∈ path, trimText key = key
    · rw [if_pos htrim]
      exact ⟨fun _ => ⟨hdepth, Or.inl htrim⟩, fun _ => ⟨v, rfl, rfl⟩⟩
    · rw [if_neg htrim]
      constructor
      · rintro ⟨w, hw, hvalue⟩
        cases hw
        exact ⟨hdepth, Or.inr (x.valueToMetricValue_eq_null.mp hvalue.symm)⟩
      · rintro ⟨-, hall | rfl⟩
        · exact absurd hall htrim
        · exact ⟨.null, rfl, rfl⟩
  · rw [if_neg hdepth]
    constructor
    · rintro ⟨w, hw, -⟩
      unfold tooDeep at hw
      cases hw
    · rintro ⟨hdepth', -⟩
      exact absurd hdepth' hdepth

/-- Where the two ways agree, the path of an emitted leaf can be followed. -/
theorem AgreesOn.followed (h : x.AgreesOn (.object fields)) (hkeys : PlainKeys (.object fields))
    (hleaf : (path, v) ∈ (Doc.object fields).leaves) (hemits : x.Emits path) :
    path.length ≤ x.config.maxDepth ∧ ((∀ key ∈ path, trimText key = key) ∨ v = .null) := by
  have hmem := (x.mem_autoExtract hkeys).mpr ⟨path, v, hleaf, hemits, rfl⟩
  exact (x.leadsTo_leaf hkeys hleaf).mp (h.leads _ hmem)

/-- The two ways to extract agree on an object if and only if the paths of the emitted leaves are
within the depth limit and their keys are trimmed, or the leaf is null. -/
theorem agreesOn_iff {fields : List (String × Value F)} (hkeys : PlainKeys (.object fields)) :
    x.AgreesOn (.object fields) ↔
      ∀ path v, (path, v) ∈ (Doc.object fields).leaves → x.Emits path →
        path.length ≤ x.config.maxDepth ∧ ((∀ key ∈ path, trimText key = key) ∨ v = .null) := by
  constructor
  · exact fun h path v hleaf hemits => h.followed x hkeys hleaf hemits
  · intro h
    have hleads : ∀ m ∈ x.autoExtract (.object fields), x.LeadsTo (.object fields) m := by
      intro m hm
      obtain ⟨path, v, hleaf, hemits, rfl⟩ := (x.mem_autoExtract hkeys).mp hm
      exact (x.leadsTo_leaf hkeys hleaf).mpr (h path v hleaf hemits)
    constructor
    · exact x.nodup_names hkeys
    · intro path v path' v' hleaf hleaf' heq
      exact (Prod.mk.inj (leaf_eq_of_metricName_eq hkeys _ hleaf _ hleaf' heq)).1
    · intro path v hleaf hemits
      exact filter_eq_singleton (x.nodup_names hkeys)
        ((x.mem_autoExtract hkeys).mpr ⟨path, v, hleaf, hemits, rfl⟩)
    · exact hleads
    · intro deviceType deviceType' t hnone hauto hsome hraw hnames
      exact x.extract_of_template hleads hnone hauto hsome hraw hnames

/-- An extractor with a depth limit, for data without floating-point numbers and lists. -/
def withDepth (maxDepth : ℕ) : UnifiedExtractor Float.Model :=
  ⟨⟨true, true, maxDepth, false⟩, fun _ => none, Float.Model.ofInt, fun _ => ""⟩

/-- A device's report. -/
def report : List (String × Value Float.Model) :=
  [("values", .object [("battery", .number (.int 85)), ("charging", .bool true)]),
    ("ts", .number (.int 1700000000))]

/-- Whether the keys of some data are plain. -/
def checkKeys (data : Value Float.Model) : Bool :=
  data.records.all fun r =>
    r.all (fun field => decide (trimText field.1 ≠ "") &&
      field.1.toList.all fun c => decide (c ∉ ['.', '[', ']', '$'])) &&
    decide (r.map fun field => trimText field.1).Nodup

theorem plainKeys_of_check {data : Value Float.Model} (h : checkKeys data = true) :
    PlainKeys data := by
  intro r hr
  obtain ⟨hfields, hnodup⟩ := Bool.and_eq_true_iff.mp (all_eq_true.mp h r hr)
  refine ⟨fun field hfield => ?_, of_decide_eq_true hnodup⟩
  obtain ⟨hne, hplain⟩ := Bool.and_eq_true_iff.mp (all_eq_true.mp hfields field hfield)
  exact ⟨of_decide_eq_true hne, fun c hc => of_decide_eq_true (all_eq_true.mp hplain c hc)⟩

theorem plainKeys_report : PlainKeys (.object report) := plainKeys_of_check (by decide)

theorem agreesOn_report : (withDepth 10).AgreesOn (.object report) := by
  rw [agreesOn_iff _ plainKeys_report]
  intro path v hleaf _
  simp only [report, Doc.leaves, leavesFields, map_cons, map_nil, append_nil,
    cons_append, nil_append, mem_cons, Prod.mk.injEq, not_mem_nil,
    or_false] at hleaf
  rcases hleaf with ⟨rfl, -⟩ | ⟨rfl, -⟩ | ⟨rfl, -⟩
  · exact ⟨by decide, Or.inl (by decide)⟩
  · exact ⟨by decide, Or.inl (by decide)⟩
  · exact ⟨by decide, Or.inl (by decide)⟩

/-- A report with a blank before a key. -/
def spacedReport : List (String × Value Float.Model) := [(" temp", .number (.int 21))]

/-- A key with a blank is trimmed in the name but not in the data, and a path of two keys is emitted
but not followed under a depth limit of one. -/
theorem spaced_key_lost :
    (PlainKeys (.object spacedReport) ∧ ¬ (withDepth 10).AgreesOn (.object spacedReport)) ∧
      (PlainKeys (.object report) ∧ ¬ (withDepth 1).AgreesOn (.object report)) := by
  have hspaced : PlainKeys (.object spacedReport) := plainKeys_of_check (by decide)
  refine ⟨⟨hspaced, fun h => ?_⟩, plainKeys_report, fun h => ?_⟩
  · have hleaf : ([" temp"], Doc.number (.int 21)) ∈ (Doc.object spacedReport).leaves := by
      simp [spacedReport, Doc.leaves, leavesFields]
    obtain ⟨-, htrim | hnull⟩ := h.followed _ hspaced hleaf (by decide)
    · exact absurd htrim (by decide)
    · cases hnull
  · have hleaf : (["values", "battery"], Doc.number (.int 85)) ∈ (Doc.object report).leaves := by
      simp [report, Doc.leaves, leavesFields]
    exact absurd (h.followed _ plainKeys_report hleaf (by decide)).1 (by decide)

end UnifiedExtractor

end HeraMind.Devices
