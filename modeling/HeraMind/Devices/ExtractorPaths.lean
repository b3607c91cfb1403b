/-
# Names that auto-extraction gives

Auto-extraction turns the leaves of an object into metrics: a metric is named by the path of its
leaf, whose keys are trimmed and joined by dots.  Extraction by path takes such a name apart again
and follows its keys.  It gives the leaf back where the path is not too deep and its keys were
trimmed all along.
-/
import HeraMind.Devices.Extractor

namespace HeraMind.Devices

open List
open Serde
open HeraMind.Rules (isWhitespace)

/-! ## Names -/

/-- Keys joined by dots. -/
def dotted (keys : List String) : String :=
  String.ofList (['.'].intercalate (keys.map String.toList))

/-- The name of the metric at a path. -/
def metricName (path : List String) : String := dotted (path.map trimText)

/-- A key that can be part of a name. -/
def PlainKey (key : String) : Prop :=
  trimText key ≠ "" ∧ ∀ c ∈ key.toList, c ∉ ['.', '[', ']', '$']

/-- The keys of the objects of a document can be part of names, and trimmed they are different
within one object. -/
def PlainKeys {F : Type} (data : Value F) : Prop :=
  ∀ r ∈ data.records, (∀ field ∈ r, PlainKey field.1) ∧ (r.map fun field => trimText field.1).Nodup

theorem toList_trimText (key : String) :
    (trimText key).toList = ByteText.trim isWhitespace key.toList := String.toList_ofList

theorem trimText_trimText (key : String) : trimText (trimText key) = trimText key := by
  unfold trimText
  rw [String.toList_ofList, ByteText.trim_trim]

/-- The key after trimming, as a part of a name. -/
structure NamePart (part : List Char) : Prop where
  ne_nil : part ≠ []
  trimmed : ByteText.trim isWhitespace part = part
  plain : ∀ c ∈ part, c ∉ ['.', '[', ']', '$']

theorem PlainKey.namePart {key : String} (h : PlainKey key) : NamePart (trimText key).toList := by
  obtain ⟨hne, hplain⟩ := h
  refine ⟨fun hnil => hne (String.toList_inj.mp (by rw [hnil]; rfl)), ?_, ?_⟩
  · rw [← toList_trimText, trimText_trimText]
  · intro c hc
    rw [toList_trimText] at hc
    exact hplain c ((ByteText.trim_isInfix isWhitespace key.toList).subset hc)

theorem dot_not_mem {part : List Char} (h : NamePart part) : '.' ∉ part := fun hmem =>
  h.plain '.' hmem (by decide)

/-- A name is trimmed, and it does not end with a dot. -/
theorem ends_of_parts {parts : List (List Char)} (hne : parts ≠ [])
    (h : ∀ part ∈ parts, NamePart part) :
    ['.'].intercalate parts ≠ [] ∧
      ByteText.trim isWhitespace (['.'].intercalate parts) = ['.'].intercalate parts ∧
      (['.'].intercalate parts).getLast? ≠ some '.' := by
  induction parts with
  | nil => exact absurd rfl hne
  | cons part parts ih =>
    have hpart := h part (mem_cons_self ..)
    by_cases hnil : parts = []
    · subst hnil
      rw [intercalate_singleton]
      refine ⟨hpart.ne_nil, hpart.trimmed, fun hlast => ?_⟩
      exact dot_not_mem hpart (mem_of_getLast? hlast)
    · obtain ⟨hne', htrim, hlast⟩ := ih hnil fun part' h' => h part' (mem_cons_of_mem _ h')
      rw [intercalate_cons_of_ne_nil hnil, append_assoc]
      refine ⟨by simp [hpart.ne_nil], ?_, ?_⟩
      · exact ByteText.trim_append hpart.trimmed htrim hpart.ne_nil hne'
      · rw [getLast?_append_of_ne_nil _ (by simp), getLast?_append_of_ne_nil _ hne']
        exact hlast

/-- A name is split at its dots again. -/
theorem splitOn_dotted {keys : List String} (hne : keys ≠ [])
    (h : ∀ key ∈ keys, NamePart key.toList) :
    (dotted keys).toList.splitOn '.' = keys.map String.toList := by
  unfold dotted
  rw [String.toList_ofList]
  refine splitOn_intercalate '.' ?_ (by simpa using hne)
  intro part hpart
  obtain ⟨key, hkey, rfl⟩ := mem_map.mp hpart
  exact dot_not_mem (h key hkey)

theorem dotted_injective {keys keys' : List String} (hne : keys ≠ []) (hne' : keys' ≠ [])
    (h : ∀ key ∈ keys, NamePart key.toList) (h' : ∀ key ∈ keys', NamePart key.toList)
    (heq : dotted keys = dotted keys') : keys = keys' := by
  have hsplit := splitOn_dotted hne h
  rw [heq, splitOn_dotted hne' h'] at hsplit
  have hinj : Function.Injective String.toList := fun _ _ => String.toList_inj.mp
  exact (map_injective_iff.mpr hinj hsplit).symm

variable {path : List String}

theorem parts_of_plain (h : ∀ key ∈ path, PlainKey key) :
    ∀ key ∈ path.map trimText, NamePart key.toList := by
  intro key hkey
  obtain ⟨rawKey, hraw, rfl⟩ := mem_map.mp hkey
  exact (h rawKey hraw).namePart

theorem metricName_ne_empty (hne : path ≠ [])
    (h : ∀ key ∈ path, PlainKey key) : metricName path ≠ "" := by
  intro hempty
  have hparts : ∀ part ∈ (path.map trimText).map String.toList, NamePart part := by
    intro part hpart
    obtain ⟨key, hkey, rfl⟩ := mem_map.mp hpart
    exact parts_of_plain h key hkey
  refine (ends_of_parts (by simpa using hne) hparts).1 ?_
  have htext : (metricName path).toList = [] := by rw [hempty]; rfl
  unfold metricName dotted at htext
  rwa [String.toList_ofList] at htext

theorem intercalate_concat {parts : List (List Char)} (part : List Char) (hne : parts ≠ []) :
    ['.'].intercalate (parts ++ [part]) = ['.'].intercalate parts ++ ('.' :: part) := by
  induction parts with
  | nil => exact absurd rfl hne
  | cons first parts ih =>
    by_cases hnil : parts = []
    · subst hnil
      show ['.'].intercalate [first, part] = _
      rw [intercalate_cons_of_ne_nil (by simp), intercalate_singleton,
        intercalate_singleton, append_assoc]
      rfl
    · rw [cons_append, intercalate_cons_of_ne_nil (by simp), ih hnil,
        intercalate_cons_of_ne_nil hnil, append_assoc, append_assoc,
        append_assoc]

/-- The name of a path grows by a dot and a key. -/
theorem childPath_metricName {key : String} (h : ∀ key ∈ path, PlainKey key) :
    UnifiedExtractor.childPath (metricName path) (trimText key) = metricName (path ++ [key]) := by
  unfold UnifiedExtractor.childPath
  by_cases hnil : path = []
  · subst hnil
    have hempty : metricName [] = "" := rfl
    rw [if_pos hempty]
    show _ = String.ofList (['.'].intercalate [(trimText key).toList])
    rw [intercalate_singleton, String.ofList_toList]
  · rw [if_neg (metricName_ne_empty hnil h)]
    unfold metricName dotted
    rw [map_append, map_append, map_singleton, map_singleton,
      intercalate_concat _ (by simpa using hnil), String.ofList_append]
    have hdot : String.ofList ('.' :: (trimText key).toList) = "." ++ trimText key := by
      apply String.toList_inj.mp
      rw [String.toList_append, String.toList_ofList]
      rfl
    rw [hdot, String.append_assoc]

namespace UnifiedExtractor

variable {F : Type} (x : UnifiedExtractor F)

/-! ## What auto-extraction emits -/

/-- Whether the leaf at a path lies within the depth limit and not under `_raw`. -/
def Emits (path : List String) : Prop :=
  path.length ≤ x.config.maxDepth + 1 ∧ ∀ key ∈ path, trimText key ≠ "_raw"

instance (path : List String) : Decidable (x.Emits path) := by
  unfold Emits
  infer_instance

/-- The metric of a leaf below a path. -/
def leafMetric (path : List String) (leaf : List String × Value F) : ExtractedMetric F :=
  x.metricAt (metricName (path ++ leaf.1)) leaf.2

/-- The leaves below a path that are emitted. -/
def emitted (path : List String) (leaves : List (List String × Value F)) :
    List (List String × Value F) :=
  leaves.filter fun leaf => x.Emits (path ++ leaf.1)

/-- The path to an object that auto-extraction has entered. -/
def Entered (path : List String) : Prop :=
  ∀ key ∈ path, PlainKey key ∧ trimText key ≠ "_raw"

variable {path : List String}

theorem Entered.concat {key : String} (h : Entered path)
    (hkey : PlainKey key) (hraw : trimText key ≠ "_raw") : Entered (path ++ [key]) := by
  intro key' hmem
  rcases mem_append.mp hmem with hmem | hmem
  · exact h key' hmem
  · rw [mem_singleton.mp hmem]
    exact ⟨hkey, hraw⟩

/-- Below an object that auto-extraction has entered, the metrics of a document are those of its
leaves. -/
def Flattens (d : Value F) : Prop :=
  ∀ path, Entered path → d.isObject = true → PlainKeys d →
    x.autoExtractRecursive d (metricName path) path.length
      = (x.emitted path d.leaves).map (x.leafMetric path)

theorem emitted_map_cons (path : List String) (key : String)
    (leaves : List (List String × Value F)) :
    (x.emitted path (leaves.map fun leaf => (key :: leaf.1, leaf.2))).map (x.leafMetric path)
      = (x.emitted (path ++ [key]) leaves).map (x.leafMetric (path ++ [key])) := by
  unfold emitted
  rw [filter_map, map_map]
  have hfilter : ((fun leaf : List String × Value F => decide (x.Emits (path ++ leaf.1)))
      ∘ fun leaf : List String × Value F => (key :: leaf.1, leaf.2))
      = fun leaf : List String × Value F => decide (x.Emits ((path ++ [key]) ++ leaf.1)) := by
    funext leaf
    simp
  have hmap : (x.leafMetric path ∘ fun leaf : List String × Value F => (key :: leaf.1, leaf.2))
      = x.leafMetric (path ++ [key]) := by
    funext leaf
    simp [leafMetric]
  rw [hfilter, hmap]

theorem emitted_eq_nil {leaves : List (List String × Value F)}
    (h : ∀ leaf ∈ leaves, ¬ x.Emits (path ++ leaf.1)) : x.emitted path leaves = [] := by
  unfold emitted
  rw [filter_eq_nil_iff]
  intro leaf hleaf
  simpa using h leaf hleaf

/-- A value that is not an object is one metric. -/
theorem emitted_of_not_object {key : String} {value : Value F}
    (hpath : Entered (path ++ [key])) (hdepth : path.length ≤ x.config.maxDepth)
    (hvalue : value.isObject = false) :
    (x.emitted (path ++ [key]) value.leaves).map (x.leafMetric (path ++ [key]))
      = [x.metricAt (metricName (path ++ [key])) value] := by
  have hemits : x.Emits ((path ++ [key]) ++ []) := by
    rw [append_nil]
    exact ⟨by simpa using hdepth, fun key' h => (hpath key' h).2⟩
  unfold emitted
  rw [leaves_of_not_object hvalue, filter_singleton, decide_eq_true hemits]
  simp [leafMetric]

theorem autoExtractFields_eq (hpath : Entered path) (hdepth : path.length ≤ x.config.maxDepth) :
    ∀ fields : List (String × Value F),
      (∀ field ∈ fields, PlainKey field.1 ∧ PlainKeys field.2 ∧ x.Flattens field.2) →
        x.autoExtractFields fields (metricName path) path.length
          = (x.emitted path (leavesFields fields)).map (x.leafMetric path)
  | [], _ => rfl
  | (rawKey, value) :: fields, h => by
    obtain ⟨hkey, hkeys, hflattens⟩ := h _ (mem_cons_self ..)
    have ih := autoExtractFields_eq hpath hdepth fields fun field hfield =>
      h field (mem_cons_of_mem _ hfield)
    have hfirst : x.emitted path (leavesFields ((rawKey, value) :: fields))
        = x.emitted path (value.leaves.map fun leaf => (rawKey :: leaf.1, leaf.2))
          ++ x.emitted path (leavesFields fields) := by
      rw [leavesFields]
      exact filter_append ..
    rw [autoExtractFields, ih, hfirst, map_append]
    refine congrArg (· ++ _) ?_
    rw [if_neg hkey.1]
    by_cases hraw : trimText rawKey = "_raw"
    · rw [if_pos hraw, emitted_eq_nil]
      · rfl
      · intro leaf hleaf hemits
        obtain ⟨leaf', -, rfl⟩ := mem_map.mp hleaf
        exact hemits.2 rawKey (by simp) hraw
    · have hpath' := hpath.concat hkey hraw
      rw [if_neg hraw, emitted_map_cons, childPath_metricName fun key hmem => (hpath key hmem).1]
      cases value with
      | object nested =>
        have hrec := hflattens (path ++ [rawKey]) hpath' rfl hkeys
        rw [length_append, length_singleton] at hrec
        rw [← hrec]
        cases nested with
        | nil =>
          rw [autoExtractRecursive]
          simp [autoExtractFields]
        | cons first rest => rfl
      | array items =>
        rw [x.emitted_of_not_object hpath' hdepth rfl]
        exact ite_self _
      | null | bool b | number n | string s => rw [x.emitted_of_not_object hpath' hdepth rfl]

theorem flattens (d : Value F) : x.Flattens d := by
  induction d using Doc.record_induction with
  | leaf d hd =>
    intro path _ hobject _
    rw [hd] at hobject
    exact absurd hobject (by decide)
  | record fields ih =>
    intro path hpath _ hkeys
    rw [autoExtractRecursive]
    by_cases hdepth : x.config.maxDepth < path.length
    · rw [if_pos hdepth, emitted_eq_nil]
      · rfl
      · -- the path of a leaf of an object has a key
        rintro ⟨p, v⟩ hleaf hemits
        obtain ⟨field, -, q, -, rfl⟩ := mem_leaves_object.mp hleaf
        have hlen := hemits.1
        rw [length_append, length_cons] at hlen
        omega
    · rw [if_neg hdepth, Doc.leaves]
      refine x.autoExtractFields_eq hpath (by omega) fields fun field hfield => ?_
      refine ⟨(hkeys fields (mem_records_object.mpr (Or.inl rfl))).1 field hfield, ?_,
        ih field hfield⟩
      exact fun r hr => hkeys r (records_subset hfield hr)

/-- The metrics of auto-extraction are those of the leaves that are emitted. -/
theorem autoExtract_eq {fields : List (String × Value F)} (hkeys : PlainKeys (.object fields)) :
    x.autoExtract (.object fields)
      = ((Doc.object fields).leaves.filter fun leaf => x.Emits leaf.1).map
          fun leaf => x.metricAt (metricName leaf.1) leaf.2 :=
  x.flattens (.object fields) [] (fun _ h => absurd h not_mem_nil) rfl hkeys

end UnifiedExtractor

end HeraMind.Devices
