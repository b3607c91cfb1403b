/-
# The leaves of a document

A leaf of a document is a value below its records that is not a record itself: records are
entered, lists are not.  The path of a leaf is the keys that lead to it.  Where the keys of
every record stay different under a renaming, the leaves keep different paths.
-/
import HeraMind.Lib.Serde
import Mathlib.Data.List.Nodup

namespace Serde

open List

variable {N : Type} {d v : Doc N} {fields : List (String × Doc N)} {p : List String}

/-- Whether the document is a record. -/
def Doc.isObject : Doc N → Bool
  | .object _ => true
  | _ => false

mutual

/-- The leaves of a document with their paths. -/
def Doc.leaves : Doc N → List (List String × Doc N)
  | .null => [([], .null)]
  | .bool b => [([], .bool b)]
  | .number n => [([], .number n)]
  | .string s => [([], .string s)]
  | .array items => [([], .array items)]
  | .object fields => leavesFields fields

/-- The leaves below some fields. -/
def leavesFields : List (String × Doc N) → List (List String × Doc N)
  | [] => []
  | (k, d) :: fields => (d.leaves.map fun leaf => (k :: leaf.1, leaf.2)) ++ leavesFields fields

end

mutual

/-- The records of a document that are reached through records. -/
def Doc.records : Doc N → List (List (String × Doc N))
  | .null | .bool _ | .number _ | .string _ | .array _ => []
  | .object fields => fields :: recordsFields fields

/-- The records below some fields. -/
def recordsFields : List (String × Doc N) → List (List (String × Doc N))
  | [] => []
  | (_, d) :: fields => d.records ++ recordsFields fields

end

/-- Induction over records: the fields of a record come before it. -/
theorem Doc.record_induction {P : Doc N → Prop} (leaf : ∀ d, d.isObject = false → P d)
    (record : ∀ fields, (∀ field ∈ fields, P field.2) → P (.object fields)) : ∀ d, P d
  | .null | .bool _ | .number _ | .string _ | .array _ => leaf _ rfl
  | .object fields =>
    record fields fun field hfield => by
      have hsize : sizeOf field < sizeOf fields := sizeOf_lt_of_mem hfield
      obtain ⟨k, d⟩ := field
      exact Doc.record_induction leaf record d
  termination_by d => sizeOf d
  decreasing_by
    simp only [Prod.mk.sizeOf_spec, Doc.object.sizeOf_spec] at hsize ⊢
    omega

theorem leaves_of_not_object (h : d.isObject = false) : d.leaves = [([], d)] := by
  cases d with
  | object fields => exact absurd h (by simp [Doc.isObject])
  | null | bool b | number n | string s | array items => rfl

theorem leavesFields_eq_flatMap (fields : List (String × Doc N)) :
    leavesFields fields
      = fields.flatMap fun field => field.2.leaves.map fun leaf => (field.1 :: leaf.1, leaf.2) := by
  induction fields with
  | nil => rfl
  | cons field fields ih =>
    rw [flatMap_cons, ← ih]
    rfl

theorem recordsFields_eq_flatMap (fields : List (String × Doc N)) :
    recordsFields fields = fields.flatMap fun field => field.2.records := by
  induction fields with
  | nil => rfl
  | cons field fields ih =>
    rw [flatMap_cons, ← ih]
    rfl

/-- A leaf of a record is a leaf of one of its fields. -/
theorem mem_leaves_object :
    (p, v) ∈ (Doc.object fields).leaves
      ↔ ∃ field ∈ fields, ∃ q, (q, v) ∈ field.2.leaves ∧ p = field.1 :: q := by
  show _ ∈ leavesFields fields ↔ _
  rw [leavesFields_eq_flatMap, mem_flatMap]
  constructor
  · rintro ⟨field, hfield, hmem⟩
    obtain ⟨⟨q, w⟩, hleaf, heq⟩ := mem_map.mp hmem
    cases heq
    exact ⟨field, hfield, q, hleaf, rfl⟩
  · rintro ⟨field, hfield, q, hleaf, rfl⟩
    exact ⟨field, hfield, mem_map.mpr ⟨(q, v), hleaf, rfl⟩⟩

theorem mem_records_object {r : List (String × Doc N)} :
    r ∈ (Doc.object fields).records ↔ r = fields ∨ ∃ field ∈ fields, r ∈ field.2.records := by
  show r ∈ fields :: recordsFields fields ↔ _
  rw [recordsFields_eq_flatMap, mem_cons, mem_flatMap]

theorem records_subset {field : String × Doc N} (h : field ∈ fields) :
    field.2.records ⊆ (Doc.object fields).records := fun _ hr =>
  mem_records_object.mpr (Or.inr ⟨field, h, hr⟩)

/-- A key on the path of a leaf is a key of a record. -/
theorem exists_record_of_mem_path {k : String} :
    ∀ {p}, (p, v) ∈ d.leaves → k ∈ p → ∃ r ∈ d.records, k ∈ r.map Prod.fst := by
  induction d using Doc.record_induction with
  | leaf d hd =>
    intro p hleaf hk
    rw [leaves_of_not_object hd, mem_singleton] at hleaf
    cases hleaf
    exact absurd hk not_mem_nil
  | record fields ih =>
    intro p hleaf hk
    obtain ⟨field, hfield, q, hq, rfl⟩ := mem_leaves_object.mp hleaf
    rcases mem_cons.mp hk with rfl | hk
    · exact ⟨fields, mem_records_object.mpr (Or.inl rfl), mem_map_of_mem hfield⟩
    · obtain ⟨r, hr, hkr⟩ := ih field hfield hq hk
      exact ⟨r, records_subset hfield hr, hkr⟩

/-- Where the renamed keys of every record are different, so are the renamed paths. -/
theorem nodup_leaves {f : String → String} :
    (∀ r ∈ d.records, (r.map fun field => f field.1).Nodup) →
      (d.leaves.map fun leaf => leaf.1.map f).Nodup := by
  induction d using Doc.record_induction with
  | leaf d hd =>
    intro _
    rw [leaves_of_not_object hd]
    exact nodup_singleton _
  | record fields ih =>
    intro h
    rw [Doc.leaves, leavesFields_eq_flatMap, map_flatMap, nodup_flatMap]
    constructor
    · intro field hfield
      have hnodup := ih field hfield fun r hr => h r (records_subset hfield hr)
      have hcons : Function.Injective (f field.1 :: ·) := fun _ _ heq => (cons.inj heq).2
      simpa [map_map, Function.comp_def] using hnodup.map hcons
    · have hkeys : (fields.map fun field => f field.1).Nodup :=
        h fields (mem_records_object.mpr (Or.inl rfl))
      -- the paths below two fields differ in their first key
      refine (pairwise_map.mp hkeys).imp fun {a b} hne => ?_
      intro path ha hb
      simp only [map_map, mem_map, Function.comp_apply, map_cons] at ha hb
      obtain ⟨_, -, rfl⟩ := ha
      obtain ⟨_, -, heq⟩ := hb
      exact hne (cons.inj heq).1.symm

/-! ## Looking up -/

/-- Where keys do not repeat, each is found. -/
theorem lookup_eq_some_of_mem {k : String} (hnodup : (fields.map Prod.fst).Nodup)
    (h : (k, d) ∈ fields) : fields.lookup k = some d := by
  induction fields with
  | nil => cases h
  | cons field fields ih =>
    obtain ⟨hnotin, hnodup⟩ := nodup_cons.mp hnodup
    rcases mem_cons.mp h with rfl | h
    · exact lookup_cons_self
    · have hne : ¬ k = field.1 := by
        rintro rfl
        exact hnotin (mem_map.mpr ⟨(field.1, d), h, rfl⟩)
      rw [List.lookup_cons, beq_eq_false_iff_ne.mpr hne]
      exact ih hnodup h

theorem lookup_eq_none_of_not_mem {k : String} (h : k ∉ fields.map Prod.fst) :
    fields.lookup k = none := by
  rw [lookup_eq_none_iff]
  intro field hfield
  rw [bne_iff_ne]
  rintro rfl
  exact h (mem_map_of_mem hfield)

end Serde
