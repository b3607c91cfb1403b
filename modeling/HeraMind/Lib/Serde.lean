/-
# Records written as documents

Documents with lists and records, the nesting and the numbers of a document, codecs that write
values as documents and read them, and records, which are written field by field.  A document is
read from the text it was written to: the numbers come back as the text gives them.

A key a reader knows must not repeat in the record it reads; the keys it does not know are skipped,
or collected by a reader with a rest.
-/
import Mathlib.Data.List.Basic
import Mathlib.Data.Option.Basic

namespace Serde

open Option hiding filter_filter map_map mem_map mem_map_of_mem
open List

/-! ## Documents -/

/-- A document with numbers in `N`.  The keys of a record may repeat. -/
inductive Doc (N : Type) : Type where
  | null
  | bool (b : Bool)
  | number (n : N)
  | string (s : String)
  | array (items : List (Doc N))
  | object (fields : List (String × Doc N))

variable {N α β ρ : Type}

mutual

/-- The document with every number as the text gives it. -/
def Doc.reread (f : N → N) : Doc N → Doc N
  | .null => .null
  | .bool b => .bool b
  | .number n => .number (f n)
  | .string s => .string s
  | .array items => .array (rereadItems f items)
  | .object fields => .object (rereadFields f fields)

/-- The items of a list as the text gives them. -/
def rereadItems (f : N → N) : List (Doc N) → List (Doc N)
  | [] => []
  | d :: items => d.reread f :: rereadItems f items

/-- The fields of a record as the text gives them. -/
def rereadFields (f : N → N) : List (String × Doc N) → List (String × Doc N)
  | [] => []
  | (k, d) :: fields => (k, d.reread f) :: rereadFields f fields

end

mutual

/-- How deeply lists and records are nested. -/
def Doc.depth : Doc N → ℕ
  | .null | .bool _ | .number _ | .string _ => 0
  | .array items => depthItems items + 1
  | .object fields => depthFields fields + 1

/-- The deepest of some items. -/
def depthItems : List (Doc N) → ℕ
  | [] => 0
  | d :: items => max d.depth (depthItems items)

/-- The deepest of some fields. -/
def depthFields : List (String × Doc N) → ℕ
  | [] => 0
  | (_, d) :: fields => max d.depth (depthFields fields)

end

theorem depthFields_append (fields fields' : List (String × Doc N)) :
    depthFields (fields ++ fields') = max (depthFields fields) (depthFields fields') := by
  induction fields with
  | nil => exact (Nat.zero_max _).symm
  | cons field fields ih =>
    show max field.2.depth (depthFields (fields ++ fields')) = _
    rw [ih, ← Nat.max_assoc]
    rfl

/-- A field with its document as the text gives it. -/
def rereadField (f : N → N) (field : String × Doc N) : String × Doc N :=
  (field.1, field.2.reread f)

theorem rereadItems_eq_map (f : N → N) (items : List (Doc N)) :
    rereadItems f items = items.map (Doc.reread f) := by
  induction items with
  | nil => rfl
  | cons d items ih =>
    show d.reread f :: rereadItems f items = _
    rw [ih, map_cons]

theorem rereadFields_eq_map (f : N → N) (fields : List (String × Doc N)) :
    rereadFields f fields = fields.map (rereadField f) := by
  induction fields with
  | nil => rfl
  | cons field fields ih =>
    show (field.1, field.2.reread f) :: rereadFields f fields = _
    rw [ih, map_cons]
    rfl

@[simp] theorem reread_array (f : N → N) (items : List (Doc N)) :
    (Doc.array items).reread f = .array (items.map (Doc.reread f)) :=
  congrArg Doc.array (rereadItems_eq_map f items)

@[simp] theorem reread_object (f : N → N) (fields : List (String × Doc N)) :
    (Doc.object fields).reread f = .object (fields.map (rereadField f)) :=
  congrArg Doc.object (rereadFields_eq_map f fields)

@[simp] theorem reread_null (f : N → N) : (Doc.null : Doc N).reread f = .null :=
  (rfl)

@[simp] theorem reread_bool (f : N → N) (b : Bool) : (Doc.bool b : Doc N).reread f = .bool b :=
  (rfl)

@[simp] theorem reread_number (f : N → N) (n : N) : (Doc.number n).reread f = .number (f n) :=
  (rfl)

@[simp] theorem reread_string (f : N → N) (s : String) :
    (Doc.string s : Doc N).reread f = .string s :=
  (rfl)

/-- Whether the document is the null document. -/
def Doc.isNull : Doc N → Bool
  | .null => true
  | _ => false

@[simp] theorem isNull_reread (f : N → N) (d : Doc N) : (d.reread f).isNull = d.isNull := by
  cases d with
  | null => rw [reread_null]
  | bool b => rw [reread_bool]
  | number n => rw [reread_number]; rfl
  | string s => rw [reread_string]
  | array items => rw [reread_array]; rfl
  | object fields => rw [reread_object]; rfl

/-! ## Lists read item by item -/

theorem mapM_eq_some_map {g : α → Option β} {k : α → β} {xs : List α}
    (h : ∀ x ∈ xs, g x = some (k x)) : xs.mapM g = some (xs.map k) := by
  induction xs with
  | nil => rfl
  | cons x xs ih =>
    rw [mapM_cons, h x (mem_cons_self ..), ih fun y hy => h y (mem_cons_of_mem _ hy)]
    rfl

theorem length_of_mapM {g : α → Option β} {xs : List α} {ys : List β}
    (h : xs.mapM g = some ys) : ys.length = xs.length := by
  induction xs generalizing ys with
  | nil =>
    rw [mapM_nil, Option.pure_def, some.injEq] at h
    rw [← h]
    rfl
  | cons x xs ih =>
    rw [mapM_cons, bind_eq_bind, bind_eq_some_iff] at h
    obtain ⟨y, -, h⟩ := h
    rw [bind_eq_bind, bind_eq_some_iff] at h
    obtain ⟨zs, hzs, h⟩ := h
    rw [Option.pure_def, some.injEq] at h
    rw [← h, length_cons, length_cons, ih hzs]

/-- A list is recovered exactly where each of its items is. -/
theorem exists_mapM_iff (g : α → Option β) (k : β → α) (xs : List α) :
    (∃ ys, xs.mapM g = some ys ∧ ys.map k = xs) ↔ ∀ x ∈ xs, ∃ y, g x = some y ∧ k y = x := by
  induction xs with
  | nil =>
    constructor
    · intro _ x hx
      cases hx
    · intro _
      exact ⟨[], rfl, rfl⟩
  | cons x xs ih =>
    constructor
    · rintro ⟨ys, hys, hback⟩
      rw [mapM_cons, bind_eq_bind, bind_eq_some_iff] at hys
      obtain ⟨y, hy, hys⟩ := hys
      rw [bind_eq_bind, bind_eq_some_iff] at hys
      obtain ⟨zs, hzs, hys⟩ := hys
      rw [Option.pure_def, some.injEq] at hys
      rw [← hys, map_cons, cons.injEq] at hback
      intro z hz
      rcases mem_cons.mp hz with rfl | hz
      · exact ⟨y, hy, hback.1⟩
      · exact ih.mp ⟨zs, hzs, hback.2⟩ z hz
    · intro h
      obtain ⟨y, hy, hback⟩ := h x (mem_cons_self ..)
      obtain ⟨ys, hys, hbacks⟩ := ih.mpr fun z hz => h z (mem_cons_of_mem _ hz)
      refine ⟨y :: ys, ?_, ?_⟩
      · rw [mapM_cons, hy, hys]
        rfl
      · rw [map_cons, hback, hbacks]

/-- A list whose items are turned into others first is recovered exactly where each item is. -/
theorem exists_mapM_map_iff (p : α → β) (g : β → Option β) (k : β → α) (xs : List α) :
    (∃ ys, (xs.map p).mapM g = some ys ∧ ys.map k = xs) ↔
      ∀ x ∈ xs, ∃ y, g (p x) = some y ∧ k y = x := by
  rw [mapM_map]
  exact exists_mapM_iff (g ∘ p) k xs

/-- A list some items of which are left out is recovered exactly where none is and each of them
is recovered. -/
theorem exists_mapM_filterMap_iff (p : α → Option β) (g : β → Option β) (k : β → α)
    (xs : List α) :
    (∃ ys, (xs.filterMap p).mapM g = some ys ∧ ys.map k = xs) ↔
      ∀ x ∈ xs, ∃ b, p x = some b ∧ ∃ y, g b = some y ∧ k y = x := by
  have hall (h : ∀ x ∈ xs, (p x).isSome = true) :
      (xs.filterMap p).mapM g = xs.mapM fun x => (p x).bind g := by
    clear * - h
    induction xs with
    | nil => rfl
    | cons x xs ih =>
      obtain ⟨b, hb⟩ := isSome_iff_exists.mp (h x (mem_cons_self ..))
      rw [filterMap_cons_some hb, mapM_cons, mapM_cons, hb,
        ih fun z hz => h z (mem_cons_of_mem _ hz)]
      rfl
  constructor
  · rintro ⟨ys, hys, hback⟩
    have hlen : (xs.filterMap p).length = xs.length := by
      rw [← length_of_mapM hys, ← length_map (f := k), hback]
    have hsome := filterMap_length_eq_length.mp hlen
    rw [hall hsome] at hys
    intro x hx
    obtain ⟨y, hy, hkx⟩ := (exists_mapM_iff _ k xs).mp ⟨ys, hys, hback⟩ x hx
    obtain ⟨b, hb, hg⟩ := bind_eq_some_iff.mp hy
    exact ⟨b, hb, y, hg, hkx⟩
  · intro h
    have hsome : ∀ x ∈ xs, (p x).isSome = true := by
      intro x hx
      obtain ⟨b, hb, -⟩ := h x hx
      rw [hb]
      rfl
    rw [hall hsome]
    apply (exists_mapM_iff _ k xs).mpr
    intro x hx
    obtain ⟨b, hb, y, hy, hkx⟩ := h x hx
    exact ⟨y, by rw [hb]; exact hy, hkx⟩

/-! ## Codecs -/

/-- How values of a type are written and read. -/
structure Codec (N α : Type) where
  write : α → Doc N
  read : Doc N → Option α

namespace Codec

/-- What is read where a value was written. -/
def back (c : Codec N α) (f : N → N) (a : α) : Option α :=
  c.read ((c.write a).reread f)

/-- Texts. -/
def string : Codec N String where
  write := .string
  read
    | .string s => some s
    | _ => none

/-- Booleans. -/
def bool : Codec N Bool where
  write := .bool
  read
    | .bool b => some b
    | _ => none

/-- Documents as they are. -/
def value : Codec N (Doc N) where
  write := id
  read := some

/-- Lists. -/
def list (c : Codec N α) : Codec N (List α) where
  write xs := .array (xs.map c.write)
  read
    | .array items => items.mapM c.read
    | _ => none

/-- Values that may be missing. -/
def option (c : Codec N α) : Codec N (Option α) where
  write
    | none => .null
    | some a => c.write a
  read d := if d.isNull then some none else (c.read d).map some

/-- An entry of a table, read as one. -/
def readEntry (c : Codec N α) (field : String × Doc N) : Option (String × α) :=
  (c.read field.2).map fun a => (field.1, a)

/-- Tables from texts, by their entries. -/
def entries (c : Codec N α) : Codec N (List (String × α)) where
  write kvs := .object (kvs.map fun kv => (kv.1, c.write kv.2))
  read
    | .object fields => fields.mapM c.readEntry
    | _ => none

@[simp] theorem back_string (f : N → N) (s : String) :
    (string : Codec N String).back f s = some s := by
  show string.read ((Doc.string s).reread f) = some s
  rw [reread_string]
  rfl

@[simp] theorem back_bool (f : N → N) (b : Bool) : (bool : Codec N Bool).back f b = some b := by
  show bool.read ((Doc.bool b).reread f) = some b
  rw [reread_bool]
  rfl

@[simp] theorem back_value (f : N → N) (d : Doc N) :
    (value : Codec N (Doc N)).back f d = some (d.reread f) :=
  rfl

@[simp] theorem back_list (c : Codec N α) (f : N → N) (xs : List α) :
    c.list.back f xs = xs.mapM (c.back f) := by
  show c.list.read ((Doc.array (xs.map c.write)).reread f) = _
  rw [reread_array, map_map]
  show (xs.map _).mapM c.read = _
  rw [mapM_map]
  rfl

@[simp] theorem back_option_none (c : Codec N α) (f : N → N) :
    c.option.back f none = some none := by
  show c.option.read ((Doc.null : Doc N).reread f) = some none
  rw [reread_null]
  rfl

/-- A value that is not written as null is read as one that is there. -/
theorem back_option_some (c : Codec N α) (f : N → N) {a : α} (h : (c.write a).isNull = false) :
    c.option.back f (some a) = (c.back f a).map some := by
  show (if ((c.write a).reread f).isNull then _ else _) = _
  rw [isNull_reread, h]
  rfl

/-- A value that is written as null is read as missing. -/
theorem back_option_null (c : Codec N α) (f : N → N) {a : α} (h : (c.write a).isNull = true) :
    c.option.back f (some a) = some none := by
  show (if ((c.write a).reread f).isNull then _ else _) = _
  rw [isNull_reread, h]
  rfl

@[simp] theorem back_entries (c : Codec N α) (f : N → N) (kvs : List (String × α)) :
    c.entries.back f kvs = kvs.mapM fun kv => (c.back f kv.2).map fun a => (kv.1, a) := by
  show c.entries.read ((Doc.object (kvs.map fun kv => (kv.1, c.write kv.2))).reread f) = _
  rw [reread_object, map_map]
  show (kvs.map _).mapM c.readEntry = _
  rw [mapM_map]
  rfl

end Codec

/-! ## Records -/

/-- The fields whose key is one of some keys. -/
def fieldsIn (keys : List String) (fields : List (String × Doc N)) : List (String × Doc N) :=
  fields.filter fun field => field.1 ∈ keys

/-- The document of the only field, where there is one; two fields are an error. -/
def sole : List (String × Doc N) → Option (Option (Doc N))
  | [] => some none
  | [field] => some (some field.2)
  | _ :: _ :: _ => none

/-- The document under a key, where there is one; a key that repeats is an error. -/
def takeField (key : String) (fields : List (String × Doc N)) : Option (Option (Doc N)) :=
  sole (fieldsIn [key] fields)

/-- Reads the value under a key, or takes the value for a missing one. -/
def readField (c : Codec N β) (missing : Option β) (key : String)
    (fields : List (String × Doc N)) : Option β :=
  (takeField key fields).bind fun
    | none => missing
    | some d => c.read d

/-- How some of the fields of a record are written and read. -/
structure Fields (N ρ α : Type) where
  keys : List String
  write : ρ → List (String × Doc N)
  read : List (String × Doc N) → Option α
  /-- Only fields under these keys are written. -/
  written : ∀ r, ∀ field ∈ write r, field.1 ∈ keys
  /-- Only the fields under these keys are read. -/
  reads : ∀ fields fields', fieldsIn keys fields = fieldsIn keys fields' →
    read fields = read fields'
  /-- None of these keys may repeat. -/
  strict : ∀ fields, ∀ key ∈ keys, takeField key fields = none → read fields = none

theorem fieldsIn_congr {keys keys' : List String} {fields fields' : List (String × Doc N)}
    (hsub : keys' ⊆ keys) (h : fieldsIn keys fields = fieldsIn keys fields') :
    fieldsIn keys' fields = fieldsIn keys' fields' := by
  have hfilter (fs : List (String × Doc N)) :
      fieldsIn keys' fs = fieldsIn keys' (fieldsIn keys fs) := by
    unfold fieldsIn
    rw [filter_filter]
    congr 1
    funext field
    by_cases hk : field.1 ∈ keys'
    · simp [hk, hsub hk]
    · simp [hk]
  rw [hfilter fields, h, ← hfilter fields']

theorem takeField_congr {key : String} {fields fields' : List (String × Doc N)}
    (h : fieldsIn [key] fields = fieldsIn [key] fields') :
    takeField key fields = takeField key fields' := by
  unfold takeField
  rw [h]

/-- Fields under other keys are left out. -/
theorem fieldsIn_eq_nil {keys : List String} {fields : List (String × Doc N)}
    (h : ∀ field ∈ fields, field.1 ∉ keys) : fieldsIn keys fields = [] := by
  unfold fieldsIn
  rw [filter_eq_nil_iff]
  intro field hfield
  simp [h field hfield]

theorem fieldsIn_append (keys : List String) (fields fields' : List (String × Doc N)) :
    fieldsIn keys (fields ++ fields') = fieldsIn keys fields ++ fieldsIn keys fields' :=
  filter_append ..

theorem mem_map_rereadField {f : N → N} {fields : List (String × Doc N)}
    {field : String × Doc N} (h : field ∈ fields.map (rereadField f)) :
    ∃ field' ∈ fields, field'.1 = field.1 := by
  obtain ⟨field', hmem, rfl⟩ := mem_map.mp h
  exact ⟨field', hmem, rfl⟩

namespace Fields

/-- A record without fields. -/
def nothing (a : α) : Fields N ρ α where
  keys := []
  write _ := []
  read _ := some a
  written := by
    intro r field h
    cases h
  reads := by
    intro fields fields' _
    rfl
  strict := by
    intro fields key h
    cases h

/-- One more field: under a key, read off the record by `get`.  A value that is skipped is not
written; `missing` is the value read when the key is not there. -/
def field (fs : Fields N ρ (β → α)) (key : String) (get : ρ → β) (c : Codec N β)
    (missing : Option β) (skip : β → Bool) : Fields N ρ α where
  keys := key :: fs.keys
  write r := fs.write r ++ if skip (get r) then [] else [(key, c.write (get r))]
  read fields := (fs.read fields).bind fun g => (readField c missing key fields).map g
  written := by
    intro r field h
    rcases mem_append.mp h with h | h
    · exact mem_cons_of_mem _ (fs.written r field h)
    · split at h
      · cases h
      · rw [mem_singleton] at h
        rw [h]
        exact mem_cons_self ..
  reads := by
    intro fields fields' h
    have hfs : fs.read fields = fs.read fields' :=
      fs.reads _ _ (fieldsIn_congr (subset_cons_self ..) h)
    have hkey : takeField key fields = takeField key fields' :=
      takeField_congr (fieldsIn_congr (by simp) h)
    unfold readField
    rw [hfs, hkey]
  strict := by
    intro fields k hk h
    rcases mem_cons.mp hk with rfl | hk
    · unfold readField
      rw [h]
      cases fs.read fields with
      | none | some g => rfl
    · rw [fs.strict fields k hk h]
      rfl

/-- A field that has to be there. -/
def required (fs : Fields N ρ (β → α)) (key : String) (get : ρ → β) (c : Codec N β) :
    Fields N ρ α :=
  fs.field key get c none fun _ => false

/-- A field with a value to take when it is missing. -/
def withDefault (fs : Fields N ρ (β → α)) (key : String) (get : ρ → β) (c : Codec N β)
    (missing : β) : Fields N ρ α :=
  fs.field key get c (some missing) fun _ => false

/-- A field that is written only where there is a value. -/
def optional (fs : Fields N ρ (Option β → α)) (key : String) (get : ρ → Option β)
    (c : Codec N β) : Fields N ρ α :=
  fs.field key get c.option (some none) Option.isNone

/-- What is read where the fields of a record were written. -/
def back (fs : Fields N ρ α) (f : N → N) (r : ρ) : Option α :=
  fs.read ((fs.write r).map (rereadField f))

@[simp] theorem back_nothing (f : N → N) (a : α) (r : ρ) :
    (nothing a : Fields N ρ α).back f r = some a :=
  rfl

/-- What is read does not depend on fields under other keys. -/
theorem read_append (fs : Fields N ρ α) (f : N → N) (r : ρ) {fields : List (String × Doc N)}
    (h : ∀ field ∈ fields, field.1 ∉ fs.keys) :
    fs.read ((fs.write r).map (rereadField f) ++ fields) = fs.back f r := by
  apply fs.reads
  rw [fieldsIn_append, fieldsIn_eq_nil h, append_nil]

variable {key : String}

/-- No field of a record is under a key that is not one of its keys. -/
theorem fieldsIn_write (fs : Fields N ρ α) (f : N → N) (r : ρ)
    (h : key ∉ fs.keys) : fieldsIn [key] ((fs.write r).map (rereadField f)) = [] := by
  apply fieldsIn_eq_nil
  intro field hfield hkey
  obtain ⟨field', hmem, hsame⟩ := mem_map_rereadField hfield
  have hwritten := fs.written r field' hmem
  rw [hsame, mem_singleton.mp hkey] at hwritten
  exact h hwritten

/-- The fields are read one by one. -/
theorem back_field (fs : Fields N ρ (β → α)) (get : ρ → β) (c : Codec N β)
    (missing : Option β) (skip : β → Bool) (f : N → N) (r : ρ) (h : key ∉ fs.keys) :
    (fs.field key get c missing skip).back f r =
      (fs.back f r).bind fun g =>
        (if skip (get r) then missing else c.back f (get r)).map g := by
  have hothers : ∀ field ∈ (if skip (get r) then [] else [(key, c.write (get r))]).map
      (rereadField f), field.1 ∉ fs.keys := by
    intro field hfield
    split at hfield
    · cases hfield
    · rw [map_singleton, mem_singleton] at hfield
      rw [hfield]
      exact h
  have hwrite : (fs.field key get c missing skip).write r =
      fs.write r ++ if skip (get r) then [] else [(key, c.write (get r))] := rfl
  have hread (fields : List (String × Doc N)) : (fs.field key get c missing skip).read fields =
      (fs.read fields).bind fun g => (readField c missing key fields).map g := rfl
  unfold back
  rw [hread, hwrite, map_append, fs.read_append f r hothers]
  unfold readField takeField
  rw [fieldsIn_append, fs.fieldsIn_write f r h, nil_append]
  cases hskip : skip (get r) with
  | true => rfl
  | false =>
    have hkey : fieldsIn [key] ([(key, c.write (get r))].map (rereadField f)) =
        [(key, (c.write (get r)).reread f)] := by
      simp [fieldsIn, rereadField]
    rw [if_neg Bool.false_ne_true, if_neg Bool.false_ne_true, hkey]
    rfl

@[simp] theorem back_required (fs : Fields N ρ (β → α)) (get : ρ → β)
    (c : Codec N β) (f : N → N) (r : ρ) (h : key ∉ fs.keys) :
    (fs.required key get c).back f r = (fs.back f r).bind fun g => (c.back f (get r)).map g :=
  fs.back_field get c none (fun _ => false) f r h

@[simp] theorem back_withDefault (fs : Fields N ρ (β → α)) (get : ρ → β)
    (c : Codec N β) (missing : β) (f : N → N) (r : ρ) (h : key ∉ fs.keys) :
    (fs.withDefault key get c missing).back f r =
      (fs.back f r).bind fun g => (c.back f (get r)).map g :=
  fs.back_field get c (some missing) (fun _ => false) f r h

@[simp] theorem back_optional (fs : Fields N ρ (Option β → α))
    (get : ρ → Option β) (c : Codec N β) (f : N → N) (r : ρ) (h : key ∉ fs.keys) :
    (fs.optional key get c).back f r =
      (fs.back f r).bind fun g => (c.option.back f (get r)).map g := by
  unfold optional
  rw [fs.back_field get c.option (some none) Option.isNone f r h]
  cases hget : get r with
  | none => rw [Codec.back_option_none]; rfl
  | some b => rfl

/-- A field in front, under another key, is not read. -/
theorem read_cons (fs : Fields N ρ α) (f : N → N) (r : ρ) (d : Doc N) (h : key ∉ fs.keys) :
    fs.read ((key, d) :: (fs.write r).map (rereadField f)) = fs.back f r := by
  apply fs.reads
  unfold fieldsIn
  rw [filter_cons, if_neg (by simpa using h)]

/-- A field in front is the only one under a key that is not one of the record's. -/
theorem takeField_cons (fs : Fields N ρ α) (f : N → N) (r : ρ) (d : Doc N) (h : key ∉ fs.keys) :
    takeField key ((key, d) :: (fs.write r).map (rereadField f)) = some (some d) := by
  have hrest := fs.fieldsIn_write f r h
  unfold fieldsIn at hrest
  unfold takeField fieldsIn
  rw [filter_cons, if_pos (by simp), hrest]
  rfl

/-- The fields of a record are nested as deeply as the deepest of their values. -/
theorem depthFields_field (fs : Fields N ρ (β → α)) (key : String) (get : ρ → β) (c : Codec N β)
    (missing : Option β) (skip : β → Bool) (r : ρ) :
    depthFields ((fs.field key get c missing skip).write r) =
      max (depthFields (fs.write r)) (if skip (get r) then 0 else (c.write (get r)).depth) := by
  show depthFields (_ ++ _) = _
  rw [depthFields_append]
  congr 1
  cases skip (get r) with
  | true => rfl
  | false => exact Nat.max_zero _

@[simp] theorem keys_nothing (a : α) : (nothing a : Fields N ρ α).keys = [] := rfl

@[simp] theorem keys_required (fs : Fields N ρ (β → α)) (key : String) (get : ρ → β)
    (c : Codec N β) : (fs.required key get c).keys = key :: fs.keys := rfl

@[simp] theorem keys_withDefault (fs : Fields N ρ (β → α)) (key : String) (get : ρ → β)
    (c : Codec N β) (missing : β) : (fs.withDefault key get c missing).keys = key :: fs.keys := rfl

@[simp] theorem keys_optional (fs : Fields N ρ (Option β → α)) (key : String)
    (get : ρ → Option β) (c : Codec N β) : (fs.optional key get c).keys = key :: fs.keys := rfl

end Fields

namespace Codec

/-- Records. -/
def record (fs : Fields N α α) : Codec N α where
  write a := .object (fs.write a)
  read
    | .object fields => fs.read fields
    | _ => none

@[simp] theorem back_record (fs : Fields N α α) (f : N → N) (a : α) :
    (record fs).back f a = fs.back f a := by
  show (record fs).read ((Doc.object (fs.write a)).reread f) = _
  rw [reread_object]
  rfl

/-- Records with a rest: all fields under other keys are collected. -/
def recordWithRest (fs : Fields N α (List (String × Doc N) → α))
    (rest : α → List (String × Doc N)) : Codec N α where
  write a := .object (fs.write a ++ rest a)
  read
    | .object fields => (fs.read fields).map fun g => g (fields.filter fun field => field.1 ∉ fs.keys)
    | _ => none

/-- The rest is read back if none of its keys is a key of the record. -/
theorem back_recordWithRest (fs : Fields N α (List (String × Doc N) → α))
    (rest : α → List (String × Doc N)) (f : N → N) {a : α}
    (h : ∀ field ∈ rest a, field.1 ∉ fs.keys) :
    (recordWithRest fs rest).back f a =
      (fs.back f a).map fun g => g ((rest a).map (rereadField f)) := by
  have hrest : ∀ field ∈ (rest a).map (rereadField f), field.1 ∉ fs.keys := by
    intro field hfield
    obtain ⟨field', hmem, hsame⟩ := mem_map_rereadField hfield
    rw [← hsame]
    exact h field' hmem
  have hown : ∀ field ∈ (fs.write a).map (rereadField f), field.1 ∈ fs.keys := by
    intro field hfield
    obtain ⟨field', hmem, hsame⟩ := mem_map_rereadField hfield
    rw [← hsame]
    exact fs.written a field' hmem
  have hcollected : ((fs.write a).map (rereadField f) ++ (rest a).map (rereadField f)).filter
      (fun field => field.1 ∉ fs.keys) = (rest a).map (rereadField f) := by
    rw [filter_append, filter_eq_nil_iff.mpr, filter_eq_self.mpr, nil_append]
    · intro field hfield
      simpa using hrest field hfield
    · intro field hfield
      simpa using hown field hfield
  show (recordWithRest fs rest).read ((Doc.object (fs.write a ++ rest a)).reread f) = _
  rw [reread_object, map_append]
  show (fs.read _).map _ = _
  rw [fs.read_append f a hrest, hcollected]

/-- A record whose rest has a key of the record again cannot be read. -/
theorem back_recordWithRest_eq_none (fs : Fields N α (List (String × Doc N) → α))
    (rest : α → List (String × Doc N)) (f : N → N) {a : α} {field field' : String × Doc N}
    (h : field ∈ fs.write a) (h' : field' ∈ rest a) (hsame : field'.1 = field.1) :
    (recordWithRest fs rest).back f a = none := by
  have hin {fields : List (String × Doc N)} {p : String × Doc N} (hp : p ∈ fields)
      (hkey : p.1 = field.1) : fieldsIn [field.1] (fields.map (rereadField f)) ≠ [] := by
    refine ne_nil_of_mem (a := rereadField f p) (mem_filter.mpr ?_)
    exact ⟨mem_map_of_mem hp, by simpa [rereadField] using hkey⟩
  have htake : takeField field.1
      ((fs.write a).map (rereadField f) ++ (rest a).map (rereadField f)) = none := by
    obtain ⟨x, xs, hxs⟩ := exists_cons_of_ne_nil (hin h rfl)
    obtain ⟨y, ys, hys⟩ := exists_cons_of_ne_nil (hin h' hsame)
    unfold takeField
    rw [fieldsIn_append, hxs, hys]
    cases xs with
    | nil | cons z zs => rfl
  show (recordWithRest fs rest).read ((Doc.object (fs.write a ++ rest a)).reread f) = _
  rw [reread_object, map_append]
  show (fs.read _).map _ = _
  rw [fs.strict _ field.1 (fs.written a field h) htake]
  rfl

end Codec

end Serde
