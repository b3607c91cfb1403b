/-
# Documents as JSON

A document is written as JSON without white space, and is read back from its text, if no key of an
object repeats.  A document can stand in another one for a number.
-/
import Mathlib.Data.List.Nodup
import HeraMind.Lib.JsonText

namespace JsonText

open List
open Serde

variable {N M : Type}

/-! ## Keys -/

/-- No key of an object repeats. -/
inductive UniqueKeys : Doc N → Prop
  | null : UniqueKeys .null
  | bool (b : Bool) : UniqueKeys (.bool b)
  | number (n : N) : UniqueKeys (.number n)
  | string (s : String) : UniqueKeys (.string s)
  | array {items : List (Doc N)} : (∀ d ∈ items, UniqueKeys d) → UniqueKeys (.array items)
  | object {fields : List (String × Doc N)} : (fields.map Prod.fst).Nodup →
      (∀ f ∈ fields, UniqueKeys f.2) → UniqueKeys (.object fields)

section Insert

variable {α β : Type}

theorem keys_insertField (fields : List (String × α)) (field : String × α) :
    (insertField fields field).map Prod.fst =
      if field.1 ∈ fields.map Prod.fst then fields.map Prod.fst
      else fields.map Prod.fst ++ [field.1] := by
  unfold insertField
  split
  · rw [map_map]
    apply map_congr_left
    intro f _
    rw [Function.comp_apply]
    split
    · rename_i heq
      exact heq.symm
    · rfl
  · rw [map_append]
    rfl

theorem mem_insertField {fields : List (String × α)} {field f : String × α}
    (h : f ∈ insertField fields field) : f ∈ fields ∨ f = field := by
  unfold insertField at h
  split at h
  · obtain ⟨f', hf', rfl⟩ := mem_map.mp h
    split
    · exact Or.inr rfl
    · exact Or.inl hf'
  · rcases mem_append.mp h with h | h
    · exact Or.inl h
    · exact Or.inr (mem_singleton.mp h)

/-- The keys of an object are different, and its fields are among those given. -/
theorem insertAll_spec (fields : List (String × α)) :
    ((insertAll fields).map Prod.fst).Nodup ∧ ∀ f ∈ insertAll fields, f ∈ fields := by
  have hfold : ∀ (l acc : List (String × α)), (acc.map Prod.fst).Nodup →
      ((l.foldl insertField acc).map Prod.fst).Nodup ∧
        ∀ f ∈ l.foldl insertField acc, f ∈ acc ∨ f ∈ l := by
    intro l
    induction l with
    | nil => exact fun acc hacc => ⟨hacc, fun f hf => Or.inl hf⟩
    | cons field l ih =>
      intro acc hacc
      have hinsert : ((insertField acc field).map Prod.fst).Nodup := by
        rw [keys_insertField]
        split
        · exact hacc
        · rename_i hnew
          rw [nodup_append]
          refine ⟨hacc, nodup_singleton _, ?_⟩
          rintro k hk _ hfield rfl
          exact hnew (mem_singleton.mp hfield ▸ hk)
      obtain ⟨hnodup, hmem⟩ := ih _ hinsert
      refine ⟨hnodup, fun f hf => ?_⟩
      rcases hmem f hf with hf | hf
      · rcases mem_insertField hf with hf | rfl
        · exact Or.inl hf
        · exact Or.inr mem_cons_self
      · exact Or.inr (mem_cons_of_mem _ hf)
  obtain ⟨hnodup, hmem⟩ := hfold fields [] nodup_nil
  exact ⟨hnodup, fun f hf => (hmem f hf).resolve_left nofun⟩

theorem insertAll_of_nodup {fields : List (String × α)} (h : (fields.map Prod.fst).Nodup) :
    insertAll fields = fields := by
  have hfold : ∀ l acc : List (String × α), ((acc ++ l).map Prod.fst).Nodup →
      l.foldl insertField acc = acc ++ l := by
    intro l
    induction l with
    | nil => exact fun acc _ => (append_nil acc).symm
    | cons field l ih =>
      intro acc hacc
      have hnew : field.1 ∉ acc.map Prod.fst := by
        rw [map_append, nodup_append] at hacc
        intro hmem
        exact hacc.2.2 _ hmem _ mem_cons_self rfl
      rw [foldl_cons, insertField, if_neg hnew, ih, append_assoc]
      · rfl
      · rw [append_assoc]
        exact hacc
  exact hfold fields [] h

/-- Fields are changed before or after they are put into an object. -/
theorem insertAll_map (g : α → β) (fields : List (String × α)) :
    insertAll (fields.map (Prod.map id g)) = (insertAll fields).map (Prod.map id g) := by
  have hkeys : ∀ l : List (String × α),
      (l.map (Prod.map id g)).map Prod.fst = l.map Prod.fst := by
    intro l
    rw [map_map]
    rfl
  have hinsert : ∀ (l : List (String × α)) (field : String × α),
      insertField (l.map (Prod.map id g)) (Prod.map id g field) =
        (insertField l field).map (Prod.map id g) := by
    intro l field
    unfold insertField
    rw [hkeys, Prod.map_fst, id]
    split
    · rw [map_map, map_map]
      apply map_congr_left
      intro f _
      rw [Function.comp_apply, Function.comp_apply, Prod.map_fst, id]
      split
      · rfl
      · rfl
    · rw [map_append]
      rfl
  have hfold : ∀ l acc : List (String × α),
      (l.map (Prod.map id g)).foldl insertField (acc.map (Prod.map id g)) =
        (l.foldl insertField acc).map (Prod.map id g) := by
    intro l
    induction l with
    | nil => exact fun acc => rfl
    | cons field l ih =>
      intro acc
      rw [map_cons, foldl_cons, foldl_cons, hinsert, ih]
  exact hfold fields []

end Insert

/-! ## Writing -/

/-- A character in a string. -/
def writeChar (c : Char) : List Char :=
  if c = '"' then ['\\', '"']
  else if c = '\\' then ['\\', '\\']
  else if c = '\n' then ['\\', 'n']
  else if c = '\r' then ['\\', 'r']
  else if c = '\t' then ['\\', 't']
  else if c = Char.ofNat 8 then ['\\', 'b']
  else if c = Char.ofNat 12 then ['\\', 'f']
  else if c.toNat < 32 then
    ['\\', 'u', '0', '0', hexDigit (c.toNat / 16), hexDigit (c.toNat % 16)]
  else [c]

def writeString (s : String) : List Char :=
  '"' :: (s.toList.flatMap writeChar ++ ['"'])

/-- Texts with commas between them. -/
def writeCommas (texts : List (List Char)) : List Char :=
  List.intercalate [','] texts

mutual

/-- A document as JSON. -/
def write (num : NumberText N) : Doc N → List Char
  | .null => "null".toList
  | .bool b => (toString b).toList
  | .number n => num.write n
  | .string s => writeString s
  | .array items => '[' :: (writeCommas (writeItems num items) ++ [']'])
  | .object fields => '\x7b' :: (writeCommas (writeFields num fields) ++ ['\x7d'])

def writeItems (num : NumberText N) : List (Doc N) → List (List Char)
  | [] => []
  | d :: items => write num d :: writeItems num items

def writeFields (num : NumberText N) : List (String × Doc N) → List (List Char)
  | [] => []
  | (k, d) :: fields => (writeString k ++ ':' :: write num d) :: writeFields num fields

end

theorem hex4_hexDigit : ∀ n < 32, hex4 '0' '0' (hexDigit (n / 16)) (hexDigit (n % 16)) = some n := by
  decide

theorem isBody_writeChar (c : Char) {t s : List Char} (h : IsBody t s) :
    IsBody (writeChar c ++ t) (c :: s) := by
  have hsimple {e d : Char} (he : simpleEscape e = some d) : IsBody ('\\' :: e :: t) (d :: s) :=
    .escape (.simple he) h
  unfold writeChar
  split_ifs with h₁ h₂ h₃ h₄ h₅ h₆ h₇ h₈
  · rw [h₁]
    exact hsimple (by decide)
  · rw [h₂]
    exact hsimple (by decide)
  · rw [h₃]
    exact hsimple (by decide)
  · rw [h₄]
    exact hsimple (by decide)
  · rw [h₅]
    exact hsimple (by decide)
  · rw [h₆]
    exact hsimple (by decide)
  · rw [h₇]
    exact hsimple (by decide)
  · have hs : isSurrogate c.toNat = false := by
      unfold isSurrogate
      rw [Bool.and_eq_false_iff]
      left
      exact decide_eq_false (by omega)
    have hescape := IsEscape.unicode (hex4_hexDigit c.toNat h₈) hs
    rw [Char.ofNat_toNat] at hescape
    exact .escape hescape h
  · exact .char h₁ h₂ (by omega) h

theorem isString_writeString (s : String) : IsString (writeString s) s := by
  refine ⟨_, rfl, ?_⟩
  induction s.toList with
  | nil => exact .nil
  | cons c s ih =>
    rw [flatMap_cons]
    exact isBody_writeChar c ih

theorem writeCommas_singleton (t : List Char) : writeCommas [t] = t :=
  intercalate_singleton

theorem writeCommas_cons (t t' : List Char) (texts : List (List Char)) :
    writeCommas (t :: t' :: texts) = t ++ ',' :: writeCommas (t' :: texts) := by
  unfold writeCommas
  rw [intercalate_cons_cons, append_assoc]
  rfl

theorem isText_writeItems {num : NumberText N} {items : List (Doc N)} (hne : items ≠ [])
    (h : ∀ d ∈ items, IsText (IsLeaf num) IsString d.depth (write num d) (.value d)) :
    IsText (IsLeaf num) IsString (depthItems items) (writeCommas (writeItems num items))
      (.items items) := by
  induction items with
  | nil => exact absurd rfl hne
  | cons d items ih =>
    have hspaces : IsSpaces [] := nofun
    have hd := h d mem_cons_self
    cases items with
    | nil =>
      have hlast := IsText.lastItem hspaces hspaces hd
      rw [nil_append, append_nil] at hlast
      rw [depthItems, depthItems, Nat.max_zero, writeItems, writeItems, writeCommas_singleton]
      exact hlast
    | cons d' items =>
      have hitem := IsText.item hspaces hspaces hd
        (ih (cons_ne_nil _ _) fun e he => h e (mem_cons_of_mem _ he))
      rw [depthItems, writeItems, writeItems, writeCommas_cons]
      exact hitem

theorem isText_writeFields {num : NumberText N} {fields : List (String × Doc N)}
    (hne : fields ≠ [])
    (h : ∀ f ∈ fields, IsText (IsLeaf num) IsString f.2.depth (write num f.2) (.value f.2)) :
    IsText (IsLeaf num) IsString (depthFields fields) (writeCommas (writeFields num fields))
      (.fields fields) := by
  induction fields with
  | nil => exact absurd rfl hne
  | cons field fields ih =>
    obtain ⟨k, d⟩ := field
    have hspaces : IsSpaces [] := nofun
    have hd := h (k, d) mem_cons_self
    cases fields with
    | nil =>
      have hlast := IsText.lastField hspaces hspaces hspaces hspaces (isString_writeString k) hd
      simp only [nil_append, append_nil] at hlast
      rw [depthFields, depthFields, Nat.max_zero, writeFields, writeFields, writeCommas_singleton]
      exact hlast
    | cons field' fields =>
      have hfield := IsText.field hspaces hspaces hspaces hspaces (isString_writeString k) hd
        (ih (cons_ne_nil _ _) fun e he => h e (mem_cons_of_mem _ he))
      simp only [nil_append] at hfield
      rw [depthFields, writeFields, writeFields, writeCommas_cons, append_assoc, cons_append]
      exact hfield

variable {d : Doc N}

/-- A document without repeated keys is what its text writes. -/
theorem isText_write (num : NumberText N) (h : UniqueKeys d) :
    IsText (IsLeaf num) IsString d.depth (write num d) (.value d) := by
  induction h with
  | null =>
    rw [Doc.depth, write]
    exact .leaf .null
  | bool b =>
    rw [Doc.depth, write]
    exact .leaf (.bool b)
  | number n =>
    rw [Doc.depth, write]
    exact .leaf (.number (num.isToken_write n) (num.read_write n))
  | string s =>
    rw [Doc.depth, write]
    exact .leaf (.string (isString_writeString s))
  | @array items _ ih =>
    rw [Doc.depth, write]
    cases items with
    | nil => exact .emptyArray (w := []) nofun
    | cons d items => exact .array (isText_writeItems (cons_ne_nil _ _) ih)
  | @object fields hnodup _ ih =>
    rw [Doc.depth, write]
    cases fields with
    | nil => exact .emptyObject (w := []) nofun
    | cons field fields =>
      have hobject := IsText.object (isText_writeFields (cons_ne_nil _ _) ih)
      rw [insertAll_of_nodup hnodup] at hobject
      exact hobject

/-- A document without repeated keys is read back from its text. -/
theorem readText_write (num : NumberText N) (h : UniqueKeys d) (depth : ℕ) :
    readText num depth (write num d) = if d.depth ≤ depth then some d else none := by
  have hspaces : IsSpaces [] := nofun
  have hread := readText_of_isText hspaces hspaces (isText_write num h) depth
  rw [nil_append, append_nil] at hread
  exact hread

/-- All documents of a part have a property. -/
def Part.Holds (P : Doc N → Prop) : Part N → Prop
  | .value d => P d
  | .items docs => ∀ d ∈ docs, P d
  | .fields entries => ∀ f ∈ entries, P f.2

/-- The induction rule for what a text writes. -/
theorem of_isText {leaf : List Char → Doc N → Prop} {key : List Char → String → Prop}
    {P : Doc N → Prop} (hleaf : ∀ t d, leaf t d → P d)
    (harray : ∀ items : List (Doc N), (∀ d ∈ items, P d) → P (.array items))
    (hobject : ∀ fields : List (String × Doc N), (fields.map Prod.fst).Nodup →
      (∀ f ∈ fields, P f.2) → P (.object fields))
    {k : ℕ} {t : List Char} (h : IsText leaf key k t (.value d)) : P d := by
  have hpart : ∀ {k : ℕ} {t : List Char} {p : Part N}, IsText leaf key k t p → p.Holds P := by
    intro k t p h
    induction h with
    | leaf hd => exact hleaf _ _ hd
    | emptyArray => exact harray [] (forall_mem_nil _)
    | array _ ih => exact harray _ ih
    | emptyObject => exact hobject [] nodup_nil (forall_mem_nil _)
    | object _ ih =>
      exact hobject _ (insertAll_spec _).1 fun f hf => ih f ((insertAll_spec _).2 f hf)
    | lastItem _ _ _ ih => exact forall_mem_singleton.mpr ih
    | item _ _ _ _ ih ihs => exact forall_mem_cons.mpr ⟨ih, ihs⟩
    | lastField _ _ _ _ _ _ ih => exact forall_mem_singleton.mpr ih
    | field _ _ _ _ _ _ _ ih ihs => exact forall_mem_cons.mpr ⟨ih, ihs⟩
  exact hpart h

/-! ## Documents for numbers -/

mutual

/-- The document with a document for every number. -/
def graft (f : M → Doc N) : Doc M → Doc N
  | .null => .null
  | .bool b => .bool b
  | .number n => f n
  | .string s => .string s
  | .array items => .array (graftItems f items)
  | .object fields => .object (graftFields f fields)

def graftItems (f : M → Doc N) : List (Doc M) → List (Doc N)
  | [] => []
  | d :: items => graft f d :: graftItems f items

def graftFields (f : M → Doc N) : List (String × Doc M) → List (String × Doc N)
  | [] => []
  | (k, d) :: fields => (k, graft f d) :: graftFields f fields

end

theorem graftItems_eq_map (f : M → Doc N) (items : List (Doc M)) :
    graftItems f items = items.map (graft f) := by
  induction items with
  | nil => rfl
  | cons d items ih =>
    show graft f d :: graftItems f items = _
    rw [ih, map_cons]

theorem graftFields_eq_map (f : M → Doc N) (fields : List (String × Doc M)) :
    graftFields f fields = fields.map (Prod.map id (graft f)) := by
  induction fields with
  | nil => rfl
  | cons field fields ih =>
    show (field.1, graft f field.2) :: graftFields f fields = _
    rw [ih, map_cons]
    rfl

theorem uniqueKeys_graft {f : M → Doc N} (hf : ∀ n, UniqueKeys (f n)) {d : Doc M}
    (h : UniqueKeys d) : UniqueKeys (graft f d) := by
  induction h with
  | null =>
    rw [graft]
    exact .null
  | bool b =>
    rw [graft]
    exact .bool b
  | number n =>
    rw [graft]
    exact hf n
  | string s =>
    rw [graft]
    exact .string s
  | array _ ih =>
    rw [graft, graftItems_eq_map]
    refine .array fun d hd => ?_
    obtain ⟨d', hd', rfl⟩ := mem_map.mp hd
    exact ih d' hd'
  | object hnodup _ ih =>
    rw [graft, graftFields_eq_map]
    refine .object ?_ fun field hfield => ?_
    · rw [map_map]
      exact hnodup
    · obtain ⟨field', hfield', rfl⟩ := mem_map.mp hfield
      exact ih field' hfield'

/-- Every number of the document has the property. -/
inductive All (P : N → Prop) : Doc N → Prop
  | null : All P .null
  | bool (b : Bool) : All P (.bool b)
  | number {n : N} : P n → All P (.number n)
  | string (s : String) : All P (.string s)
  | array {items : List (Doc N)} : (∀ d ∈ items, All P d) → All P (.array items)
  | object {fields : List (String × Doc N)} : (∀ f ∈ fields, All P f.2) → All P (.object fields)

theorem All.mono {P Q : N → Prop} (h : All P d) (hPQ : ∀ n, P n → Q n) : All Q d := by
  induction h with
  | null => exact .null
  | bool b => exact .bool b
  | number hn => exact .number (hPQ _ hn)
  | string s => exact .string s
  | array _ ih => exact .array ih
  | object _ ih => exact .object ih

theorem All.and {P Q : N → Prop} (h : All P d) (h' : All Q d) :
    All (fun n => P n ∧ Q n) d := by
  induction h with
  | null => exact .null
  | bool b => exact .bool b
  | number hn =>
    cases h' with
    | number hn' => exact .number ⟨hn, hn'⟩
  | string s => exact .string s
  | array _ ih =>
    cases h' with
    | array hitems => exact .array fun d hd => ih d hd (hitems d hd)
  | object _ ih =>
    cases h' with
    | object hfields => exact .object fun f hf => ih f hf (hfields f hf)

/-- A document has finitely many numbers. -/
theorem exists_all_mem (h : UniqueKeys d) : ∃ l : List N, All (· ∈ l) d := by
  have hlist : ∀ {α : Type} (g : α → Doc N) (items : List α),
      (∀ a ∈ items, ∃ l : List N, All (· ∈ l) (g a)) →
      ∃ l : List N, ∀ a ∈ items, All (· ∈ l) (g a) := by
    intro α g items
    induction items with
    | nil => exact fun _ => ⟨[], nofun⟩
    | cons a items ih =>
      intro hall
      obtain ⟨l, hl⟩ := hall a mem_cons_self
      obtain ⟨l', hl'⟩ := ih fun b hb => hall b (mem_cons_of_mem _ hb)
      refine ⟨l ++ l', forall_mem_cons.mpr ⟨?_, fun b hb => ?_⟩⟩
      · exact hl.mono fun n hn => mem_append_left _ hn
      · exact (hl' b hb).mono fun n hn => mem_append_right _ hn
  induction h with
  | null => exact ⟨[], .null⟩
  | bool b => exact ⟨[], .bool b⟩
  | number n => exact ⟨[n], .number (mem_singleton_self n)⟩
  | string s => exact ⟨[], .string s⟩
  | @array items _ ih =>
    obtain ⟨l, hl⟩ := hlist id items ih
    exact ⟨l, .array hl⟩
  | @object fields _ _ ih =>
    obtain ⟨l, hl⟩ := hlist Prod.snd fields ih
    exact ⟨l, .object hl⟩

/-- What two grafts make of a document tells what they make of its numbers. -/
theorem all_of_graft_eq {f g : M → Doc N} {d : Doc M} (h : UniqueKeys d)
    (heq : graft f d = graft g d) : All (fun n => f n = g n) d := by
  induction h with
  | null => exact .null
  | bool b => exact .bool b
  | number n =>
    rw [graft, graft] at heq
    exact .number heq
  | string s => exact .string s
  | array _ ih =>
    rw [graft, graft, graftItems_eq_map, graftItems_eq_map, Doc.array.injEq, map_inj_left] at heq
    exact .array fun d hd => ih d hd (heq d hd)
  | object _ _ ih =>
    rw [graft, graft, graftFields_eq_map, graftFields_eq_map, Doc.object.injEq, map_inj_left] at heq
    exact .object fun field hfield => ih field hfield (congrArg Prod.snd (heq field hfield))

end JsonText
