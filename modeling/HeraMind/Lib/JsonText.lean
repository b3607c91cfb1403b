/-
# JSON as text

Which texts write a document, and a reader that finds the document.  The relation between texts and
documents leaves open what the leaves and the keys are, so that it serves for JSON and for texts that
are like JSON.  The numbers and their texts are a parameter.

An object keeps its keys in the order in which they first occur; the last value of a key counts.
-/
import HeraMind.Lib.Serde

namespace JsonText

open List Option Bool
open Serde

variable {N : Type}

/-! ## Characters -/

/-- White space. -/
def isSpace (c : Char) : Bool :=
  c = ' ' || c = '\t' || c = '\n' || c = '\r'

def skipSpaces : List Char → List Char :=
  List.dropWhile isSpace

/-- The characters of numbers. -/
def isNumberChar (c : Char) : Bool :=
  c.isDigit || c = '-' || c = '+' || c = '.' || c = 'e' || c = 'E'

/-- Whether the text is taken for a number. -/
def isToken : List Char → Bool
  | [] => false
  | c :: t => (c.isDigit || c = '-') && t.all isNumberChar

/-- The value of a hexadecimal digit. -/
def hexValue (c : Char) : Option ℕ :=
  if c.isDigit then some (c.toNat - 48)
  else if 97 ≤ c.toNat ∧ c.toNat ≤ 102 then some (c.toNat - 87)
  else if 65 ≤ c.toNat ∧ c.toNat ≤ 70 then some (c.toNat - 55)
  else none

/-- The hexadecimal digit of a value below 16. -/
def hexDigit (n : ℕ) : Char :=
  if n < 10 then Char.ofNat (n + 48) else Char.ofNat (n + 87)

/-- The value of four hexadecimal digits. -/
def hex4 (a b c d : Char) : Option ℕ :=
  match hexValue a, hexValue b, hexValue c, hexValue d with
  | some a, some b, some c, some d => some (((a * 16 + b) * 16 + c) * 16 + d)
  | _, _, _, _ => none

/-- The characters that a backslash and a letter stand for. -/
def simpleEscape (c : Char) : Option Char :=
  if c = '"' ∨ c = '\\' ∨ c = '/' then some c
  else if c = 'b' then some (Char.ofNat 8)
  else if c = 'f' then some (Char.ofNat 12)
  else if c = 'n' then some '\n'
  else if c = 'r' then some '\r'
  else if c = 't' then some '\t'
  else none

/-- Half of a character that is written as two. -/
def isSurrogate (n : ℕ) : Bool :=
  0xD800 ≤ n && n ≤ 0xDFFF

/-- The character that two halves stand for. -/
def joinSurrogates (high low : ℕ) : Option Char :=
  if high < 0xDC00 ∧ 0xDC00 ≤ low ∧ low ≤ 0xDFFF then
    some (Char.ofNat (0x10000 + (high - 0xD800) * 0x400 + (low - 0xDC00)))
  else none

/-! ## Which texts write a document -/

/-- What stands behind a backslash, and the character it is for. -/
inductive IsEscape : List Char → Char → Prop
  | simple {c d : Char} : simpleEscape c = some d → IsEscape [c] d
  | unicode {a b c d : Char} {n : ℕ} : hex4 a b c d = some n → isSurrogate n = false →
      IsEscape ['u', a, b, c, d] (Char.ofNat n)
  | pair {a b c d a' b' c' d' e : Char} {n m : ℕ} : hex4 a b c d = some n →
      isSurrogate n = true → hex4 a' b' c' d' = some m → joinSurrogates n m = some e →
      IsEscape ['u', a, b, c, d, '\\', 'u', a', b', c', d'] e

/-- What stands between the quotes, and the characters it is for. -/
inductive IsBody : List Char → List Char → Prop
  | nil : IsBody [] []
  | char {c : Char} {t s : List Char} : c ≠ '"' → c ≠ '\\' → 32 ≤ c.toNat → IsBody t s →
      IsBody (c :: t) (c :: s)
  | escape {e t s : List Char} {c : Char} : IsEscape e c → IsBody t s →
      IsBody ('\\' :: (e ++ t)) (c :: s)

/-- A string in its quotes. -/
def IsString (t : List Char) (s : String) : Prop :=
  ∃ b, t = '"' :: (b ++ ['"']) ∧ IsBody b s.toList

/-- Numbers and their texts. -/
structure NumberText (N : Type) where
  /-- The number of a text, if it is that of a number in range. -/
  read : List Char → Option N
  write : N → List Char
  isToken_write : ∀ n, isToken (write n) = true
  read_write : ∀ n, read (write n) = some n

/-- The documents without parts. -/
inductive IsLeaf (num : NumberText N) : List Char → Doc N → Prop
  | null : IsLeaf num "null".toList .null
  | bool (b : Bool) : IsLeaf num (toString b).toList (.bool b)
  | number {t : List Char} {n : N} : isToken t = true → num.read t = some n →
      IsLeaf num t (.number n)
  | string {t : List Char} {s : String} : IsString t s → IsLeaf num t (.string s)

/-- A field takes the place of one with its key. -/
def insertField {α : Type} (fields : List (String × α)) (field : String × α) :
    List (String × α) :=
  if field.1 ∈ fields.map Prod.fst then
    fields.map fun f => if f.1 = field.1 then field else f
  else fields ++ [field]

/-- The fields of an object. -/
def insertAll {α : Type} (fields : List (String × α)) : List (String × α) :=
  fields.foldl insertField []

/-- What a text writes: a document, the items of an array, or the fields of an object. -/
inductive Part (N : Type) : Type where
  | value (d : Doc N)
  | items (items : List (Doc N))
  | fields (fields : List (String × Doc N))

/-- White space only. -/
def IsSpaces (w : List Char) : Prop :=
  ∀ c ∈ w, isSpace c = true

/-- The text writes the part with the given nesting. -/
inductive IsText (leaf : List Char → Doc N → Prop) (key : List Char → String → Prop) :
    ℕ → List Char → Part N → Prop
  | leaf {t : List Char} {d : Doc N} : leaf t d → IsText leaf key 0 t (.value d)
  | emptyArray {w : List Char} : IsSpaces w →
      IsText leaf key 1 ('[' :: (w ++ [']'])) (.value (.array []))
  | array {k : ℕ} {t : List Char} {items : List (Doc N)} : IsText leaf key k t (.items items) →
      IsText leaf key (k + 1) ('[' :: (t ++ [']'])) (.value (.array items))
  | emptyObject {w : List Char} : IsSpaces w →
      IsText leaf key 1 ('\x7b' :: (w ++ ['\x7d'])) (.value (.object []))
  | object {k : ℕ} {t : List Char} {fields : List (String × Doc N)} :
      IsText leaf key k t (.fields fields) →
      IsText leaf key (k + 1) ('\x7b' :: (t ++ ['\x7d'])) (.value (.object (insertAll fields)))
  | lastItem {k : ℕ} {w t w' : List Char} {d : Doc N} : IsSpaces w → IsSpaces w' →
      IsText leaf key k t (.value d) → IsText leaf key k (w ++ (t ++ w')) (.items [d])
  | item {k k' : ℕ} {w t w' t' : List Char} {d : Doc N} {items : List (Doc N)} : IsSpaces w →
      IsSpaces w' → IsText leaf key k t (.value d) → IsText leaf key k' t' (.items items) →
      IsText leaf key (max k k') (w ++ (t ++ (w' ++ ',' :: t'))) (.items (d :: items))
  | lastField {k : ℕ} {w n w' v t w'' : List Char} {name : String} {d : Doc N} : IsSpaces w →
      IsSpaces w' → IsSpaces v → IsSpaces w'' → key n name → IsText leaf key k t (.value d) →
      IsText leaf key k (w ++ (n ++ (w' ++ ':' :: (v ++ (t ++ w''))))) (.fields [(name, d)])
  | field {k k' : ℕ} {w n w' v t w'' t' : List Char} {name : String} {d : Doc N}
      {fields : List (String × Doc N)} : IsSpaces w → IsSpaces w' → IsSpaces v → IsSpaces w'' →
      key n name → IsText leaf key k t (.value d) → IsText leaf key k' t' (.fields fields) →
      IsText leaf key (max k k') (w ++ (n ++ (w' ++ ':' :: (v ++ (t ++ (w'' ++ ',' :: t'))))))
        (.fields ((name, d) :: fields))

/-! ## The reader -/

/-- The character behind a backslash, and how many characters it takes. -/
def readEscape : List Char → Option (Char × ℕ)
  | 'u' :: a :: b :: c :: d :: t =>
    match hex4 a b c d with
    | none => none
    | some n =>
      if isSurrogate n then
        match t with
        | '\\' :: 'u' :: a' :: b' :: c' :: d' :: _ =>
          (hex4 a' b' c' d').bind fun m => (joinSurrogates n m).map fun e => (e, 11)
        | _ => none
      else some (Char.ofNat n, 5)
  | c :: _ => (simpleEscape c).map fun d => (d, 1)
  | [] => none

/-- The string up to its closing quote, after the characters to skip. -/
def readString : ℕ → List Char → Option (List Char × List Char)
  | _, [] => none
  | skip + 1, _ :: t => readString skip t
  | 0, c :: t =>
    if c = '"' then some ([], t)
    else if c = '\\' then
      match readEscape t with
      | none => none
      | some (d, n) => (readString n t).map fun r => (d :: r.1, r.2)
    else if c.toNat < 32 then none
    else (readString 0 t).map fun r => (c :: r.1, r.2)

/-- A word at the beginning of a text. -/
def readWord (word : String) (d : Doc N) (t : List Char) : Option (Doc N × List Char) :=
  if word.toList.isPrefixOf t then some (d, t.drop word.length) else none

/-- A number at the beginning of a text. -/
def readNumber (num : NumberText N) (t : List Char) : Option (Doc N × List Char) :=
  let token := t.takeWhile isNumberChar
  if isToken token then (num.read token).map fun n => (.number n, t.dropWhile isNumberChar)
  else none

/-- The items of an array up to its closing bracket. -/
def readItems (value : List Char → Option (Doc N × List Char)) :
    ℕ → List Char → Option (List (Doc N) × List Char)
  | 0, _ => none
  | fuel + 1, t =>
    match value (skipSpaces t) with
    | none => none
    | some (d, t) =>
      match skipSpaces t with
      | ',' :: t => (readItems value fuel t).map fun r => (d :: r.1, r.2)
      | ']' :: t => some ([d], t)
      | _ => none

/-- The fields of an object up to its closing brace. -/
def readFields (value : List Char → Option (Doc N × List Char)) :
    ℕ → List Char → Option (List (String × Doc N) × List Char)
  | 0, _ => none
  | fuel + 1, t =>
    match skipSpaces t with
    | '"' :: t =>
      match readString 0 t with
      | none => none
      | some (name, t) =>
        match skipSpaces t with
        | ':' :: t =>
          match value (skipSpaces t) with
          | none => none
          | some (d, t) =>
            match skipSpaces t with
            | ',' :: t =>
              (readFields value fuel t).map fun r => ((String.ofList name, d) :: r.1, r.2)
            | '\x7d' :: t => some ([(String.ofList name, d)], t)
            | _ => none
        | _ => none
    | _ => none

/-- An array behind its opening bracket. -/
def readArray (value : List Char → Option (Doc N × List Char)) (t : List Char) :
    Option (Doc N × List Char) :=
  match skipSpaces t with
  | ']' :: t => some (.array [], t)
  | _ => (readItems value (t.length + 1) t).map fun r => (.array r.1, r.2)

/-- An object behind its opening brace. -/
def readObject (value : List Char → Option (Doc N × List Char)) (t : List Char) :
    Option (Doc N × List Char) :=
  match skipSpaces t with
  | '\x7d' :: t => some (.object [], t)
  | _ => (readFields value (t.length + 1) t).map fun r => (.object (insertAll r.1), r.2)

/-- A value, with a reader of the values in it, unless it is nested too deeply. -/
def readWith (num : NumberText N) (nested : Option (List Char → Option (Doc N × List Char)))
    (t : List Char) : Option (Doc N × List Char) :=
  match t with
  | '"' :: t => (readString 0 t).map fun r => (.string (String.ofList r.1), r.2)
  | '[' :: t => nested.bind fun value => readArray value t
  | '\x7b' :: t => nested.bind fun value => readObject value t
  | 'n' :: _ => readWord "null" .null t
  | 't' :: _ => readWord "true" (.bool true) t
  | 'f' :: _ => readWord "false" (.bool false) t
  | t => readNumber num t

/-- A value at the beginning of a text, nested to at most a depth. -/
def readValue (num : NumberText N) : ℕ → List Char → Option (Doc N × List Char)
  | 0 => readWith num none
  | depth + 1 => readWith num (some (readValue num depth))

/-- The document that a text writes, nested to at most a depth. -/
def readText (num : NumberText N) (depth : ℕ) (t : List Char) : Option (Doc N) :=
  match readValue num depth (skipSpaces t) with
  | none => none
  | some (d, t) => if skipSpaces t = [] then some d else none

/-! ## Strings are read -/

theorem readString_append (e t : List Char) : readString e.length (e ++ t) = readString 0 t := by
  induction e with
  | nil => rfl
  | cons c e ih => exact ih

variable {c : Char}

theorem readEscape_of_isEscape {e t : List Char} (h : IsEscape e c) :
    readEscape (e ++ t) = some (c, e.length) := by
  cases h with
  | @simple c' d hc =>
    have hu : c' ≠ 'u' := by
      rintro rfl
      cases hc
    show readEscape (c' :: t) = some (c, 1)
    unfold readEscape
    split
    · rename_i heq
      exact absurd (cons.inj heq).1 hu
    · rename_i heq
      obtain ⟨rfl, rfl⟩ := cons.inj heq
      rw [hc, map_some]
    · rename_i heq
      cases heq
  | unicode hn hs =>
    rw [readEscape.eq_def]
    simp only [cons_append, nil_append, hn, hs]
    rfl
  | pair hn hs hm he =>
    rw [readEscape.eq_def]
    simp only [cons_append, nil_append, hn, hs, hm, if_true, bind_some, he]
    rfl

theorem readString_of_isBody {b s : List Char} (h : IsBody b s) (t : List Char) :
    readString 0 (b ++ '"' :: t) = some (s, t) := by
  induction h with
  | nil => rfl
  | @char c b s hquote hslash hcontrol _ ih =>
    rw [cons_append, readString, if_neg hquote, if_neg hslash, if_neg (by omega), ih, map_some]
  | @escape e b s c he _ ih =>
    rw [cons_append, readString, if_neg (by decide), if_pos rfl, append_assoc,
      readEscape_of_isEscape he]
    show Option.map _ (readString e.length (e ++ (b ++ '"' :: t))) = _
    rw [readString_append, ih, map_some]

/-! ## Leaves are read -/

/-- The text does not go on with a number. -/
def Ends (t : List Char) : Prop :=
  ∀ c ∈ t.head?, isNumberChar c = false

variable {t : List Char}

theorem isNumberChar_of_isToken (h : isToken t = true) :
    ∀ c ∈ t, isNumberChar c = true := by
  cases t with
  | nil => exact nofun
  | cons c t =>
    obtain ⟨hhead, htail⟩ := and_eq_true_iff.mp h
    intro c' hc'
    rcases mem_cons.mp hc' with rfl | hc'
    · rcases or_eq_true_iff.mp hhead with hdigit | hminus
      · unfold isNumberChar
        rw [hdigit]
        rfl
      · rw [of_decide_eq_true hminus]
        rfl
    · exact all_eq_true.mp htail c' hc'

variable {num : NumberText N}

theorem readNumber_of_isToken {t rest : List Char} {n : N}
    (ht : isToken t = true) (hn : num.read t = some n) (hrest : Ends rest) :
    readNumber num (t ++ rest) = some (.number n, rest) := by
  have hchars := isNumberChar_of_isToken ht
  have htake : rest.takeWhile isNumberChar = [] ∧ rest.dropWhile isNumberChar = rest := by
    cases rest with
    | nil => exact ⟨rfl, rfl⟩
    | cons c rest =>
      have hc : isNumberChar c = false := hrest c rfl
      rw [takeWhile_cons, dropWhile_cons, hc]
      exact ⟨rfl, rfl⟩
  unfold readNumber
  rw [takeWhile_append_of_pos hchars, dropWhile_append_of_pos hchars, htake.1, htake.2, append_nil]
  simp only [ht, hn]
  rfl

/-- The first character of a number begins no other leaf. -/
theorem readWith_of_isToken (num : NumberText N)
    (nested : Option (List Char → Option (Doc N × List Char))) (rest : List Char)
    (h : isToken t = true) : readWith num nested (t ++ rest) = readNumber num (t ++ rest) := by
  cases t with
  | nil => cases h
  | cons c t =>
    have hc : c.isDigit = true ∨ c = '-' := by
      rcases or_eq_true_iff.mp (and_eq_true_iff.mp h).1 with hdigit | hminus
      · exact Or.inl hdigit
      · exact Or.inr (of_decide_eq_true hminus)
    rw [cons_append]
    unfold readWith
    split
    all_goals first
      | rfl
      | (rename_i heq
         rw [(cons.inj heq).1] at hc
         exact absurd hc (by decide))

variable {d : Doc N}

theorem readWith_of_isLeaf
    {nested : Option (List Char → Option (Doc N × List Char))} {t rest : List Char}
    (h : IsLeaf num t d) (hrest : Ends rest) :
    readWith num nested (t ++ rest) = some (d, rest) := by
  cases h with
  | null => rfl
  | bool b =>
    cases b with
    | false | true => rfl
  | number ht hn => rw [readWith_of_isToken num nested rest ht, readNumber_of_isToken ht hn hrest]
  | @string t s hs =>
    obtain ⟨b, rfl, hb⟩ := hs
    rw [cons_append, append_assoc]
    show Option.map _ (readString 0 (b ++ '"' :: rest)) = _
    rw [readString_of_isBody hb, map_some, String.ofList_toList]

/-! ## Texts are read -/

theorem skipSpaces_append {w : List Char} (h : IsSpaces w) (t : List Char) :
    skipSpaces (w ++ t) = skipSpaces t :=
  dropWhile_append_of_pos h

theorem skipSpaces_cons (h : isSpace c = false) (t : List Char) :
    skipSpaces (c :: t) = c :: t := by
  unfold skipSpaces
  rw [dropWhile_cons, h]
  rfl

theorem isNumberChar_of_isSpace (h : isSpace c = true) : isNumberChar c = false := by
  unfold isSpace at h
  rw [or_eq_true_iff, or_eq_true_iff, or_eq_true_iff] at h
  rcases h with ((h | h) | h) | h
  all_goals
    rw [of_decide_eq_true h]
    rfl

theorem ends_append {w t : List Char} (hw : IsSpaces w) (ht : Ends t) : Ends (w ++ t) := by
  cases w with
  | nil => exact ht
  | cons c w =>
    intro c' hc'
    rw [← some.inj hc']
    exact isNumberChar_of_isSpace (hw c mem_cons_self)

theorem ends_cons (h : isNumberChar c = false) (t : List Char) : Ends (c :: t) := by
  intro c' hc'
  rw [← some.inj hc']
  exact h

/-- The first character of a value. -/
def Starts (t : List Char) : Prop :=
  ∃ c t', t = c :: t' ∧ isSpace c = false ∧ c ≠ ']'

theorem Starts.skipSpaces {w t : List Char} (h : Starts t) (hw : IsSpaces w) (rest : List Char) :
    skipSpaces (w ++ (t ++ rest)) = t ++ rest := by
  obtain ⟨c, t, rfl, hc, -⟩ := h
  rw [skipSpaces_append hw]
  exact skipSpaces_cons hc _

theorem starts_of_isLeaf (h : IsLeaf num t d) :
    Starts t := by
  cases h with
  | null => exact ⟨'n', _, rfl, rfl, by decide⟩
  | bool b =>
    cases b with
    | false => exact ⟨'f', _, rfl, rfl, by decide⟩
    | true => exact ⟨'t', _, rfl, rfl, by decide⟩
  | number ht =>
    have hchars := isNumberChar_of_isToken ht
    cases t with
    | nil => cases ht
    | cons c t =>
      have hc := hchars c mem_cons_self
      refine ⟨c, t, rfl, ?_, ?_⟩
      · by_contra hspace
        rw [isNumberChar_of_isSpace (eq_true_of_ne_false hspace)] at hc
        cases hc
      · rintro rfl
        cases hc
  | string hs =>
    obtain ⟨b, rfl, -⟩ := hs
    exact ⟨'"', _, rfl, rfl, by decide⟩

theorem starts_of_isText {leaf : List Char → Doc N → Prop} {key : List Char → String → Prop}
    (hleaf : ∀ t d, leaf t d → Starts t) {k : ℕ}
    (h : IsText leaf key k t (.value d)) : Starts t := by
  cases h with
  | leaf h => exact hleaf _ _ h
  | emptyArray | array => exact ⟨'[', _, rfl, rfl, by decide⟩
  | emptyObject | object => exact ⟨'\x7b', _, rfl, rfl, by decide⟩

/-- What the reader makes of the text of a part. -/
def Reads (num : NumberText N) (k : ℕ) (t : List Char) : Part N → Prop
  | .value d => ∀ (depth : ℕ) (rest : List Char), Ends rest →
      readValue num depth (t ++ rest) = if k ≤ depth then some (d, rest) else none
  | .items items => ∀ (depth fuel : ℕ) (rest : List Char), t.length < fuel →
      readItems (readValue num depth) fuel (t ++ ']' :: rest) =
        if k ≤ depth then some (items, rest) else none
  | .fields fields => ∀ (depth fuel : ℕ) (rest : List Char), t.length < fuel →
      readFields (readValue num depth) fuel (t ++ '\x7d' :: rest) =
        if k ≤ depth then some (fields, rest) else none

/-- The items of an array begin with a value. -/
theorem exists_cons_of_isItems {k : ℕ}
    {items : List (Doc N)} (h : IsText (IsLeaf num) IsString k t (.items items))
    (rest : List Char) : ∃ c t', skipSpaces (t ++ rest) = c :: t' ∧ c ≠ ']' := by
  cases h with
  | lastItem hw _ hd | item hw _ hd =>
    obtain ⟨c, t, rfl, hc, hne⟩ := starts_of_isText (fun _ _ => starts_of_isLeaf) hd
    rw [append_assoc, skipSpaces_append hw]
    exact ⟨c, _, skipSpaces_cons hc _, hne⟩

/-- The fields of an object begin with a key. -/
theorem exists_cons_of_isFields {k : ℕ}
    {fields : List (String × Doc N)} (h : IsText (IsLeaf num) IsString k t (.fields fields))
    (rest : List Char) : ∃ t', skipSpaces (t ++ rest) = '"' :: t' := by
  cases h with
  | lastField hw _ _ _ hn | field hw _ _ _ hn =>
    obtain ⟨b, rfl, -⟩ := hn
    rw [append_assoc, skipSpaces_append hw]
    exact ⟨_, skipSpaces_cons rfl _⟩

theorem readArray_of_ne {value : List Char → Option (Doc N × List Char)} {t t' : List Char}
    (h : skipSpaces t = c :: t') (hc : c ≠ ']') :
    readArray value t = (readItems value (t.length + 1) t).map fun r => (.array r.1, r.2) := by
  unfold readArray
  rw [h]
  split
  · rename_i heq
    exact absurd (cons.inj heq).1 hc
  · rfl

theorem readObject_of_quote {value : List Char → Option (Doc N × List Char)} {t t' : List Char}
    (h : skipSpaces t = '"' :: t') :
    readObject value t =
      (readFields value (t.length + 1) t).map fun r => (.object (insertAll r.1), r.2) := by
  unfold readObject
  rw [h]
  rfl

section Steps

variable {value : List Char → Option (Doc N × List Char)} {t t' rest : List Char} {d : Doc N}

theorem readItems_none (fuel : ℕ) (h : value (skipSpaces t) = none) :
    readItems value (fuel + 1) t = none := by
  rw [readItems, h]

theorem readItems_last (fuel : ℕ) (h : value (skipSpaces t) = some (d, t'))
    (ht' : skipSpaces t' = ']' :: rest) : readItems value (fuel + 1) t = some ([d], rest) := by
  rw [readItems, h]
  simp only [ht']

theorem readItems_item (fuel : ℕ) (h : value (skipSpaces t) = some (d, t'))
    (ht' : skipSpaces t' = ',' :: rest) :
    readItems value (fuel + 1) t = (readItems value fuel rest).map fun r => (d :: r.1, r.2) := by
  rw [readItems, h]
  simp only [ht']

/-- A field whose key was read. -/
def readField (value : List Char → Option (Doc N × List Char)) (fuel : ℕ) (name : String)
    (t : List Char) : Option (List (String × Doc N) × List Char) :=
  match value (skipSpaces t) with
  | none => none
  | some (d, t) =>
    match skipSpaces t with
    | ',' :: t => (readFields value fuel t).map fun r => ((name, d) :: r.1, r.2)
    | '\x7d' :: t => some ([(name, d)], t)
    | _ => none

variable {name : String}

theorem readFields_key (fuel : ℕ) {w n w' : List Char} (hw : IsSpaces w)
    (hw' : IsSpaces w') (hn : IsString n name) :
    readFields value (fuel + 1) (w ++ (n ++ (w' ++ ':' :: t))) = readField value fuel name t := by
  obtain ⟨b, rfl, hb⟩ := hn
  rw [cons_append, append_assoc, readFields, skipSpaces_append hw, skipSpaces_cons rfl]
  simp only [singleton_append, readString_of_isBody hb, skipSpaces_append hw']
  rw [skipSpaces_cons rfl, String.ofList_toList]
  rfl

theorem readField_none {fuel : ℕ} (h : value (skipSpaces t) = none) :
    readField value fuel name t = none := by
  rw [readField, h]

theorem readField_last {fuel : ℕ} (h : value (skipSpaces t) = some (d, t'))
    (ht' : skipSpaces t' = '\x7d' :: rest) :
    readField value fuel name t = some ([(name, d)], rest) := by
  rw [readField, h]
  simp only [ht']

theorem readField_field {fuel : ℕ} (h : value (skipSpaces t) = some (d, t'))
    (ht' : skipSpaces t' = ',' :: rest) :
    readField value fuel name t =
      (readFields value fuel rest).map fun r => ((name, d) :: r.1, r.2) := by
  rw [readField, h]
  simp only [ht']

end Steps

/-- The reader finds what a text writes, if it is not nested too deeply. -/
theorem reads_of_isText {k : ℕ} {p : Part N}
    (h : IsText (IsLeaf num) IsString k t p) : Reads num k t p := by
  induction h with
  | leaf hd =>
    intro depth rest hrest
    rw [if_pos (Nat.zero_le _)]
    cases depth with
    | zero | succ depth => exact readWith_of_isLeaf hd hrest
  | @emptyArray w hw =>
    intro depth rest hrest
    rw [cons_append, append_assoc]
    cases depth with
    | zero => rfl
    | succ depth =>
      rw [if_pos (Nat.succ_le_succ (Nat.zero_le _))]
      show readArray _ (w ++ ']' :: rest) = _
      unfold readArray
      rw [skipSpaces_append hw, skipSpaces_cons rfl]
      rfl
  | @array k t items hitems ih =>
    intro depth rest hrest
    rw [cons_append, append_assoc]
    cases depth with
    | zero => rfl
    | succ depth =>
      obtain ⟨c, t', heq, hc⟩ := exists_cons_of_isItems hitems (']' :: rest)
      show readArray _ (t ++ ']' :: rest) = _
      rw [readArray_of_ne heq hc, ih depth _ rest (by rw [length_append]; omega)]
      by_cases hk : k ≤ depth
      · rw [if_pos hk, if_pos (Nat.succ_le_succ hk), map_some]
      · rw [if_neg hk, if_neg (by omega), map_none]
  | @emptyObject w hw =>
    intro depth rest hrest
    rw [cons_append, append_assoc]
    cases depth with
    | zero => rfl
    | succ depth =>
      rw [if_pos (Nat.succ_le_succ (Nat.zero_le _))]
      show readObject _ (w ++ '\x7d' :: rest) = _
      unfold readObject
      rw [skipSpaces_append hw, skipSpaces_cons rfl]
      rfl
  | @object k t fields hfields ih =>
    intro depth rest hrest
    rw [cons_append, append_assoc]
    cases depth with
    | zero => rfl
    | succ depth =>
      obtain ⟨t', heq⟩ := exists_cons_of_isFields hfields ('\x7d' :: rest)
      show readObject _ (t ++ '\x7d' :: rest) = _
      rw [readObject_of_quote heq, ih depth _ rest (by rw [length_append]; omega)]
      by_cases hk : k ≤ depth
      · rw [if_pos hk, if_pos (Nat.succ_le_succ hk), map_some]
      · rw [if_neg hk, if_neg (by omega), map_none]
  | @lastItem k w t w' d hw hw' hd ih =>
    intro depth fuel rest hfuel
    obtain ⟨fuel, rfl⟩ := Nat.exists_eq_add_one.mpr (Nat.zero_lt_of_lt hfuel)
    rw [append_assoc, append_assoc]
    have hvalue := ih depth (w' ++ ']' :: rest) (ends_append hw' (ends_cons rfl _))
    rw [← (starts_of_isText (fun _ _ => starts_of_isLeaf) hd).skipSpaces hw] at hvalue
    by_cases hk : k ≤ depth
    · rw [if_pos hk] at hvalue ⊢
      exact readItems_last fuel hvalue ((skipSpaces_append hw' _).trans (skipSpaces_cons rfl _))
    · rw [if_neg hk] at hvalue ⊢
      exact readItems_none fuel hvalue
  | @item k k' w t w' t' d items hw hw' hd _ ih ihs =>
    intro depth fuel rest hfuel
    obtain ⟨fuel, rfl⟩ := Nat.exists_eq_add_one.mpr (Nat.zero_lt_of_lt hfuel)
    rw [append_assoc, append_assoc, append_assoc, cons_append]
    simp only [length_append, length_cons] at hfuel
    have hvalue := ih depth (w' ++ ',' :: (t' ++ ']' :: rest)) (ends_append hw' (ends_cons rfl _))
    rw [← (starts_of_isText (fun _ _ => starts_of_isLeaf) hd).skipSpaces hw] at hvalue
    by_cases hk : k ≤ depth
    · rw [if_pos hk] at hvalue
      rw [readItems_item fuel hvalue ((skipSpaces_append hw' _).trans (skipSpaces_cons rfl _)),
        ihs depth fuel rest (by omega)]
      by_cases hk' : k' ≤ depth
      · rw [if_pos hk', if_pos (Nat.max_le.mpr ⟨hk, hk'⟩), map_some]
      · rw [if_neg hk', if_neg (fun hmax => hk' (Nat.max_le.mp hmax).2), map_none]
    · rw [if_neg hk] at hvalue
      rw [if_neg (fun hmax => hk (Nat.max_le.mp hmax).1)]
      exact readItems_none fuel hvalue
  | @lastField k w n w' v t w'' name d hw hw' hv hw'' hn hd ih =>
    intro depth fuel rest hfuel
    obtain ⟨fuel, rfl⟩ := Nat.exists_eq_add_one.mpr (Nat.zero_lt_of_lt hfuel)
    simp only [append_assoc, cons_append]
    rw [readFields_key fuel hw hw' hn]
    have hvalue := ih depth (w'' ++ '\x7d' :: rest) (ends_append hw'' (ends_cons rfl _))
    rw [← (starts_of_isText (fun _ _ => starts_of_isLeaf) hd).skipSpaces hv] at hvalue
    by_cases hk : k ≤ depth
    · rw [if_pos hk] at hvalue ⊢
      exact readField_last hvalue ((skipSpaces_append hw'' _).trans (skipSpaces_cons rfl _))
    · rw [if_neg hk] at hvalue ⊢
      exact readField_none hvalue
  | @field k k' w n w' v t w'' t' name d fields hw hw' hv hw'' hn hd _ ih ihs =>
    intro depth fuel rest hfuel
    obtain ⟨fuel, rfl⟩ := Nat.exists_eq_add_one.mpr (Nat.zero_lt_of_lt hfuel)
    simp only [length_append, length_cons] at hfuel
    simp only [append_assoc, cons_append]
    rw [readFields_key fuel hw hw' hn]
    have hvalue := ih depth (w'' ++ ',' :: (t' ++ '\x7d' :: rest))
      (ends_append hw'' (ends_cons rfl _))
    rw [← (starts_of_isText (fun _ _ => starts_of_isLeaf) hd).skipSpaces hv] at hvalue
    by_cases hk : k ≤ depth
    · rw [if_pos hk] at hvalue
      rw [readField_field hvalue ((skipSpaces_append hw'' _).trans (skipSpaces_cons rfl _)),
        ihs depth fuel rest (by omega)]
      by_cases hk' : k' ≤ depth
      · rw [if_pos hk', if_pos (Nat.max_le.mpr ⟨hk, hk'⟩), map_some]
      · rw [if_neg hk', if_neg (fun hmax => hk' (Nat.max_le.mp hmax).2), map_none]
    · rw [if_neg hk] at hvalue
      rw [if_neg (fun hmax => hk (Nat.max_le.mp hmax).1)]
      exact readField_none hvalue

/-- The document of a text with white space around it is read, if it is not nested too deeply. -/
theorem readText_of_isText {k : ℕ} {w t w' : List Char} (hw : IsSpaces w) (hw' : IsSpaces w')
    (h : IsText (IsLeaf num) IsString k t (.value d)) (depth : ℕ) :
    readText num depth (w ++ (t ++ w')) = if k ≤ depth then some d else none := by
  have hends : Ends w' := by
    rw [← append_nil w']
    exact ends_append hw' nofun
  have hvalue := reads_of_isText h depth w' hends
  rw [← (starts_of_isText (fun _ _ => starts_of_isLeaf) h).skipSpaces hw] at hvalue
  have hspaces : skipSpaces w' = [] := by
    have hskip := skipSpaces_append hw' []
    rw [append_nil] at hskip
    exact hskip
  unfold readText
  rw [hvalue]
  by_cases hk : k ≤ depth
  · rw [if_pos hk, if_pos hk]
    exact if_pos hspaces
  · rw [if_neg hk, if_neg hk]

/-! ## Control characters -/

theorem mem_drop_of_readEscape {d c : Char} {n : ℕ} (hc : c.toNat < 32)
    (h : readEscape t = some (d, n)) (hmem : c ∈ t) : c ∈ t.drop n := by
  have hhex {e : Char} {m : ℕ} (he : hexValue e = some m) : c ≠ e := by
    rintro rfl
    have hnone : ∀ m < 32, hexValue (Char.ofNat m) = none := by decide
    have hc' := hnone c.toNat hc
    rw [Char.ofNat_toNat, he] at hc'
    cases hc'
  have hhex4 {a b e f : Char} {m : ℕ} {t : List Char} (h4 : hex4 a b e f = some m)
      (hmem : c ∈ a :: b :: e :: f :: t) : c ∈ t := by
    unfold hex4 at h4
    split at h4
    · rename_i ha hb he hf
      have hmem := mem_of_ne_of_mem (hhex ha) hmem
      have hmem := mem_of_ne_of_mem (hhex hb) hmem
      have hmem := mem_of_ne_of_mem (hhex he) hmem
      exact mem_of_ne_of_mem (hhex hf) hmem
    · cases h4
  have hletter {e : Char} {t : List Char} (he : 32 ≤ e.toNat) (hmem : c ∈ e :: t) : c ∈ t := by
    refine mem_of_ne_of_mem ?_ hmem
    rintro rfl
    omega
  rw [readEscape.eq_def] at h
  split at h
  · rename_i a b e f t
    have hmem := hletter (by decide) hmem
    split at h
    · cases h
    · rename_i m hm
      have hmem := hhex4 hm hmem
      split at h
      · split at h
        · rename_i a' b' e' f' t'
          obtain ⟨m', hm', h⟩ := bind_eq_some_iff.mp h
          obtain ⟨x, -, heq⟩ := map_eq_some_iff.mp h
          cases heq
          exact hhex4 hm' (hletter (by decide) (hletter (by decide) hmem))
        · cases h
      · cases h
        exact hmem
  · rename_i e t _
    obtain ⟨x, hx, heq⟩ := map_eq_some_iff.mp h
    cases heq
    refine mem_of_ne_of_mem ?_ hmem
    rintro rfl
    have hnone : ∀ m < 32, simpleEscape (Char.ofNat m) = none := by decide
    have hc' := hnone c.toNat hc
    rw [Char.ofNat_toNat, hx] at hc'
    cases hc'
  · cases h

/-- A control character is not read as part of a string. -/
theorem mem_of_readString {skip : ℕ} {r : List Char × List Char}
    (hc : c.toNat < 32) (h : readString skip t = some r) (hmem : c ∈ t.drop skip) : c ∈ r.2 := by
  revert r
  fun_induction readString skip t with
  | case1 => exact nofun
  | case2 skip c' t ih => exact fun h => ih hmem h
  | case3 t =>
    intro r h
    cases h
    rcases mem_cons.mp hmem with rfl | hmem
    · exact absurd hc (by decide)
    · exact hmem
  | case4 => exact nofun
  | case5 t d n hescape _ ih =>
    intro r h
    obtain ⟨r', hr', rfl⟩ := map_eq_some_iff.mp h
    show c ∈ r'.2
    refine ih (mem_drop_of_readEscape hc hescape ?_) hr'
    rcases mem_cons.mp hmem with rfl | hmem
    · exact absurd hc (by decide)
    · exact hmem
  | case6 => exact nofun
  | case7 c' t _ _ hcontrol ih =>
    intro r h
    obtain ⟨r', hr', rfl⟩ := map_eq_some_iff.mp h
    show c ∈ r'.2
    refine ih ?_ hr'
    rcases mem_cons.mp hmem with rfl | hmem
    · exact absurd hc hcontrol
    · exact hmem

end JsonText
