/-
# Templates with placeholders

Which texts are JSON templates, and of what tree.  A placeholder stands for a value or in a string;
every `$` with a valid name in braces is one.  The scanner marks the placeholders of a template, and
what it makes of it is JSON for the tree with the sentinels in it.
-/
import HeraMind.Lib.ByteText
import HeraMind.Devices.PayloadTemplate

namespace HeraMind.Devices.Payload

open List Bool
open Serde JsonText

variable {N : Type}

/-! ## Templates -/

/-- A string with placeholders: pieces of text with the name behind each, and the rest. -/
structure Interpolation where
  parts : List (List Char × List Char)
  tail : List Char

namespace Interpolation

/-- A character in front. -/
def char (c : Char) (i : Interpolation) : Interpolation :=
  match i.parts with
  | [] => ⟨[], c :: i.tail⟩
  | (l, n) :: parts => ⟨(c :: l, n) :: parts, i.tail⟩

/-- A placeholder in front. -/
def placeholder (n : List Char) (i : Interpolation) : Interpolation :=
  ⟨([], n) :: i.parts, i.tail⟩

/-- The string with a text for every name. -/
def fill (f : List Char → List Char) (i : Interpolation) : List Char :=
  i.parts.flatMap (fun p => p.1 ++ f p.2) ++ i.tail

/-- The string with the sentinels. -/
def marked (i : Interpolation) : List Char :=
  i.fill sentinel

theorem fill_char (f : List Char → List Char) (c : Char) (i : Interpolation) :
    (i.char c).fill f = c :: i.fill f := by
  obtain ⟨parts, tail⟩ := i
  cases parts with
  | nil | cons p parts => rfl

theorem fill_placeholder (f : List Char → List Char) (n : List Char) (i : Interpolation) :
    (i.placeholder n).fill f = f n ++ i.fill f := by
  unfold fill placeholder
  rw [flatMap_cons, nil_append, append_assoc]

theorem fill_cons (f : List Char → List Char) (l n : List Char)
    (parts : List (List Char × List Char)) (tail : List Char) :
    fill f ⟨(l, n) :: parts, tail⟩ = l ++ (f n ++ fill f ⟨parts, tail⟩) := by
  unfold fill
  rw [flatMap_cons, append_assoc, append_assoc]

end Interpolation

/-- `${name}`. -/
def placeholderText (n : List Char) : List Char :=
  '$' :: '\x7b' :: (n ++ ['\x7d'])

/-- The text begins with a placeholder. -/
def BeginsPlaceholder (t : List Char) : Prop :=
  ∃ n t', t = placeholderText n ++ t' ∧ isValidName n = true

/-- What stands between the quotes of a string with placeholders. -/
inductive IsTemplateBody : List Char → Interpolation → Prop
  | nil : IsTemplateBody [] ⟨[], []⟩
  | char {c : Char} {t : List Char} {i : Interpolation} : c ≠ '"' → c ≠ '\\' → 32 ≤ c.toNat →
      ¬BeginsPlaceholder (c :: t) → IsTemplateBody t i → IsTemplateBody (c :: t) (i.char c)
  | escape {e t : List Char} {c : Char} {i : Interpolation} : IsEscape e c → IsTemplateBody t i →
      IsTemplateBody ('\\' :: (e ++ t)) (i.char c)
  | placeholder {n t : List Char} {i : Interpolation} : isValidName n = true →
      IsTemplateBody t i → IsTemplateBody (placeholderText n ++ t) (i.placeholder n)

/-- What stands in a template where JSON has a number or a string. -/
inductive Slot (N : Type) : Type where
  | number (n : N)
  | placeholder (name : List Char)
  | text (i : Interpolation)

/-- The parts of a template without parts. -/
inductive IsTemplateLeaf (num : NumberText N) : List Char → Doc (Slot N) → Prop
  | null : IsTemplateLeaf num "null".toList .null
  | bool (b : Bool) : IsTemplateLeaf num (toString b).toList (.bool b)
  | number {t : List Char} {n : N} : isToken t = true → num.read t = some n →
      IsTemplateLeaf num t (.number (.number n))
  | placeholder {n : List Char} : isValidName n = true →
      IsTemplateLeaf num (placeholderText n) (.number (.placeholder n))
  | text {b : List Char} {i : Interpolation} : IsTemplateBody b i →
      IsTemplateLeaf num ('"' :: (b ++ ['"'])) (.number (.text i))

/-- A key, which has no placeholders. -/
def IsTemplateKey (t : List Char) (s : String) : Prop :=
  ∃ b, t = '"' :: (b ++ ['"']) ∧ IsTemplateBody b ⟨[], s.toList⟩

/-- The text is a template of the tree, with the given nesting. -/
def IsTemplate (num : NumberText N) (k : ℕ) (template : String) (tree : Doc (Slot N)) : Prop :=
  ∃ w t w', template.toList = w ++ (t ++ w') ∧ IsSpaces w ∧ IsSpaces w' ∧
    IsText (IsTemplateLeaf num) IsTemplateKey k t (.value tree)

/-- What the scanner leaves for a slot. -/
def Slot.marked : Slot N → Doc N
  | .number n => .number n
  | .placeholder n => .string (String.ofList (sentinel n))
  | .text i => .string (String.ofList i.marked)

/-! ## Placeholders -/

variable {n : List Char}

theorem isNameChar_of_isValidName (h : isValidName n = true) :
    ∀ c ∈ n, isNameChar c = true := by
  cases n with
  | nil => cases h
  | cons c n =>
    obtain ⟨hhead, htail⟩ := and_eq_true_iff.mp h
    intro c' hc'
    rcases mem_cons.mp hc' with rfl | hc'
    · unfold isNameChar Char.isAlphanum
      rcases or_eq_true_iff.mp hhead with halpha | hline
      · rw [halpha]
        rfl
      · rw [hline, Bool.or_true]
        rfl
    · exact all_eq_true.mp htail c' hc'

theorem ne_of_isNameChar {c d : Char} (hc : isNameChar c = true) (hd : isNameChar d = false) :
    c ≠ d := by
  rintro rfl
  rw [hc] at hd
  cases hd

/-- The text up to the first brace that closes. -/
theorem takeWhile_brace (h : isValidName n = true) (t : List Char) :
    (n ++ '\x7d' :: t).takeWhile (· ≠ '\x7d') = n := by
  have hchars : ∀ c ∈ n, decide (c ≠ '\x7d') = true := by
    intro c hc
    exact decide_eq_true (ne_of_isNameChar (isNameChar_of_isValidName h c hc) (by decide))
  rw [takeWhile_append_of_pos hchars, takeWhile_cons]
  exact append_nil n

theorem matchPlaceholderAt_placeholder (h : isValidName n = true)
    (t : List Char) : matchPlaceholderAt (placeholderText n ++ t) = some (n.length + 2) := by
  have hpos : 0 < n.length := by
    cases n with
    | nil => cases h
    | cons => exact Nat.succ_pos _
  have htext : placeholderText n ++ t = '$' :: '\x7b' :: (n ++ '\x7d' :: t) := by
    unfold placeholderText
    rw [cons_append, cons_append, append_assoc]
    rfl
  have hlength : ¬(placeholderText n ++ t).length < 4 := by
    rw [htext]
    simp only [length_cons, length_append]
    omega
  unfold matchPlaceholderAt
  rw [if_neg hlength, htext]
  simp only
  rw [takeWhile_brace h, if_neg, if_pos h]
  rw [length_append, length_cons]
  omega

theorem matchPlaceholderAt_eq_none {s : List Char} (h : ¬BeginsPlaceholder s) :
    matchPlaceholderAt s = none := by
  unfold matchPlaceholderAt
  split
  · rfl
  · split
    · rename_i t _
      simp only
      split
      · rfl
      · rename_i hlength
        split
        · rename_i hvalid
          exfalso
          apply h
          have hdrop : t.dropWhile (· ≠ '\x7d') ≠ [] := by
            intro hnil
            have happend := takeWhile_append_dropWhile (p := fun c => decide (c ≠ '\x7d')) (l := t)
            rw [hnil, append_nil] at happend
            exact hlength (congrArg List.length happend)
          obtain ⟨c, t', ht'⟩ := exists_cons_of_ne_nil hdrop
          have hc : c = '\x7d' := by
            have hhead := head_dropWhile_not (fun c => decide (c ≠ '\x7d')) hdrop
            simp only [ht', head_cons] at hhead
            by_contra hne
            rw [decide_eq_true hne] at hhead
            cases hhead
          refine ⟨t.takeWhile (· ≠ '\x7d'), t', ?_, hvalid⟩
          have happend := takeWhile_append_dropWhile (p := fun c => decide (c ≠ '\x7d')) (l := t)
          rw [ht', hc] at happend
          unfold placeholderText
          rw [cons_append, cons_append, append_assoc]
          exact congrArg (fun l => '$' :: '\x7b' :: l) happend.symm
        · rfl
    · rfl

variable {t : List Char}

/-- A placeholder does not reach over the end of the string. -/
theorem not_beginsPlaceholder_append (h : ¬BeginsPlaceholder t)
    (rest : List Char) : ¬BeginsPlaceholder (t ++ '"' :: rest) := by
  rintro ⟨n, t', heq, hn⟩
  apply h
  have hquote : '"' ∉ placeholderText n := by
    unfold placeholderText
    rw [mem_cons, mem_cons, mem_append, mem_singleton]
    rintro (h | h | h | h)
    · exact absurd h (by decide)
    · exact absurd h (by decide)
    · exact ne_of_isNameChar (isNameChar_of_isValidName hn _ h) (d := '"') (by decide) rfl
    · exact absurd h (by decide)
  rcases append_eq_append_iff.mp heq with ⟨a, hplaceholder, hrest⟩ | ⟨a, ht, -⟩
  · cases a with
    | nil =>
      rw [append_nil] at hplaceholder
      exact ⟨n, [], by rw [append_nil, hplaceholder], hn⟩
    | cons c a =>
      exfalso
      apply hquote
      rw [hplaceholder, (cons.inj hrest).1]
      exact mem_append_right _ mem_cons_self
  · exact ⟨n, a, ht, hn⟩

/-! ## The scanner on ASCII text -/

/-- A character of one byte. -/
def isAscii (c : Char) : Bool :=
  c.toNat < 128

/-- What the scanner makes of ASCII text. -/
def mark : ℕ → (inString escaped : Bool) → List Char → List Char
  | _, _, _, [] => []
  | skip + 1, inString, escaped, _ :: t => mark skip inString escaped t
  | 0, inString, true, c :: t => c :: mark 0 inString false t
  | 0, true, false, c :: t =>
    if c = '\\' then '\\' :: mark 0 true true t
    else if c = '"' then '"' :: mark 0 false false t
    else
      match matchPlaceholderAt (c :: t) with
      | some n => sentinel (((c :: t).drop 2).take (n - 2)) ++ mark n true false t
      | none => c :: mark 0 true false t
  | 0, false, false, c :: t =>
    if c = '"' then '"' :: mark 0 true false t
    else
      match matchPlaceholderAt (c :: t) with
      | some n =>
        '"' :: (sentinel (((c :: t).drop 2).take (n - 2)) ++ '"' :: mark n false false t)
      | none => c :: mark 0 false false t

variable {c : Char}

theorem not_continues_of_isAscii (h : isAscii c = true) : continues c = false := by
  have hlt : c.toNat < 128 := of_decide_eq_true h
  unfold continues
  rw [decide_eq_false (by omega), Bool.false_and]

/-- The scanner does not panic on ASCII text. -/
theorem scan_eq_mark {skip : ℕ} {inString escaped : Bool} (h : ∀ c ∈ t, isAscii c = true) :
    scan skip inString escaped t = some (mark skip inString escaped t) := by
  fun_induction mark skip inString escaped t with
  | case1 => rw [scan]
  | case2 skip inString escaped c t ih =>
    rw [scan]
    exact ih fun c' hc' => h c' (mem_cons_of_mem _ hc')
  | case3 inString c t ih =>
    rw [scan, ih fun c' hc' => h c' (mem_cons_of_mem _ hc')]
    rfl
  | case4 t ih =>
    rw [scan, if_pos rfl, ih fun c' hc' => h c' (mem_cons_of_mem _ hc')]
    rfl
  | case5 t hslash ih =>
    rw [scan, if_neg hslash, if_pos rfl, ih fun c' hc' => h c' (mem_cons_of_mem _ hc')]
    rfl
  | case6 c t hslash hquote n hn ih =>
    rw [scan, if_neg hslash, if_neg hquote,
      not_continues_of_isAscii (h c mem_cons_self), if_neg (by decide)]
    simp only [hn, ih fun c' hc' => h c' (mem_cons_of_mem _ hc')]
    rfl
  | case7 c t hslash hquote hn ih =>
    rw [scan, if_neg hslash, if_neg hquote,
      not_continues_of_isAscii (h c mem_cons_self), if_neg (by decide), hn,
      ih fun c' hc' => h c' (mem_cons_of_mem _ hc')]
    rfl
  | case8 t ih =>
    rw [scan, if_pos rfl, ih fun c' hc' => h c' (mem_cons_of_mem _ hc')]
    rfl
  | case9 c t hquote n hn ih =>
    rw [scan, if_neg hquote, not_continues_of_isAscii (h c mem_cons_self), if_neg (by decide)]
    simp only [hn, ih fun c' hc' => h c' (mem_cons_of_mem _ hc')]
    rfl
  | case10 c t hquote hn ih =>
    rw [scan, if_neg hquote, not_continues_of_isAscii (h c mem_cons_self),
      if_neg (by decide), hn, ih fun c' hc' => h c' (mem_cons_of_mem _ hc')]
    rfl

/-- The bytes of ASCII text are its characters. -/
theorem bytes_of_isAscii {text : String} (h : ∀ c ∈ text.toList, isAscii c = true) :
    bytes text = text.toList := by
  have hchar : ∀ c ∈ text.toList,
      (String.utf8EncodeChar c).map (fun b => Char.ofNat b.toNat) = [c] := by
    intro c hc
    have hle : c.toNat ≤ 0x7f := Nat.le_of_lt_succ (of_decide_eq_true (h c hc))
    have hencode : String.utf8EncodeChar c = [UInt8.ofNat c.toNat] := if_pos hle
    rw [hencode, map_singleton, Utf8.toNat_ofNat (by omega), Char.ofNat_toNat]
  unfold bytes Utf8.asBytes
  rw [map_flatMap]
  clear h
  generalize text.toList = t at hchar ⊢
  induction t with
  | nil => rfl
  | cons c t ih =>
    rw [flatMap_cons, hchar c mem_cons_self, ih fun c' hc' => hchar c' (mem_cons_of_mem _ hc')]
    rfl

/-- What the scanner makes of some text, whatever follows it. -/
def Marks (t u : List Char) : Prop :=
  ∀ rest, mark 0 false false (t ++ rest) = u ++ mark 0 false false rest

theorem Marks.append {t u t' u' : List Char} (h : Marks t u) (h' : Marks t' u') :
    Marks (t ++ t') (u ++ u') := by
  intro rest
  rw [append_assoc, h, h', append_assoc]

theorem matchPlaceholderAt_of_ne (hc : c ≠ '$') (t : List Char) :
    matchPlaceholderAt (c :: t) = none := by
  apply matchPlaceholderAt_eq_none
  rintro ⟨n, t', heq, -⟩
  exact hc (cons.inj heq).1

/-- A character of JSON outside of strings. -/
def isPlainChar (c : Char) : Bool :=
  c ≠ '"' && c ≠ '$'

theorem marks_cons (hc : isPlainChar c = true) {t u : List Char} (h : Marks t u) :
    Marks (c :: t) (c :: u) := by
  obtain ⟨hquote, hdollar⟩ := and_eq_true_iff.mp hc
  intro rest
  rw [cons_append, mark, if_neg (of_decide_eq_true hquote),
    matchPlaceholderAt_of_ne (of_decide_eq_true hdollar)]
  exact congrArg (c :: ·) (h rest)

theorem marks_self (h : ∀ c ∈ t, isPlainChar c = true) : Marks t t := by
  induction t with
  | nil => exact fun rest => rfl
  | cons c t ih =>
    exact marks_cons (h c mem_cons_self) (ih fun c' hc' => h c' (mem_cons_of_mem _ hc'))

theorem marks_of_all (h : t.all isPlainChar = true) : Marks t t :=
  marks_self (all_eq_true.mp h)

theorem marks_spaces {w : List Char} (h : IsSpaces w) : Marks w w := by
  apply marks_self
  intro c hc
  have hspace := h c hc
  unfold isSpace at hspace
  rw [or_eq_true_iff, or_eq_true_iff, or_eq_true_iff] at hspace
  rcases hspace with ((h | h) | h) | h
  all_goals
    rw [of_decide_eq_true h]
    decide

theorem marks_token (h : isToken t = true) : Marks t t := by
  apply marks_self
  intro c hc
  have hnumber := isNumberChar_of_isToken h c hc
  have hne {d : Char} (hd : isNumberChar d = false) : c ≠ d := by
    rintro rfl
    rw [hnumber] at hd
    cases hd
  unfold isPlainChar
  rw [decide_eq_true (hne (d := '"') (by decide)), decide_eq_true (hne (d := '$') (by decide))]
  rfl

theorem mark_skip (t rest : List Char) (inString escaped : Bool) :
    mark t.length inString escaped (t ++ rest) = mark 0 inString escaped rest := by
  induction t with
  | nil => rfl
  | cons c t ih => exact ih

/-- A placeholder is taken as a whole. -/
theorem take_placeholder (n rest : List Char) :
    ((placeholderText n ++ rest).drop 2).take (n.length + 2 - 2) = n := by
  show (n ++ ['\x7d'] ++ rest).take n.length = n
  rw [append_assoc, take_left]

theorem mark_behind_placeholder (n rest : List Char) (inString : Bool) :
    mark (n.length + 2) inString false ('\x7b' :: (n ++ ['\x7d']) ++ rest) =
      mark 0 inString false rest := by
  have hlength : n.length + 2 = ('\x7b' :: (n ++ ['\x7d'])).length := by
    rw [length_cons, length_append]
    rfl
  rw [hlength, mark_skip]

/-- A placeholder in a string. -/
theorem mark_placeholder (h : isValidName n = true) (rest : List Char) :
    mark 0 true false (placeholderText n ++ rest) = sentinel n ++ mark 0 true false rest := by
  have hmatch := matchPlaceholderAt_placeholder h rest
  have hname := take_placeholder n rest
  have hskip := mark_behind_placeholder n rest true
  have htext : placeholderText n ++ rest = '$' :: ('\x7b' :: (n ++ ['\x7d']) ++ rest) := rfl
  rw [htext] at hmatch hname ⊢
  rw [mark, if_neg (by decide), if_neg (by decide)]
  simp only [hmatch, hname, hskip]

theorem marks_placeholder (h : isValidName n = true) :
    Marks (placeholderText n) ('"' :: (sentinel n ++ ['"'])) := by
  intro rest
  have hmatch := matchPlaceholderAt_placeholder h rest
  have hname := take_placeholder n rest
  have hskip := mark_behind_placeholder n rest false
  have htext : placeholderText n ++ rest = '$' :: ('\x7b' :: (n ++ ['\x7d']) ++ rest) := rfl
  rw [htext] at hmatch hname ⊢
  rw [mark, if_neg (by decide)]
  simp only [hmatch, hname, hskip]
  rw [cons_append, append_assoc]
  rfl

/-! ## Strings are marked -/

/-- The characters that the scanner passes on in a string. -/
theorem mark_pass (hslash : c ≠ '\\') (hquote : c ≠ '"') (hdollar : c ≠ '$')
    (t : List Char) : mark 0 true false (c :: t) = c :: mark 0 true false t := by
  rw [mark, if_neg hslash, if_neg hquote, matchPlaceholderAt_of_ne hdollar]

theorem mark_hex {n : ℕ} (h : hexValue c = some n) (t : List Char) :
    mark 0 true false (c :: t) = c :: mark 0 true false t := by
  have hne {d : Char} (hd : hexValue d = none) : c ≠ d := by
    rintro rfl
    rw [h] at hd
    cases hd
  exact mark_pass (hne (by decide)) (hne (by decide)) (hne (by decide)) t

theorem mark_hex4 {a b c d : Char} {n : ℕ} (h : hex4 a b c d = some n) (t : List Char) :
    mark 0 true false (a :: b :: c :: d :: t) = a :: b :: c :: d :: mark 0 true false t := by
  unfold hex4 at h
  split at h
  · rename_i ha hb hc hd
    rw [mark_hex ha, mark_hex hb, mark_hex hc, mark_hex hd]
  · cases h

theorem mark_escape {e : List Char} (h : IsEscape e c) (t : List Char) :
    mark 0 true true (e ++ t) = e ++ mark 0 true false t := by
  cases h with
  | simple => exact mark.eq_3 ..
  | unicode hn =>
    show mark 0 true true ('u' :: _) = _
    rw [mark]
    exact congrArg ('u' :: ·) (mark_hex4 hn t)
  | @pair a b c d a' b' c' d' _ _ _ hn _ hm =>
    show mark 0 true true ('u' :: a :: b :: c :: d :: '\\' :: 'u' :: a' :: b' :: c' :: d' :: t) = _
    rw [mark, mark_hex4 hn, mark, if_pos rfl, mark, mark_hex4 hm]
    rfl

theorem isBody_append {s t r : List Char}
    (hs : ∀ c ∈ s, c ≠ '"' ∧ c ≠ '\\' ∧ 32 ≤ c.toNat) (h : IsBody t r) :
    IsBody (s ++ t) (s ++ r) := by
  induction s with
  | nil => exact h
  | cons c s ih =>
    obtain ⟨hquote, hslash, hcontrol⟩ := hs c mem_cons_self
    exact .char hquote hslash hcontrol (ih fun c' hc' => hs c' (mem_cons_of_mem _ hc'))

theorem of_mem_sentinel (h : isValidName n = true)
    (hc : c ∈ sentinel n) : c ≠ '"' ∧ c ≠ '\\' ∧ 32 ≤ c.toNat := by
  have hfixed : ∀ c ∈ sentinelPrefix ++ sentinelSuffix, c ≠ '"' ∧ c ≠ '\\' ∧ 32 ≤ c.toNat :=
    ByteText.forall_mem_of_all (by decide)
  unfold sentinel at hc
  rw [mem_append, mem_append] at hc
  rcases hc with (hc | hc) | hc
  · exact hfixed c (mem_append_left _ hc)
  · have hname := isNameChar_of_isValidName h c hc
    refine ⟨ne_of_isNameChar hname (by decide), ne_of_isNameChar hname (by decide), ?_⟩
    by_contra hlt
    have hcontrol : ∀ m < 32, isNameChar (Char.ofNat m) = false := by decide
    have hnot := hcontrol c.toNat (by omega)
    rw [Char.ofNat_toNat, hname] at hnot
    cases hnot
  · exact hfixed c (mem_append_right _ hc)

/-- What the scanner leaves of a string is a string of JSON with the sentinels in it. -/
theorem exists_mark_of_isTemplateBody {b : List Char} {i : Interpolation}
    (h : IsTemplateBody b i) :
    ∃ u, IsBody u i.marked ∧
      ∀ rest, mark 0 true false (b ++ '"' :: rest) = u ++ '"' :: mark 0 false false rest := by
  induction h with
  | nil => exact ⟨[], .nil, fun rest => rfl⟩
  | @char c b i hquote hslash hcontrol hnot _ ih =>
    obtain ⟨u, hu, hmark⟩ := ih
    refine ⟨c :: u, ?_, fun rest => ?_⟩
    · unfold Interpolation.marked
      rw [Interpolation.fill_char]
      exact .char hquote hslash hcontrol hu
    · have hnone := matchPlaceholderAt_eq_none (not_beginsPlaceholder_append hnot rest)
      rw [cons_append] at hnone ⊢
      rw [mark, if_neg hslash, if_neg hquote, hnone]
      exact congrArg (c :: ·) (hmark rest)
  | @escape e b c i he _ ih =>
    obtain ⟨u, hu, hmark⟩ := ih
    refine ⟨'\\' :: (e ++ u), ?_, fun rest => ?_⟩
    · unfold Interpolation.marked
      rw [Interpolation.fill_char]
      exact .escape he hu
    · rw [cons_append, append_assoc, mark, if_pos rfl, mark_escape he, hmark,
        cons_append, append_assoc]
  | @placeholder n b i hn _ ih =>
    obtain ⟨u, hu, hmark⟩ := ih
    refine ⟨sentinel n ++ u, ?_, fun rest => ?_⟩
    · unfold Interpolation.marked
      rw [Interpolation.fill_placeholder]
      exact isBody_append (fun c hc => of_mem_sentinel hn hc) hu
    · rw [append_assoc, mark_placeholder hn, hmark, append_assoc]

/-! ## Templates are marked -/

/-- What the scanner leaves for the slots of a part. -/
def markedPart : JsonText.Part (Slot N) → JsonText.Part N
  | .value d => .value (graft Slot.marked d)
  | .items items => .items (items.map (graft Slot.marked))
  | .fields fields => .fields (fields.map (Prod.map id (graft Slot.marked)))

variable {num : NumberText N}

theorem exists_marks_of_isTemplateLeaf {d : Doc (Slot N)} (h : IsTemplateLeaf num t d) :
    ∃ u, Marks t u ∧ IsLeaf num u (graft Slot.marked d) := by
  cases h with
  | null => exact ⟨_, marks_of_all (by decide), .null⟩
  | bool b =>
    cases b with
    | false => exact ⟨_, marks_of_all (by decide), .bool false⟩
    | true => exact ⟨_, marks_of_all (by decide), .bool true⟩
  | number ht hn =>
    refine ⟨t, marks_token ht, ?_⟩
    rw [graft]
    exact .number ht hn
  | @placeholder n hn =>
    refine ⟨_, marks_placeholder hn, ?_⟩
    rw [graft]
    refine .string ⟨sentinel n, rfl, ?_⟩
    rw [String.toList_ofList]
    have hbody := isBody_append (fun c hc => of_mem_sentinel hn hc) IsBody.nil
    rw [append_nil] at hbody
    exact hbody
  | @text b i hb =>
    obtain ⟨u, hu, hmark⟩ := exists_mark_of_isTemplateBody hb
    refine ⟨'"' :: (u ++ ['"']), ?_, ?_⟩
    · intro rest
      rw [cons_append, append_assoc, mark, if_pos rfl, singleton_append, hmark,
        cons_append, append_assoc]
      rfl
    · rw [graft]
      refine .string ⟨u, rfl, ?_⟩
      rw [String.toList_ofList]
      exact hu

theorem exists_marks_of_isTemplateKey {s : String} (h : IsTemplateKey t s) :
    ∃ u, Marks t u ∧ IsString u s := by
  obtain ⟨b, rfl, hb⟩ := h
  obtain ⟨u, hu, hmark⟩ := exists_mark_of_isTemplateBody hb
  refine ⟨'"' :: (u ++ ['"']), ?_, u, rfl, hu⟩
  intro rest
  rw [cons_append, append_assoc, mark, if_pos rfl, singleton_append, hmark,
    cons_append, append_assoc]
  rfl

/-- What the scanner leaves of a template is JSON with the sentinels in it. -/
theorem exists_marks_of_isText {k : ℕ} {p : JsonText.Part (Slot N)}
    (h : IsText (IsTemplateLeaf num) IsTemplateKey k t p) :
    ∃ u, Marks t u ∧ IsText (IsLeaf num) IsString k u (markedPart p) := by
  induction h with
  | leaf hd =>
    obtain ⟨u, hu, hleaf⟩ := exists_marks_of_isTemplateLeaf hd
    exact ⟨u, hu, .leaf hleaf⟩
  | @emptyArray w hw =>
    refine ⟨_, marks_cons (by decide) ((marks_spaces hw).append (marks_of_all (by decide))), ?_⟩
    rw [markedPart, graft, graftItems]
    exact .emptyArray hw
  | array _ ih =>
    obtain ⟨u, hu, hitems⟩ := ih
    refine ⟨_, marks_cons (by decide) (hu.append (marks_of_all (by decide))), ?_⟩
    rw [markedPart, graft, graftItems_eq_map]
    exact .array hitems
  | emptyObject hw =>
    refine ⟨_, marks_cons (by decide) ((marks_spaces hw).append (marks_of_all (by decide))), ?_⟩
    rw [markedPart, graft, graftFields]
    exact .emptyObject hw
  | object _ ih =>
    obtain ⟨u, hu, hfields⟩ := ih
    refine ⟨_, marks_cons (by decide) (hu.append (marks_of_all (by decide))), ?_⟩
    rw [markedPart, graft, graftFields_eq_map, ← insertAll_map]
    exact .object hfields
  | lastItem hw hw' _ ih =>
    obtain ⟨u, hu, hd⟩ := ih
    exact ⟨_, (marks_spaces hw).append (hu.append (marks_spaces hw')), .lastItem hw hw' hd⟩
  | item hw hw' _ _ ih ihs =>
    obtain ⟨u, hu, hd⟩ := ih
    obtain ⟨us, hus, hitems⟩ := ihs
    exact ⟨_, (marks_spaces hw).append (hu.append ((marks_spaces hw').append
      (marks_cons (by decide) hus))), .item hw hw' hd hitems⟩
  | lastField hw hw' hv hw'' hn _ ih =>
    obtain ⟨un, hun, hname⟩ := exists_marks_of_isTemplateKey hn
    obtain ⟨u, hu, hd⟩ := ih
    exact ⟨_, (marks_spaces hw).append (hun.append ((marks_spaces hw').append
      (marks_cons (by decide) ((marks_spaces hv).append (hu.append (marks_spaces hw'')))))),
      .lastField hw hw' hv hw'' hname hd⟩
  | field hw hw' hv hw'' hn _ _ ih ihs =>
    obtain ⟨un, hun, hname⟩ := exists_marks_of_isTemplateKey hn
    obtain ⟨u, hu, hd⟩ := ih
    obtain ⟨us, hus, hfields⟩ := ihs
    exact ⟨_, (marks_spaces hw).append (hun.append ((marks_spaces hw').append
      (marks_cons (by decide) ((marks_spaces hv).append (hu.append ((marks_spaces hw'').append
        (marks_cons (by decide) hus))))))), .field hw hw' hv hw'' hname hd hfields⟩

/-- A template is read as its tree with the sentinels in it, if it is not nested too deeply. -/
theorem readText_preprocessTemplate {k : ℕ} {template : String}
    {tree : Doc (Slot N)} (h : IsTemplate num k template tree)
    (hascii : ∀ c ∈ template.toList, isAscii c = true) :
    ∃ preprocessed, preprocessTemplate template = some preprocessed ∧
      ∀ depth, readText num depth preprocessed =
        if k ≤ depth then some (graft Slot.marked tree) else none := by
  obtain ⟨w, t, w', htemplate, hw, hw', htext⟩ := h
  obtain ⟨u, hu, hmarked⟩ := exists_marks_of_isText htext
  refine ⟨w ++ (u ++ w'), ?_, readText_of_isText hw hw' hmarked⟩
  unfold preprocessTemplate
  rw [bytes_of_isAscii hascii, scan_eq_mark hascii, htemplate]
  have hmarks := ((marks_spaces hw).append (hu.append (marks_spaces hw'))) []
  rw [append_nil, mark, append_nil] at hmarks
  rw [hmarks]

end HeraMind.Devices.Payload
