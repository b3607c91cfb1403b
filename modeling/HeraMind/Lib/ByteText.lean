/-
# Texts by byte offset

A Rust `str` is addressed by the offsets of its bytes.  A slice that starts or ends inside
of a character, or starts behind its end, panics; it is `none` here.  `find` gives the
offset of the first occurrence of a pattern, so what lies before it and after it can be
cut off.
-/
import Mathlib.Algebra.GroupWithZero.Nat
import Mathlib.Data.List.DropRight
import Mathlib.Data.List.Infix

namespace ByteText

open List Option

variable {p t a b : List Char} {i j : ℕ}

/-- The length of a text in bytes. -/
def len (t : List Char) : ℕ := (t.map Char.utf8Size).sum

@[simp] theorem len_nil : len [] = 0 := rfl

@[simp] theorem len_cons (c : Char) (t : List Char) : len (c :: t) = c.utf8Size + len t := rfl

@[simp] theorem len_append (a b : List Char) : len (a ++ b) = len a + len b := by
  unfold len
  rw [map_append, sum_append]

theorem len_eq_zero : len t = 0 ↔ t = [] := by
  cases t with
  | nil => simp
  | cons c t =>
    have hpos : 0 < c.utf8Size := Char.utf8Size_pos c
    rw [len_cons]
    simp
    omega

/-- A property of all characters of a text, checked one by one. -/
theorem forall_mem_of_all {P : Char → Prop} [DecidablePred P]
    (h : t.all (fun c => decide (P c)) = true) : ∀ c ∈ t, P c := fun c hc =>
  of_decide_eq_true (all_eq_true.mp h c hc)

/-! ## Slices -/

/-- Cut a text at an offset. -/
def cut : List Char → ℕ → Option (List Char × List Char)
  | t, 0 => some ([], t)
  | [], _ + 1 => none
  | c :: t, n + 1 =>
    if c.utf8Size ≤ n + 1 then (cut t (n + 1 - c.utf8Size)).map fun h => (c :: h.1, h.2)
    else none

/-- `&t[..i]`. -/
def sliceTo (t : List Char) (i : ℕ) : Option (List Char) := (cut t i).map Prod.fst

/-- `&t[i..]`. -/
def sliceFrom (t : List Char) (i : ℕ) : Option (List Char) := (cut t i).map Prod.snd

/-- `&t[i..j]`. -/
def slice (t : List Char) (i j : ℕ) : Option (List Char) :=
  if i ≤ j then (sliceTo t j).bind fun a => sliceFrom a i else none

theorem cut_append (a b : List Char) : cut (a ++ b) (len a) = some (a, b) := by
  induction a with
  | nil => cases b <;> rfl
  | cons c a ih =>
    have hpos : 0 < c.utf8Size := Char.utf8Size_pos c
    obtain ⟨n, hn⟩ : ∃ n, len (c :: a) = n + 1 := ⟨len (c :: a) - 1, by rw [len_cons]; omega⟩
    have hrest : n + 1 - c.utf8Size = len a := by rw [← hn, len_cons]; omega
    have hle : c.utf8Size ≤ n + 1 := by rw [← hn, len_cons]; omega
    rw [hn, cons_append, cut, if_pos hle, hrest, ih]
    rfl

/-- A text is cut at the offsets between its characters. -/
theorem cut_eq_some : cut t i = some (a, b) ↔ t = a ++ b ∧ len a = i := by
  constructor
  · intro h
    induction t, i using cut.induct generalizing a with
    | case1 t =>
      rw [cut] at h
      cases h
      exact ⟨rfl, rfl⟩
    | case2 n => cases h
    | case3 c t n hle ih =>
      rw [cut, if_pos hle] at h
      obtain ⟨⟨a', b'⟩, hcut, heq⟩ := map_eq_some_iff.mp h
      cases heq
      obtain ⟨rfl, hlen⟩ := ih hcut
      refine ⟨rfl, ?_⟩
      rw [len_cons, hlen]
      omega
    | case4 c t n hle =>
      rw [cut, if_neg hle] at h
      cases h
  · rintro ⟨rfl, rfl⟩
    exact cut_append a b

/-- Two ways to cut a text at one offset are the same. -/
theorem append_inj {a' b' : List Char} (h : a ++ b = a' ++ b') (hlen : len a = len a') :
    a = a' ∧ b = b' := by
  have hcut := cut_append a b
  rw [h, hlen, cut_append, some.injEq, Prod.mk.injEq] at hcut
  exact ⟨hcut.1.symm, hcut.2.symm⟩

theorem sliceTo_eq_some : sliceTo t i = some a ↔ ∃ b, t = a ++ b ∧ len a = i := by
  unfold sliceTo
  rw [map_eq_some_iff]
  constructor
  · rintro ⟨⟨a', b⟩, hcut, rfl⟩
    exact ⟨b, cut_eq_some.mp hcut⟩
  · rintro ⟨b, h⟩
    exact ⟨(a, b), cut_eq_some.mpr h, rfl⟩

theorem sliceFrom_eq_some : sliceFrom t i = some b ↔ ∃ a, t = a ++ b ∧ len a = i := by
  unfold sliceFrom
  rw [map_eq_some_iff]
  constructor
  · rintro ⟨⟨a, b'⟩, hcut, rfl⟩
    exact ⟨a, cut_eq_some.mp hcut⟩
  · rintro ⟨a, h⟩
    exact ⟨(a, b), cut_eq_some.mpr h, rfl⟩

theorem sliceTo_append (a b : List Char) : sliceTo (a ++ b) (len a) = some a :=
  sliceTo_eq_some.mpr ⟨b, rfl, rfl⟩

theorem sliceFrom_append (a b : List Char) : sliceFrom (a ++ b) (len a) = some b :=
  sliceFrom_eq_some.mpr ⟨a, rfl, rfl⟩

theorem slice_append (a b c : List Char) :
    slice (a ++ (b ++ c)) (len a) (len a + len b) = some b := by
  unfold slice
  rw [if_pos (Nat.le_add_right _ _), ← append_assoc, ← len_append, sliceTo_append,
    bind_some, sliceFrom_append]

theorem sliceTo_eq_none : sliceTo t i = none ↔ ¬ ∃ a b, t = a ++ b ∧ len a = i := by
  rw [← not_iff_not, not_not, ← ne_eq, ne_none_iff_exists']
  exact exists_congr fun a => sliceTo_eq_some

/-! ## Occurrences -/

/-- `t.find(p)`: the offset of the first occurrence. -/
def find (p : List Char) : List Char → Option ℕ
  | [] => if p = [] then some 0 else none
  | c :: t => if p <+: c :: t then some 0 else (find p t).map (c.utf8Size + ·)

theorem find_nil (p : List Char) : find p [] = if p = [] then some 0 else none := (rfl)

theorem find_cons (p : List Char) (c : Char) (t : List Char) : find p (c :: t) =
    if p <+: c :: t then some 0 else (find p t).map (c.utf8Size + ·) := (rfl)

/-- `t.contains(p)`. -/
def contains (p t : List Char) : Bool := (find p t).isSome

/-- `t.rfind(c)`: the offset of the last occurrence of a character. -/
def rfind (c : Char) : List Char → Option ℕ
  | [] => none
  | d :: t =>
    match rfind c t with
    | some i => some (d.utf8Size + i)
    | none => if d = c then some 0 else none

theorem find_eq_none : find p t = none ↔ ¬ p <:+: t := by
  induction t with
  | nil =>
    rw [find_nil]
    by_cases hp : p = []
    · simp [hp]
    · simp [hp, infix_nil]
  | cons c t ih =>
    rw [find_cons, infix_cons_iff]
    by_cases hpre : p <+: c :: t
    · simp [hpre]
    · simp [hpre, ih]

/-- What `find` finds is an occurrence, and no other one is before it. -/
theorem exists_of_find (h : find p t = some i) :
    ∃ a b, t = a ++ (p ++ b) ∧ len a = i ∧ ∀ a' b', t = a' ++ (p ++ b') → len a ≤ len a' := by
  induction t generalizing i with
  | nil =>
    rw [find_nil] at h
    split at h
    · rename_i hp
      cases h
      exact ⟨[], [], by simp [hp], rfl, fun _ _ _ => Nat.zero_le _⟩
    · cases h
  | cons c t ih =>
    rw [find_cons] at h
    split at h
    · rename_i hpre
      cases h
      obtain ⟨b, hb⟩ := hpre
      exact ⟨[], b, hb.symm, rfl, fun _ _ _ => Nat.zero_le _⟩
    · rename_i hpre
      obtain ⟨j, hj, rfl⟩ := map_eq_some_iff.mp h
      obtain ⟨a, b, rfl, rfl, hfirst⟩ := ih hj
      refine ⟨c :: a, b, rfl, rfl, ?_⟩
      intro a' b' heq
      cases a' with
      | nil =>
        rw [nil_append] at heq
        exact absurd ⟨b', heq.symm⟩ hpre
      | cons d a' =>
        obtain ⟨rfl, htail⟩ := cons.inj heq
        have hle := hfirst a' b' htail
        rw [len_cons, len_cons]
        omega

theorem find_singleton {c : Char} :
    find [c] t = some i ↔ ∃ a b, t = a ++ c :: b ∧ c ∉ a ∧ len a = i := by
  induction t generalizing i with
  | nil => simp [find_nil]
  | cons d t ih =>
    rw [find_cons]
    by_cases hd : c = d
    · subst hd
      have hpre : [c] <+: c :: t := ⟨t, rfl⟩
      rw [if_pos hpre]
      constructor
      · rintro ⟨⟩
        exact ⟨[], t, rfl, not_mem_nil, rfl⟩
      · rintro ⟨a, b, heq, hnot, rfl⟩
        cases a with
        | nil => rfl
        | cons e a =>
          have he : c = e := (cons.inj heq).1
          exact absurd (by rw [he]; exact mem_cons_self) hnot
    · have hpre : ¬ [c] <+: d :: t := by
        rintro ⟨u, hu⟩
        exact hd (cons.inj hu).1
      rw [if_neg hpre, map_eq_some_iff]
      constructor
      · rintro ⟨j, hj, rfl⟩
        obtain ⟨a, b, rfl, hnot, rfl⟩ := ih.mp hj
        exact ⟨d :: a, b, rfl, by simp [hd, hnot], rfl⟩
      · rintro ⟨a, b, heq, hnot, rfl⟩
        cases a with
        | nil => exact absurd (cons.inj heq).1.symm hd
        | cons e a =>
          obtain ⟨rfl, htail⟩ := cons.inj heq
          refine ⟨len a, ih.mpr ⟨a, b, htail, fun h => hnot (mem_cons_of_mem _ h), rfl⟩, rfl⟩

theorem exists_of_rfind {c : Char} (h : rfind c t = some i) :
    ∃ a b, t = a ++ c :: b ∧ len a = i := by
  induction t generalizing i with
  | nil => cases h
  | cons d t ih =>
    rw [rfind] at h
    split at h
    · rename_i j hj
      cases h
      obtain ⟨a, b, rfl, rfl⟩ := ih hj
      exact ⟨d :: a, b, rfl, rfl⟩
    · split at h
      · rename_i hd
        cases h
        exact ⟨[], t, by rw [hd]; rfl, rfl⟩
      · cases h

/-! ## Trimming and replacing -/

/-- Trim the characters with a property off the end. -/
def trimEnd (q : Char → Bool) (t : List Char) : List Char := (t.reverse.dropWhile q).reverse

/-- Trim the characters with a property off both ends. -/
def trim (q : Char → Bool) (t : List Char) : List Char := trimEnd q (t.dropWhile q)

theorem trim_isInfix (q : Char → Bool) (t : List Char) : trim q t <:+: t :=
  ( rdropWhile_prefix q _).isInfix.trans (dropWhile_suffix q).isInfix

theorem trim_trim (q : Char → Bool) (t : List Char) : trim q (trim q t) = trim q t := by
  have hhead : (trim q t).dropWhile q = trim q t := by
    rw [dropWhile_eq_self_iff]
    intro hpos
    obtain ⟨rest, hrest⟩ : trim q t <+: t.dropWhile q := rdropWhile_prefix q _
    have hdrop : (t.dropWhile q).dropWhile q = t.dropWhile q := dropWhile_idempotent q _
    rw [dropWhile_eq_self_iff] at hdrop
    have hpos' : 0 < (t.dropWhile q).length := by
      rw [← hrest, length_append]
      omega
    have hsame : (trim q t)[0] = (t.dropWhile q)[0] := by
      simp only [← hrest]
      rw [getElem_append_left]
    rw [hsame]
    exact hdrop hpos'
  show trimEnd q ((trim q t).dropWhile q) = trim q t
  rw [hhead]
  exact rdropWhile_idempotent q _

/-- A trimmed text begins and ends with characters that stay. -/
theorem ends_of_trim_eq {q : Char → Bool} (h : trim q t = t) :
    t.dropWhile q = t ∧ t.rdropWhile q = t := by
  have hfront : trim q t <+: t.dropWhile q := rdropWhile_prefix q _
  have hsuffix : t.dropWhile q <:+ t := dropWhile_suffix q
  have hlen : (t.dropWhile q).length = t.length := by
    have hle := hfront.length_le
    rw [h] at hle
    exact le_antisymm hsuffix.length_le hle
  have hstart : t.dropWhile q = t := hsuffix.eq_of_length hlen
  refine ⟨hstart, ?_⟩
  have hend : trimEnd q (t.dropWhile q) = t := h
  rw [hstart] at hend
  exact hend

/-- Two trimmed texts with something between them are trimmed. -/
theorem trim_append {q : Char → Bool} {s : List Char} (ha : trim q a = a) (hb : trim q b = b)
    (hane : a ≠ []) (hbne : b ≠ []) : trim q (a ++ (s ++ b)) = a ++ (s ++ b) := by
  have hstart : (a ++ (s ++ b)).dropWhile q = a ++ (s ++ b) := by
    have h := (ends_of_trim_eq ha).1
    obtain ⟨c, a, rfl⟩ := exists_cons_of_ne_nil hane
    rw [dropWhile_eq_self_iff] at h
    rw [dropWhile_eq_self_iff]
    intro _
    exact h (Nat.succ_pos _)
  have hend : (a ++ (s ++ b)).rdropWhile q = a ++ (s ++ b) := by
    have h := (ends_of_trim_eq hb).2
    rw [rdropWhile_eq_self_iff] at h
    rw [rdropWhile_eq_self_iff]
    intro _
    rw [getLast_append_of_ne_nil _ (by simp [hbne]), getLast_append_of_ne_nil _ hbne]
    exact h hbne
  show trimEnd q ((a ++ (s ++ b)).dropWhile q) = _
  rw [hstart]
  exact hend

/-- `t.replace(p, r)`, after the characters to skip: occurrences do not overlap. -/
def replace (p r : List Char) : ℕ → List Char → List Char
  | _, [] => []
  | skip + 1, _ :: t => replace p r skip t
  | 0, c :: t =>
    if p <+: c :: t then r ++ replace p r (p.length - 1) t else c :: replace p r 0 t

/-- `t.replace_range(i..j, r)`. -/
def replaceRange (t : List Char) (i j : ℕ) (r : List Char) : Option (List Char) :=
  if i ≤ j then do
    let before ← sliceTo t i
    let after ← sliceFrom t j
    return before ++ (r ++ after)
  else none

/-- `t.char_indices()`, from an offset on. -/
def charIndices (i : ℕ) : List Char → List (ℕ × Char)
  | [] => []
  | c :: t => (i, c) :: charIndices (i + c.utf8Size) t

/-! ## Boundaries -/

/-- The offset is between two characters, or at an end. -/
def Boundary (t : List Char) (i : ℕ) : Prop := ∃ a b, t = a ++ b ∧ len a = i

theorem boundary_zero (t : List Char) : Boundary t 0 := ⟨[], t, rfl, rfl⟩

theorem Boundary.sliceTo (h : Boundary t i) :
    ∃ a, ByteText.sliceTo t i = some a ∧ len a = i := by
  obtain ⟨a, b, rfl, rfl⟩ := h
  exact ⟨a, sliceTo_eq_some.mpr ⟨b, rfl, rfl⟩, rfl⟩

theorem Boundary.sliceFrom (h : Boundary t i) :
    ∃ b, ByteText.sliceFrom t i = some b ∧ i + len b = len t := by
  obtain ⟨a, b, rfl, rfl⟩ := h
  exact ⟨b, sliceFrom_eq_some.mpr ⟨a, rfl, rfl⟩, (len_append a b).symm⟩

/-- Of two boundaries, the text up to the later one has the earlier one as a boundary. -/
theorem Boundary.slice (hi : Boundary t i) (hj : Boundary t j) (hle : i ≤ j) :
    ∃ u, ByteText.slice t i j = some u ∧ len u = j - i := by
  obtain ⟨a, b, rfl, rfl⟩ := hi
  obtain ⟨a', b', heq, rfl⟩ := hj
  obtain ⟨u, rfl⟩ : ∃ u, a' = a ++ u := by
    rcases append_eq_append_iff.mp heq with ⟨u, ha', -⟩ | ⟨u, ha, -⟩
    · exact ⟨u, ha'⟩
    · have hu : u = [] := by
        rw [← len_eq_zero]
        rw [ha, len_append] at hle
        omega
      rw [hu, append_nil] at ha
      exact ⟨[], by rw [ha, append_nil]⟩
  refine ⟨u, ?_, ?_⟩
  · unfold ByteText.slice
    rw [if_pos hle, sliceTo_eq_some.mpr ⟨b', heq, rfl⟩, bind_some]
    exact sliceFrom_eq_some.mpr ⟨a, rfl, rfl⟩
  · rw [len_append]
    omega

/-- A boundary of what is left of a text is one of the text. -/
theorem Boundary.add (h : ByteText.sliceFrom t i = some b) (hj : Boundary b j) :
    Boundary t (i + j) := by
  obtain ⟨a, rfl, rfl⟩ := sliceFrom_eq_some.mp h
  obtain ⟨a', b', rfl, rfl⟩ := hj
  exact ⟨a ++ a', b', by rw [append_assoc], len_append a a'⟩

/-- A pattern begins and ends at boundaries. -/
theorem boundary_of_find (h : find p t = some i) : Boundary t i ∧ Boundary t (i + len p) := by
  obtain ⟨a, b, rfl, rfl, -⟩ := exists_of_find h
  exact ⟨⟨a, p ++ b, rfl, rfl⟩, ⟨a ++ p, b, by rw [append_assoc], len_append a p⟩⟩

/-- `find` in what is left of a text finds a boundary of the text. -/
theorem boundary_of_find_sliceFrom (hb : ByteText.sliceFrom t i = some b)
    (h : find p b = some j) : Boundary t (i + j) ∧ Boundary t (i + j + len p) := by
  obtain ⟨hstart, hend⟩ := boundary_of_find h
  refine ⟨Boundary.add hb hstart, ?_⟩
  rw [Nat.add_assoc]
  exact Boundary.add hb hend

end ByteText
