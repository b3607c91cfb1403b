/-
# UTF-8

The bytes of a string, and the string that is read from bytes of which some may not be UTF-8: every
longest part that begins a character and does not complete it becomes a replacement character.
-/
import Mathlib.Data.List.Basic

namespace Utf8

open Bool

/-- `as_bytes`. -/
def asBytes (s : String) : List UInt8 := s.toList.flatMap String.utf8EncodeChar

/-- `U+FFFD`. -/
def replacement : Char := '\uFFFD'

/-- The byte continues a character. -/
def continues (b : UInt8) : Bool := 0x80 ≤ b.toNat && b.toNat ≤ 0xBF

/-- The byte can be the second one of a character that begins with `first` and has three bytes. -/
def secondOfThree (first : ℕ) (b : UInt8) : Bool :=
  if first = 0xE0 then 0xA0 ≤ b.toNat && b.toNat ≤ 0xBF
  else if first = 0xED then 0x80 ≤ b.toNat && b.toNat ≤ 0x9F
  else continues b

/-- The byte can be the second one of a character that begins with `first` and has four bytes. -/
def secondOfFour (first : ℕ) (b : UInt8) : Bool :=
  if first = 0xF0 then 0x90 ≤ b.toNat && b.toNat ≤ 0xBF
  else if first = 0xF4 then 0x80 ≤ b.toNat && b.toNat ≤ 0x8F
  else continues b

/-- The low six bits. -/
def low (b : UInt8) : ℕ := b.toNat % 64

/-- The first character, and the number of bytes after the first one that it takes. -/
def decodeFirst (b : UInt8) (bytes : List UInt8) : Char × ℕ :=
  let n := b.toNat
  if n < 0x80 then (Char.ofNat n, 0)
  else if 0xC2 ≤ n && n ≤ 0xDF then
    match bytes with
    | b₁ :: _ =>
      if continues b₁ then (Char.ofNat (n % 32 * 64 + low b₁), 1) else (replacement, 0)
    | [] => (replacement, 0)
  else if 0xE0 ≤ n && n ≤ 0xEF then
    match bytes with
    | b₁ :: b₂ :: _ =>
      if secondOfThree n b₁ then
        if continues b₂ then (Char.ofNat (n % 16 * 4096 + low b₁ * 64 + low b₂), 2)
        else (replacement, 1)
      else (replacement, 0)
    | [b₁] => if secondOfThree n b₁ then (replacement, 1) else (replacement, 0)
    | [] => (replacement, 0)
  else if 0xF0 ≤ n && n ≤ 0xF4 then
    match bytes with
    | b₁ :: b₂ :: b₃ :: _ =>
      if secondOfFour n b₁ then
        if continues b₂ then
          if continues b₃ then
            (Char.ofNat (n % 8 * 262144 + low b₁ * 4096 + low b₂ * 64 + low b₃), 3)
          else (replacement, 2)
        else (replacement, 1)
      else (replacement, 0)
    | [b₁, b₂] =>
      if secondOfFour n b₁ then
        if continues b₂ then (replacement, 2) else (replacement, 1)
      else (replacement, 0)
    | [b₁] => if secondOfFour n b₁ then (replacement, 1) else (replacement, 0)
    | [] => (replacement, 0)
  else (replacement, 0)

/-- The characters of a byte string; the first `skip` bytes belong to the character before. -/
def decode : ℕ → List UInt8 → List Char
  | _, [] => []
  | skip + 1, _ :: bytes => decode skip bytes
  | 0, b :: bytes => (decodeFirst b bytes).1 :: decode (decodeFirst b bytes).2 bytes

/-- `String::from_utf8_lossy`. -/
def fromUtf8Lossy (bytes : List UInt8) : String := String.ofList (decode 0 bytes)

/-! ## What was encoded is decoded -/

variable {b b₁ b₂ b₃ : UInt8}

theorem decodeFirst_one (bytes : List UInt8) (h : b.toNat < 0x80) :
    decodeFirst b bytes = (Char.ofNat b.toNat, 0) := by
  unfold decodeFirst
  exact if_pos h

theorem within_iff {l u n : ℕ} : (decide (l ≤ n) && decide (n ≤ u)) = true ↔ l ≤ n ∧ n ≤ u := by
  rw [and_eq_true, decide_eq_true_eq, decide_eq_true_eq]

theorem decodeFirst_two (bytes : List UInt8) (h : 0xC2 ≤ b.toNat) (h' : b.toNat ≤ 0xDF)
    (h₁ : continues b₁ = true) :
    decodeFirst b (b₁ :: bytes) = (Char.ofNat (b.toNat % 32 * 64 + low b₁), 1) := by
  unfold decodeFirst
  rw [if_neg (by omega), if_pos (within_iff.mpr ⟨h, h'⟩)]
  exact if_pos h₁

theorem decodeFirst_three (bytes : List UInt8) (h : 0xE0 ≤ b.toNat) (h' : b.toNat ≤ 0xEF)
    (h₁ : secondOfThree b.toNat b₁ = true) (h₂ : continues b₂ = true) :
    decodeFirst b (b₁ :: b₂ :: bytes) =
      (Char.ofNat (b.toNat % 16 * 4096 + low b₁ * 64 + low b₂), 2) := by
  unfold decodeFirst
  have hnot : ¬ (decide (0xC2 ≤ b.toNat) && decide (b.toNat ≤ 0xDF)) = true := by
    rw [within_iff]
    omega
  have hin : (decide (0xE0 ≤ b.toNat) && decide (b.toNat ≤ 0xEF)) = true :=
    within_iff.mpr ⟨h, h'⟩
  rw [if_neg (by omega), if_neg hnot, if_pos hin]
  exact (if_pos h₁).trans (if_pos h₂)

theorem decodeFirst_four (bytes : List UInt8) (h : 0xF0 ≤ b.toNat) (h' : b.toNat ≤ 0xF4)
    (h₁ : secondOfFour b.toNat b₁ = true) (h₂ : continues b₂ = true) (h₃ : continues b₃ = true) :
    decodeFirst b (b₁ :: b₂ :: b₃ :: bytes) =
      (Char.ofNat (b.toNat % 8 * 262144 + low b₁ * 4096 + low b₂ * 64 + low b₃), 3) := by
  unfold decodeFirst
  have hnot : ¬ (decide (0xC2 ≤ b.toNat) && decide (b.toNat ≤ 0xDF)) = true := by
    rw [within_iff]
    omega
  have hnot' : ¬ (decide (0xE0 ≤ b.toNat) && decide (b.toNat ≤ 0xEF)) = true := by
    rw [within_iff]
    omega
  have hin : (decide (0xF0 ≤ b.toNat) && decide (b.toNat ≤ 0xF4)) = true :=
    within_iff.mpr ⟨h, h'⟩
  rw [if_neg (by omega), if_neg hnot, if_neg hnot', if_pos hin]
  exact (if_pos h₁).trans ((if_pos h₂).trans (if_pos h₃))

theorem toNat_ofNat {n : ℕ} (h : n < 256) : (UInt8.ofNat n).toNat = n := by
  rw [UInt8.toNat_ofNat']
  exact Nat.mod_eq_of_lt h

/-- A byte after the first one of a character. -/
theorem continues_ofNat (n : ℕ) :
    continues (UInt8.ofNat (n % 64 + 0x80)) = true ∧ low (UInt8.ofNat (n % 64 + 0x80)) = n % 64 := by
  unfold continues low
  rw [toNat_ofNat (by omega), and_eq_true, decide_eq_true_eq, decide_eq_true_eq]
  omega

/-- A character is not a surrogate, and in the range of Unicode. -/
theorem val_cases (c : Char) : c.toNat < 0xD800 ∨ (0xDFFF < c.toNat ∧ c.toNat < 0x110000) :=
  c.valid

theorem secondOfThree_ofNat {v : ℕ} (h : 0x7ff < v) (h' : v ≤ 0xffff)
    (hvalid : v < 0xD800 ∨ 0xDFFF < v) :
    secondOfThree (v / 4096 % 16 + 0xe0) (UInt8.ofNat (v / 64 % 64 + 0x80)) = true := by
  have hb : (UInt8.ofNat (v / 64 % 64 + 0x80)).toNat = v / 64 % 64 + 0x80 :=
    toNat_ofNat (by omega)
  unfold secondOfThree
  split
  · rw [within_iff]
    omega
  · split
    · rw [within_iff]
      omega
    · exact (continues_ofNat (v / 64)).1

theorem secondOfFour_ofNat {v : ℕ} (h : 0xffff < v) (h' : v < 0x110000) :
    secondOfFour (v / 262144 % 8 + 0xf0) (UInt8.ofNat (v / 4096 % 64 + 0x80)) = true := by
  have hb : (UInt8.ofNat (v / 4096 % 64 + 0x80)).toNat = v / 4096 % 64 + 0x80 :=
    toNat_ofNat (by omega)
  unfold secondOfFour
  split
  · rw [within_iff]
    omega
  · split
    · rw [within_iff]
      omega
    · exact (continues_ofNat (v / 4096)).1

/-- A character is read from its bytes, whatever follows them. -/
theorem decode_encodeChar (c : Char) (bytes : List UInt8) :
    decode 0 (String.utf8EncodeChar c ++ bytes) = c :: decode 0 bytes := by
  have hvalid := val_cases c
  have hc : Char.ofNat c.toNat = c := Char.ofNat_toNat c
  show decode 0 ((if c.toNat ≤ 0x7f then [UInt8.ofNat c.toNat]
    else if c.toNat ≤ 0x7ff then
      [UInt8.ofNat (c.toNat / 64 % 32 + 0xc0), UInt8.ofNat (c.toNat % 64 + 0x80)]
    else if c.toNat ≤ 0xffff then
      [UInt8.ofNat (c.toNat / 4096 % 16 + 0xe0), UInt8.ofNat (c.toNat / 64 % 64 + 0x80),
        UInt8.ofNat (c.toNat % 64 + 0x80)]
    else
      [UInt8.ofNat (c.toNat / 262144 % 8 + 0xf0), UInt8.ofNat (c.toNat / 4096 % 64 + 0x80),
        UInt8.ofNat (c.toNat / 64 % 64 + 0x80), UInt8.ofNat (c.toNat % 64 + 0x80)]) ++ bytes) = _
  generalize c.toNat = v at hvalid hc ⊢
  by_cases h₁ : v ≤ 0x7f
  · rw [if_pos h₁]
    have hb : (UInt8.ofNat v).toNat = v := toNat_ofNat (by omega)
    show (decodeFirst _ bytes).1 :: decode (decodeFirst _ bytes).2 bytes = _
    rw [decodeFirst_one _ (by omega), hb, hc]
  · rw [if_neg h₁]
    by_cases h₂ : v ≤ 0x7ff
    · rw [if_pos h₂]
      have hb : (UInt8.ofNat (v / 64 % 32 + 0xc0)).toNat = v / 64 % 32 + 0xc0 :=
        toNat_ofNat (by omega)
      obtain ⟨hcont, hlow⟩ := continues_ofNat v
      show (decodeFirst _ (_ :: bytes)).1 :: decode (decodeFirst _ (_ :: bytes)).2 (_ :: bytes) = _
      rw [decodeFirst_two _ (by omega) (by omega) hcont, hb, hlow,
        show (v / 64 % 32 + 0xc0) % 32 * 64 + v % 64 = v by omega, hc]
      rfl
    · rw [if_neg h₂]
      by_cases h₃ : v ≤ 0xffff
      · rw [if_pos h₃]
        have hb : (UInt8.ofNat (v / 4096 % 16 + 0xe0)).toNat = v / 4096 % 16 + 0xe0 :=
          toNat_ofNat (by omega)
        obtain ⟨-, hlow₁⟩ := continues_ofNat (v / 64)
        obtain ⟨hcont₂, hlow₂⟩ := continues_ofNat v
        have hsecond := secondOfThree_ofNat (by omega : 0x7ff < v) (by omega) (by omega)
        show (decodeFirst _ (_ :: _ :: bytes)).1 ::
          decode (decodeFirst _ (_ :: _ :: bytes)).2 (_ :: _ :: bytes) = _
        rw [decodeFirst_three _ (by omega) (by omega) (by rw [hb]; exact hsecond) hcont₂, hb, hlow₁,
          hlow₂, show (v / 4096 % 16 + 0xe0) % 16 * 4096 + v / 64 % 64 * 64 + v % 64 = v by omega, hc]
        rfl
      · rw [if_neg h₃]
        have hb : (UInt8.ofNat (v / 262144 % 8 + 0xf0)).toNat = v / 262144 % 8 + 0xf0 :=
          toNat_ofNat (by omega)
        obtain ⟨-, hlow₁⟩ := continues_ofNat (v / 4096)
        obtain ⟨hcont₂, hlow₂⟩ := continues_ofNat (v / 64)
        obtain ⟨hcont₃, hlow₃⟩ := continues_ofNat v
        have hsecond := secondOfFour_ofNat (by omega : 0xffff < v) (by omega)
        show (decodeFirst _ (_ :: _ :: _ :: bytes)).1 ::
          decode (decodeFirst _ (_ :: _ :: _ :: bytes)).2 (_ :: _ :: _ :: bytes) = _
        rw [decodeFirst_four _ (by omega) (by omega) (by rw [hb]; exact hsecond) hcont₂ hcont₃, hb,
          hlow₁, hlow₂, hlow₃, show (v / 262144 % 8 + 0xf0) % 8 * 262144 + v / 4096 % 64 * 4096 +
            v / 64 % 64 * 64 + v % 64 = v by omega, hc]
        rfl

/-- A string is read from its bytes. -/
theorem fromUtf8Lossy_asBytes (s : String) : fromUtf8Lossy (asBytes s) = s := by
  have hdecode : ∀ cs : List Char, decode 0 (cs.flatMap String.utf8EncodeChar) = cs := by
    intro cs
    induction cs with
    | nil => rfl
    | cons c cs ih => rw [List.flatMap_cons, decode_encodeChar, ih]
  unfold fromUtf8Lossy asBytes
  rw [hdecode, String.ofList_toList]

end Utf8
