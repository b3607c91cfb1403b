/-
# Floating-point numbers with 64 bits

The rational number a floating-point number stands for, how it compares with an integer, and the
integer it is truncated to.
-/
import Mathlib.Algebra.Order.Field.Rat
import Mathlib.Algebra.Order.Field.Power
import Mathlib.Tactic.Positivity

/-- `f64`. -/
abbrev Binary64 := Float.Model

namespace Binary64

open Float.Model Float.Model.UnpackedFloat

/-- The number with a sign, a mantissa and an exponent. -/
def ratio (sign : Sign) (mantissa : ℕ) (exponent : ℤ) : ℚ :=
  (sign.apply mantissa : ℤ) * 2 ^ exponent

/-- The number, if it is finite. -/
def value (x : Binary64) : Option ℚ :=
  match x.unpack with
  | .notANumber | .infinity _ => none
  | .zero _ => some 0
  | .finite sign mantissa exponent _ => some (ratio sign mantissa exponent)

/-- At most the integer. -/
def leInt (x : Binary64) (n : ℤ) : Prop :=
  x.unpack = .infinity .negative ∨ ∃ q, x.value = some q ∧ q ≤ n

/-- At least the integer. -/
def geInt (x : Binary64) (n : ℤ) : Prop :=
  x.unpack = .infinity .positive ∨ ∃ q, x.value = some q ∧ n ≤ q

/-! ## Truncation -/

theorem mantissa_repeat_shiftRightOne (em : ExtendedMantissa) (k : ℕ) :
    (Nat.repeat ExtendedMantissa.shiftRightOne k em).mantissa = em.mantissa / 2 ^ k := by
  induction k with
  | zero => simp [Nat.repeat]
  | succ k ih =>
    show (Nat.repeat ExtendedMantissa.shiftRightOne k em).mantissa / 2 = _
    rw [ih, Nat.div_div_eq_div_mul, pow_succ]

/-- The mantissa is shifted to the exponent zero. -/
theorem roundToInt_eq (sign : Sign) (m : ℕ) (e : ℤ) :
    roundToInt sign m e = sign.apply (m * 2 ^ e.toNat / 2 ^ (-e).toNat : ℕ) := by
  have hshift : (0 - (e - (e - 0).toNat)).toNat = (-e).toNat := by omega
  show sign.apply (Nat.repeat ExtendedMantissa.shiftRightOne (0 - (e - (e - 0).toNat)).toNat
    ⟨m <<< (e - 0).toNat, false, false⟩).mantissa = _
  rw [mantissa_repeat_shiftRightOne, hshift, Nat.shiftLeft_eq, Int.sub_zero]

theorem apply_eq_mul (sign : Sign) : ∃ u : ℤ, u * u = 1 ∧ ∀ n : ℤ, sign.apply n = u * n := by
  cases sign with
  | positive => exact ⟨1, rfl, fun n => (one_mul n).symm⟩
  | negative => exact ⟨-1, rfl, fun n => (neg_one_mul n).symm⟩

/-- An integer is truncated to itself. -/
theorem roundToInt_of_ratio {sign : Sign} {m : ℕ} {e n : ℤ} (h : ratio sign m e = n) :
    roundToInt sign m e = n := by
  obtain ⟨u, hu, happly⟩ := apply_eq_mul sign
  rw [roundToInt_eq, happly]
  unfold ratio at h
  rw [happly] at h
  rcases Int.le_total 0 e with he | he
  · obtain ⟨k, rfl⟩ := Int.eq_ofNat_of_zero_le he
    have hneg : (-(k : ℤ)).toNat = 0 := by omega
    rw [zpow_natCast] at h
    have hint : u * m * 2 ^ k = n := by exact_mod_cast h
    rw [Int.toNat_natCast, hneg, pow_zero, Nat.div_one, ← hint]
    push_cast
    rw [mul_assoc]
  · obtain ⟨k, hk⟩ := Int.eq_ofNat_of_zero_le (Int.neg_nonneg_of_nonpos he)
    obtain rfl : e = -(k : ℤ) := by omega
    have htop : (-(k : ℤ)).toNat = 0 := by omega
    have hpos : (2 : ℤ) ^ k ≠ 0 := pow_ne_zero k (by decide)
    rw [zpow_neg, zpow_natCast, ← div_eq_mul_inv, div_eq_iff (by positivity)] at h
    have hint : u * m = n * 2 ^ k := by exact_mod_cast h
    have hm : (m : ℤ) = u * n * 2 ^ k := by
      rw [mul_assoc, ← hint, ← mul_assoc, hu, one_mul]
    rw [neg_neg, Int.toNat_natCast, htop, pow_zero, mul_one, Int.natCast_div, Int.natCast_pow, hm]
    show u * (u * n * 2 ^ k / 2 ^ k) = n
    rw [Int.mul_ediv_cancel _ hpos, ← mul_assoc, hu, one_mul]

/-- An integer of 64 bits is converted to itself. -/
theorem toInt_toInt64 {x : Binary64} {n : ℤ} (h : x.value = some (n : ℚ))
    (hmin : -2 ^ 63 ≤ n) (hmax : n < 2 ^ 63) : x.toInt64.toInt = n := by
  have hint : x.unpack.toInt Int64.minValue.toInt Int64.maxValue.toInt = n := by
    unfold value at h
    generalize x.unpack = u at h
    cases u with
    | notANumber | infinity sign => cases h
    | zero sign =>
      have hzero : (0 : ℚ) = n := Option.some.inj h
      exact_mod_cast hzero
    | finite sign m e _ => exact roundToInt_of_ratio (Option.some.inj h)
  show (Int64.ofIntClamp (x.unpack.toInt Int64.minValue.toInt Int64.maxValue.toInt)).toInt = n
  rw [hint]
  have hlast : n ≤ Int64.maxValue.toInt := by
    show n ≤ 9223372036854775807
    omega
  exact Int64.toInt_ofIntClamp hmin hlast

/-! ## Order -/

theorem compare_swap (a b : UnpackedFloat) :
    b.compare a = (a.compare b).map Ordering.swap := by
  cases a with
  | notANumber =>
    cases b with
    | finite s m e h | infinity s => cases s <;> rfl
    | _ => rfl
  | infinity s =>
    cases b with
    | finite s' m e h | infinity s' => cases s <;> cases s' <;> rfl
    | _ => cases s <;> rfl
  | zero s =>
    cases b with
    | finite s' m e h | infinity s' => cases s' <;> rfl
    | _ => rfl
  | finite s m e h =>
    cases b with
    | finite s' m' e' h' =>
      have hexponent : compare e' e = (compare e e').swap := Std.OrientedCmp.eq_swap
      have hmantissa : compare m' m = (compare m m').swap := Std.OrientedCmp.eq_swap
      cases s with
      | positive =>
        cases s' with
        | negative => rfl
        | positive =>
          show some ((compare e' e).then (compare m' m)) =
            some ((compare e e').then (compare m m')).swap
          rw [Ordering.swap_then, hexponent, hmantissa]
      | negative =>
        cases s' with
        | positive => rfl
        | negative =>
          show some ((compare e' e).then (compare m' m)).swap =
            some ((compare e e').then (compare m m')).swap.swap
          rw [Ordering.swap_swap, Ordering.swap_then, hexponent, hmantissa, Ordering.swap_swap,
            Ordering.swap_swap]
    | infinity s' => cases s <;> cases s' <;> rfl
    | zero s' | notANumber => cases s <;> rfl

theorem exists_compare {a b : UnpackedFloat} (ha : a.isNaN = false) (hb : b.isNaN = false) :
    ∃ o, a.compare b = some o := by
  cases a with
  | notANumber => cases ha
  | infinity s =>
    cases b with
    | notANumber => cases hb
    | _ => cases s <;> exact ⟨_, rfl⟩
  | zero s =>
    cases b with
    | notANumber => cases hb
    | zero s' => exact ⟨_, rfl⟩
    | finite s' m e h | infinity s' => cases s' <;> exact ⟨_, rfl⟩
  | finite s m e h =>
    cases b with
    | notANumber => cases hb
    | finite s' m' e' h' | infinity s' => cases s <;> cases s' <;> exact ⟨_, rfl⟩
    | zero s' => cases s <;> exact ⟨_, rfl⟩

/-- A number that is not less than another one is at least that. -/
theorem le_of_not_lt {x y : Binary64} (hx : x.isNaN = false) (hy : y.isNaN = false)
    (h : x.lt y = false) : y.le x = true := by
  obtain ⟨o, ho⟩ := exists_compare hx hy
  show (y.unpack.compare x.unpack).any (·.isLE) = true
  have hne : x.unpack.compare y.unpack ≠ some .lt := by
    intro hlt
    have hbeq : (x.unpack.compare y.unpack == some .lt) = false := h
    rw [hlt] at hbeq
    cases hbeq
  rw [compare_swap, ho]
  rw [ho] at hne
  cases o with
  | lt => exact absurd rfl hne
  | eq | gt => rfl

/-- Numbers that are in order are numbers. -/
theorem isNaN_of_le {x y : Binary64} (h : x.le y = true) :
    x.isNaN = false ∧ y.isNaN = false := by
  have hany : (x.unpack.compare y.unpack).any (·.isLE) = true := h
  constructor
  · show x.unpack.isNaN = false
    cases hx : x.unpack with
    | notANumber =>
      rw [hx] at hany
      cases hany
    | _ => rfl
  · show y.unpack.isNaN = false
    cases hy : y.unpack with
    | notANumber =>
      have hnone : x.unpack.compare .notANumber = none := compare_swap .notANumber x.unpack
      rw [hy, hnone] at hany
      cases hany
    | _ => rfl

end Binary64
