/-
# Timetables

A timetable has a first time and a step: its times are the first one and every later one that is a
whole number of steps away.  The next time after some moment is the earliest of them that is later.
-/
import Mathlib.Order.Bounds.Basic
import Mathlib.Algebra.Ring.Divisibility.Basic
import Mathlib.Algebra.Order.Ring.Int
import Mathlib.Tactic.Ring
import Mathlib.Tactic.LinearCombination

namespace Timetable

/-- The times of a timetable. -/
def times (first step : ℤ) : Set ℤ := {t | ∃ k : ℕ, t = first + k * step}

/-- The earliest time of a timetable after a moment. -/
def IsNext (first step now t : ℤ) : Prop := IsLeast {t | t ∈ times first step ∧ now < t} t

variable {first step now p t : ℤ}

theorem first_mem_times : first ∈ times first step := ⟨0, by ring⟩

theorem dvd_sub_of_mem_times (hp : p ∈ times first step) (ht : t ∈ times first step) :
    step ∣ t - p := by
  obtain ⟨j, rfl⟩ := hp
  obtain ⟨k, rfl⟩ := ht
  exact ⟨k - j, by ring⟩

/-- A time that is later by a whole number of steps is one of the timetable. -/
theorem mem_times_of_dvd (hstep : 0 < step) (hp : p ∈ times first step) (hle : p ≤ t)
    (hdvd : step ∣ t - p) : t ∈ times first step := by
  obtain ⟨j, rfl⟩ := hp
  obtain ⟨c, hc⟩ := hdvd
  have hpos : 0 ≤ c := by
    by_contra hneg
    have hmul : step * c < 0 := Int.mul_neg_of_pos_of_neg hstep (by omega)
    omega
  obtain ⟨n, rfl⟩ := Int.eq_ofNat_of_zero_le hpos
  refine ⟨j + n, ?_⟩
  push_cast
  linear_combination hc

/-- Seen from a time that has passed, the next time is at most one step after the moment. -/
theorem isNext_iff (hstep : 0 < step) (hp : p ∈ times first step) (hle : p ≤ now) :
    IsNext first step now t ↔ now < t ∧ t ≤ now + step ∧ step ∣ t - p := by
  constructor
  · rintro ⟨⟨ht, hlate⟩, hleast⟩
    refine ⟨hlate, ?_, dvd_sub_of_mem_times hp ht⟩
    by_contra hfar
    -- the time one step before would be in the timetable, and later than the moment
    have hbefore : t - step ∈ times first step := by
      refine mem_times_of_dvd hstep hp (by omega) ?_
      rw [show t - step - p = (t - p) - step from by ring]
      exact Int.dvd_sub (dvd_sub_of_mem_times hp ht) (Int.dvd_refl step)
    have := hleast ⟨hbefore, by omega⟩
    omega
  · rintro ⟨hlate, hnear, hdvd⟩
    have ht := mem_times_of_dvd hstep hp (by omega) hdvd
    refine ⟨⟨ht, hlate⟩, ?_⟩
    rintro u ⟨hu, hafter⟩
    by_contra hearlier
    have hstep_le : step ≤ t - u := Int.le_of_dvd (by omega) (dvd_sub_of_mem_times hu ht)
    omega

theorem IsNext.mem (h : IsNext first step now t) : t ∈ times first step := h.1.1

/-- The time after a passed one, or where that has passed too the first one later than now. -/
def catchUp (p step now : ℤ) : ℤ :=
  if now < p + step then p + step else p + step + ((now - (p + step)).tdiv step + 1) * step

theorem catchUp_spec (hstep : 0 < step) (hle : p ≤ now) :
    now < catchUp p step now ∧ catchUp p step now ≤ now + step ∧ step ∣ catchUp p step now - p := by
  unfold catchUp
  by_cases hahead : now < p + step
  · rw [if_pos hahead]
    refine ⟨hahead, by omega, ?_⟩
    rw [show p + step - p = step from by ring]
  · rw [if_neg hahead, Int.tdiv_eq_ediv_of_nonneg (by omega)]
    have hmod := Int.emod_add_mul_ediv (now - (p + step)) step
    have hmod_nonneg := Int.emod_nonneg (now - (p + step)) (by omega : step ≠ 0)
    have hmod_lt := Int.emod_lt_of_pos (now - (p + step)) hstep
    have hmul : ((now - (p + step)) / step + 1) * step
        = now - (p + step) - (now - (p + step)) % step + step := by
      linear_combination hmod
    refine ⟨by rw [hmul]; omega, by rw [hmul]; omega, ?_⟩
    exact ⟨(now - (p + step)) / step + 2, by ring⟩

/-- The catch-up finds the next time. -/
theorem isNext_catchUp (hstep : 0 < step) (hp : p ∈ times first step) (hle : p ≤ now) :
    IsNext first step now (catchUp p step now) :=
  (isNext_iff hstep hp hle).mpr (catchUp_spec hstep hle)

theorem IsNext.unique {u : ℤ} (ht : IsNext first step now t) (hu : IsNext first step now u) :
    t = u :=
  IsLeast.unique ht hu

end Timetable
