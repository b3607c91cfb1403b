/-
# When a device was last seen

`DeviceRegistry::update_last_seen` (`crates/heramind-devices/src/registry.rs`) notes every report of
a device in memory, and writes it to the store if it comes at least 15 seconds after the report
before it.  After a restart the device was last seen when the store says.
-/
import HeraMind.Devices.RegistryCalls

namespace HeraMind.Devices

/-- When a registered device was last seen, in seconds. -/
structure LastSeen where
  memory : ℤ
  storage : ℤ

/-- `update_last_seen`, with a store that takes the write. -/
def LastSeen.update (s : LastSeen) (lastSeen : ℤ) : LastSeen where
  memory := lastSeen
  storage := if persistsLastSeen s.memory lastSeen then lastSeen else s.storage

/-- After `n` reports at the times `t 1`, `t 2`, ...; the device is registered and stored as seen at
`t 0`. -/
def LastSeen.after (t : ℕ → ℤ) : ℕ → LastSeen
  | 0 => ⟨t 0, t 0⟩
  | n + 1 => (after t n).update (t (n + 1))

/-- Report `i` is in the store, and none of those after it up to report `n` is written. -/
def StoredAt (t : ℕ → ℤ) (n i : ℕ) : Prop :=
  (i = 0 ∨ persistsLastSeen (t (i - 1)) (t i) = true) ∧
    ∀ k, i ≤ k → k < n → persistsLastSeen (t k) (t (k + 1)) = false

namespace LastSeen

variable (t : ℕ → ℤ)

theorem memory_after (n : ℕ) : (after t n).memory = t n := by
  cases n with
  | zero | succ n => rfl

theorem exists_storedAt (n : ℕ) : ∃ i ≤ n, StoredAt t n i ∧ (after t n).storage = t i := by
  induction n with
  | zero => exact ⟨0, le_refl 0, ⟨Or.inl rfl, fun k _ hk => absurd hk (Nat.not_lt_zero k)⟩, rfl⟩
  | succ n ih =>
    obtain ⟨i, hi, ⟨hstart, hquiet⟩, hstorage⟩ := ih
    have hnext : (after t (n + 1)).storage =
        if persistsLastSeen (t n) (t (n + 1)) then t (n + 1) else (after t n).storage := by
      rw [← memory_after t n]
      rfl
    rw [hnext]
    by_cases hwrite : persistsLastSeen (t n) (t (n + 1)) = true
    · refine ⟨n + 1, le_refl _, ⟨Or.inr hwrite, fun k hk hk' => ?_⟩, if_pos hwrite⟩
      omega
    · refine ⟨i, by omega, ⟨hstart, fun k hk hk' => ?_⟩, by rw [if_neg hwrite, hstorage]⟩
      by_cases hlast : k = n
      · rw [hlast]
        exact Bool.eq_false_iff.mpr hwrite
      · exact hquiet k hk (by omega)

/-- Only one report is in the store. -/
theorem storedAt_unique {n i j : ℕ} (hi : i ≤ n) (hj : j ≤ n) (h : StoredAt t n i)
    (h' : StoredAt t n j) : i = j := by
  by_contra hne
  wlog hlt : i < j generalizing i j
  · exact this hj hi h' h (Ne.symm hne) (by omega)
  rcases h'.1 with rfl | hwrite
  · omega
  · have hquiet := h.2 (j - 1) (by omega) (by omega)
    rw [Nat.sub_add_cancel (by omega), hwrite] at hquiet
    cases hquiet

/-- The store is less than 15 seconds behind exactly when less than 15 seconds lie between the last
report that came 15 seconds after the one before it, or first, and this one. -/
theorem behind_lt_iff (n : ℕ) : (after t n).memory - (after t n).storage < 15 ↔
    ∀ i ≤ n, (i = 0 ∨ persistsLastSeen (t (i - 1)) (t i) = true) →
      (∀ k, i ≤ k → k < n → persistsLastSeen (t k) (t (k + 1)) = false) → t n - t i < 15 := by
  obtain ⟨i, hi, hstored, hstorage⟩ := exists_storedAt t n
  rw [memory_after, hstorage]
  constructor
  · intro h j hj hstart hquiet
    rwa [← storedAt_unique t hi hj hstored ⟨hstart, hquiet⟩]
  · intro h
    exact h i hi hstored.1 hstored.2

/-- A device reports every second; after a minute the store is a minute behind. -/
theorem behind_every_second : ¬ ∀ t : ℕ → ℤ, (∀ i, t i ≤ t (i + 1)) →
    ∀ n, (after t n).memory - (after t n).storage < 15 := by
  intro h
  have hminute := h (fun k => 1700000000 + k) (fun i => by push_cast; omega) 60
  exact absurd hminute (by decide)

end LastSeen

end HeraMind.Devices
