/-
# Names that are taken and released

A party takes a free name, uses it for a while, and leaves it.  A table says who is registered for
a name.  Anyone may revoke the registration of a name: its party is told to stop, but still uses
the name until it leaves.

As long as a name is only taken when no party uses it, and a party that leaves takes its
registration with it, a name has one user at a time, a user that was not told to stop is the
registered one, and a name without a user is free.

Names and parties are arbitrary.
-/
import Mathlib.Data.Set.Insert
import Mathlib.Logic.Function.Basic

/-- Who is registered for a name, which name a party uses, and who was told to stop. -/
@[ext] structure Leases (κ γ : Type*) where
  holder : κ → Option γ
  uses : γ → Option κ
  revoked : Set γ

namespace Leases

open Option Function

variable {κ γ : Type*}

/-- The registrations and the users agree. -/
structure Consistent (L : Leases κ γ) : Prop where
  alone : ∀ c d k, L.uses c = some k → L.uses d = some k → c = d
  registered : ∀ c k, L.uses c = some k → c ∉ L.revoked → L.holder k = some c
  used : ∀ c k, L.holder k = some c → L.uses c = some k

variable {L L' : Leases κ γ}

/-- A name without a user is free. -/
theorem Consistent.free (h : L.Consistent) {k : κ} (hk : ∀ c, L.uses c ≠ some k) :
    L.holder k = none := by
  by_contra hne
  obtain ⟨c, hc⟩ := ne_none_iff_exists'.mp hne
  exact hk c (h.used c k hc)

/-- Nobody uses a name. -/
theorem Consistent.empty : Consistent (⟨fun _ => none, fun _ => none, ∅⟩ : Leases κ γ) where
  alone _ _ _ hc := nomatch hc
  registered _ _ hc := nomatch hc
  used _ _ hk := nomatch hk

section Update

variable [DecidableEq κ] [DecidableEq γ]

/-- A party takes a name. -/
def take (L : Leases κ γ) (c : γ) (k : κ) : Leases κ γ :=
  { L with holder := Function.update L.holder k (some c), uses := Function.update L.uses c (some k) }

/-- The registration of a name is revoked, and its party is told to stop. -/
def revoke (L : Leases κ γ) (c : γ) (k : κ) : Leases κ γ :=
  { L with holder := Function.update L.holder k none, revoked := insert c L.revoked }

/-- A party stops using a name that is no longer registered for it. -/
def leave (L : Leases κ γ) (c : γ) : Leases κ γ :=
  { L with uses := Function.update L.uses c none }

/-- A party stops using a name and removes its registration. -/
def release (L : Leases κ γ) (c : γ) (k : κ) : Leases κ γ :=
  { L with holder := Function.update L.holder k none, uses := Function.update L.uses c none }

/-- What may happen to a name. -/
inductive Step (L : Leases κ γ) : Leases κ γ → Prop
  | stay : Step L L
  | take (c : γ) (k : κ) : L.uses c = none → (∀ d, L.uses d ≠ some k) → Step L (L.take c k)
  | revoke (c : γ) (k : κ) : L.holder k = some c → Step L (L.revoke c k)
  | leave (c : γ) (k : κ) : L.uses c = some k → L.holder k ≠ some c → Step L (L.leave c)
  | release (c : γ) (k : κ) : L.uses c = some k → Step L (L.release c k)

theorem uses_take_cases {c d : γ} {k k' : κ} (h : (L.take c k).uses d = some k') :
    (d = c ∧ k' = k) ∨ (d ≠ c ∧ L.uses d = some k') := by
  change Function.update L.uses c (some k) d = some k' at h
  by_cases hd : d = c
  · rw [hd, update_self] at h
    exact Or.inl ⟨hd, (some.inj h).symm⟩
  · rw [update_of_ne hd] at h
    exact Or.inr ⟨hd, h⟩

omit [DecidableEq κ] in
theorem uses_leave_cases {c d : γ} {k : κ} (h : (L.leave c).uses d = some k) :
    d ≠ c ∧ L.uses d = some k := by
  change Function.update L.uses c none d = some k at h
  by_cases hd : d = c
  · rw [hd, update_self] at h
    cases h
  · rw [update_of_ne hd] at h
    exact ⟨hd, h⟩

theorem uses_release (L : Leases κ γ) (c : γ) (k : κ) : (L.release c k).uses = (L.leave c).uses :=
  rfl

theorem Consistent.take (h : L.Consistent) {c : γ} {k : κ} (hc : L.uses c = none)
    (hfree : ∀ d, L.uses d ≠ some k) : (L.take c k).Consistent where
  alone := by
    intro d e k' hd he
    obtain ⟨hdc, hkk⟩ | ⟨-, hd⟩ := uses_take_cases hd
    · obtain ⟨hec, -⟩ | ⟨-, he⟩ := uses_take_cases he
      · rw [hdc, hec]
      · exact absurd (hkk ▸ he) (hfree e)
    · obtain ⟨-, hkk⟩ | ⟨-, he⟩ := uses_take_cases he
      · exact absurd (hkk ▸ hd) (hfree d)
      · exact h.alone d e k' hd he
  registered := by
    intro d k' hd hrevoked
    obtain ⟨hdc, hkk⟩ | ⟨-, huse⟩ := uses_take_cases hd
    · rw [hdc, hkk]
      exact update_self _ _ _
    · have hne : k' ≠ k := by
        intro hkk
        exact hfree d (hkk ▸ huse)
      show Function.update L.holder k (some c) k' = some d
      rw [update_of_ne hne]
      exact h.registered d k' huse hrevoked
  used := by
    intro d k' hd
    change Function.update L.holder k (some c) k' = some d at hd
    show Function.update L.uses c (some k) d = some k'
    by_cases hk' : k' = k
    · rw [hk', update_self, some.injEq] at hd
      rw [hk', ← hd, update_self]
    · rw [update_of_ne hk'] at hd
      have huse := h.used d k' hd
      have hne : d ≠ c := by
        rintro rfl
        rw [hc] at huse
        cases huse
      rw [update_of_ne hne]
      exact huse

omit [DecidableEq γ] in
theorem Consistent.revoke (h : L.Consistent) {c : γ} {k : κ} (hk : L.holder k = some c) :
    (L.revoke c k).Consistent where
  alone := h.alone
  registered := by
    intro d k' hd hrevoked
    change L.uses d = some k' at hd
    change d ∉ insert c L.revoked at hrevoked
    rw [Set.mem_insert_iff, not_or] at hrevoked
    have hne : k' ≠ k := by
      rintro rfl
      exact hrevoked.1 (h.alone d c k' hd (h.used c k' hk))
    show Function.update L.holder k none k' = some d
    rw [update_of_ne hne]
    exact h.registered d k' hd hrevoked.2
  used := by
    intro d k' hd
    change Function.update L.holder k none k' = some d at hd
    by_cases hk' : k' = k
    · rw [hk', update_self] at hd
      cases hd
    · rw [update_of_ne hk'] at hd
      exact h.used d k' hd

omit [DecidableEq κ] in
theorem Consistent.leave (h : L.Consistent) {c : γ} {k : κ} (hc : L.uses c = some k)
    (hk : L.holder k ≠ some c) : (L.leave c).Consistent where
  alone := fun d e k' hd he => h.alone d e k' (uses_leave_cases hd).2 (uses_leave_cases he).2
  registered := fun d k' hd => h.registered d k' (uses_leave_cases hd).2
  used := by
    intro d k' hd
    change L.holder k' = some d at hd
    have huse := h.used d k' hd
    have hne : d ≠ c := by
      rintro rfl
      rw [hc, some.injEq] at huse
      exact hk (huse ▸ hd)
    show Function.update L.uses c none d = some k'
    rw [update_of_ne hne]
    exact huse

theorem Consistent.release (h : L.Consistent) {c : γ} {k : κ} (hc : L.uses c = some k) :
    (L.release c k).Consistent where
  alone := by
    intro d e k' hd he
    rw [uses_release] at hd he
    exact h.alone d e k' (uses_leave_cases hd).2 (uses_leave_cases he).2
  registered := by
    intro d k' hd hrevoked
    rw [uses_release] at hd
    obtain ⟨hdc, hd⟩ := uses_leave_cases hd
    have hne : k' ≠ k := by
      rintro rfl
      exact hdc (h.alone d c k' hd hc)
    show Function.update L.holder k none k' = some d
    rw [update_of_ne hne]
    exact h.registered d k' hd hrevoked
  used := by
    intro d k' hd
    change Function.update L.holder k none k' = some d at hd
    by_cases hk' : k' = k
    · rw [hk', update_self] at hd
      cases hd
    · rw [update_of_ne hk'] at hd
      have huse := h.used d k' hd
      have hne : d ≠ c := by
        rintro rfl
        rw [hc, some.injEq] at huse
        exact hk' huse.symm
      show Function.update L.uses c none d = some k'
      rw [update_of_ne hne]
      exact huse

/-- The registrations and the users agree after every step. -/
theorem Consistent.step (h : L.Consistent) (hs : L.Step L') : L'.Consistent := by
  cases hs with
  | stay => exact h
  | take c k hc hfree => exact h.take hc hfree
  | revoke c k hk => exact h.revoke hk
  | leave c k hc hk => exact h.leave hc hk
  | release c k hc => exact h.release hc

end Update

end Leases
