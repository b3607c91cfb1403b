/-
# Calls in progress

Calls that run concurrently are kept in a list, by the section that is next in each.  When one of
them goes on, its entry is replaced, and all others stay.
-/
import Mathlib.Data.List.Basic
import Mathlib.Logic.Function.Basic

namespace Calls

open Function List

variable {α : Type*} {calls : List α} {i n : ℕ} {call call' c : α}

theorem getElem?_set_self (hn : calls[n]? = some call) (call' : α) :
    (calls.set n call')[n]? = some call' :=
  List.getElem?_set_self (List.getElem?_eq_some_iff.mp hn).1

/-- A call after one call has gone on. -/
theorem getElem?_set_cases (h : (calls.set n call')[i]? = some c) :
    (i = n ∧ c = call') ∨ (i ≠ n ∧ calls[i]? = some c) := by
  by_cases hin : i = n
  · left
    have hlt := (List.getElem?_eq_some_iff.mp h).1
    rw [length_set] at hlt
    rw [hin, List.getElem?_set_self (hin ▸ hlt)] at h
    exact ⟨hin, (Option.some.inj h).symm⟩
  · rw [getElem?_set_ne (Ne.symm hin)] at h
    exact Or.inr ⟨hin, h⟩

/-- Another call is where it was. -/
theorem getElem?_set_of_ne (hi : calls[i]? = some c) (hin : i ≠ n) (call' : α) :
    (calls.set n call')[i]? = some c := by
  rw [getElem?_set_ne (Ne.symm hin), hi]

/-- A call after a new one was made. -/
theorem getElem?_append_cases (h : (calls ++ [call])[i]? = some c) :
    (i = calls.length ∧ c = call) ∨ calls[i]? = some c := by
  by_cases hlt : i < calls.length
  · rw [getElem?_append_left hlt] at h
    exact Or.inr h
  · left
    have hlen := (List.getElem?_eq_some_iff.mp h).1
    rw [length_append, length_singleton] at hlen
    obtain rfl : i = calls.length := by omega
    rw [getElem?_append_right (Nat.le_refl _), Nat.sub_self] at h
    exact ⟨rfl, (Option.some.inj h).symm⟩

theorem getElem?_append_of_some (hi : calls[i]? = some c) (call : α) :
    (calls ++ [call])[i]? = some c := by
  rw [getElem?_append_left (List.getElem?_eq_some_iff.mp hi).1, hi]

/-- The calls by their place after one has gone on. -/
theorem getElem?_set_eq_update (hn : calls[n]? = some call) (call' : α) :
    (fun i => (calls.set n call')[i]?) = Function.update (fun i => calls[i]?) n (some call') := by
  funext i
  by_cases hin : i = n
  · rw [hin, update_self, getElem?_set_self hn]
  · rw [update_of_ne hin, getElem?_set_ne (Ne.symm hin)]

/-- The calls by their place after a new one was made. -/
theorem getElem?_append_eq_update (calls : List α) (call : α) :
    (fun i => (calls ++ [call])[i]?) =
      Function.update (fun i => calls[i]?) calls.length (some call) := by
  funext i
  by_cases hi : i = calls.length
  · rw [hi, update_self, getElem?_concat_length]
  · rw [update_of_ne hi]
    by_cases hlt : i < calls.length
    · exact getElem?_append_left hlt
    · have hlen : (calls ++ [call]).length ≤ i := by
        rw [length_append, length_singleton]
        omega
      rw [getElem?_eq_none hlen, getElem?_eq_none (Nat.le_of_not_lt hlt)]

theorem mem_set_self (hn : calls[n]? = some call) (call' : α) : call' ∈ calls.set n call' :=
  mem_set (List.getElem?_eq_some_iff.mp hn).1 call'

/-- A call is still there after another one has gone on. -/
theorem mem_set_or_eq (hn : calls[n]? = some call) (hc : c ∈ calls) (call' : α) :
    c = call ∨ c ∈ calls.set n call' := by
  obtain ⟨k, hk⟩ := getElem?_of_mem hc
  by_cases hkn : k = n
  · left
    rw [hkn, hn] at hk
    exact (Option.some.inj hk).symm
  · right
    exact mem_of_getElem? (getElem?_set_of_ne hk hkn call')

/-- What every call has is had by all after one of them has gone on to a call that has it. -/
theorem forall_mem_set {P : α → Prop} (h : ∀ c ∈ calls, P c) (hP : P call') :
    ∀ c ∈ calls.set n call', P c := by
  intro c hc
  rcases mem_or_eq_of_mem_set hc with hc | rfl
  · exact h c hc
  · exact hP

/-- What some call has is still there after a call has gone on that keeps it. -/
theorem exists_mem_set {P : α → Prop} (hn : calls[n]? = some call) (hP : P call → P call')
    (h : ∃ c ∈ calls, P c) : ∃ c ∈ calls.set n call', P c := by
  obtain ⟨c, hc, hPc⟩ := h
  rcases mem_set_or_eq hn hc call' with rfl | hc
  · exact ⟨call', mem_set_self hn call', hP hPc⟩
  · exact ⟨c, hc, hPc⟩

/-- How many calls are of a kind after one of them has gone on. -/
theorem countP_set (p : α → Bool) (hn : calls[n]? = some call) (call' : α) :
    (calls.set n call').countP p + (if p call then 1 else 0) =
      calls.countP p + if p call' then 1 else 0 := by
  obtain ⟨hlt, rfl⟩ := List.getElem?_eq_some_iff.mp hn
  have hle := boole_getElem_le_countP (p := p) hlt
  rw [List.countP_set hlt]
  omega

theorem mem_set_of_mem_eraseIdx (hc : c ∈ calls.eraseIdx n) (call' : α) :
    c ∈ calls.set n call' := by
  obtain ⟨k, hkn, hk⟩ := mem_eraseIdx_iff_getElem?.mp hc
  exact mem_of_getElem? (getElem?_set_of_ne hk hkn call')

end Calls
