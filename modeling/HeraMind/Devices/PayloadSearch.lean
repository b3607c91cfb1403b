/-
# Sentinels in a text

Where a sentinel is found.  The prefix of a sentinel has no border, so that it cannot overlap with
the text before it; the suffix has one, and is found too early if the name has it inside or ends with
half of it.
-/
import HeraMind.Devices.PayloadMarks

namespace HeraMind.Devices.Payload

open List

variable {p s a b l z n : List Char}

/-! ## The first occurrence -/

theorem not_infix_of_splitAtFirst (h : splitAtFirst p s = none) : ¬p <:+: s := by
  induction s with
  | nil =>
    unfold splitAtFirst at h
    split at h
    · cases h
    · rename_i hp
      exact fun hwithin => hp (infix_nil.mp hwithin)
  | cons c s ih =>
    unfold splitAtFirst at h
    split at h
    · cases h
    · rename_i hp
      rw [Option.map_eq_none_iff] at h
      intro hwithin
      rcases infix_cons_iff.mp hwithin with hfront | hwithin
      · exact hp ( isPrefixOf_iff_prefix.mpr hfront)
      · exact ih h hwithin

/-- The occurrence that is found is the first one. -/
theorem splitAtFirst_spec (h : splitAtFirst p s = some (a, b)) :
    s = a ++ (p ++ b) ∧ ∀ a' b', s = a' ++ (p ++ b') → a.length ≤ a'.length := by
  induction s generalizing a with
  | nil =>
    unfold splitAtFirst at h
    split at h
    · rename_i hp
      cases h
      rw [hp]
      exact ⟨rfl, fun _ _ _ => Nat.zero_le _⟩
    · cases h
  | cons c s ih =>
    unfold splitAtFirst at h
    split at h
    · rename_i hp
      cases h
      obtain ⟨t, ht⟩ := isPrefixOf_iff_prefix.mp hp
      refine ⟨?_, fun _ _ _ => Nat.zero_le _⟩
      rw [nil_append, ← ht, drop_left]
    · rename_i hp
      obtain ⟨⟨a', b'⟩, hsplit, heq⟩ := Option.map_eq_some_iff.mp h
      cases heq
      obtain ⟨hs, hfirst⟩ := ih hsplit
      refine ⟨by rw [hs]; rfl, ?_⟩
      intro x y hxy
      cases x with
      | nil => exact absurd ( isPrefixOf_iff_prefix.mpr ⟨y, hxy.symm⟩) hp
      | cons d x => exact Nat.succ_le_succ (hfirst x y (cons.inj hxy).2)

/-- No occurrence begins before the one behind `l`. -/
def First (p l z : List Char) : Prop :=
  ∀ a b, l ++ (p ++ z) = a ++ (p ++ b) → l.length ≤ a.length

theorem splitAtFirst_of_first (h : First p l z) :
    splitAtFirst p (l ++ (p ++ z)) = some (l, z) := by
  cases hsplit : splitAtFirst p (l ++ (p ++ z)) with
  | none => exact absurd ⟨l, z, append_assoc l p z⟩ (not_infix_of_splitAtFirst hsplit)
  | some r =>
    obtain ⟨a, b⟩ := r
    obtain ⟨heq, hfirst⟩ := splitAtFirst_spec hsplit
    have hlength := Nat.le_antisymm (hfirst l z rfl) (h a b heq)
    obtain ⟨rfl, hrest⟩ := append_inj heq hlength.symm
    rw [append_cancel_left hrest]

/-- What begins before the text behind `l` begins in `l`. -/
theorem exists_of_before (heq : l ++ z = a ++ b) (hlt : a.length < l.length) :
    ∃ x, x ≠ [] ∧ l = a ++ x ∧ x ++ z = b := by
  rcases append_eq_append_iff.mp heq with ⟨x, ha, -⟩ | ⟨x, hl, hb⟩
  · rw [ha, length_append] at hlt
    omega
  · refine ⟨x, ?_, hl, hb.symm⟩
    rintro rfl
    rw [hl, append_nil] at hlt
    exact Nat.lt_irrefl _ hlt

theorem infix_of_long {x : List Char} (heq : x ++ z = p ++ b) (hle : p.length ≤ x.length)
    (hl : l = a ++ x) : p <:+: l := by
  have hfront : p <+: x := by
    have htake : p = x.take p.length := by
      have hwhole : (x ++ z).take p.length = x.take p.length :=
        take_append_of_le_length hle
      rw [← hwhole, heq, take_left]
    rw [htake]
    exact take_prefix _ _
  obtain ⟨y, hy⟩ := hfront
  exact ⟨a, y, by rw [hl, ← hy, append_assoc]⟩

/-- The prefix of a sentinel is found behind a text without it. -/
theorem first_sentinel (hl : ¬sentinelPrefix <:+: l) (z : List Char) : First sentinelPrefix l z := by
  intro a b heq
  by_contra hlt
  obtain ⟨x, hx, hla, hxz⟩ := exists_of_before heq (Nat.lt_of_not_le hlt)
  by_cases hlong : sentinelPrefix.length ≤ x.length
  · exact hl (infix_of_long hxz hlong hla)
  · have hshort : x.length < 5 := Nat.lt_of_not_le hlong
    -- an overlap would set the underscore at the front against a later character
    rcases x with - | ⟨c₁, - | ⟨c₂, - | ⟨c₃, - | ⟨c₄, - | ⟨c₅, x⟩⟩⟩⟩⟩
    · exact hx rfl
    · simp [sentinelPrefix] at hxz
    · simp [sentinelPrefix] at hxz
    · simp [sentinelPrefix] at hxz
    · simp [sentinelPrefix] at hxz
    · simp only [length_cons] at hshort
      omega

/-- The suffix of a sentinel is first found behind the name. -/
def IsClear (n : List Char) : Prop :=
  ¬sentinelSuffix <:+: n ∧ ¬['_'] <:+ n

theorem first_suffix (hn : IsClear n) (z : List Char) : First sentinelSuffix n z := by
  intro a b heq
  by_contra hlt
  obtain ⟨x, hx, hna, hxz⟩ := exists_of_before heq (Nat.lt_of_not_le hlt)
  by_cases hlong : sentinelSuffix.length ≤ x.length
  · exact hn.1 (infix_of_long hxz hlong hna)
  · have hshort : x.length < 2 := Nat.lt_of_not_le hlong
    rcases x with - | ⟨c₁, - | ⟨c₂, x⟩⟩
    · exact hx rfl
    · have hc : c₁ = '_' := (cons.inj hxz).1
      exact hn.2 ⟨a, by rw [hna, hc]⟩
    · simp only [length_cons] at hshort
      omega

theorem isClear_of_first (h : First sentinelSuffix n z) : IsClear n := by
  constructor
  · rintro ⟨a, b, rfl⟩
    have hle := h a (b ++ (sentinelSuffix ++ z)) (by simp only [append_assoc])
    have hlength : sentinelSuffix.length = 2 := by decide
    simp only [length_append] at hle
    omega
  · rintro ⟨a, rfl⟩
    have hle := h a ('_' :: z) (by simp [sentinelSuffix])
    simp only [length_append, length_singleton] at hle
    omega

/-! ## Sentinels alone -/

theorem stripPrefix_append (p s : List Char) : stripPrefix p (p ++ s) = some s := by
  unfold stripPrefix
  rw [if_pos ( isPrefixOf_iff_prefix.mpr (prefix_append p s)), drop_left]

theorem stripPrefix_eq_some (h : stripPrefix p s = some a) : s = p ++ a := by
  unfold stripPrefix at h
  split at h
  · rename_i hp
    obtain ⟨t, rfl⟩ := isPrefixOf_iff_prefix.mp hp
    rw [drop_left] at h
    rw [Option.some.inj h]
  · cases h

theorem stripSuffix_append (s p : List Char) : stripSuffix p (s ++ p) = some s := by
  unfold stripSuffix
  rw [if_pos (isSuffixOf_iff_suffix.mpr (suffix_append s p)), length_append,
    Nat.add_sub_cancel, take_left]

theorem stripSuffix_eq_some (h : stripSuffix p s = some a) : s = a ++ p := by
  unfold stripSuffix at h
  split at h
  · rename_i hp
    obtain ⟨t, rfl⟩ := isSuffixOf_iff_suffix.mp hp
    rw [length_append, Nat.add_sub_cancel, take_left] at h
    rw [Option.some.inj h]
  · cases h

theorem parseExactSentinel_eq_some {m : List Char} :
    parseExactSentinel s = some m ↔ s = sentinel m ∧ isValidName m = true := by
  unfold parseExactSentinel
  constructor
  · intro h
    split at h
    · cases h
    · rename_i inner hinner
      split at h
      · cases h
      · rename_i name hname
        split at h
        · rename_i hvalid
          cases h
          refine ⟨?_, hvalid⟩
          rw [stripPrefix_eq_some hinner, stripSuffix_eq_some hname, sentinel, append_assoc]
        · cases h
  · rintro ⟨rfl, hvalid⟩
    rw [sentinel, append_assoc, stripPrefix_append]
    simp only [stripSuffix_append, hvalid, if_true]

end HeraMind.Devices.Payload
