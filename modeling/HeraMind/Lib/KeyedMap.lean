/-
# Maps whose values know their key

A table from keys to values in which every value is stored under the key it carries.
The structure keeps this as a field, so a value under a foreign key cannot be built.
-/
import Mathlib.Data.List.AList
import Mathlib.Logic.Function.Basic

/-- A finite map with at most one value for each key. -/
abbrev HashMap (α β : Type*) := AList fun _ : α => β

namespace HashMap

open Option
open Function
open AList
open List

variable {α β : Type*} [DecidableEq α] {m : HashMap α β}

theorem lookup_erase_eq_none {a : α} (h : m.lookup a = none) (b : α) :
    (m.erase b).lookup a = none := by
  by_cases hab : a = b
  · subst hab
    exact AList.lookup_erase _ _
  · rwa [AList.lookup_erase_ne hab]

theorem lookup_insert_eq_update (m : HashMap α β) (a : α) (b : β) :
    (m.insert a b).lookup = Function.update m.lookup a (some b) := by
  funext c
  by_cases hca : c = a
  · rw [hca, update_self, lookup_insert]
  · rw [update_of_ne hca, lookup_insert_ne hca]

theorem lookup_erase_eq_update (m : HashMap α β) (a : α) :
    (m.erase a).lookup = Function.update m.lookup a none := by
  funext c
  by_cases hca : c = a
  · rw [hca, update_self, AList.lookup_erase]
  · rw [update_of_ne hca, AList.lookup_erase_ne hca]

theorem keys_insert_of_not_mem {a : α} (h : a ∉ m.keys) (b : β) :
    (m.insert a b).keys = a :: m.keys := by
  rw [keys_insert, erase_of_not_mem h]

/-- Remove some keys. -/
def removeAll (m : HashMap α β) (keys : List α) : HashMap α β :=
  keys.foldl (fun m a => m.erase a) m

theorem lookup_removeAll (m : HashMap α β) (keys : List α) (a : α) :
    (removeAll m keys).lookup a = if a ∈ keys then none else m.lookup a := by
  induction keys generalizing m with
  | nil => rfl
  | cons k keys ih =>
    have hcons : removeAll m (k :: keys) = removeAll (m.erase k) keys := rfl
    rw [hcons, ih]
    by_cases hak : a = k
    · subst hak
      rw [AList.lookup_erase]
      simp
    · rw [AList.lookup_erase_ne hak]
      simp [hak]

/-- Remove the keys whose values pass a test. -/
theorem lookup_removeAll_filter (m : HashMap α β) (p : β → Bool) (a : α) :
    (removeAll m (m.keys.filter fun k => (m.lookup k).any p)).lookup a =
      (m.lookup a).filter fun b => !p b := by
  rw [lookup_removeAll]
  cases ha : m.lookup a with
  | none =>
    split
    · rfl
    · rfl
  | some b =>
    have hmem : a ∈ m.keys := by
      rw [← AList.mem_keys, ← lookup_isSome, ha]
      rfl
    cases hp : p b with
    | false =>
      have hnot : a ∉ m.keys.filter fun k => (m.lookup k).any p := by
        intro h
        have hany := (mem_filter.mp h).2
        rw [ha, any_some, hp] at hany
        cases hany
      rw [if_neg hnot, filter_some, if_pos]
      rw [hp]
      rfl
    | true =>
      have hfilter : a ∈ m.keys.filter fun k => (m.lookup k).any p := by
        refine mem_filter.mpr ⟨hmem, ?_⟩
        rw [ha, any_some, hp]
      rw [if_pos hfilter, filter_some, if_neg]
      rw [hp]
      decide

theorem length_keys_removeAll_le (m : HashMap α β) (keys : List α) :
    (removeAll m keys).keys.length ≤ m.keys.length := by
  induction keys generalizing m with
  | nil => exact Nat.le_refl _
  | cons k keys ih =>
    refine Nat.le_trans (ih (m.erase k)) ?_
    rw [keys_erase]
    exact length_erase_le

/-- Removing a key of the map leaves fewer keys. -/
theorem length_keys_removeAll_lt {k : α} (hk : k ∈ m.keys) (keys : List α) :
    (removeAll m (k :: keys)).keys.length < m.keys.length := by
  refine Nat.lt_of_le_of_lt (length_keys_removeAll_le (m.erase k) keys) ?_
  rw [keys_erase, length_erase_of_mem hk]
  have hpos : 0 < m.keys.length := length_pos_of_mem hk
  omega

/-- Insert what `f` makes of the entries of a map. -/
def insertAll {γ : Type*} (m' : HashMap α γ) (m : HashMap α β) (f : α → β → Option γ) :
    HashMap α γ :=
  m.entries.foldl (fun acc row => (f row.1 row.2).elim acc (acc.insert row.1)) m'

theorem lookup_insertAll {γ : Type*} (m' : HashMap α γ) (m : HashMap α β) (f : α → β → Option γ)
    (a : α) : (insertAll m' m f).lookup a = ((m.lookup a).bind (f a)).or (m'.lookup a) := by
  obtain ⟨entries, hnodup⟩ := m
  show (entries.foldl _ m').lookup a = ((entries.dlookup a).bind (f a)).or _
  induction entries generalizing m' with
  | nil => rfl
  | cons row entries ih =>
    obtain ⟨k, b⟩ := row
    rw [nodupKeys_cons] at hnodup
    rw [foldl_cons, ih _ hnodup.2]
    by_cases hak : a = k
    · subst hak
      have hnone : entries.dlookup a = none := dlookup_eq_none.mpr hnodup.1
      rw [hnone, dlookup_cons_eq]
      cases hf : f a b with
      | none | some c => simp [hf]
    · rw [dlookup_cons_ne _ _ hak]
      cases hf : f k b with
      | none => simp
      | some c => simp [lookup_insert_ne hak]

/-- What `f` makes of the entries of a map, each with the key of its entry, has at most one element
with a key. -/
theorem filter_filterMap_entries {γ : Type*} (m : HashMap α β) {f : α → β → Option γ} {key : γ → α}
    (hkey : ∀ a b, ∀ c ∈ f a b, key c = a) (a : α) :
    (m.entries.filterMap fun row => f row.1 row.2).filter (fun c => decide (key c = a)) =
      ((m.lookup a).bind (f a)).toList := by
  obtain ⟨entries, hnodup⟩ := m
  show (entries.filterMap _).filter _ = ((entries.dlookup a).bind (f a)).toList
  induction entries with
  | nil => rfl
  | cons row entries ih =>
    obtain ⟨k, b⟩ := row
    rw [nodupKeys_cons] at hnodup
    by_cases hak : a = k
    · subst hak
      have hnone : entries.dlookup a = none := dlookup_eq_none.mpr hnodup.1
      have hrest := ih hnodup.2
      rw [hnone, bind_none, toList_none] at hrest
      rw [dlookup_cons_eq, bind_some, filterMap_cons]
      cases hf : f a b with
      | none => exact hrest
      | some c =>
        dsimp only
        rw [filter_cons, if_pos (decide_eq_true (hkey a b c hf)), hrest]
        rfl
    · rw [dlookup_cons_ne _ _ hak, ← ih hnodup.2, filterMap_cons]
      cases hf : f k b with
      | none => rfl
      | some c =>
        have hne : ¬ decide (key c = a) = true := by
          rw [hkey k b c hf, decide_eq_true_eq]
          exact Ne.symm hak
        dsimp only
        rw [filter_cons, if_neg hne]

/-- The entries of a map are used once each to change the values of another one. -/
theorem lookup_foldl_entries {γ : Type*} (m : HashMap α β) (p : β → Bool) (f : Option γ → γ)
    (m' : HashMap α γ) (a : α) :
    (m.entries.foldl (fun acc row =>
        if p row.2 then acc.insert row.1 (f (acc.lookup row.1)) else acc) m').lookup a =
      if (m.lookup a).any p then some (f (m'.lookup a)) else m'.lookup a := by
  obtain ⟨entries, hnodup⟩ := m
  show (entries.foldl _ m').lookup a = if (entries.dlookup a).any p then _ else _
  induction entries generalizing m' with
  | nil => rfl
  | cons row entries ih =>
    obtain ⟨k, b⟩ := row
    rw [nodupKeys_cons] at hnodup
    rw [foldl_cons, ih _ hnodup.2]
    by_cases hak : a = k
    · subst hak
      have hnone : entries.dlookup a = none := dlookup_eq_none.mpr hnodup.1
      rw [hnone, dlookup_cons_eq]
      cases hp : p b with
      | false | true => simp [hp]
    · rw [dlookup_cons_ne _ _ hak]
      cases hp : p b with
      | false => simp
      | true => simp [lookup_insert_ne hak]

end HashMap

/-- A finite map in which every value is stored under the key `key` reads off it. -/
structure KeyedMap (α β : Type*) [DecidableEq α] (key : β → α) where
  table : HashMap α β
  keyed : ∀ a b, table.lookup a = some b → key b = a

namespace KeyedMap

open List

variable {α β : Type*} [DecidableEq α] {key : β → α}

/-- The map with no entry. -/
def empty : KeyedMap α β key where
  table := ∅
  keyed := by simp

/-- The value stored under a key. -/
def lookup (m : KeyedMap α β key) (a : α) : Option β :=
  m.table.lookup a

/-- Store a value under its own key. -/
def put (m : KeyedMap α β key) (b : β) : KeyedMap α β key where
  table := m.table.insert (key b) b
  keyed := by
    intro a c h
    by_cases ha : a = key b
    · subst ha
      rw [AList.lookup_insert, Option.some.injEq] at h
      rw [h]
    · rw [AList.lookup_insert_ne ha] at h
      exact m.keyed a c h

/-- Drop the value stored under a key. -/
def erase (m : KeyedMap α β key) (a : α) : KeyedMap α β key where
  table := m.table.erase a
  keyed := by
    intro c b h
    by_cases hc : c = a
    · subst hc
      rw [AList.lookup_erase] at h
      cases h
    · rw [AList.lookup_erase_ne hc] at h
      exact m.keyed c b h

/-- The values, in table order. -/
def values (m : KeyedMap α β key) : List β :=
  m.table.entries.map Sigma.snd

@[simp] theorem lookup_empty (a : α) : (empty : KeyedMap α β key).lookup a = none := by
  simp [lookup, empty]

variable {m : KeyedMap α β key}

theorem key_of_lookup {a : α} {b : β} (h : m.lookup a = some b) :
    key b = a :=
  m.keyed a b h

theorem lookup_put (m : KeyedMap α β key) (b : β) (a : α) :
    (m.put b).lookup a = if a = key b then some b else m.lookup a := by
  by_cases ha : a = key b
  · subst ha
    rw [if_pos rfl]
    exact AList.lookup_insert _
  · rw [if_neg ha]
    exact AList.lookup_insert_ne ha

@[simp] theorem lookup_put_self (m : KeyedMap α β key) (b : β) :
    (m.put b).lookup (key b) = some b := by
  rw [lookup_put, if_pos rfl]

theorem lookup_put_ne (m : KeyedMap α β key) {b : β} {a : α} (h : a ≠ key b) :
    (m.put b).lookup a = m.lookup a := by
  rw [lookup_put, if_neg h]

/-- A value put in place of one with the same key. -/
theorem lookup_put_of_lookup {a : α} {old new : β}
    (h : m.lookup a = some old) (hkey : key new = key old) (c : α) :
    (m.put new).lookup c = if c = a then some new else m.lookup c := by
  rw [lookup_put, hkey, key_of_lookup h]

theorem lookup_erase (m : KeyedMap α β key) (c a : α) :
    (m.erase c).lookup a = if a = c then none else m.lookup a := by
  by_cases ha : a = c
  · subst ha
    rw [if_pos rfl]
    exact AList.lookup_erase _ _
  · rw [if_neg ha]
    exact AList.lookup_erase_ne ha

@[simp] theorem lookup_erase_self (m : KeyedMap α β key) (c : α) :
    (m.erase c).lookup c = none := by
  rw [lookup_erase, if_pos rfl]

theorem lookup_erase_ne (m : KeyedMap α β key) {c a : α} (h : a ≠ c) :
    (m.erase c).lookup a = m.lookup a := by
  rw [lookup_erase, if_neg h]

theorem lookup_put_eq_update (m : KeyedMap α β key) (b : β) :
    (m.put b).lookup = Function.update m.lookup (key b) (some b) :=
  HashMap.lookup_insert_eq_update m.table (key b) b

theorem lookup_erase_eq_update (m : KeyedMap α β key) (a : α) :
    (m.erase a).lookup = Function.update m.lookup a none :=
  HashMap.lookup_erase_eq_update m.table a

/-- The values are exactly what looking up their keys gives. -/
theorem mem_values {b : β} :
    b ∈ m.values ↔ m.lookup (key b) = some b := by
  rw [values, mem_map]
  constructor
  · rintro ⟨⟨a, c⟩, he, rfl⟩
    have hl : m.table.lookup a = some c := AList.mem_lookup_iff.mpr he
    have hk : key c = a := m.keyed a c hl
    show m.table.lookup (key c) = some c
    rw [hk]
    exact hl
  · intro h
    exact ⟨⟨key b, b⟩, AList.mem_lookup_iff.mp h, rfl⟩

/-- No key occurs twice among the values. -/
theorem nodup_keys_values (m : KeyedMap α β key) : (m.values.map key).Nodup := by
  have hkeys : m.values.map key = m.table.entries.map Sigma.fst := by
    rw [values, map_map]
    apply map_congr_left
    rintro ⟨a, b⟩ he
    exact m.keyed a b (AList.mem_lookup_iff.mpr he)
  rw [hkeys]
  exact m.table.nodupKeys

variable {γ : Type*}

theorem mem_map_values {f : β → γ} {x : γ} :
    x ∈ m.values.map f ↔ ∃ a, (m.lookup a).map f = some x := by
  rw [mem_map]
  constructor
  · rintro ⟨b, hb, rfl⟩
    exact ⟨key b, by rw [mem_values.mp hb, Option.map_some]⟩
  · rintro ⟨a, ha⟩
    obtain ⟨b, hb, rfl⟩ := Option.map_eq_some_iff.mp ha
    refine ⟨b, mem_values.mpr ?_, rfl⟩
    rw [key_of_lookup hb, hb]

/-- Values that are put one after the other leave other keys alone. -/
theorem lookup_foldl_put_ne {l : List β} {a : α} (h : ∀ b ∈ l, key b ≠ a) :
    ∀ m : KeyedMap α β key, (l.foldl put m).lookup a = m.lookup a := by
  induction l with
  | nil =>
    intro m
    rfl
  | cons b l ih =>
    intro m
    rw [foldl_cons, ih (fun c hc => h c (mem_cons_of_mem _ hc)),
      lookup_put_ne m (h b mem_cons_self).symm]

/-- The values of a list with different keys are all found once they are put. -/
theorem lookup_foldl_put {l : List β} (hl : (l.map key).Nodup) {b : β} (hb : b ∈ l) :
    ∀ m : KeyedMap α β key, (l.foldl put m).lookup (key b) = some b := by
  induction l with
  | nil => cases hb
  | cons c l ih =>
    intro m
    rw [map_cons, nodup_cons] at hl
    rw [foldl_cons]
    rcases mem_cons.mp hb with rfl | hb
    · rw [lookup_foldl_put_ne, lookup_put_self]
      intro d hd hkey
      exact hl.1 (hkey ▸ mem_map_of_mem hd)
    · exact ih hl.2 hb _

/-- A map whose values are those of another map, changed without changing their keys. -/
theorem lookup_foldl_put_values {key' : γ → α} (m : KeyedMap α β key) {f : β → γ}
    (hf : ∀ b, key' (f b) = key b) (a : α) :
    ((m.values.map f).foldl put (empty : KeyedMap α γ key')).lookup a = (m.lookup a).map f := by
  cases hl : m.lookup a with
  | none =>
    rw [lookup_foldl_put_ne, lookup_empty]
    · rfl
    · intro c hc hkey
      obtain ⟨b, hb, rfl⟩ := mem_map.mp hc
      rw [mem_values, ← hf, hkey, hl] at hb
      cases hb
  | some b =>
    have hkey : key' (f b) = a := (hf b).trans (key_of_lookup hl)
    have hnodup : ((m.values.map f).map key').Nodup := by
      rw [map_map, show key' ∘ f = key from funext hf]
      exact m.nodup_keys_values
    have hb : b ∈ m.values := by
      rw [mem_values, key_of_lookup hl, hl]
    rw [← hkey]
    exact lookup_foldl_put hnodup (mem_map_of_mem hb) _

/-- A map whose values are those of another map that pass a test, changed without changing their
keys. -/
theorem lookup_foldl_put_filterMap {key' : γ → α} (m : KeyedMap α β key)
    {f : β → Option γ} (hf : ∀ b c, f b = some c → key' c = key b) (a : α) :
    ((m.values.filterMap f).foldl put (empty : KeyedMap α γ key')).lookup a =
      (m.lookup a).bind f := by
  have hsource : ∀ c ∈ m.values.filterMap f, key' c = a → (m.lookup a).bind f = some c := by
    intro c hc hkey
    obtain ⟨b, hb, hfb⟩ := mem_filterMap.mp hc
    rw [mem_values, ← hf b c hfb, hkey] at hb
    rw [hb]
    exact hfb
  cases hl : (m.lookup a).bind f with
  | none =>
    rw [lookup_foldl_put_ne, lookup_empty]
    intro c hc hkey
    rw [hsource c hc hkey] at hl
    cases hl
  | some c =>
    obtain ⟨b, hb, hfb⟩ := Option.bind_eq_some_iff.mp hl
    have hkey : key' c = a := (hf b c hfb).trans (key_of_lookup hb)
    have hmem : c ∈ m.values.filterMap f := by
      refine mem_filterMap.mpr ⟨b, ?_, hfb⟩
      rw [mem_values, key_of_lookup hb, hb]
    have hnodup : ((m.values.filterMap f).map key').Nodup := by
      have hkeys := m.nodup_keys_values
      rw [List.Nodup, pairwise_map] at hkeys ⊢
      rw [pairwise_filterMap]
      refine hkeys.imp ?_
      intro x y hxy u hu v hv huv
      rw [hf x u hu, hf y v hv] at huv
      exact hxy huv
    rw [← hkey]
    exact lookup_foldl_put hnodup hmem _

/-- Two maps that agree on a view of their values, which determines the key, have the
same values up to that view and the order. -/
theorem perm_map_values {m m' : KeyedMap α β key} {f : β → γ}
    (hf : ∀ b c, f b = f c → key b = key c)
    (h : ∀ a, (m.lookup a).map f = (m'.lookup a).map f) :
    (m.values.map f).Perm (m'.values.map f) := by
  have hnodup : ∀ m : KeyedMap α β key, (m.values.map f).Nodup := by
    intro m
    have hkeys := m.nodup_keys_values
    rw [List.Nodup, pairwise_map] at hkeys ⊢
    exact hkeys.imp (fun hne heq => hne (hf _ _ heq))
  rw [perm_ext_iff_of_nodup (hnodup m) (hnodup m')]
  intro x
  rw [mem_map_values, mem_map_values]
  simp only [h]

end KeyedMap
