/-
# Grouping a list by a key

`groupInto` collects the elements of a list in one group for each key.  A hash map visits
its entries in an order of its own; whatever the order, the groups together hold every
element of the list once.
-/
import HeraMind.Lib.KeyedMap

variable {α β γ : Type*} [DecidableEq β]

/-- Collect the values of a list by key, in the order of the list. -/
def groupInto (key : α → β) (val : α → γ) (l : List α) : HashMap β (List γ) :=
  l.foldl (fun groups a =>
    groups.insert (key a) ((groups.lookup (key a)).getD [] ++ [val a])) ∅

/-- The entries of a map in the order of the given keys. -/
def entriesIn (m : HashMap β γ) (order : List β) : List (β × γ) :=
  order.filterMap fun k => (m.lookup k).map fun c => (k, c)

theorem getD_lookup_foldl (key : α → β) (val : α → γ) (l : List α)
    (groups : HashMap β (List γ)) (k : β) :
    ((l.foldl (fun groups a =>
        groups.insert (key a) ((groups.lookup (key a)).getD [] ++ [val a])) groups).lookup
          k).getD [] =
      (groups.lookup k).getD [] ++ (l.filter fun a => key a = k).map val := by
  induction l generalizing groups with
  | nil => simp
  | cons a l ih =>
    rw [List.foldl_cons, ih]
    by_cases hk : key a = k
    · subst hk
      rw [AList.lookup_insert, Option.getD_some, List.filter_cons_of_pos (by simp)]
      simp
    · have hne : k ≠ key a := fun h => hk h.symm
      rw [AList.lookup_insert_ne hne, List.filter_cons_of_neg (by simpa using hk)]

/-- The group of a key, which is empty if no element has the key. -/
theorem getD_lookup_groupInto (key : α → β) (val : α → γ) (l : List α) (k : β) :
    ((groupInto key val l).lookup k).getD [] = (l.filter fun a => key a = k).map val := by
  have h := getD_lookup_foldl key val l ∅ k
  rwa [AList.lookup_empty, Option.getD_none, List.nil_append] at h

theorem mem_foldl_groupInto (key : α → β) (val : α → γ) (l : List α)
    (groups : HashMap β (List γ)) (k : β) :
    k ∈ l.foldl (fun groups a =>
        groups.insert (key a) ((groups.lookup (key a)).getD [] ++ [val a])) groups ↔
      k ∈ groups ∨ ∃ a ∈ l, key a = k := by
  induction l generalizing groups with
  | nil => simp
  | cons a l ih =>
    rw [List.foldl_cons, ih, AList.mem_insert]
    constructor
    · rintro ((rfl | hk) | ⟨b, hb, rfl⟩)
      · exact Or.inr ⟨a, List.mem_cons_self, rfl⟩
      · exact Or.inl hk
      · exact Or.inr ⟨b, List.mem_cons_of_mem _ hb, rfl⟩
    · rintro (hk | ⟨b, hb, rfl⟩)
      · exact Or.inl (Or.inr hk)
      · rcases List.mem_cons.mp hb with rfl | hb
        · exact Or.inl (Or.inl rfl)
        · exact Or.inr ⟨b, hb, rfl⟩

/-- The keys of the groups are the keys of the elements. -/
theorem mem_keys_groupInto (key : α → β) (val : α → γ) (l : List α) (k : β) :
    k ∈ (groupInto key val l).keys ↔ ∃ a ∈ l, key a = k := by
  rw [← AList.mem_keys]
  unfold groupInto
  rw [mem_foldl_groupInto]
  simp

variable {order : List β}

/-- Filtering by each key in turn visits every element once. -/
theorem perm_flatMap_filter (key : α → β) (hnd : order.Nodup) (l : List α)
    (hcover : ∀ a ∈ l, key a ∈ order) :
    (order.flatMap fun k => l.filter fun a => key a = k).Perm l := by
  induction order generalizing l with
  | nil =>
    have hnil : l = [] := List.eq_nil_iff_forall_not_mem.mpr fun a ha => by
      simpa using hcover a ha
    simp [hnil]
  | cons k order ih =>
    obtain ⟨hk, hnd⟩ := List.nodup_cons.mp hnd
    have hrest : ∀ a ∈ l.filter (fun a => !decide (key a = k)), key a ∈ order := by
      intro a ha
      rw [List.mem_filter] at ha
      obtain ⟨ha, hne⟩ := ha
      rcases List.mem_cons.mp (hcover a ha) with heq | hmem
      · simp [heq] at hne
      · exact hmem
    -- the later keys filter the same elements from what the first one leaves
    have hsame : (order.flatMap fun k' => l.filter fun a => key a = k') =
        order.flatMap fun k' =>
          (l.filter fun a => !decide (key a = k)).filter fun a => key a = k' := by
      apply List.flatMap_congr
      intro k' hk'
      rw [List.filter_filter]
      apply List.filter_congr
      intro a _
      by_cases heq : key a = k'
      · have hne : k' ≠ k := fun h => hk (h ▸ hk')
        simp [heq, hne]
      · simp [heq]
    rw [List.flatMap_cons, hsame]
    exact ((ih hnd _ hrest).append_left _).trans (List.filter_append_perm _ l)

/-- The groups, visited in some order of keys, hold the elements with these keys. -/
theorem flatMap_entriesIn_groupInto (key : α → β) (val : α → γ) (restore : β → γ → α)
    (hrestore : ∀ a, restore (key a) (val a) = a) (l : List α) (order : List β) :
    ((entriesIn (groupInto key val l) order).flatMap fun e => e.2.map (restore e.1)) =
      order.flatMap fun k => l.filter fun a => key a = k := by
  have hgroup : ∀ k, (((groupInto key val l).lookup k).getD []).map (restore k) =
      l.filter fun a => key a = k := by
    intro k
    rw [getD_lookup_groupInto, List.map_map]
    have hid : (l.filter fun a => key a = k).map (restore k ∘ val) =
        (l.filter fun a => key a = k).map id := by
      apply List.map_congr_left
      intro a ha
      have hk : key a = k := by simpa using (List.mem_filter.mp ha).2
      rw [Function.comp_apply, ← hk, hrestore, id]
    rw [hid, List.map_id]
  unfold entriesIn
  induction order with
  | nil => rfl
  | cons k order ih =>
    rw [List.flatMap_cons, ← ih, ← hgroup k]
    cases h : (groupInto key val l).lookup k with
    | none | some group => simp [h]

/-- The keys of the groups that are visited. -/
theorem mem_map_fst_entriesIn {m : HashMap β (List γ)} {k : β} :
    k ∈ (entriesIn m order).map Prod.fst ↔ k ∈ order ∧ k ∈ m := by
  unfold entriesIn
  rw [List.mem_map]
  constructor
  · rintro ⟨⟨k', c⟩, he, rfl⟩
    obtain ⟨k, hk, hc⟩ := List.mem_filterMap.mp he
    obtain ⟨c', hc', heq⟩ := Option.map_eq_some_iff.mp hc
    cases heq
    exact ⟨hk, AList.lookup_isSome.mp (by rw [hc']; rfl)⟩
  · rintro ⟨hk, hm⟩
    obtain ⟨c, hc⟩ := Option.isSome_iff_exists.mp (AList.lookup_isSome.mpr hm)
    refine ⟨(k, c), List.mem_filterMap.mpr ⟨k, hk, ?_⟩, rfl⟩
    rw [hc]
    rfl

/-- The groups, visited in any order of their keys, hold every element once. -/
theorem perm_entriesIn_groupInto (key : α → β) (val : α → γ) (restore : β → γ → α)
    (hrestore : ∀ a, restore (key a) (val a) = a) (l : List α)
    (horder : order.Perm (groupInto key val l).keys) :
    ((entriesIn (groupInto key val l) order).flatMap fun e => e.2.map (restore e.1)).Perm l := by
  have hnd : order.Nodup := horder.nodup_iff.mpr (AList.keys_nodup _)
  have hcover : ∀ a ∈ l, key a ∈ order := by
    intro a ha
    rw [horder.mem_iff, mem_keys_groupInto]
    exact ⟨a, ha, rfl⟩
  rw [flatMap_entriesIn_groupInto key val restore hrestore]
  exact perm_flatMap_filter key hnd l hcover

/-- Filtering by each key in turn keeps the order of elements that share their key. -/
theorem filter_flatMap_filter (key : α → β) (hnd : order.Nodup) (l : List α)
    (hcover : ∀ a ∈ l, key a ∈ order) {k : β} (p : α → Bool)
    (hp : ∀ a, p a = true → key a = k) :
    (order.flatMap fun k' => l.filter fun a => key a = k').filter p = l.filter p := by
  -- only the group of `k` has elements with `p`
  have hgroup : ∀ k', (l.filter fun a => key a = k').filter p =
      if k' = k then l.filter p else [] := by
    intro k'
    rw [List.filter_filter]
    split
    · rename_i hk
      apply List.filter_congr
      intro a _
      cases ha : p a with
      | false => rfl
      | true => simp [hp a ha, hk]
    · rename_i hk
      rw [List.filter_eq_nil_iff]
      intro a _ ha
      rw [Bool.and_eq_true, decide_eq_true_eq] at ha
      exact hk (ha.2 ▸ hp a ha.1)
  rw [List.filter_flatMap]
  simp only [hgroup]
  by_cases hk : k ∈ order
  · clear hcover hgroup
    induction order with
    | nil => cases hk
    | cons k' order ih =>
      obtain ⟨hk', hnd⟩ := List.nodup_cons.mp hnd
      rw [List.flatMap_cons]
      rcases List.mem_cons.mp hk with rfl | hmem
      · have hrest : (order.flatMap fun k' => if k' = k then l.filter p else []) = [] := by
          rw [List.flatMap_eq_nil_iff]
          intro k'' hk''
          rw [if_neg]
          rintro rfl
          exact hk' hk''
        rw [if_pos rfl, hrest, List.append_nil]
      · rw [if_neg, List.nil_append, ih hnd hmem]
        rintro rfl
        exact hk' hmem
  · have hnone : l.filter p = [] := by
      rw [List.filter_eq_nil_iff]
      intro a ha hpa
      exact hk (hp a hpa ▸ hcover a ha)
    rw [hnone]
    simp

/-- What a list contributes when one of its elements is replaced: the rest stays. -/
theorem exists_perm_flatMap_set {l : List α} {n : ℕ} {a : α} (hn : l[n]? = some a)
    (f : α → List γ) :
    ∃ rest, (l.flatMap f).Perm (f a ++ rest) ∧
      ∀ a', ((l.set n a').flatMap f).Perm (f a' ++ rest) := by
  obtain ⟨hlt, ha⟩ := List.getElem?_eq_some_iff.mp hn
  have hsplit : ∀ a', ((l.set n a').flatMap f).Perm
      (f a' ++ ((l.take n).flatMap f ++ (l.drop (n + 1)).flatMap f)) := by
    intro a'
    rw [List.set_eq_take_append_cons_drop, if_pos hlt, List.flatMap_append, List.flatMap_cons]
    exact List.perm_append_comm_assoc _ _ _
  refine ⟨_, ?_, hsplit⟩
  have hsame : l.set n a = l := by
    rw [← ha]
    exact List.set_getElem_self hlt
  rw [← hsame]
  simpa [hsame] using hsplit a
