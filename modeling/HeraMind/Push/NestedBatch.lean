/-
# Nested batch payloads

`build_nested_batch_payload` (`crates/heramind-data-push/src/scheduler.rs`) groups the events of a
batch by type and id.  The field of an event is a dotted path, and the values of a group are merged
into one document at their paths.  The order, the documents and their index are one list here.
-/
import HeraMind.Lib.DocMerge
import HeraMind.Lib.Pieces
import HeraMind.Push.Delivery

namespace HeraMind.Push.Nested

open List
open Serde

variable {N : Type}

/-- `splitn(3, ':')`. -/
def parts (sourceId : String) : String × String × String :=
  match Pieces.splitUpTo [':'] 2 sourceId.toList with
  | [] => ("unknown", "", "")
  | [type] => (String.ofList type, "", "")
  | [type, id] => (String.ofList type, String.ofList id, "")
  | type :: id :: field :: _ => (String.ofList type, String.ofList id, String.ofList field)

/-- The type and the id of a source. -/
def keyOf (sourceId : String) : String × String := ((parts sourceId).1, (parts sourceId).2.1)

/-- `field.split('.')`. -/
def segments (sourceId : String) : List String :=
  (Pieces.split ['.'] (parts sourceId).2.2.toList).map String.ofList

/-- Where a value is put. -/
def pathOf (sourceId : String) : List String :=
  let segs := (segments sourceId).filter fun s => decide (s ≠ "")
  if segs = [] then ["_value"] else segs

/-- The documents by type and id, in the order they were first seen. -/
abbrev Groups (N : Type) : Type := List ((String × String) × Doc N)

def addEvent (groups : Groups N) (e : Entry (Doc N)) : Groups N :=
  let data := (groups.lookup (keyOf e.sourceId)).getD (.object [])
  upsert (keyOf e.sourceId) (data.merge (Doc.chain (pathOf e.sourceId) e.value)) groups

structure Item (N : Type) where
  sourceType : String
  id : String
  data : Doc N

structure Payload (N : Type) where
  batch : Bool
  format : String
  count : ℕ
  timestamp : ℤ
  items : List (Item N)

def maxTimestamp (buffer : List (Entry (Doc N))) : ℤ :=
  buffer.foldl (fun newest e => if newest < e.timestamp then e.timestamp else newest) 0

/-- `build_nested_batch_payload`. -/
def buildNestedBatchPayload (buffer : List (Entry (Doc N))) : Payload N where
  batch := true
  format := "nested"
  count := buffer.length
  timestamp := maxTimestamp buffer
  items := (buffer.foldl addEvent []).map fun g => ⟨g.1.1, g.1.2, g.2⟩

/-! ## The law -/

/-- The values of a source in their order. -/
def valuesOf (buffer : List (Entry (Doc N))) (sourceId : String) : List (Doc N) :=
  (buffer.filter fun e => decide (e.sourceId = sourceId)).map Entry.value

/-- The payload has an item for each group, in it the last value of each source at the path of its
field, and the newest timestamp. -/
structure LosesNothing [DecidableEq N] (buffer : List (Entry (Doc N))) : Prop where
  items : (buildNestedBatchPayload buffer).items.map (fun item => (item.sourceType, item.id)) =
    (buffer.map fun e => keyOf e.sourceId).eraseDups
  values : ∀ e ∈ buffer, ∃ item ∈ (buildNestedBatchPayload buffer).items,
    (item.sourceType, item.id) = keyOf e.sourceId ∧
    ∃ d v, Doc.at (segments e.sourceId) item.data = some d ∧
      (valuesOf buffer e.sourceId).getLast? = some v ∧ d.same v
  newest : (∀ e ∈ buffer, e.timestamp ≤ (buildNestedBatchPayload buffer).timestamp) ∧
    (buffer ≠ [] → ∃ e ∈ buffer, e.timestamp = (buildNestedBatchPayload buffer).timestamp)

/-- Every event has a field without empty segments, and in a group no field begins with the
segments of another one. -/
structure Disjoint (buffer : List (Entry (Doc N))) : Prop where
  plain : ∀ e ∈ buffer, ∀ s ∈ segments e.sourceId, s ≠ ""
  apart : ∀ e ∈ buffer, ∀ e' ∈ buffer, keyOf e.sourceId = keyOf e'.sourceId →
    e.sourceId ≠ e'.sourceId → Apart (segments e.sourceId) (segments e'.sourceId)

/-- The values of each source merge to the last one, and not all events are from before 1970. -/
structure Settles [DecidableEq N] (buffer : List (Entry (Doc N))) : Prop where
  merges : ∀ e ∈ buffer, ∃ v, (valuesOf buffer e.sourceId).getLast? = some v ∧
    (mergeAll (valuesOf buffer e.sourceId)).same v
  dated : buffer ≠ [] → ∃ e ∈ buffer, 0 ≤ e.timestamp

/-! ## The groups -/

section

variable {buffer : List (Entry (Doc N))} {key : String × String}

theorem map_fst_foldl_addEvent (groups : Groups N) :
    (buffer.foldl addEvent groups).map Prod.fst =
      (buffer.map fun e => keyOf e.sourceId).foldl addKey (groups.map Prod.fst) := by
  induction buffer generalizing groups with
  | nil => rfl
  | cons e buffer ih =>
    rw [foldl_cons, ih, map_cons, foldl_cons]
    congr 1
    exact map_fst_upsert

/-- The keys of the items are those of the events, as they were first seen. -/
theorem keys_items : (buildNestedBatchPayload buffer).items.map
      (fun item => (item.sourceType, item.id)) =
    (buffer.map fun e => keyOf e.sourceId).eraseDups := by
  have hkeys : (buffer.foldl addEvent []).map Prod.fst = _ := map_fst_foldl_addEvent []
  rw [map_nil, foldl_addKey, nil_append] at hkeys
  show ((buffer.foldl addEvent []).map _).map _ = _
  rw [map_map]
  refine Eq.trans ?_ (hkeys.trans ?_)
  · rfl
  · simp

theorem exists_item {e : Entry (Doc N)} (he : e ∈ buffer) :
    ∃ item ∈ (buildNestedBatchPayload buffer).items,
      (item.sourceType, item.id) = keyOf e.sourceId := by
  have hmem : keyOf e.sourceId ∈ (buffer.map fun e => keyOf e.sourceId).eraseDups :=
    mem_eraseDups.mpr (mem_map.mpr ⟨e, he, rfl⟩)
  rw [← keys_items] at hmem
  exact mem_map.mp hmem

/-- The chains that are merged into a group. -/
def chainsOf (buffer : List (Entry (Doc N))) (key : String × String) :
    List (List String × Doc N) :=
  (buffer.filter fun e => decide (keyOf e.sourceId = key)).map fun e => (pathOf e.sourceId, e.value)

theorem lookup_addEvent (groups : Groups N) (e : Entry (Doc N)) :
    (addEvent groups e).lookup key =
      if key = keyOf e.sourceId then
        some (((groups.lookup key).getD (.object [])).merge (Doc.chain (pathOf e.sourceId) e.value))
      else groups.lookup key := by
  unfold addEvent
  dsimp only
  rw [lookup_upsert]
  by_cases hkey : key = keyOf e.sourceId
  · rw [if_pos hkey, if_pos hkey, hkey]
  · rw [if_neg hkey, if_neg hkey]

/-- The document of a group is its chains, merged in the order of the events. -/
theorem lookup_foldl_addEvent (groups : Groups N) :
    ((buffer.foldl addEvent groups).lookup key).getD (.object []) =
      mergeChains ((groups.lookup key).getD (.object [])) (chainsOf buffer key) := by
  induction buffer generalizing groups with
  | nil => rfl
  | cons e buffer ih =>
    rw [foldl_cons, ih, lookup_addEvent]
    by_cases hkey : key = keyOf e.sourceId
    · have hchains : chainsOf (e :: buffer) key =
          (pathOf e.sourceId, e.value) :: chainsOf buffer key := by
        simp [chainsOf, hkey]
      rw [if_pos hkey, hchains]
      rfl
    · have hchains : chainsOf (e :: buffer) key = chainsOf buffer key := by
        simp [chainsOf, Ne.symm hkey]
      rw [if_neg hkey, hchains]

/-- An item of the payload has the document of its group. -/
theorem data_of_mem {item : Item N} (h : item ∈ (buildNestedBatchPayload buffer).items) :
    item.data = mergeChains (.object []) (chainsOf buffer (item.sourceType, item.id)) := by
  obtain ⟨⟨key, data⟩, hmem, rfl⟩ := mem_map.mp h
  have hnodup : ((buffer.foldl addEvent []).map Prod.fst).Nodup := by
    rw [map_fst_foldl_addEvent]
    exact nodup_foldl_addKey nodup_nil _
  have hlookup : (buffer.foldl addEvent []).lookup key = some data :=
    lookup_of_mem hnodup hmem
  have hfold : ((buffer.foldl addEvent []).lookup key).getD (.object []) = _ :=
    lookup_foldl_addEvent []
  rw [hlookup] at hfold
  exact hfold

theorem segments_ne_nil (sourceId : String) : segments sourceId ≠ [] := by
  unfold segments Pieces.split
  intro h
  rw [map_eq_nil_iff] at h
  revert h
  cases (parts sourceId).2.2.toList.length with
  | zero => exact cons_ne_nil _ _
  | succ n =>
    rw [Pieces.splitUpTo]
    split
    · exact cons_ne_nil _ _
    · exact cons_ne_nil _ _

theorem pathOf_eq {sourceId : String} (h : ∀ s ∈ segments sourceId, s ≠ "") :
    pathOf sourceId = segments sourceId := by
  have hall : ((segments sourceId).filter fun s => decide (s ≠ "")) = segments sourceId :=
    filter_eq_self.mpr fun s hs => decide_eq_true (h s hs)
  unfold pathOf
  rw [hall]
  exact if_neg (segments_ne_nil sourceId)

/-- At the path of a source lie its values, merged one after the other. -/
theorem at_item (h : Disjoint buffer) {e : Entry (Doc N)} (he : e ∈ buffer) {item : Item N}
    (hitem : item ∈ (buildNestedBatchPayload buffer).items)
    (hkey : (item.sourceType, item.id) = keyOf e.sourceId) :
    Doc.at (segments e.sourceId) item.data = some (mergeAll (valuesOf buffer e.sourceId)) := by
  rw [data_of_mem hitem, hkey]
  have hpath := pathOf_eq (h.plain e he)
  -- in the group, the path of a source says which source it is
  have hsource : ∀ e' ∈ buffer, keyOf e'.sourceId = keyOf e.sourceId →
      (pathOf e'.sourceId = segments e.sourceId ↔ e'.sourceId = e.sourceId) := by
    intro e' he' hkey
    constructor
    · intro heq
      by_contra hne
      rw [pathOf_eq (h.plain e' he')] at heq
      have hapart := h.apart e' he' e he hkey hne
      rw [heq] at hapart
      exact hapart.1 (prefix_refl _)
    · intro heq
      rw [heq, hpath]
  have happart : ∀ c ∈ chainsOf buffer (keyOf e.sourceId),
      c.1 = segments e.sourceId ∨ Apart c.1 (segments e.sourceId) := by
    intro c hc
    obtain ⟨e', he', rfl⟩ := mem_map.mp hc
    obtain ⟨hmem', hkey⟩ := mem_filter.mp he'
    rw [decide_eq_true_eq] at hkey
    by_cases heq : e'.sourceId = e.sourceId
    · exact Or.inl ((hsource e' hmem' hkey).mpr heq)
    · refine Or.inr ?_
      dsimp only
      rw [pathOf_eq (h.plain e' hmem')]
      exact h.apart e' hmem' e he hkey heq
  have hvalues : ((chainsOf buffer (keyOf e.sourceId)).filter fun c =>
      decide (c.1 = segments e.sourceId)).map Prod.snd = valuesOf buffer e.sourceId := by
    unfold chainsOf valuesOf
    rw [filter_map, map_map, filter_filter]
    have hfilter : (buffer.filter fun e' => ((fun c : List String × Doc N =>
          decide (c.1 = segments e.sourceId)) ∘ fun e' : Entry (Doc N) =>
          (pathOf e'.sourceId, e'.value)) e' && decide (keyOf e'.sourceId = keyOf e.sourceId)) =
        buffer.filter fun e' => decide (e'.sourceId = e.sourceId) := by
      refine filter_congr fun e' he' => ?_
      rw [Bool.eq_iff_iff, Bool.and_eq_true, decide_eq_true_eq]
      show decide (pathOf e'.sourceId = segments e.sourceId) = true ∧ _ ↔ _
      rw [decide_eq_true_eq, decide_eq_true_eq]
      constructor
      · rintro ⟨hpath', hkey⟩
        exact (hsource e' he' hkey).mp hpath'
      · intro heq
        exact ⟨(hsource e' he' (by rw [heq])).mpr heq, by rw [heq]⟩
    rw [hfilter]
    rfl
  have hne : valuesOf buffer e.sourceId ≠ [] := by
    refine ne_nil_of_mem (mem_map.mpr ⟨e, ?_, rfl⟩)
    exact mem_filter.mpr ⟨he, decide_eq_true rfl⟩
  rw [at_mergeChains (segments_ne_nil _) happart]
  have hfold : ∀ (l : List (List String × Doc N)) (o : Option (Doc N)),
      l.foldl (fun o c => some ((o.getD .null).merge c.2)) o =
        (l.map Prod.snd).foldl (fun o v => some ((o.getD .null).merge v)) o := by
    intro l o
    rw [foldl_map]
  have hempty : Doc.at (segments e.sourceId) (.object [] : Doc N) = none := by
    cases hsegs : segments e.sourceId with
    | nil => exact absurd hsegs (segments_ne_nil _)
    | cons k p => rfl
  rw [hfold, hvalues, foldl_merge _ _ hne, hempty]
  rfl

theorem maxTimestamp_spec (buffer : List (Entry (Doc N))) :
    0 ≤ maxTimestamp buffer ∧ (∀ e ∈ buffer, e.timestamp ≤ maxTimestamp buffer) ∧
      (maxTimestamp buffer = 0 ∨ ∃ e ∈ buffer, e.timestamp = maxTimestamp buffer) := by
  have hfold : ∀ (l : List (Entry (Doc N))) (m : ℤ), ∃ n,
      l.foldl (fun newest e => if newest < e.timestamp then e.timestamp else newest) m = n ∧
        m ≤ n ∧ (∀ e ∈ l, e.timestamp ≤ n) ∧ (n = m ∨ ∃ e ∈ l, e.timestamp = n) := by
    intro l
    induction l with
    | nil => exact fun m => ⟨m, rfl, Int.le_refl m, by simp, Or.inl rfl⟩
    | cons e l ih =>
      intro m
      obtain ⟨n, hn, hle, hall, hmax⟩ := ih (if m < e.timestamp then e.timestamp else m)
      refine ⟨n, hn, ?_, ?_, ?_⟩
      · split at hle <;> omega
      · intro e' he'
        rcases mem_cons.mp he' with rfl | he'
        · split at hle <;> omega
        · exact hall e' he'
      · rcases hmax with hmax | ⟨e', he', hmax⟩
        · split at hmax
          · exact Or.inr ⟨e, mem_cons_self, hmax.symm⟩
          · exact Or.inl hmax
        · exact Or.inr ⟨e', mem_cons_of_mem _ he', hmax⟩
  obtain ⟨n, hn, hle, hall, hmax⟩ := hfold buffer 0
  unfold maxTimestamp
  rw [hn]
  exact ⟨hle, hall, hmax⟩

end

/-- A disjoint batch loses nothing exactly when the values of each source merge to its last one
and it is dated; so such a batch of disjoint fields loses nothing. -/
theorem losesNothing_iff [DecidableEq N] {buffer : List (Entry (Doc N))} (h : Disjoint buffer) :
    LosesNothing buffer ↔ Settles buffer := by
  constructor
  · intro hloses
    constructor
    · intro e he
      obtain ⟨item, hitem, hkey, d, v, hd, hv, hsame⟩ := hloses.values e he
      rw [at_item h he hitem hkey] at hd
      cases hd
      exact ⟨v, hv, hsame⟩
    · intro hne
      obtain ⟨e, he, htime⟩ := hloses.newest.2 hne
      refine ⟨e, he, ?_⟩
      rw [htime]
      exact (maxTimestamp_spec buffer).1
  · intro hsettles
    refine ⟨keys_items, ?_, (maxTimestamp_spec buffer).2.1, ?_⟩
    · intro e he
      obtain ⟨item, hitem, hkey⟩ := exists_item he
      obtain ⟨v, hv, hsame⟩ := hsettles.merges e he
      exact ⟨item, hitem, hkey, _, v, at_item h he hitem hkey, hv, hsame⟩
    · intro hne
      obtain ⟨-, hall, hzero | hmax⟩ := maxTimestamp_spec buffer
      · obtain ⟨e, he, htime⟩ := hsettles.dated hne
        exact ⟨e, he, Int.le_antisymm (hall e he) (Int.le_trans (Int.le_of_eq hzero) htime)⟩
      · exact hmax

/-- A temperature twice and a humidity once. -/
def readings : List (Entry (Doc ℤ)) :=
  [⟨"device:9999:values.temp", .number 21, 10⟩, ⟨"device:9999:values.hum", .number 40, 20⟩,
    ⟨"device:9999:values.temp", .number 22, 15⟩]

theorem losesNothing_readings : Disjoint readings ∧ LosesNothing readings := by
  have hdisjoint : Disjoint readings := ⟨by decide, by decide⟩
  refine ⟨hdisjoint, (losesNothing_iff hdisjoint).mpr ⟨?_, fun _ => by decide⟩⟩
  intro e he
  have hlast : ∀ e ∈ readings, (match (valuesOf readings e.sourceId).getLast? with
      | some v => (mergeAll (valuesOf readings e.sourceId)).same v
      | none => false) = true := by
    decide
  have hlast := hlast e he
  split at hlast
  · rename_i v hv
    exact ⟨v, hv, hlast⟩
  · exact absurd hlast Bool.false_ne_true

/-- A scalar takes the place of the record that holds an earlier metric. -/
theorem prefix_overwrites : ¬ LosesNothing (N := ℤ)
    [⟨"device:9999:a.b", .number 1, 10⟩, ⟨"device:9999:a", .number 2, 20⟩] := by
  intro h
  obtain ⟨item, hitem, -, d, v, hd, -⟩ := h.values _ mem_cons_self
  have hnone : ∀ item ∈ (buildNestedBatchPayload (N := ℤ) [⟨"device:9999:a.b", .number 1, 10⟩,
      ⟨"device:9999:a", .number 2, 20⟩]).items,
      (Doc.at (segments "device:9999:a.b") item.data).isNone = true := by
    decide +kernel
  have hnone := hnone item hitem
  rw [hd] at hnone
  exact absurd hnone Bool.false_ne_true

end HeraMind.Push.Nested
