/-
# Rows of devices and of the type index

Which rows of devices are read as they were written, and what the transactions of the store do to
the type index (`crates/heramind-storage/src/device_registry.rs`).

The extra parameters of a connection are written beside its named fields, so none of them may have
the name of such a field; and the ids of a row of the type index are joined by commas.
-/
import HeraMind.Devices.TypeRestart

namespace HeraMind.Devices

open Serde

variable {F : Type}

/-! ## Rows that are read as they were written -/

@[simp] theorem back_seconds (sj : SerdeJson F) (n : ℤ) :
    seconds.back sj.readNumber n = some n := by
  show seconds.read ((Doc.number (Number.int n)).reread sj.readNumber) = some n
  rw [reread_number]
  rfl

/-- The names of the fields of a connection in the store. -/
def reservedKeys : List String :=
  (Storage.ConnectionConfig.fields (F := Unit)).keys

/-- The extra parameters of a connection are written and read as they are. -/
def ConnectionConfig.IsCarried (sj : SerdeJson F) (c : ConnectionConfig F) : Prop :=
  (∀ kv ∈ c.extra, kv.1 ∉ reservedKeys ∧ kv.2.reread sj.readNumber = kv.2) ∧
    depthFields c.extra + 2 < sj.recursionLimit

namespace Storage

theorem depth_optional {α : Type} (c : Codec (Number F) α) (a : Option α)
    (h : ∀ a, (c.write a).depth = 0) : (c.option.write a).depth = 0 := by
  cases a with
  | none => rfl
  | some a => exact h a

/-- A connection is nested as deeply as its extra parameters, in one record. -/
theorem depth_connectionConfig (c : Devices.ConnectionConfig F) :
    (ConnectionConfig.codec.write (convertConnectionConfigToStorage c)).depth =
      depthFields c.extra + 1 := by
  have hstring (s : Option String) : (Codec.string.option.write s : Value F).depth = 0 :=
    depth_optional _ s fun _ => rfl
  have hnamed : depthFields (ConnectionConfig.fields.write
      (convertConnectionConfigToStorage c)) = 0 := by
    simp only [ConnectionConfig.fields, Fields.withDefault, Fields.depthFields_field, hstring]
    rfl
  show depthFields (_ ++ c.extra) + 1 = _
  rw [depthFields_append, hnamed, Nat.zero_max]

/-- A row is nested as deeply as the extra parameters, in two records. -/
theorem depth_deviceConfig (device : Devices.DeviceConfig F) (lastSeen : ℤ) :
    (DeviceConfig.codec.write { device.toStorage with lastSeen := lastSeen }).depth =
      depthFields device.connectionConfig.extra + 2 := by
  have hstring (s : Option String) : (Codec.string.option.write s : Value F).depth = 0 :=
    depth_optional _ s fun _ => rfl
  have hu64 (n : Option UInt64) : (u64.option.write n : Value F).depth = 0 :=
    depth_optional _ n fun _ => rfl
  have hfields : depthFields (DeviceConfig.fields.write
      { device.toStorage with lastSeen := lastSeen }) =
      depthFields device.connectionConfig.extra + 1 := by
    have hconnection : (ConnectionConfig.codec.write device.toStorage.connectionConfig).depth =
        depthFields device.connectionConfig.extra + 1 :=
      depth_connectionConfig device.connectionConfig
    have htext (s : String) : (Codec.string.write s : Value F).depth = 0 := rfl
    have hseconds (n : ℤ) : (seconds.write n : Value F).depth = 0 := rfl
    simp only [DeviceConfig.fields, Fields.withDefault, Fields.required, Fields.optional,
      Fields.depthFields_field, hstring, hu64, htext, hseconds, hconnection, ite_self,
      Bool.false_eq_true, if_false]
    show max (max (max (max (max 0 0) _) 0) 0) 0 = _
    omega
  show depthFields _ + 1 = _
  rw [hfields]

/-- What is read of the named fields of a connection. -/
theorem ConnectionConfig.back_fields (sj : SerdeJson F) (c : Devices.ConnectionConfig F) :
    ConnectionConfig.fields.back sj.readNumber (convertConnectionConfigToStorage c) =
      some fun extra => { convertConnectionConfigToStorage c with extra := extra } := by
  simp [ConnectionConfig.fields, convertConnectionConfigToStorage]

/-- A named field of a connection is always written. -/
theorem ConnectionConfig.exists_field (c : ConnectionConfig F) {key : String}
    (h : key ∈ reservedKeys) : ∃ field ∈ ConnectionConfig.fields.write c, field.1 = key := by
  have hkeys : (ConnectionConfig.fields.write c).map Prod.fst = reservedKeys.reverse := rfl
  rw [← List.mem_reverse, ← hkeys] at h
  exact List.mem_map.mp h

/-- A connection is read as it was written exactly if its extra parameters are. -/
theorem ConnectionConfig.back_eq_iff (sj : SerdeJson F) (c : Devices.ConnectionConfig F) :
    ConnectionConfig.codec.back sj.readNumber (convertConnectionConfigToStorage c) =
        some (convertConnectionConfigToStorage c) ↔
      ∀ kv ∈ c.extra, kv.1 ∉ reservedKeys ∧ kv.2.reread sj.readNumber = kv.2 := by
  by_cases hkeys : ∀ kv ∈ c.extra, kv.1 ∉ reservedKeys
  · have hback : ConnectionConfig.codec.back sj.readNumber (convertConnectionConfigToStorage c) =
        some { convertConnectionConfigToStorage c with
          extra := c.extra.map (rereadField sj.readNumber) } := by
      refine (Codec.back_recordWithRest _ _ _ hkeys).trans ?_
      rw [back_fields]
      rfl
    rw [hback, Option.some.injEq]
    constructor
    · intro h kv hkv
      exact ⟨hkeys kv hkv, map_rereadField_eq.mp (congrArg extra h) kv hkv⟩
    · intro h
      rw [map_rereadField_eq.mpr fun kv hkv => (h kv hkv).2]
      rfl
  · constructor
    · intro h
      obtain ⟨kv, hkv, hkey⟩ : ∃ kv ∈ c.extra, kv.1 ∈ reservedKeys := by
        by_contra hnone
        exact hkeys fun kv hkv hkey => hnone ⟨kv, hkv, hkey⟩
      obtain ⟨field, hfield, hsame⟩ :=
        exists_field (convertConnectionConfigToStorage c) hkey
      have hnone := Codec.back_recordWithRest_eq_none ConnectionConfig.fields extra sj.readNumber
        hfield hkv hsame.symm
      have hsome : (Codec.recordWithRest ConnectionConfig.fields extra).back sj.readNumber
          (convertConnectionConfigToStorage c) = some _ := h
      rw [hnone] at hsome
      cases hsome
    · intro h
      exact absurd (fun kv hkv => (h kv hkv).1) hkeys

/-- A row is read as it was written exactly if the extra parameters are carried. -/
theorem DeviceConfig.reread_eq_iff (sj : SerdeJson F) (device : Devices.DeviceConfig F)
    (lastSeen : ℤ) :
    DeviceConfig.reread sj { device.toStorage with lastSeen := lastSeen } =
        some { device.toStorage with lastSeen := lastSeen } ↔
      device.connectionConfig.IsCarried sj := by
  have hback : (DeviceConfig.codec.back sj.readNumber
      { device.toStorage with lastSeen := lastSeen }) =
      (ConnectionConfig.codec.back sj.readNumber
        (convertConnectionConfigToStorage device.connectionConfig)).map fun c =>
          { device.toStorage with connectionConfig := c, lastSeen := lastSeen } := by
    have hconnection : device.toStorage.connectionConfig =
        convertConnectionConfigToStorage device.connectionConfig := rfl
    cases h : ConnectionConfig.codec.back sj.readNumber
        (convertConnectionConfigToStorage device.connectionConfig) with
    | none | some c => simp [DeviceConfig.codec, DeviceConfig.fields, hconnection, h]
  unfold DeviceConfig.reread SerdeJson.readText Devices.ConnectionConfig.IsCarried
  rw [depth_deviceConfig, ← ConnectionConfig.back_eq_iff]
  by_cases hdepth : depthFields device.connectionConfig.extra + 2 < sj.recursionLimit
  · rw [if_pos hdepth, Option.bind_some]
    show DeviceConfig.codec.back sj.readNumber _ = _ ↔ _
    rw [hback, Option.map_eq_some_iff]
    constructor
    · rintro ⟨c, hc, hrow⟩
      have hsame : c = convertConnectionConfigToStorage device.connectionConfig :=
        congrArg connectionConfig hrow
      exact ⟨by rw [hc, hsame], hdepth⟩
    · rintro ⟨hc, -⟩
      exact ⟨_, hc, rfl⟩
  · rw [if_neg hdepth]
    constructor
    · intro h
      cases h
    · rintro ⟨-, h⟩
      exact absurd h hdepth

end Storage

/-! ## The type index -/

/-- An id that a row of the type index can hold. -/
def PlainId (id : String) : Prop :=
  id ≠ "" ∧ ',' ∉ id.toList

theorem not_mem_of_mem_splitOn {c : Char} {cs : List Char} :
    ∀ word ∈ cs.splitOn c, c ∉ word := by
  induction cs with
  | nil => simp
  | cons d cs ih =>
    rw [List.splitOn_cons_eq_if_modifyHead]
    split
    · intro word hword
      rcases List.mem_cons.mp hword with rfl | hword
      · exact List.not_mem_nil
      · exact ih word hword
    · rename_i hne
      obtain ⟨first, rest, hwords⟩ := List.exists_cons_of_ne_nil (List.splitOn_ne_nil c cs)
      rw [hwords] at ih ⊢
      intro word hword
      rcases List.mem_cons.mp hword with rfl | hword
      · intro hmem
        rcases List.mem_cons.mp hmem with rfl | hmem
        · simp at hne
        · exact ih first (List.mem_cons_self ..) hmem
      · exact ih word (List.mem_cons_of_mem _ hword)

theorem plainId_of_mem_splitIds {row id : String} (h : id ∈ splitIds row) : PlainId id := by
  obtain ⟨hmem, hne⟩ := List.mem_filter.mp h
  obtain ⟨word, hword, rfl⟩ := List.mem_map.mp hmem
  refine ⟨by simpa using hne, ?_⟩
  rw [String.toList_ofList]
  exact not_mem_of_mem_splitOn word hword

/-- Ids that are joined are split again. -/
theorem splitIds_joinIds {ids : List String} (h : ∀ id ∈ ids, PlainId id) :
    splitIds (joinIds ids) = ids := by
  unfold splitIds joinIds
  rw [String.toList_ofList]
  by_cases hnil : ids = []
  · subst hnil
    rfl
  · have hwords : ∀ word ∈ ids.map String.toList, ',' ∉ word := by
      intro word hword
      obtain ⟨id, hid, rfl⟩ := List.mem_map.mp hword
      exact (h id hid).2
    rw [List.splitOn_intercalate ',' hwords (by simpa using hnil), List.map_map]
    have hid : String.ofList ∘ String.toList = id := by
      funext s
      exact String.ofList_toList
    rw [hid, List.map_id, List.filter_eq_self]
    intro id hid
    simpa using (h id hid).1

namespace DeviceRegistryStore

variable {s : DeviceRegistryStore F} {deviceType id : String}

theorem plainId_of_mem_idsOf (h : id ∈ s.idsOf deviceType) : PlainId id := by
  unfold idsOf at h
  cases hrow : s.typeIndex.lookup deviceType with
  | none =>
    rw [hrow] at h
    cases h
  | some row =>
    rw [hrow] at h
    exact plainId_of_mem_splitIds h

/-- The ids of a type after an id was added. -/
theorem idsOf_addToIndex (h : PlainId id) (t : String) :
    (s.addToIndex deviceType id).idsOf t =
      if t = deviceType then
        (if id ∈ s.idsOf deviceType then s.idsOf deviceType else s.idsOf deviceType ++ [id])
      else s.idsOf t := by
  by_cases ht : t = deviceType
  · subst ht
    rw [if_pos rfl]
    have hplain : ∀ id' ∈ (if id ∈ s.idsOf t then s.idsOf t else s.idsOf t ++ [id]),
        PlainId id' := by
      intro id' hid'
      split at hid'
      · exact plainId_of_mem_idsOf hid'
      · rcases List.mem_append.mp hid' with hid' | hid'
        · exact plainId_of_mem_idsOf hid'
        · rw [List.mem_singleton.mp hid']
          exact h
    have hrow : (s.addToIndex t id).typeIndex.lookup t =
        some (joinIds (if id ∈ s.idsOf t then s.idsOf t else s.idsOf t ++ [id])) :=
      AList.lookup_insert _
    show (((s.addToIndex t id).typeIndex.lookup t).map splitIds).getD [] = _
    rw [hrow, Option.map_some, Option.getD_some, splitIds_joinIds hplain]
  · rw [if_neg ht]
    have hrow : (s.addToIndex deviceType id).typeIndex.lookup t = s.typeIndex.lookup t :=
      AList.lookup_insert_ne ht
    show (((s.addToIndex deviceType id).typeIndex.lookup t).map splitIds).getD [] = _
    rw [hrow]
    rfl

/-- The ids of a type after an id was taken out. -/
theorem idsOf_removeFromIndex (t : String) :
    (s.removeFromIndex deviceType id).idsOf t =
      if t = deviceType then (s.idsOf deviceType).filter fun id' => id' ≠ id else s.idsOf t := by
  have hindex : (s.removeFromIndex deviceType id).typeIndex =
      if (s.idsOf deviceType).filter (fun id' => id' ≠ id) = [] then s.typeIndex.erase deviceType
      else s.typeIndex.insert deviceType
        (joinIds ((s.idsOf deviceType).filter fun id' => id' ≠ id)) := rfl
  show (((s.removeFromIndex deviceType id).typeIndex.lookup t).map splitIds).getD [] = _
  rw [hindex]
  by_cases ht : t = deviceType
  · subst ht
    rw [if_pos rfl]
    split
    · rename_i hnil
      rw [AList.lookup_erase, hnil]
      rfl
    · rw [AList.lookup_insert, Option.map_some, Option.getD_some, splitIds_joinIds]
      intro id' hid'
      exact plainId_of_mem_idsOf (List.mem_filter.mp hid').1
  · rw [if_neg ht]
    split
    · rw [AList.lookup_erase_ne ht]
      rfl
    · rw [AList.lookup_insert_ne ht]
      rfl

end DeviceRegistryStore

end HeraMind.Devices
