/-
# What the registry holds about one device

The tables of the registry and of its store, read at one device id: the device in memory, how
often the id is listed under each type, the row of the store and how often the id is in each row of
the type index.  Every access of a call changes this for one device only, and for it as its lemma
says.
-/
import HeraMind.Devices.RegistryCalls
import HeraMind.Devices.StoreRows

namespace HeraMind.Devices

open List

variable {F : Type}

/-- What the registry and its store hold about a device. -/
@[ext] structure DeviceView (F : Type) where
  device : Option (DeviceConfig F)
  listed : String → ℕ
  row : Option (Storage.DeviceConfig F)
  indexed : String → ℕ

/-- What the registry and its store hold under an id. -/
def DeviceRegistry.view (r : DeviceRegistry F) (id : String) : DeviceView F where
  device := r.getDevice id
  listed t := (r.idsOf t).count id
  row := r.storage.devices.lookup id
  indexed t := (r.storage.idsOf t).count id

/-- Listed under no type. -/
def nowhere (_ : String) : ℕ :=
  0

/-- Listed once, under one type. -/
def onceIn (deviceType t : String) : ℕ :=
  if t = deviceType then 1 else 0

theorem onceIn_self (t : String) : onceIn t t = 1 :=
  if_pos rfl

theorem onceIn_of_ne {deviceType t : String} (h : t ≠ deviceType) : onceIn deviceType t = 0 :=
  if_neg h

/-- Taken out of the only type it was listed under. -/
theorem retain_onceIn (deviceType : String) :
    (fun t => if t = deviceType then 0 else onceIn deviceType t) = nowhere := by
  funext t
  by_cases ht : t = deviceType
  · exact if_pos ht
  · rw [if_neg ht]
    exact onceIn_of_ne ht

/-- Listed under the first type. -/
theorem push_nowhere (deviceType : String) :
    (fun t => nowhere t + onceIn deviceType t) = onceIn deviceType := by
  funext t
  exact Nat.zero_add _

/-- Added to the type it is in. -/
theorem add_onceIn (deviceType : String) :
    (fun t => if t = deviceType then max 1 (onceIn deviceType t) else onceIn deviceType t) =
      onceIn deviceType := by
  funext t
  by_cases ht : t = deviceType
  · rw [if_pos ht, ht, onceIn_self]
    rfl
  · exact if_neg ht

/-! ## Lists of ids -/

theorem count_filter_ne_self (ids : List String) (id : String) :
    (ids.filter fun id' => id' ≠ id).count id = 0 := by
  rw [count_eq_zero]
  intro h
  simpa using (mem_filter.mp h).2

theorem count_filter_ne (ids : List String) {id id' : String} (h : id' ≠ id) :
    (ids.filter fun x => x ≠ id).count id' = ids.count id' :=
  count_filter (by simpa using h)

namespace DeviceRegistry

variable {r : DeviceRegistry F} {deviceType id : String}

theorem idsOf_pushId (t : String) :
    (r.pushId deviceType id).idsOf t =
      if t = deviceType then r.idsOf t ++ [id] else r.idsOf t := by
  show ((r.typeIndex.insert deviceType (r.idsOf deviceType ++ [id])).lookup t).getD [] = _
  by_cases ht : t = deviceType
  · rw [if_pos ht, ht, AList.lookup_insert]
    rfl
  · rw [if_neg ht, AList.lookup_insert_ne ht]
    rfl

theorem idsOf_retainIds (t : String) :
    (r.retainIds deviceType id).idsOf t =
      if t = deviceType then (r.idsOf t).filter fun id' => id' ≠ id else r.idsOf t := by
  unfold retainIds
  cases hentry : r.typeIndex.lookup deviceType with
  | none =>
    show r.idsOf t = _
    by_cases ht : t = deviceType
    · have hids : r.idsOf t = [] := by
        rw [idsOf, ht, hentry]
        rfl
      rw [if_pos ht, hids]
      rfl
    · exact (if_neg ht).symm
  | some ids =>
    show ((r.typeIndex.insert deviceType (ids.filter fun id' => id' ≠ id)).lookup t).getD [] = _
    by_cases ht : t = deviceType
    · have hids : r.idsOf t = ids := by
        rw [idsOf, ht, hentry]
        rfl
      rw [if_pos ht, hids, ht, AList.lookup_insert]
      rfl
    · rw [if_neg ht, AList.lookup_insert_ne ht]
      rfl

/-- An entry without ids may go. -/
theorem idsOf_removeIds (h : r.idsOf deviceType = []) (t : String) :
    (r.removeIds deviceType).idsOf t = r.idsOf t := by
  show ((r.typeIndex.erase deviceType).lookup t).getD [] = _
  by_cases ht : t = deviceType
  · rw [ht, AList.lookup_erase, h]
    rfl
  · rw [AList.lookup_erase_ne ht]
    rfl

theorem idsOf_eq_nil_of_hasEmptyEntry (h : r.hasEmptyEntry deviceType = true) (t : String)
    (ht : some deviceType = some t) : r.idsOf t = [] := by
  cases ht
  rw [idsOf, of_decide_eq_true h]
  rfl

/-- No id is listed under a type without ids. -/
theorem idsOf_eq_nil_iff : r.idsOf deviceType = [] ↔ ∀ id, (r.view id).listed deviceType = 0 := by
  constructor
  · intro h id
    show (r.idsOf deviceType).count id = 0
    rw [h]
    rfl
  · intro h
    rw [eq_nil_iff_forall_not_mem]
    intro id
    exact count_eq_zero.mp (h id)

/-! ## Views -/

theorem view_insertDevice_self (config : DeviceConfig F) :
    (r.insertDevice config).view config.deviceId =
      { r.view config.deviceId with device := some config } := by
  ext1
  · exact KeyedMap.lookup_put_self r.devices config
  · rfl
  · rfl
  · rfl

theorem view_insertDevice_ne {config : DeviceConfig F} (h : id ≠ config.deviceId) :
    (r.insertDevice config).view id = r.view id := by
  ext1
  · exact KeyedMap.lookup_put_ne r.devices h
  · rfl
  · rfl
  · rfl

theorem view_removeDevice_self :
    (r.removeDevice id).view id = { r.view id with device := none } := by
  ext1
  · exact KeyedMap.lookup_erase_self r.devices id
  · rfl
  · rfl
  · rfl

theorem view_removeDevice_ne {id' : String} (h : id ≠ id') :
    (r.removeDevice id').view id = r.view id := by
  ext1
  · exact KeyedMap.lookup_erase_ne r.devices h
  · rfl
  · rfl
  · rfl

theorem view_pushId_self :
    (r.pushId deviceType id).view id =
      { r.view id with listed := fun t => (r.view id).listed t + onceIn deviceType t } := by
  ext1
  · rfl
  · funext t
    show ((r.pushId deviceType id).idsOf t).count id = (r.idsOf t).count id + onceIn deviceType t
    rw [idsOf_pushId]
    by_cases ht : t = deviceType
    · rw [if_pos ht, count_append, count_singleton_self, ht, onceIn_self]
    · rw [if_neg ht, onceIn_of_ne ht]
      rfl
  · rfl
  · rfl

theorem view_pushId_ne {id' : String} (h : id ≠ id') :
    (r.pushId deviceType id').view id = r.view id := by
  ext1
  · rfl
  · funext t
    show ((r.pushId deviceType id').idsOf t).count id = (r.idsOf t).count id
    rw [idsOf_pushId]
    by_cases ht : t = deviceType
    · rw [if_pos ht, count_append, count_singleton, if_neg (by simpa using h.symm)]
      rfl
    · rw [if_neg ht]
  · rfl
  · rfl

theorem devices_retainIds : (r.retainIds deviceType id).devices = r.devices := by
  unfold retainIds
  split
  · rfl
  · rfl

theorem storage_retainIds : (r.retainIds deviceType id).storage = r.storage := by
  unfold retainIds
  split
  · rfl
  · rfl

theorem templates_retainIds : (r.retainIds deviceType id).templates = r.templates := by
  unfold retainIds
  split
  · rfl
  · rfl

theorem view_retainIds_self :
    (r.retainIds deviceType id).view id =
      { r.view id with
        listed := fun t => if t = deviceType then 0 else (r.view id).listed t } := by
  ext1
  · exact congrArg (KeyedMap.lookup · id) devices_retainIds
  · funext t
    show ((r.retainIds deviceType id).idsOf t).count id =
      if t = deviceType then 0 else (r.idsOf t).count id
    rw [idsOf_retainIds]
    by_cases ht : t = deviceType
    · rw [if_pos ht, if_pos ht]
      exact count_filter_ne_self (r.idsOf t) id
    · rw [if_neg ht, if_neg ht]
  · exact congrArg (fun s : DeviceRegistryStore F => s.devices.lookup id) storage_retainIds
  · exact congrArg (fun (s : DeviceRegistryStore F) t => (s.idsOf t).count id) storage_retainIds

theorem view_retainIds_ne {id' : String} (h : id ≠ id') :
    (r.retainIds deviceType id').view id = r.view id := by
  ext1
  · exact congrArg (KeyedMap.lookup · id) devices_retainIds
  · funext t
    show ((r.retainIds deviceType id').idsOf t).count id = (r.idsOf t).count id
    rw [idsOf_retainIds]
    by_cases ht : t = deviceType
    · rw [if_pos ht]
      exact count_filter_ne (r.idsOf t) h
    · rw [if_neg ht]
  · exact congrArg (fun s : DeviceRegistryStore F => s.devices.lookup id) storage_retainIds
  · exact congrArg (fun (s : DeviceRegistryStore F) t => (s.idsOf t).count id) storage_retainIds

theorem view_removeIds (h : r.idsOf deviceType = []) (id : String) :
    (r.removeIds deviceType).view id = r.view id := by
  ext1
  · rfl
  · funext t
    exact congrArg (List.count id) (idsOf_removeIds h t)
  · rfl
  · rfl

/-! ## Views of the store -/

section Storage

variable {row : Storage.DeviceConfig F} {sj : SerdeJson F}

theorem view_putDevice_self (h : row.deviceId = id) :
    (r.withStorage (r.storage.putDevice row)).view id = { r.view id with row := some row } := by
  subst h
  ext1
  · rfl
  · rfl
  · exact KeyedMap.lookup_put_self r.storage.devices row
  · rfl

theorem view_putDevice_ne (h : id ≠ row.deviceId) :
    (r.withStorage (r.storage.putDevice row)).view id = r.view id := by
  ext1
  · rfl
  · rfl
  · exact KeyedMap.lookup_put_ne r.storage.devices h
  · rfl

theorem view_addToIndex_self (deviceType : String) (h : PlainId id) :
    (r.withStorage (r.storage.addToIndex deviceType id)).view id =
      { r.view id with
        indexed := fun t =>
          if t = deviceType then max 1 ((r.view id).indexed t) else (r.view id).indexed t } := by
  ext1
  · rfl
  · rfl
  · rfl
  · funext t
    show ((r.storage.addToIndex deviceType id).idsOf t).count id =
      if t = deviceType then max 1 ((r.storage.idsOf t).count id) else (r.storage.idsOf t).count id
    rw [DeviceRegistryStore.idsOf_addToIndex h]
    by_cases ht : t = deviceType
    · rw [if_pos ht, if_pos ht, ht]
      by_cases hmem : id ∈ r.storage.idsOf deviceType
      · have hpos := count_pos_iff.mpr hmem
        rw [if_pos hmem]
        omega
      · rw [if_neg hmem, count_append, count_singleton_self,
          count_eq_zero_of_not_mem hmem]
        rfl
    · rw [if_neg ht, if_neg ht]

theorem view_addToIndex_ne (deviceType : String) {id' : String} (h' : PlainId id') (h : id ≠ id') :
    (r.withStorage (r.storage.addToIndex deviceType id')).view id = r.view id := by
  ext1
  · rfl
  · rfl
  · rfl
  · funext t
    show ((r.storage.addToIndex deviceType id').idsOf t).count id = (r.storage.idsOf t).count id
    rw [DeviceRegistryStore.idsOf_addToIndex h']
    by_cases ht : t = deviceType
    · rw [if_pos ht, ht]
      split
      · rfl
      · rw [count_append, count_singleton, if_neg (by simpa using h.symm)]
        rfl
    · rw [if_neg ht]

theorem view_removeFromIndex_self (deviceType id : String) :
    (r.withStorage (r.storage.removeFromIndex deviceType id)).view id =
      { r.view id with
        indexed := fun t => if t = deviceType then 0 else (r.view id).indexed t } := by
  ext1
  · rfl
  · rfl
  · rfl
  · funext t
    show ((r.storage.removeFromIndex deviceType id).idsOf t).count id =
      if t = deviceType then 0 else (r.storage.idsOf t).count id
    rw [DeviceRegistryStore.idsOf_removeFromIndex]
    by_cases ht : t = deviceType
    · rw [if_pos ht, if_pos ht]
      exact count_filter_ne_self (r.storage.idsOf deviceType) id
    · rw [if_neg ht, if_neg ht]

theorem view_removeFromIndex_ne (deviceType : String) {id' : String} (h : id ≠ id') :
    (r.withStorage (r.storage.removeFromIndex deviceType id')).view id = r.view id := by
  ext1
  · rfl
  · rfl
  · rfl
  · funext t
    show ((r.storage.removeFromIndex deviceType id').idsOf t).count id =
      (r.storage.idsOf t).count id
    rw [DeviceRegistryStore.idsOf_removeFromIndex]
    by_cases ht : t = deviceType
    · rw [if_pos ht, ht]
      exact count_filter_ne (r.storage.idsOf deviceType) h
    · rw [if_neg ht]

/-- A saved row is in the store and in the type index. -/
theorem view_saveDevice_self (hrow : row.deviceId = id) (h : PlainId id) :
    (r.withStorage (r.storage.saveDevice row)).view id =
      { r.view id with
        row := some row
        indexed := fun t =>
          if t = row.deviceType then max 1 ((r.view id).indexed t) else (r.view id).indexed t } := by
  subst hrow
  have hadd := view_addToIndex_self (r := r.withStorage (r.storage.putDevice row)) row.deviceType h
  rw [view_putDevice_self rfl] at hadd
  exact hadd

theorem view_saveDevice_ne (h' : PlainId row.deviceId) (h : id ≠ row.deviceId) :
    (r.withStorage (r.storage.saveDevice row)).view id = r.view id := by
  have hadd := view_addToIndex_ne (r := r.withStorage (r.storage.putDevice row)) row.deviceType h' h
  rw [view_putDevice_ne h] at hadd
  exact hadd

/-- An updated row takes its id to the type it has now. -/
theorem view_updateDevice_self {oldType : String} (hrow : row.deviceId = id) (h : PlainId id)
    (hindexed : (r.view id).indexed = onceIn oldType) :
    (r.withStorage (r.storage.updateDevice (some oldType) row)).view id =
      { r.view id with row := some row, indexed := onceIn row.deviceType } := by
  subst hrow
  by_cases htype : oldType = row.deviceType
  · have hupdate : r.storage.updateDevice (some oldType) row = r.storage.putDevice row :=
      if_pos htype
    rw [hupdate, view_putDevice_self rfl, ← htype, ← hindexed]
  · have hupdate : r.storage.updateDevice (some oldType) row =
        ((r.storage.putDevice row).removeFromIndex oldType row.deviceId).addToIndex
          row.deviceType row.deviceId :=
      if_neg htype
    have hremove := view_removeFromIndex_self (r := r.withStorage (r.storage.putDevice row))
      oldType row.deviceId
    rw [view_putDevice_self rfl] at hremove
    have hadd := view_addToIndex_self
      (r := r.withStorage ((r.storage.putDevice row).removeFromIndex oldType row.deviceId))
      row.deviceType h
    have hindex : (fun t => if t = oldType then 0 else (r.view row.deviceId).indexed t) =
        nowhere := by
      rw [hindexed]
      exact retain_onceIn oldType
    rw [hindex] at hremove
    rw [hupdate]
    refine hadd.trans ?_
    rw [show (r.withStorage ((r.storage.putDevice row).removeFromIndex oldType
      row.deviceId)).view row.deviceId = _ from hremove]
    rfl

theorem view_updateDevice_ne {oldDeviceType : Option String} (h' : PlainId row.deviceId)
    (h : id ≠ row.deviceId) :
    (r.withStorage (r.storage.updateDevice oldDeviceType row)).view id = r.view id := by
  have hput := view_putDevice_ne (r := r) h
  unfold DeviceRegistryStore.updateDevice
  split
  · exact hput
  · split
    · exact hput
    · rename_i oldType _
      have hremove := view_removeFromIndex_ne (r := r.withStorage (r.storage.putDevice row))
        oldType h
      have hadd := view_addToIndex_ne
        (r := r.withStorage ((r.storage.putDevice row).removeFromIndex oldType row.deviceId))
        row.deviceType h' h
      exact hadd.trans (hremove.trans hput)

/-- A row that can be read is deleted, with its entry of the type index. -/
theorem view_deleteDevice_self (hrow : (r.view id).row = some row)
    (hread : row.reread sj = some row) :
    (r.withStorage (r.storage.deleteDevice sj id)).view id =
      { r.view id with
        row := none
        indexed := fun t => if t = row.deviceType then 0 else (r.view id).indexed t } := by
  have hload : r.storage.loadDevice sj id = some (some row) := by
    have hlookup : r.storage.devices.lookup id = some row := hrow
    rw [DeviceRegistryStore.loadDevice, hlookup]
    show (row.reread sj).map some = _
    rw [hread]
    rfl
  have herase : (r.withStorage { r.storage with devices := r.storage.devices.erase id }).view id =
      { r.view id with row := none } := by
    ext1
    · rfl
    · rfl
    · exact KeyedMap.lookup_erase_self r.storage.devices id
    · rfl
  have hremove := view_removeFromIndex_self
    (r := r.withStorage { r.storage with devices := r.storage.devices.erase id })
    row.deviceType id
  rw [herase] at hremove
  unfold DeviceRegistryStore.deleteDevice
  rw [hload]
  exact hremove

theorem view_deleteDevice_ne {id' : String} (h : id ≠ id') :
    (r.withStorage (r.storage.deleteDevice sj id')).view id = r.view id := by
  unfold DeviceRegistryStore.deleteDevice
  split
  · rename_i row _
    have herase :
        (r.withStorage { r.storage with devices := r.storage.devices.erase id' }).view id =
          r.view id := by
      ext1
      · rfl
      · rfl
      · exact KeyedMap.lookup_erase_ne r.storage.devices h
      · rfl
    have hremove := view_removeFromIndex_ne
      (r := r.withStorage { r.storage with devices := r.storage.devices.erase id' })
      row.deviceType h
    exact hremove.trans herase
  · rfl
  · rfl

end Storage

end DeviceRegistry

end HeraMind.Devices
