/-
# The invariant of the registry

What every call in progress knows of its device, and what holds of a device that no call is about.
-/
import HeraMind.Devices.RegistryApart

namespace HeraMind.Devices

variable {F : Type}

/-! ## Devices and their rows -/

/-- The row is that of the device, except for its last activity. -/
def Storage.DeviceConfig.IsRowOf (row : Storage.DeviceConfig F) (c : Devices.DeviceConfig F) :
    Prop :=
  row = { c.toStorage with lastSeen := row.lastSeen }

/-- The row is that of the device, with a last activity that is less than 15 seconds off. -/
structure Storage.DeviceConfig.Keeps (row : Storage.DeviceConfig F) (c : Devices.DeviceConfig F) :
    Prop where
  isRowOf : row.IsRowOf c
  late : c.lastSeen - row.lastSeen < 15
  early : row.lastSeen - c.lastSeen < 15

/-- A device of that id whose rows can be read and listed. -/
structure DeviceConfig.IsAt (sj : SerdeJson F) (id : String) (c : DeviceConfig F) : Prop where
  deviceId : c.deviceId = id
  plain : PlainId id
  carried : c.connectionConfig.IsCarried sj

namespace Storage.DeviceConfig

variable {sj : SerdeJson F} {id : String} {c : Devices.DeviceConfig F} {row : DeviceConfig F}

theorem keeps_toStorage (c : Devices.DeviceConfig F) : c.toStorage.Keeps c where
  isRowOf := rfl
  late := by
    show c.lastSeen - c.lastSeen < 15
    omega
  early := by
    show c.lastSeen - c.lastSeen < 15
    omega

theorem IsRowOf.deviceType (h : row.IsRowOf c) : row.deviceType = c.deviceType := by
  rw [h]
  rfl

theorem IsRowOf.deviceId (h : row.IsRowOf c) : row.deviceId = c.deviceId := by
  rw [h]
  rfl

/-- A row of a device that is carried is read as it was written. -/
theorem IsRowOf.reread (h : row.IsRowOf c) (hc : c.connectionConfig.IsCarried sj) :
    row.reread sj = some row := by
  rw [h]
  exact (reread_eq_iff sj c row.lastSeen).mpr hc

end Storage.DeviceConfig

/-! ## Views -/

namespace DeviceView

variable {sj : SerdeJson F} {id : String} {v : DeviceView F}

/-- Nothing is held under the id. -/
def absent : DeviceView F :=
  ⟨none, nowhere, none, nowhere⟩

/-- The device is in memory and in the store, and listed once in either. -/
def kept (c : DeviceConfig F) (row : Storage.DeviceConfig F) : DeviceView F :=
  ⟨some c, onceIn c.deviceType, some row, onceIn row.deviceType⟩

/-- The row of a device that is about to be loaded. -/
def unloaded (row : Storage.DeviceConfig F) : DeviceView F :=
  ⟨none, nowhere, some row, onceIn row.deviceType⟩

/-- What is held under an id that no call is about. -/
def Settled (sj : SerdeJson F) (id : String) (v : DeviceView F) : Prop :=
  v = absent ∨ ∃ c row, v = kept c row ∧ c.IsAt sj id ∧ row.Keeps c

theorem Settled.of_device (h : v.Settled sj id) {c : DeviceConfig F} (hc : v.device = some c) :
    ∃ row, v = kept c row ∧ c.IsAt sj id ∧ row.Keeps c := by
  rcases h with rfl | ⟨c', row, rfl, hat, hkeeps⟩
  · cases hc
  · obtain rfl : c' = c := Option.some.inj hc
    exact ⟨row, rfl, hat, hkeeps⟩

theorem Settled.of_none (h : v.Settled sj id) (hnone : v.device = none) : v = absent := by
  rcases h with rfl | ⟨c, row, rfl, -, -⟩
  · rfl
  · cases hnone

/-- What a call knows of what is held under its id. -/
def Here (sj : SerdeJson F) (id : String) (v : DeviceView F) : RegistryPc F → Prop
  | .checkDevice config => v.Settled sj id ∧ config.IsAt sj id
  | .modifyDevice _ => ∃ c row, v = kept c row ∧ c.IsAt sj id ∧ row.Keeps c
  | .saveModified _ =>
    ∃ c row, v = ⟨some c, onceIn c.deviceType, some row, onceIn c.deviceType⟩ ∧ c.IsAt sj id
  | .saveNew config => v = absent ∧ config.IsAt sj id
  | .insertNew config =>
    v = ⟨none, nowhere, some config.toStorage, onceIn config.deviceType⟩ ∧ config.IsAt sj id
  | .pushNew config =>
    v = ⟨some config, nowhere, some config.toStorage, onceIn config.deviceType⟩ ∧ config.IsAt sj id
  | .readType config =>
    v.Settled sj id ∧ config.deviceId = id ∧ config.connectionConfig.IsCarried sj
  | .insertUpdated config oldDeviceType =>
    v.Settled sj id ∧ (config.deviceId = id ∧ config.connectionConfig.IsCarried sj) ∧
      oldDeviceType = v.device.map DeviceConfig.deviceType
  | .retainOld config oldType =>
    config.IsAt sj id ∧ ∃ row, row.reread sj = some row ∧
      v = ⟨some config, onceIn oldType, some row, onceIn row.deviceType⟩
  | .checkOld config _ | .removeOld config _ | .pushUpdated config =>
    config.IsAt sj id ∧ ∃ row, row.reread sj = some row ∧
      v = ⟨some config, nowhere, some row, onceIn row.deviceType⟩
  | .loadStored config =>
    config.IsAt sj id ∧ ∃ row, row.reread sj = some row ∧
      v = ⟨some config, onceIn config.deviceType, some row, onceIn row.deviceType⟩
  | .writeStored config oldDeviceType =>
    config.IsAt sj id ∧ ∃ row, oldDeviceType = some row.deviceType ∧
      v = ⟨some config, onceIn config.deviceType, some row, onceIn row.deviceType⟩
  | .loadSeen _ lastSeen =>
    ∃ c row, v = kept c row ∧ c.IsAt sj id ∧ row.IsRowOf c ∧ c.lastSeen = lastSeen
  | .writeSeen row' => ∃ c row, v = kept c row ∧ c.IsAt sj id ∧ row.IsRowOf c ∧ row' = c.toStorage
  | .removeDevice _ deviceType =>
    ∃ c row, v = kept c row ∧ c.IsAt sj id ∧ row.Keeps c ∧ c.deviceType = deviceType
  | .retain _ deviceType =>
    ∃ row, row.reread sj = some row ∧ v = ⟨none, onceIn deviceType, some row, onceIn row.deviceType⟩
  | .checkEntry _ _ | .removeEntry _ _ | .deleteStored _ =>
    ∃ row, row.reread sj = some row ∧ v = ⟨none, nowhere, some row, onceIn row.deviceType⟩
  | _ => True

end DeviceView

/-! ## Calls -/

/-- A device that may be registered. -/
structure DeviceConfig.IsSound (sj : SerdeJson F) (c : DeviceConfig F) : Prop where
  comma : ',' ∉ c.deviceId.toList
  carried : c.connectionConfig.IsCarried sj

/-- The device of the call is sound. -/
def RegistryCall.IsSound (sj : SerdeJson F) : RegistryCall F → Prop
  | .registerDevice config | .updateDevice _ config => config.IsSound sj
  | _ => True

/-- The rows that are still to be loaded, and those that have been. -/
structure LoadsRows (sj : SerdeJson F) (r : DeviceRegistry F)
    (rows : List (Storage.DeviceConfig F)) (migrated : List String) (current : Option String) :
    Prop where
  nodup : (rows.map Storage.DeviceConfig.deviceId).Nodup
  pending : ∀ row ∈ rows, r.view row.deviceId = .unloaded row ∧
    row.toLocal.IsAt sj row.deviceId ∧ row.IsRowOf row.toLocal
  loaded : ∀ id, current ≠ some id → (∀ row ∈ rows, row.deviceId ≠ id) →
    (r.view id).Settled sj id
  migrated : ∀ id ∈ migrated, ∃ c, r.getDevice id = some c ∧ c.lastSeen = 1
  template : ∀ id row, (r.view id).row = some row → (r.getTemplate row.deviceType).isSome

/-- The rows that nothing has been loaded of. -/
structure LoadsTemplates (sj : SerdeJson F) (r : DeviceRegistry F)
    (rows : List (Storage.DeviceTypeTemplate F)) : Prop where
  unloaded : ∀ id, r.view id = .absent ∨ ∃ row, r.view id = .unloaded row ∧
    row.toLocal.IsAt sj id ∧ row.IsRowOf row.toLocal
  template : ∀ id row, (r.view id).row = some row →
    (∃ x ∈ rows, x.toLocal.deviceType = row.deviceType) ∨ (r.getTemplate row.deviceType).isSome

/-- What a call that loads the store knows of the registry. -/
def Loading (sj : SerdeJson F) (r : DeviceRegistry F) : RegistryPc F → Prop
  | .loadTemplates rows => LoadsTemplates sj r rows
  | .listDevices => LoadsTemplates sj r []
  | .loadDevices rows migrated => LoadsRows sj r rows migrated none
  | .pushLoaded config rows migrated =>
    LoadsRows sj r rows migrated (some config.deviceId) ∧
      (∀ row ∈ rows, row.deviceId ≠ config.deviceId) ∧
      ∃ row, config = row.toLocal ∧ row.toLocal.IsAt sj row.deviceId ∧ row.IsRowOf row.toLocal ∧
        r.view row.deviceId = ⟨some config, nowhere, some row, onceIn row.deviceType⟩
  | .migrate migrated => LoadsRows sj r [] migrated none
  | .writeMigrated row migrated =>
    LoadsRows sj r [] migrated none ∧
      ∃ c stored, r.view row.deviceId = .kept c stored ∧ c.lastSeen = 1 ∧
        c.IsAt sj row.deviceId ∧ stored.IsRowOf c ∧ row = { stored with lastSeen := 1 }
  | _ => True

/-- What a call in progress knows of the registry. -/
structure RegistryPc.Holds (sj : SerdeJson F) (r : DeviceRegistry F) (p : RegistryPc F) :
    Prop where
  call : ∀ call, p = .start call → call.IsSound sj
  adds : ∀ t, p.adds = some t → (r.getTemplate t).isSome
  drops : ∀ t, p.drops = some t → ∀ id c, r.getDevice id = some c → c.deviceType ≠ t
  erases : ∀ t, p.erases = some t → r.idsOf t = []
  here : ∀ id, p.device = some id → (r.view id).Here sj id p
  loading : Loading sj r p

/-- The invariant of calls that keep apart. -/
structure RegistryServer.Inv (sj : SerdeJson F) (s : RegistryServer F) : Prop where
  calls : ∀ p ∈ s.calls, p.Holds sj s.registry
  template : (∀ p ∈ s.calls, p.loads = false) →
    ∀ id c, s.registry.getDevice id = some c → (s.registry.getTemplate c.deviceType).isSome
  settled : (∀ p ∈ s.calls, p.loads = false) →
    ∀ id, (∀ p ∈ s.calls, p.device ≠ some id) → (s.registry.view id).Settled sj id

end HeraMind.Devices
