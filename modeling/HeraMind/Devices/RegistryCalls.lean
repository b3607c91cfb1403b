/-
# Calls of the device registry

The calls of the registry that run concurrently (`crates/heramind-devices/src/registry.rs`).  A
call goes from one access to a shared map, or transaction of the store, to the next; in between any
other call may go on.  Every write to the store succeeds.
-/
import HeraMind.Lib.Run
import HeraMind.Devices.Registry

namespace HeraMind.Devices

/-- The calls of the registry. -/
inductive RegistryCall (F : Type) : Type where
  | registerTemplate (template : DeviceTypeTemplate F)
  | unregisterTemplate (deviceType : String)
  | registerDevice (config : DeviceConfig F)
  | updateDevice (deviceId : String) (config : DeviceConfig F)
  | updateLastSeen (deviceId : String) (lastSeen : ℤ)
  | unregisterDevice (deviceId : String)
  | loadFromStorage

/-- The section of a call that is next. -/
inductive RegistryPc (F : Type) : Type where
  | start (call : RegistryCall F)
  -- `register_template`
  | saveTemplate (template : DeviceTypeTemplate F)
  -- `unregister_template`
  | removeTemplate (deviceType : String)
  | deleteTemplate (deviceType : String)
  -- `register_device`
  | checkDevice (config : DeviceConfig F)
  | modifyDevice (config : DeviceConfig F)
  | saveModified (deviceId : String)
  | saveNew (config : DeviceConfig F)
  | insertNew (config : DeviceConfig F)
  | pushNew (config : DeviceConfig F)
  -- `update_device`
  | readType (config : DeviceConfig F)
  | insertUpdated (config : DeviceConfig F) (oldDeviceType : Option String)
  | retainOld (config : DeviceConfig F) (oldType : String)
  | checkOld (config : DeviceConfig F) (oldType : String)
  | removeOld (config : DeviceConfig F) (oldType : String)
  | pushUpdated (config : DeviceConfig F)
  | loadStored (config : DeviceConfig F)
  | writeStored (config : DeviceConfig F) (oldDeviceType : Option String)
  -- `update_last_seen`
  | loadSeen (deviceId : String) (lastSeen : ℤ)
  | writeSeen (row : Storage.DeviceConfig F)
  -- `unregister_device`
  | removeDevice (deviceId deviceType : String)
  | retain (deviceId deviceType : String)
  | checkEntry (deviceId deviceType : String)
  | removeEntry (deviceId deviceType : String)
  | deleteStored (deviceId : String)
  -- `load_from_storage`
  | loadTemplates (rows : List (Storage.DeviceTypeTemplate F))
  | listDevices
  | loadDevices (rows : List (Storage.DeviceConfig F)) (migrated : List String)
  | pushLoaded (config : DeviceConfig F) (rows : List (Storage.DeviceConfig F))
      (migrated : List String)
  | migrate (migrated : List String)
  | writeMigrated (row : Storage.DeviceConfig F) (migrated : List String)
  | answered (reply : Except DeviceError Unit)

/-- The registry and every call it ever got. -/
structure RegistryServer (F : Type) where
  registry : DeviceRegistry F
  calls : List (RegistryPc F)

variable {F : Type}

namespace DeviceRegistry

/-- `devices.insert`. -/
def insertDevice (r : DeviceRegistry F) (config : DeviceConfig F) : DeviceRegistry F :=
  { r with devices := r.devices.put config }

/-- `devices.remove`. -/
def removeDevice (r : DeviceRegistry F) (deviceId : String) : DeviceRegistry F :=
  { r with devices := r.devices.erase deviceId }

/-- `templates.remove`. -/
def removeTemplate (r : DeviceRegistry F) (deviceType : String) : DeviceRegistry F :=
  { r with templates := r.templates.erase deviceType }

/-- `type_index.entry(..).or_default().push(..)`. -/
def pushId (r : DeviceRegistry F) (deviceType deviceId : String) : DeviceRegistry F :=
  { r with typeIndex := r.typeIndex.insert deviceType (r.idsOf deviceType ++ [deviceId]) }

/-- `type_entry.retain(..)`, where the type has an entry. -/
def retainIds (r : DeviceRegistry F) (deviceType deviceId : String) : DeviceRegistry F :=
  match r.typeIndex.lookup deviceType with
  | none => r
  | some ids =>
    { r with
      typeIndex := r.typeIndex.insert deviceType (ids.filter fun id => id ≠ deviceId) }

/-- `type_index.remove`. -/
def removeIds (r : DeviceRegistry F) (deviceType : String) : DeviceRegistry F :=
  { r with typeIndex := r.typeIndex.erase deviceType }

/-- Whether the type has an entry without ids. -/
def hasEmptyEntry (r : DeviceRegistry F) (deviceType : String) : Bool :=
  r.typeIndex.lookup deviceType = some []

/-- The store after a transaction. -/
def withStorage (r : DeviceRegistry F) (storage : DeviceRegistryStore F) : DeviceRegistry F :=
  { r with storage := storage }

end DeviceRegistry

/-- What re-registering a device changes. -/
def DeviceConfig.reregister (device config : DeviceConfig F) : DeviceConfig F :=
  { device with
    name := config.name
    adapterId := if config.adapterId.isSome then config.adapterId else device.adapterId
    lastSeen := if 0 < config.lastSeen then config.lastSeen else device.lastSeen }

/-- Whether `update_last_seen` writes to the store. -/
def persistsLastSeen (prev lastSeen : ℤ) : Bool :=
  prev = 0 ∨ lastSeen - prev ≥ 15

namespace RegistryPc

/-- The answer of a call that went well. -/
def done : RegistryPc F := .answered (.ok ())

/-- The first section of a call. -/
def advanceStart (sj : SerdeJson F) (isAlphanumeric : Char → Bool) (r : DeviceRegistry F) :
    RegistryCall F → DeviceRegistry F × RegistryPc F
  | .registerTemplate template =>
    match DeviceRegistry.validateTemplate isAlphanumeric template with
    | .error e => (r, .answered (.error e))
    | .ok _ => (r.insertTemplate template, .saveTemplate template)
  | .unregisterTemplate deviceType =>
    if r.idsOf deviceType = [] then (r, .removeTemplate deviceType)
    else (r, .answered (.error (.invalidParameter ("Cannot unregister template '" ++ deviceType ++
      "': " ++ toString (r.idsOf deviceType).length ++ " devices still use it"))))
  | .registerDevice config =>
    match r.getTemplate config.deviceType with
    | none => (r, .answered (.error (.notFoundStr
        ("Device type template '" ++ config.deviceType ++ "' not found"))))
    | some _ =>
      if config.deviceId = "" then
        (r, .answered (.error (.invalidParameter "device_id cannot be empty")))
      else (r, .checkDevice config)
  | .updateDevice deviceId config =>
    if config.deviceId = deviceId then
      match r.getTemplate config.deviceType with
      | none => (r, .answered (.error (.notFoundStr
          ("Device type template '" ++ config.deviceType ++ "' not found"))))
      | some _ => (r, .readType config)
    else (r, .answered (.error (.invalidParameter "device_id in config must match the parameter")))
  | .updateLastSeen deviceId lastSeen =>
    match r.getDevice deviceId with
    | none => (r, .done)
    | some device =>
      (r.insertDevice { device with lastSeen := lastSeen },
        if persistsLastSeen device.lastSeen lastSeen then .loadSeen deviceId lastSeen else .done)
  | .unregisterDevice deviceId =>
    match r.getDevice deviceId with
    | none => (r, .answered (.error (.notFoundStr deviceId)))
    | some device => (r, .removeDevice deviceId device.deviceType)
  | .loadFromStorage => (r, .loadTemplates (r.storage.listTemplates sj))

/-- One section of a call. -/
def advance (sj : SerdeJson F) (isAlphanumeric : Char → Bool) (r : DeviceRegistry F) :
    RegistryPc F → DeviceRegistry F × RegistryPc F
  | .start call => advanceStart sj isAlphanumeric r call
  | .saveTemplate template => (r.saveTemplate template, .done)
  | .removeTemplate deviceType => (r.removeTemplate deviceType, .deleteTemplate deviceType)
  | .deleteTemplate deviceType =>
    (r.withStorage (r.storage.deleteTemplate deviceType), .done)
  | .checkDevice config =>
    (r, if (r.getDevice config.deviceId).isSome then .modifyDevice config else .saveNew config)
  | .modifyDevice config =>
    match r.getDevice config.deviceId with
    | none => (r, .saveModified config.deviceId)
    | some device => (r.insertDevice (device.reregister config), .saveModified config.deviceId)
  | .saveModified deviceId =>
    -- the entry stays locked while it is saved
    match r.getDevice deviceId with
    | none => (r, .done)
    | some device => (r.withStorage (r.storage.saveDevice device.toStorage), .done)
  | .saveNew config =>
    (r.withStorage (r.storage.saveDevice config.toStorage), .insertNew config)
  | .insertNew config => (r.insertDevice config, .pushNew config)
  | .pushNew config => (r.pushId config.deviceType config.deviceId, .done)
  | .readType config =>
    (r, .insertUpdated config ((r.getDevice config.deviceId).map DeviceConfig.deviceType))
  | .insertUpdated config oldDeviceType =>
    (r.insertDevice config,
      match oldDeviceType with
      | none => .loadStored config
      | some oldType =>
        if oldType = config.deviceType then .loadStored config else .retainOld config oldType)
  | .retainOld config oldType =>
    (r.retainIds oldType config.deviceId, .checkOld config oldType)
  | .checkOld config oldType =>
    (r, if r.hasEmptyEntry oldType then .removeOld config oldType else .pushUpdated config)
  | .removeOld config oldType => (r.removeIds oldType, .pushUpdated config)
  | .pushUpdated config => (r.pushId config.deviceType config.deviceId, .loadStored config)
  | .loadStored config =>
    match r.storage.loadDevice sj config.deviceId with
    | none => (r, .done)
    | some row => (r, .writeStored config (row.map Storage.DeviceConfig.deviceType))
  | .writeStored config oldDeviceType =>
    (r.withStorage (r.storage.updateDevice oldDeviceType config.toStorage), .done)
  | .loadSeen deviceId lastSeen =>
    match r.storage.loadDevice sj deviceId with
    | some (some row) => (r, .writeSeen { row with lastSeen := lastSeen })
    | some none | none => (r, .done)
  | .writeSeen row => (r.withStorage (r.storage.putDevice row), .done)
  | .removeDevice deviceId deviceType => (r.removeDevice deviceId, .retain deviceId deviceType)
  | .retain deviceId deviceType =>
    (r.retainIds deviceType deviceId, .checkEntry deviceId deviceType)
  | .checkEntry deviceId deviceType =>
    (r, if r.hasEmptyEntry deviceType then .removeEntry deviceId deviceType
      else .deleteStored deviceId)
  | .removeEntry deviceId deviceType => (r.removeIds deviceType, .deleteStored deviceId)
  | .deleteStored deviceId => (r.withStorage (r.storage.deleteDevice sj deviceId), .done)
  | .loadTemplates [] => (r, .listDevices)
  | .loadTemplates (row :: rows) => (r.insertTemplate row.toLocal, .loadTemplates rows)
  | .listDevices => (r, .loadDevices (r.storage.listDevices sj) [])
  | .loadDevices [] migrated => (r, .migrate migrated)
  | .loadDevices (row :: rows) migrated =>
    (r.insertDevice row.toLocal,
      .pushLoaded row.toLocal rows
        (if row.lastSeen = 0 then migrated ++ [row.deviceId] else migrated))
  | .pushLoaded config rows migrated =>
    (r.pushId config.deviceType config.deviceId, .loadDevices rows migrated)
  | .migrate [] => (r, .done)
  | .migrate (deviceId :: migrated) =>
    match r.storage.loadDevice sj deviceId with
    | some (some row) => (r, .writeMigrated { row with lastSeen := 1 } migrated)
    | some none | none => (r, .migrate migrated)
  | .writeMigrated row migrated => (r.withStorage (r.storage.putDevice row), .migrate migrated)
  | .answered reply => (r, .answered reply)

/-- Whether the call has answered. -/
def isAnswered : RegistryPc F → Bool
  | .answered _ => true
  | _ => false

end RegistryPc

/-- What happens: a call is made, or one goes on. -/
inductive RegistryLabel (F : Type) : Type where
  | call (call : RegistryCall F)
  | advance (n : ℕ)

namespace RegistryServer

/-- One step; a call that has answered does not go on. -/
def step (sj : SerdeJson F) (isAlphanumeric : Char → Bool) (s : RegistryServer F) :
    RegistryLabel F → Option (RegistryServer F)
  | .call call => some { s with calls := s.calls ++ [.start call] }
  | .advance n =>
    (s.calls[n]?).bind fun pc =>
      if pc.isAnswered then none
      else
        let (registry, pc') := pc.advance sj isAlphanumeric s.registry
        some ⟨registry, s.calls.set n pc'⟩

/-- The registry that `with_persistence` opens, which has begun to load its store. -/
def opened (sj : SerdeJson F) (storage : DeviceRegistryStore F) : RegistryServer F :=
  ⟨.empty storage, [.loadTemplates (storage.listTemplates sj)]⟩

/-- Every call has answered. -/
def Quiescent (s : RegistryServer F) : Prop :=
  ∀ pc ∈ s.calls, pc.isAnswered = true

end RegistryServer

end HeraMind.Devices
