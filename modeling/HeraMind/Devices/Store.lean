/-
# The store of the device registry

Device configurations (`crates/heramind-devices/src/registry.rs`), their rows, and the tables of
the store with its transactions (`crates/heramind-storage/src/device_registry.rs`).

A row is kept as the JSON text of a configuration or template.  The model keeps what was written,
and reads it as JSON.
-/
import HeraMind.Lib.KeyedMap
import HeraMind.Devices.TemplateJson

namespace HeraMind.Devices

open Serde

variable {F : Type}

/-! ## Configurations -/

/-- `ConnectionConfig`.  The extra parameters are the entries of their map. -/
structure ConnectionConfig (F : Type) where
  telemetryTopic : Option String
  commandTopic : Option String
  jsonPath : Option String
  entityId : Option String
  extra : List (String × Value F)

/-- `DeviceConfig`. -/
structure DeviceConfig (F : Type) where
  deviceId : String
  name : String
  deviceType : String
  adapterType : String
  connectionConfig : ConnectionConfig F
  adapterId : Option String
  lastSeen : ℤ
  offlineTimeoutSecs : Option UInt64

namespace Storage

/-- `ConnectionConfig` of the store. -/
structure ConnectionConfig (F : Type) where
  telemetryTopic : Option String
  commandTopic : Option String
  jsonPath : Option String
  host : Option String
  port : Option UInt16
  slaveId : Option UInt8
  registerMap : Option (List (String × UInt16))
  entityId : Option String
  extra : List (String × Value F)

/-- `DeviceConfig` of the store. -/
structure DeviceConfig (F : Type) where
  deviceId : String
  name : String
  deviceType : String
  adapterType : String
  connectionConfig : ConnectionConfig F
  adapterId : Option String
  lastSeen : ℤ
  offlineTimeoutSecs : Option UInt64

end Storage

/-- `convert_connection_config_to_storage`. -/
def convertConnectionConfigToStorage (c : ConnectionConfig F) : Storage.ConnectionConfig F where
  telemetryTopic := c.telemetryTopic
  commandTopic := c.commandTopic
  jsonPath := c.jsonPath
  host := none
  port := none
  slaveId := none
  registerMap := none
  entityId := c.entityId
  extra := c.extra

/-- `convert_connection_config`. -/
def convertConnectionConfig (c : Storage.ConnectionConfig F) : ConnectionConfig F where
  telemetryTopic := c.telemetryTopic
  commandTopic := c.commandTopic
  jsonPath := c.jsonPath
  entityId := c.entityId
  extra := c.extra

/-- The row of a device. -/
def DeviceConfig.toStorage (device : DeviceConfig F) : Storage.DeviceConfig F where
  deviceId := device.deviceId
  name := device.name
  deviceType := device.deviceType
  adapterType := device.adapterType
  connectionConfig := convertConnectionConfigToStorage device.connectionConfig
  adapterId := device.adapterId
  lastSeen := device.lastSeen
  offlineTimeoutSecs := device.offlineTimeoutSecs

/-- The device of a row.  A device that was never seen is taken for one that was connected before
the time was tracked. -/
def Storage.DeviceConfig.toLocal (row : Storage.DeviceConfig F) : Devices.DeviceConfig F where
  deviceId := row.deviceId
  name := row.name
  deviceType := row.deviceType
  adapterType := row.adapterType
  connectionConfig := convertConnectionConfig row.connectionConfig
  adapterId := row.adapterId
  lastSeen := if row.lastSeen = 0 then 1 else row.lastSeen
  offlineTimeoutSecs := row.offlineTimeoutSecs

/-! ## Rows as JSON -/

/-- `u16`. -/
def u16 : Codec (Number F) UInt16 :=
  integer 0 (2 ^ 16 - 1) (fun n => n.toNat) fun n => UInt16.ofNat n.toNat

/-- `u8`. -/
def u8 : Codec (Number F) UInt8 :=
  integer 0 (2 ^ 8 - 1) (fun n => n.toNat) fun n => UInt8.ofNat n.toNat

/-- A time in seconds; times are small enough for `i64`. -/
def seconds : Codec (Number F) ℤ where
  write n := .number (.int n)
  read
    | .number (.int n) => some n
    | _ => none

namespace Storage

/-- The named fields of `ConnectionConfig`. -/
def ConnectionConfig.fields : Fields (Number F) (ConnectionConfig F)
    (List (String × Value F) → ConnectionConfig F) :=
  ((((((((Fields.nothing ConnectionConfig.mk).withDefault
    "telemetryTopic" telemetryTopic Codec.string.option none).withDefault
    "commandTopic" commandTopic Codec.string.option none).withDefault
    "jsonPath" jsonPath Codec.string.option none).withDefault
    "host" host Codec.string.option none).withDefault
    "port" port u16.option none).withDefault
    "slaveId" slaveId u8.option none).withDefault
    "registerMap" registerMap u16.entries.option none).withDefault
    "entityId" entityId Codec.string.option none

/-- `ConnectionConfig` as JSON; the extra parameters are fields of their own. -/
def ConnectionConfig.codec : Codec (Number F) (ConnectionConfig F) :=
  .recordWithRest fields extra

/-- A connection without parameters. -/
def ConnectionConfig.default : ConnectionConfig F :=
  ⟨none, none, none, none, none, none, none, none, []⟩

/-- The fields of `DeviceConfig`. -/
def DeviceConfig.fields : Fields (Number F) (DeviceConfig F) (DeviceConfig F) :=
  ((((((((Fields.nothing DeviceConfig.mk).required
    "device_id" deviceId .string).required
    "name" name .string).required
    "device_type" deviceType .string).required
    "adapter_type" adapterType .string).withDefault
    "connection_config" connectionConfig ConnectionConfig.codec .default).optional
    "adapter_id" adapterId .string).withDefault
    "last_seen" lastSeen seconds 0).optional
    "offline_timeout_secs" offlineTimeoutSecs u64

/-- `DeviceConfig` as JSON. -/
def DeviceConfig.codec : Codec (Number F) (DeviceConfig F) :=
  .record fields

/-- `from_str` of a row, if it can be read. -/
def DeviceConfig.reread (sj : SerdeJson F) (row : DeviceConfig F) : Option (DeviceConfig F) :=
  (sj.readText (DeviceConfig.codec.write row)).bind DeviceConfig.codec.read

/-- `from_str` of a row, if it can be read. -/
def DeviceTypeTemplate.reread (sj : SerdeJson F) (row : DeviceTypeTemplate F) :
    Option (DeviceTypeTemplate F) :=
  (sj.readText ((DeviceTypeTemplate.codec sj).write row)).bind (DeviceTypeTemplate.codec sj).read

end Storage

/-! ## The type index -/

/-- The device ids of a row of the type index. -/
def splitIds (row : String) : List String :=
  ((row.toList.splitOn ',').map String.ofList).filter fun id => id ≠ ""

/-- A row of the type index. -/
def joinIds (ids : List String) : String :=
  String.ofList ([','].intercalate (ids.map String.toList))

/-! ## Tables -/

/-- `DeviceRegistryStore`: the tables of the store. -/
structure DeviceRegistryStore (F : Type) where
  templates : KeyedMap String (Storage.DeviceTypeTemplate F) Storage.DeviceTypeTemplate.deviceType
  devices : KeyedMap String (Storage.DeviceConfig F) Storage.DeviceConfig.deviceId
  typeIndex : HashMap String String

namespace DeviceRegistryStore

/-- A new store. -/
def new : DeviceRegistryStore F :=
  ⟨.empty, .empty, ∅⟩

/-- `save_template`. -/
def saveTemplate (s : DeviceRegistryStore F) (row : Storage.DeviceTypeTemplate F) :
    DeviceRegistryStore F :=
  { s with templates := s.templates.put row }

/-- `list_templates`: the rows that can be read. -/
def listTemplates (sj : SerdeJson F) (s : DeviceRegistryStore F) :
    List (Storage.DeviceTypeTemplate F) :=
  s.templates.values.filterMap (Storage.DeviceTypeTemplate.reread sj)

/-- `delete_template`. -/
def deleteTemplate (s : DeviceRegistryStore F) (deviceType : String) : DeviceRegistryStore F :=
  { s with templates := s.templates.erase deviceType }

/-- The ids listed under a type. -/
def idsOf (s : DeviceRegistryStore F) (deviceType : String) : List String :=
  ((s.typeIndex.lookup deviceType).map splitIds).getD []

/-- Adds an id to the row of a type, unless it is there. -/
def addToIndex (s : DeviceRegistryStore F) (deviceType deviceId : String) :
    DeviceRegistryStore F :=
  let ids := s.idsOf deviceType
  { s with
    typeIndex := s.typeIndex.insert deviceType
      (joinIds (if deviceId ∈ ids then ids else ids ++ [deviceId])) }

/-- Takes an id out of the row of a type, and the row away if it was the last. -/
def removeFromIndex (s : DeviceRegistryStore F) (deviceType deviceId : String) :
    DeviceRegistryStore F :=
  let ids := (s.idsOf deviceType).filter fun id => id ≠ deviceId
  { s with
    typeIndex :=
      if ids = [] then s.typeIndex.erase deviceType
      else s.typeIndex.insert deviceType (joinIds ids) }

/-- The row of a device. -/
def putDevice (s : DeviceRegistryStore F) (row : Storage.DeviceConfig F) :
    DeviceRegistryStore F :=
  { s with devices := s.devices.put row }

/-- `save_device`. -/
def saveDevice (s : DeviceRegistryStore F) (row : Storage.DeviceConfig F) :
    DeviceRegistryStore F :=
  (s.putDevice row).addToIndex row.deviceType row.deviceId

/-- `load_device`: `none` if the row cannot be read. -/
def loadDevice (sj : SerdeJson F) (s : DeviceRegistryStore F) (deviceId : String) :
    Option (Option (Storage.DeviceConfig F)) :=
  match s.devices.lookup deviceId with
  | none => some none
  | some row => (row.reread sj).map some

/-- `list_devices`: the rows that can be read. -/
def listDevices (sj : SerdeJson F) (s : DeviceRegistryStore F) : List (Storage.DeviceConfig F) :=
  s.devices.values.filterMap (Storage.DeviceConfig.reread sj)

/-- `delete_device`: nothing is deleted if the row cannot be read. -/
def deleteDevice (sj : SerdeJson F) (s : DeviceRegistryStore F) (deviceId : String) :
    DeviceRegistryStore F :=
  match s.loadDevice sj deviceId with
  | some (some row) =>
    { s with devices := s.devices.erase deviceId }.removeFromIndex row.deviceType deviceId
  | some none | none => s

/-- The write transaction of `update_device`, after it has read the type the device had. -/
def updateDevice (s : DeviceRegistryStore F) (oldDeviceType : Option String)
    (row : Storage.DeviceConfig F) : DeviceRegistryStore F :=
  match oldDeviceType with
  | none => s.putDevice row
  | some oldType =>
    if oldType = row.deviceType then s.putDevice row
    else ((s.putDevice row).removeFromIndex oldType row.deviceId).addToIndex row.deviceType
      row.deviceId

end DeviceRegistryStore

end HeraMind.Devices
