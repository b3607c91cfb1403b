/-
# The device registry

The registry of templates and devices (`crates/heramind-devices/src/registry.rs`), with the tables
it keeps in memory and the store it saves them in.  It is one that `with_persistence` opened, so it
saves what it changes; the index of the telemetry topics, which nothing here reads, is left out.
-/
import HeraMind.Devices.Store

namespace HeraMind.Devices

variable {F : Type}

/-- `DeviceError`, as far as the registry returns it. -/
inductive DeviceError : Type where
  | invalidParameter (message : String)
  | notFoundStr (message : String)
  deriving DecidableEq

/-- `DeviceRegistry`. -/
structure DeviceRegistry (F : Type) where
  templates : KeyedMap String (DeviceTypeTemplate F) DeviceTypeTemplate.deviceType
  devices : KeyedMap String (DeviceConfig F) DeviceConfig.deviceId
  typeIndex : HashMap String (List String)
  storage : DeviceRegistryStore F

namespace DeviceRegistry

/-- A registry with nothing in memory, before it loads its store. -/
def empty (storage : DeviceRegistryStore F) : DeviceRegistry F :=
  ⟨.empty, .empty, ∅, storage⟩

/-! ## Reading -/

/-- `get_template`. -/
def getTemplate (r : DeviceRegistry F) (deviceType : String) : Option (DeviceTypeTemplate F) :=
  r.templates.lookup deviceType

/-- `get_device`. -/
def getDevice (r : DeviceRegistry F) (deviceId : String) : Option (DeviceConfig F) :=
  r.devices.lookup deviceId

/-- `list_devices`. -/
def listDevices (r : DeviceRegistry F) : List (DeviceConfig F) :=
  r.devices.values

/-- The ids listed under a type. -/
def idsOf (r : DeviceRegistry F) (deviceType : String) : List String :=
  (r.typeIndex.lookup deviceType).getD []

/-- `list_devices_by_type`. -/
def listDevicesByType (r : DeviceRegistry F) (deviceType : String) : List (DeviceConfig F) :=
  (r.idsOf deviceType).filterMap r.getDevice

/-! ## Templates -/

/-- `validate_template`; `isAlphanumeric` is the Unicode property of the characters. -/
def validateTemplate (isAlphanumeric : Char → Bool) (template : DeviceTypeTemplate F) :
    Except DeviceError Unit :=
  if template.deviceType = "" then
    .error (.invalidParameter "device_type cannot be empty")
  else if ¬template.deviceType.toList.all fun c => isAlphanumeric c || c == '_' || c == '-' then
    .error (.invalidParameter "device_type can only contain alphanumeric, underscore, and hyphen")
  else if template.metrics.any fun metric => metric.name = "" then
    .error (.invalidParameter "metric name cannot be empty")
  else if template.commands.any fun command => command.name = "" then
    .error (.invalidParameter "command name cannot be empty")
  else .ok ()

/-- `templates.insert`. -/
def insertTemplate (r : DeviceRegistry F) (template : DeviceTypeTemplate F) : DeviceRegistry F :=
  { r with templates := r.templates.put template }

/-- The row of a template is saved. -/
def saveTemplate (r : DeviceRegistry F) (template : DeviceTypeTemplate F) : DeviceRegistry F :=
  { r with storage := r.storage.saveTemplate template.toStorage }

/-- `register_template`. -/
def registerTemplate (isAlphanumeric : Char → Bool) (r : DeviceRegistry F)
    (template : DeviceTypeTemplate F) : Except DeviceError (DeviceRegistry F) :=
  (validateTemplate isAlphanumeric template).map fun _ =>
    (r.insertTemplate template).saveTemplate template

/-- The templates of `save_to_storage`: each of them is saved. -/
def saveTemplates (r : DeviceRegistry F) : DeviceRegistry F :=
  r.templates.values.foldl saveTemplate r

/-- The templates of `load_from_storage`: each row that can be read is put in memory. -/
def loadTemplates (sj : SerdeJson F) (r : DeviceRegistry F) : DeviceRegistry F :=
  (r.storage.listTemplates sj).foldl (fun r row => r.insertTemplate row.toLocal) r

/-- The registry of the next start, with the templates it has loaded. -/
def restarted (sj : SerdeJson F) (r : DeviceRegistry F) : DeviceRegistry F :=
  (empty r.storage).loadTemplates sj

end DeviceRegistry

end HeraMind.Devices
