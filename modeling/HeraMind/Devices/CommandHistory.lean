/-
# The history of commands

`send_command` with the history it keeps in memory and in the store, and the load of the history at
the start (`crates/heramind-devices/src/service.rs`,
`crates/heramind-storage/src/device_registry.rs`).  Commands are sent concurrently: a call goes from
one access to the shared state to the next, and in between any other call may go on.  A restart
loses what is in memory, and the calls in progress.

Besides what the source keeps, the state records which commands have returned with which answer.
-/
import Mathlib.Data.List.Sort
import HeraMind.Lib.Calls
import HeraMind.Devices.Registry
import HeraMind.Im.Shards

namespace HeraMind.Devices

open HeraMind.Im (parseU64)

variable {F : Type}

/-! ## Records -/

/-- `CommandStatus`. -/
inductive CommandStatus : Type where
  | pending
  | executing
  | success
  | failed
  | timeout
  deriving DecidableEq

/-- `CommandStatus` of the store. -/
inductive Storage.CommandStatus : Type where
  | pending
  | sent
  | completed
  | failed
  | timeout
  deriving DecidableEq

/-- `is_terminal`. -/
def CommandStatus.isTerminal : CommandStatus → Bool
  | .success | .failed | .timeout => true
  | _ => false

/-- `to_storage`. -/
def CommandStatus.toStorage : CommandStatus → Storage.CommandStatus
  | .pending => .pending
  | .executing => .sent
  | .success => .completed
  | .failed => .failed
  | .timeout => .timeout

/-- `from_storage`. -/
def CommandStatus.fromStorage : Storage.CommandStatus → CommandStatus
  | .pending => .pending
  | .sent => .executing
  | .completed => .success
  | .failed => .failed
  | .timeout => .timeout

/-- The fields of `CommandHistoryRecord`, with the status as it is kept in memory or stored. -/
structure CommandRecord (S F : Type) where
  commandId : String
  deviceId : String
  commandName : String
  parameters : List (String × Value F)
  status : S
  result : Option String
  error : Option String
  createdAt : ℤ
  completedAt : Option ℤ

/-- `CommandHistoryRecord`. -/
abbrev CommandHistoryRecord (F : Type) := CommandRecord CommandStatus F

/-- `CommandHistoryRecord` of the store. -/
abbrev Storage.CommandHistoryRecord (F : Type) := CommandRecord Storage.CommandStatus F

namespace CommandRecord

variable {S : Type}

/-- The key of a record in its table. -/
def key (record : CommandRecord S F) : String × String :=
  (record.deviceId, record.commandId)

/-- `command_to_storage`. -/
def toStorage (record : CommandHistoryRecord F) : Storage.CommandHistoryRecord F :=
  { record with status := record.status.toStorage }

/-- `command_from_storage`. -/
def fromStorage (record : Storage.CommandHistoryRecord F) : CommandHistoryRecord F :=
  { record with status := .fromStorage record.status }

end CommandRecord

/-! ## The table -/

/-- The commands of the store. -/
abbrev CommandTable (F : Type) :=
  KeyedMap (String × String) (Storage.CommandHistoryRecord F) CommandRecord.key

/-- What `serde_json` reads of the parameters of a row, if it can read the row. -/
abbrev ParametersText (F : Type) :=
  List (String × Value F) → Option (List (String × Value F))

/-- A row as it is read. -/
def CommandRecord.reread (text : ParametersText F) (record : Storage.CommandHistoryRecord F) :
    Option (Storage.CommandHistoryRecord F) :=
  (text record.parameters).map fun parameters => { record with parameters := parameters }

/-- The rows in the order of their keys. -/
def CommandTable.rows (table : CommandTable F) : List (Storage.CommandHistoryRecord F) :=
  table.values.insertionSort fun a b =>
    a.deviceId < b.deviceId ∨ a.deviceId = b.deviceId ∧ a.commandId ≤ b.commandId

/-- `list_all_commands`: those of the first rows that can be read, the newest first. -/
def CommandTable.listAllCommands (text : ParametersText F) (table : CommandTable F) (limit : ℕ) :
    List (Storage.CommandHistoryRecord F) :=
  ((table.rows.take limit).filterMap (CommandRecord.reread text)).insertionSort fun a b =>
    b.createdAt ≤ a.createdAt

/-! ## Commands -/

/-- A command that is sent. -/
structure Command (F : Type) where
  deviceId : String
  commandName : String
  params : List (String × Value F)

/-- How a command goes that was recorded. -/
inductive CommandOutcome : Type where
  /-- A device of an extension that names no extension. -/
  | noAdapterId
  | noRouter
  | routed (result : Except String Unit)
  /-- The payload cannot be built. -/
  | notRendered (e : DeviceError)
  | noAdapter (targetAdapterId : Option String) (adapterType : String)
  /-- What every matching adapter answered. -/
  | sent (results : List (Except String Unit))

/-- The status that is recorded for a command, with its texts. -/
structure StatusUpdate where
  status : CommandStatus
  result : Option String
  error : Option String

/-- The update of a command that failed. -/
def StatusUpdate.failure (error : String) : StatusUpdate :=
  ⟨.failed, none, some error⟩

/-- How many adapters took the command. -/
def successCount (results : List (Except String Unit)) : ℕ :=
  results.countP Except.isOk

/-- The error of the last adapter that did not take the command. -/
def lastError (results : List (Except String Unit)) : Option String :=
  results.foldl
    (fun last result =>
      match result with
      | .ok _ => last
      | .error e => some ("Failed to send command via adapter: " ++ e)) none

/-- What a command ends with: the status that is recorded, if any is, and the answer. -/
def CommandOutcome.conclude (deviceId : String) :
    CommandOutcome → Option StatusUpdate × Except DeviceError Unit
  | .noAdapterId => (none, .error (.invalidParameter
      "Device has no adapter_id set. Re-install the extension to fix this."))
  | .noRouter => (some (.failure "No extension command router configured"),
      .error (.invalidParameter "No extension command router configured for extension devices"))
  | .routed (.ok _) =>
    (some ⟨.success, some "Command sent to extension successfully", none⟩, .ok ())
  | .routed (.error e) => (some (.failure e), .error (.invalidParameter e))
  | .notRendered e => (none, .error e)
  | .noAdapter targetAdapterId adapterType =>
    let message := match targetAdapterId with
      | some target => "Adapter '" ++ target ++ "' not found for device '" ++ deviceId ++ "'"
      | none => "No adapter of type '" ++ adapterType ++ "' found for device '" ++ deviceId ++ "'"
    (some (.failure message), .error (.notFoundStr message))
  | .sent results =>
    if 0 < successCount results then
      (some ⟨.success,
        some ("Command sent to " ++ toString (successCount results) ++ " adapter(s)"), none⟩, .ok ())
    else
      let message := (lastError results).getD "Failed to send command on any adapter"
      (some (.failure message), .error (.invalidParameter message))

/-! ## The service -/

/-- The section of `send_command` that is next. -/
inductive CommandPc (F : Type) : Type where
  | validate (command : Command F)
  | drawId (command : Command F)
  | record (command : Command F) (commandId : String)
  | savePending (command : Command F) (record : CommandHistoryRecord F)
  | route (command : Command F) (commandId : String)
  | update (command : Command F) (commandId : String) (update : StatusUpdate)
      (reply : Except DeviceError Unit)
  | saveUpdated (command : Command F) (record : CommandHistoryRecord F)
      (reply : Except DeviceError Unit)
  | answered

/-- A command with its id and the answer to it. -/
structure CommandAnswer (F : Type) where
  command : Command F
  commandId : String
  reply : Except DeviceError Unit

/-- How far the history has been loaded since the start. -/
inductive HistoryLoad (F : Type) : Type where
  | notLoaded
  | listed (rows : List (Storage.CommandHistoryRecord F))
  | loaded

/-- The history of `DeviceService` and its calls. -/
structure CommandService (F : Type) where
  table : CommandTable F
  history : HashMap String (List (CommandHistoryRecord F))
  commandIdCounter : ℕ
  load : HistoryLoad F
  calls : List (CommandPc F)
  answers : List (CommandAnswer F)

/-- `max_history_entries`. -/
def maxHistoryEntries : ℕ := 100

/-- The id of a number. -/
def commandId (n : ℕ) : String :=
  "cmd_" ++ toString n

/-- The number of an id. -/
def commandNumber (id : String) : Option ℕ :=
  if id.toList.take 4 = "cmd_".toList then parseU64 (String.ofList (id.toList.drop 4)) else none

/-- What the environment gives a section: the time, whether the command is accepted, and how it
goes. -/
structure CommandEnv where
  now : ℤ
  validated : Except DeviceError Unit
  outcome : CommandOutcome

namespace CommandService

/-- The records of a device in memory. -/
def records (s : CommandService F) (deviceId : String) : List (CommandHistoryRecord F) :=
  (s.history.lookup deviceId).getD []

/-- A record is added to the history of its device, which is trimmed. -/
def push (s : CommandService F) (record : CommandHistoryRecord F) : CommandService F :=
  let records := s.records record.deviceId ++ [record]
  { s with
    history := s.history.insert record.deviceId
      (if maxHistoryEntries < records.length then records.drop 1 else records) }

/-- `save_command`. -/
def save (s : CommandService F) (record : CommandHistoryRecord F) : CommandService F :=
  { s with table := s.table.put record.toStorage }

/-- The record of a command that was accepted. -/
def pendingRecord (command : Command F) (commandId : String) (now : ℤ) :
    CommandHistoryRecord F where
  commandId := commandId
  deviceId := command.deviceId
  commandName := command.commandName
  parameters := command.params
  status := .pending
  result := none
  error := none
  createdAt := now
  completedAt := none

/-- A record with a new status. -/
def updated (record : CommandHistoryRecord F) (update : StatusUpdate) (now : ℤ) :
    CommandHistoryRecord F :=
  { record with
    status := update.status
    result := update.result
    error := update.error
    completedAt := if update.status.isTerminal then some now else record.completedAt }

/-- The first record with the id is changed. -/
def updateFirst (commandId : String) (f : CommandHistoryRecord F → CommandHistoryRecord F) :
    List (CommandHistoryRecord F) → List (CommandHistoryRecord F)
  | [] => []
  | record :: records =>
    if record.commandId = commandId then f record :: records
    else record :: updateFirst commandId f records

/-- The first record of a device with the id. -/
def findRecord (s : CommandService F) (deviceId commandId : String) :
    Option (CommandHistoryRecord F) :=
  (s.records deviceId).find? fun record => record.commandId = commandId

/-- The call has its answer. -/
def answer (s : CommandService F) (command : Command F) (commandId : String)
    (reply : Except DeviceError Unit) : CommandService F :=
  { s with answers := ⟨command, commandId, reply⟩ :: s.answers }

/-- One section of `send_command`. -/
def advance (env : CommandEnv) (s : CommandService F) :
    CommandPc F → CommandService F × CommandPc F
  | .validate command =>
    match env.validated with
    | .error _ => (s, .answered)
    | .ok _ => (s, .drawId command)
  | .drawId command =>
    -- `fetch_add` wraps around
    ({ s with commandIdCounter := (s.commandIdCounter + 1) % 2 ^ 64 },
      .record command (commandId s.commandIdCounter))
  | .record command id =>
    (s.push (pendingRecord command id env.now), .savePending command
      (pendingRecord command id env.now))
  | .savePending command record => (s.save record, .route command record.commandId)
  | .route command id =>
    match env.outcome.conclude command.deviceId with
    | (none, reply) => (s.answer command id reply, .answered)
    | (some update, reply) => (s, .update command id update reply)
  | .update command id update reply =>
    match s.findRecord command.deviceId id with
    | none => (s.answer command id reply, .answered)
    | some record =>
      ({ s with
          history := s.history.insert command.deviceId
            (updateFirst id (fun record => updated record update env.now)
              (s.records command.deviceId)) },
        .saveUpdated command (updated record update env.now) reply)
  | .saveUpdated command record reply =>
    ((s.save record).answer command record.commandId reply, .answered)
  | .answered => (s, .answered)

/-- The service of a new process. -/
def restarted (s : CommandService F) : CommandService F :=
  { s with
    history := ∅
    commandIdCounter := 1
    load := .notLoaded
    calls := [] }

/-- A loaded record is added to the history of its device. -/
def addLoaded (history : HashMap String (List (CommandHistoryRecord F)))
    (row : Storage.CommandHistoryRecord F) : HashMap String (List (CommandHistoryRecord F)) :=
  history.insert row.deviceId ((history.lookup row.deviceId).getD [] ++ [.fromStorage row])

/-- The greatest number among the ids of some rows. -/
def maxCounter (rows : List (Storage.CommandHistoryRecord F)) : ℕ :=
  rows.foldl (fun m row => max m ((commandNumber row.commandId).getD 0)) 0

/-- The rows that were listed are put in memory, and the counter is set behind them. -/
def merge (s : CommandService F) (rows : List (Storage.CommandHistoryRecord F)) :
    CommandService F :=
  if rows = [] then { s with load := .loaded }
  else
    { s with
      history := rows.foldl addLoaded s.history
      commandIdCounter := max s.commandIdCounter ((maxCounter rows + 1) % 2 ^ 64)
      load := .loaded }

/-- A new service with a table of commands. -/
def new (table : CommandTable F) : CommandService F :=
  ⟨table, ∅, 1, .notLoaded, [], []⟩

end CommandService

/-- What happens: a command is sent, a call goes on, the process restarts, or the history is listed
or put in memory. -/
inductive CommandLabel (F : Type) : Type where
  | send (command : Command F)
  | advance (n : ℕ) (env : CommandEnv)
  | restart
  | list
  | merge

namespace CommandService

/-- One step; a call that has answered does not go on. -/
def step (text : ParametersText F) (s : CommandService F) :
    CommandLabel F → Option (CommandService F)
  | .send command => some { s with calls := s.calls ++ [.validate command] }
  | .advance n env =>
    match s.calls[n]? with
    | none | some .answered => none
    | some pc =>
      let (s', pc') := s.advance env pc
      some { s' with calls := s'.calls.set n pc' }
  | .restart => some s.restarted
  | .list =>
    match s.load with
    | .notLoaded => some { s with load := .listed (s.table.listAllCommands text 1000) }
    | _ => none
  | .merge =>
    match s.load with
    | .listed rows => some (s.merge rows)
    | _ => none

end CommandService

end HeraMind.Devices
