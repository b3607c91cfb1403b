/-
# The life of push targets

`PushManager` (`crates/heramind-data-push/src/manager.rs`) stores the targets, and has
`PushScheduler` (`scheduler.rs`) run a task for each target that is enabled.  Its operations run
concurrently, since every handler holds no more than a read lock: a call runs in sections, from one
access of the store or of the handles to the next, and the sections of all calls interleave.
-/
import HeraMind.Push.Task
import Mathlib.Data.List.Sort

namespace HeraMind.Push

deriving instance DecidableEq for RetryConfig
deriving instance DecidableEq for PushTarget

/-! ## Requests -/

/-- `CreateTargetRequest`. -/
structure CreateTargetRequest (Json : Type) where
  name : String
  targetType : String
  config : Json
  schedule : PushSchedule
  dataFilter : DataSourceFilter
  template : Option String
  enabled : Option Bool
  retryConfig : Option RetryConfig
  batchConfig : Option BatchConfig

/-- `UpdateTargetRequest`. -/
structure UpdateTargetRequest (Json : Type) where
  name : Option String
  targetType : Option String
  config : Option Json
  schedule : Option PushSchedule
  dataFilter : Option DataSourceFilter
  template : Option String
  enabled : Option Bool
  retryConfig : Option RetryConfig
  batchConfig : Option BatchConfig

/-- What the manager is opened with, and what the destinations make of a configuration. -/
structure Backend (Json : Type) where
  /-- There is an event bus. -/
  eventBus : Bool
  createDestination : PushTargetType → Json → Except String Unit
  validateConfig : PushTargetType → Json → Except String Unit

def parseTargetType (targetType : String) : Except String PushTargetType :=
  if targetType = "webhook" then .ok .webhook
  else if targetType = "mqtt" then .ok .mqtt
  else .error ("Unknown target type: " ++ targetType)

section

variable {Json : Type} (b : Backend Json)

/-- A configuration is checked by the destination that it makes. -/
def Backend.check (targetType : PushTargetType) (config : Json) : Except String Unit := do
  b.createDestination targetType config
  b.validateConfig targetType config

/-- The task of such a target ends by itself. -/
def Backend.isDoomed (t : PushTarget Json) : Bool :=
  !b.eventBus || !(b.createDestination t.targetType t.config).isOk || (PushTask.start t 0).isNone

/-- The target that `create_target` saves. -/
def CreateTargetRequest.target (request : CreateTargetRequest Json) (uuid : String) (now : ℤ) :
    Except String (PushTarget Json) := do
  let targetType ← parseTargetType request.targetType
  b.check targetType request.config
  return {
    id := uuid
    name := request.name
    enabled := request.enabled.getD true
    targetType := targetType
    config := request.config
    schedule := request.schedule
    dataFilter := request.dataFilter
    template := request.template
    retryConfig := request.retryConfig.getD RetryConfig.default
    batchConfig := request.batchConfig.getD BatchConfig.default
    createdAt := now
    updatedAt := now }

/-- The target that `update_target` saves.  Its configuration is checked only if the request has
one. -/
def UpdateTargetRequest.apply (request : UpdateTargetRequest Json) (t : PushTarget Json)
    (now : ℤ) : Except String (PushTarget Json) := do
  let targetType ←
    match request.targetType with
    | none => pure t.targetType
    | some name => parseTargetType name
  match request.config with
  | none => pure ()
  | some config => b.check targetType config
  return {
    id := t.id
    name := request.name.getD t.name
    enabled := request.enabled.getD t.enabled
    targetType := targetType
    config := request.config.getD t.config
    schedule := request.schedule.getD t.schedule
    dataFilter := request.dataFilter.getD t.dataFilter
    template := request.template.or t.template
    retryConfig := request.retryConfig.getD t.retryConfig
    batchConfig := request.batchConfig.getD t.batchConfig
    createdAt := t.createdAt
    updatedAt := now }

end

/-! ## Calls -/

/-- The operations. -/
inductive Operation (Json : Type) : Type where
  | createTarget (request : CreateTargetRequest Json)
  | updateTarget (id : String) (request : UpdateTargetRequest Json)
  | deleteTarget (id : String)
  | startTarget (id : String)
  | stopTarget (id : String)
  | startEnabledTargets

/-- What an operation returns. -/
inductive Reply (Json : Type) : Type where
  | unit
  | target (t : PushTarget Json)
  | deleted (existed : Bool)

/-- What an operation makes of a target that it has loaded. -/
inductive Change (Json : Type) : Type where
  | update (request : UpdateTargetRequest Json)
  | start
  | stop

/-- What a call does after `start`. -/
inductive AfterStart (Json : Type) : Type where
  | reply (r : Reply Json)
  /-- `start_enabled_targets` goes on with the others. -/
  | startAll (targets : List (PushTarget Json))

/-- What a call does after `stop`. -/
inductive AfterStop (Json : Type) : Type where
  /-- `start` spawns the task. -/
  | spawn (t : PushTarget Json) (after : AfterStart Json)
  /-- `update_target` starts the target that it has saved, if it is enabled. -/
  | restart (t : PushTarget Json)
  /-- `stop_target` returns. -/
  | done (t : PushTarget Json)
  /-- `delete_target` deletes the row. -/
  | delete (id : String)

/-- The section that is next in a call. -/
inductive PushCall (Json : Type) : Type where
  | create (request : CreateTargetRequest Json)
  | load (id : String) (change : Change Json)
  | save (t : PushTarget Json) (change : Change Json)
  | list
  /-- `stop` takes the handle. -/
  | stop (after : AfterStop Json)
  /-- `stop` waits for the task. -/
  | join (task : ℕ) (after : AfterStop Json)
  /-- `start` inserts the handle. -/
  | insert (t : PushTarget Json) (task : ℕ) (after : AfterStart Json)
  | delete (id : String)
  | returned (result : Except String (Reply Json))

section

variable {Json : Type}

/-- The first section. -/
def Operation.call : Operation Json → PushCall Json
  | .createTarget request => .create request
  | .updateTarget id request => .load id (.update request)
  | .deleteTarget id => .stop (.delete id)
  | .startTarget id => .load id .start
  | .stopTarget id => .load id .stop
  | .startEnabledTargets => .list

/-- The target that is saved. -/
def Change.apply (b : Backend Json) (change : Change Json) (t : PushTarget Json) (now : ℤ) :
    Except String (PushTarget Json) :=
  match change with
  | .update request => request.apply b t now
  | .start => .ok { t with enabled := true, updatedAt := now }
  | .stop => .ok { t with enabled := false, updatedAt := now }

/-- After the target is saved, it is stopped. -/
def Change.after (change : Change Json) (t : PushTarget Json) : AfterStop Json :=
  match change with
  | .update _ => .restart t
  | .start => .spawn t (.reply .unit)
  | .stop => .done t

/-- After a target is started. -/
def AfterStart.next : AfterStart Json → PushCall Json
  | .reply r => .returned (.ok r)
  | .startAll [] => .returned (.ok .unit)
  | .startAll (t :: targets) => .stop (.spawn t (.startAll targets))

/-- The target that is stopped. -/
def AfterStop.id : AfterStop Json → String
  | .spawn t _ | .restart t | .done t => t.id
  | .delete id => id

/-- A target that was saved is started, if it is enabled. -/
def startIfEnabled (t : PushTarget Json) : PushCall Json :=
  if t.enabled then .stop (.spawn t (.reply (.target t))) else .returned (.ok (.target t))

end

/-! ## The state -/

/-- A task that was spawned. -/
structure ScheduledTask (Json : Type) where
  target : PushTarget Json
  /-- The stop signal was sent, or its sender was dropped. -/
  cancelled : Bool
  ended : Bool

/-- The stop signal is sent, or dropped. -/
def ScheduledTask.cancel {Json : Type} (task : ScheduledTask Json) : ScheduledTask Json :=
  { task with cancelled := true }

/-- `PushManager` with its scheduler, the tasks that were spawned, and the calls. -/
structure PushManager (Json : Type) where
  store : KeyedMap String (PushTarget Json) PushTarget.id
  /-- The handle of a task is its number. -/
  handles : HashMap String ℕ
  tasks : List (ScheduledTask Json)
  calls : List (PushCall Json)
  /-- The ids that were given to targets. -/
  ids : List String
  /-- The ids whose rows were deleted. -/
  deleted : List String

/-- What happens next, with the id and the time that are made up. -/
inductive ManagerLabel (Json : Type) : Type where
  | call (op : Operation Json)
  | run (n : ℕ) (uuid : String) (now : ℤ)
  | taskEnds (k : ℕ)

namespace PushManager

section

variable {Json : Type} (b : Backend Json)

/-- The server has opened the store, and starts the targets that are enabled. -/
def boot (store : KeyedMap String (PushTarget Json) PushTarget.id) : PushManager Json where
  store := store
  handles := ∅
  tasks := []
  calls := [Operation.startEnabledTargets.call]
  ids := store.values.map PushTarget.id
  deleted := []

/-- `list_targets`, in the order of the ids. -/
def listTargets (s : PushManager Json) : List (PushTarget Json) :=
  s.store.values.insertionSort fun t u => t.id ≤ u.id

def cancel (s : PushManager Json) (k : ℕ) : PushManager Json :=
  { s with tasks := s.tasks.modify k ScheduledTask.cancel }

/-- After `stop`. -/
def resume (s : PushManager Json) : AfterStop Json → PushManager Json × PushCall Json
  | .spawn t after =>
    ({ s with tasks := s.tasks ++ [⟨t, false, false⟩] }, .insert t s.tasks.length after)
  | .restart t => (s, startIfEnabled t)
  | .done _ => (s, .returned (.ok .unit))
  | .delete id => (s, .delete id)

/-- A handle that is replaced is dropped. -/
def dropHandle (s : PushManager Json) (id : String) : PushManager Json :=
  match s.handles.lookup id with
  | none => s
  | some old => s.cancel old

/-- A section of a call. -/
def runSection (s : PushManager Json) (uuid : String) (now : ℤ) :
    PushCall Json → Option (PushManager Json × PushCall Json)
  | .create request =>
    match request.target b uuid now with
    | .error e => some (s, .returned (.error e))
    | .ok t =>
      if uuid ∈ s.ids then none
      else some ({ s with store := s.store.put t, ids := uuid :: s.ids }, startIfEnabled t)
  | .load id change =>
    match s.store.lookup id with
    | none => some (s, .returned (.error ("Target not found: " ++ id)))
    | some loaded =>
      match change.apply b loaded now with
      | .error e => some (s, .returned (.error e))
      | .ok t => some (s, .save t change)
  | .save t change => some ({ s with store := s.store.put t }, .stop (change.after t))
  | .list =>
    some (s, (AfterStart.startAll (s.listTargets.filter fun t => t.enabled)).next)
  | .stop after =>
    match s.handles.lookup after.id with
    | none => some (s.resume after)
    | some k =>
      some ({ s.cancel k with handles := s.handles.erase after.id }, .join k after)
  | .join k after =>
    if (s.tasks[k]?).any ScheduledTask.ended then some (s.resume after) else none
  | .insert t k after =>
    some ({ s.dropHandle t.id with handles := s.handles.insert t.id k }, after.next)
  | .delete id =>
    match s.store.lookup id with
    | none => some (s, .returned (.ok (.deleted false)))
    | some _ =>
      some ({ s with store := s.store.erase id, deleted := id :: s.deleted },
        .returned (.ok (.deleted true)))
  | .returned _ => none

/-- One step.  A task ends when it is cancelled, or by itself if it cannot run. -/
def step (s : PushManager Json) : ManagerLabel Json → Option (PushManager Json)
  | .call op => some { s with calls := s.calls ++ [op.call] }
  | .run n uuid now =>
    match s.calls[n]? with
    | none => none
    | some call =>
      (s.runSection b uuid now call).map fun r => { r.1 with calls := r.1.calls.set n r.2 }
  | .taskEnds k =>
    match s.tasks[k]? with
    | none => none
    | some task =>
      if task.cancelled || b.isDoomed task.target then
        some { s with tasks := s.tasks.set k { task with ended := true } }
      else none

end

end PushManager

end HeraMind.Push
