/-
# The message manager

`MessageManager` (`crates/heramind-messages/src/manager.rs`) keeps the messages in memory and in a
store, and sends new ones through its channels.  Its operations run concurrently: a call runs in
sections, from one `await` to the next, and the sections of all calls interleave.  Storage calls and
sends may fail, and channels may be changed at any moment.

Besides what the source keeps, the state records which messages were created, handed to a channel,
delivered by one, suppressed as duplicates, or entered into the dedup cache, and when.
-/
import HeraMind.Messages.Message

namespace HeraMind.Messages

/-! ## Calls -/

/-- `Error`, as far as the operations return it. -/
inductive Error : Type where
  | notFound (text : String)
  | storage (text : String)
  | invalidConfiguration (text : String)
  deriving DecidableEq

/-- The operations on one message that change its status. -/
inductive Change : Type where
  | acknowledge
  | resolve
  | archive

def Change.status : Change → MessageStatus
  | .acknowledge => .acknowledged
  | .resolve => .resolved
  | .archive => .archived

/-- The operations. -/
inductive Operation (Json : Type) : Type where
  | createMessage (m : Message Json)
  | acknowledge (id : String)
  | resolve (id : String)
  | archive (id : String)
  | delete (id : String)
  | deleteMultiple (ids : List String)
  | acknowledgeMultiple (ids : List String)
  | resolveMultiple (ids : List String)
  | cleanupOld (olderThanDays : ℤ)
  | clear

/-- What an operation returns. -/
inductive Reply (Json : Type) : Type where
  | unit
  | message (m : Message Json)
  | count (n : ℕ)

/-- The section that is next in a call. -/
inductive MessageCall (Json : Type) : Type where
  /-- `create_message` looks into the dedup cache. -/
  | check (m : Message Json)
  /-- A duplicate is only stored. -/
  | storeDuplicate (m : Message Json)
  | insertDuplicate (m : Message Json)
  | store (m : Message Json)
  | insert (m : Message Json)
  | listChannels (m : Message Json)
  /-- The channels that are left. -/
  | sendAll (m : Message Json) (names : List String)
  /-- A channel is sending the message. -/
  | send (m : Message Json) (names : List String)
  | publish (m : Message Json)
  | updateCache (m : Message Json)
  /-- The message is changed in memory. -/
  | change (c : Change) (id : String)
  /-- Its row is updated. -/
  | update (c : Change) (row : StoredMessage Json)
  | publishChange (c : Change) (id : String)
  | remove (id : String)
  | deleteRow (id : String)
  | removeMany (ids : List String)
  | deleteRows (ids : List String) (count : ℕ)
  | changeMany (c : Change) (ids : List String)
  | updateRows (rows : List (StoredMessage Json)) (count : ℕ)
  | cleanup (olderThanDays : ℤ)
  /-- `cleanup_old` has read the clock, and waits for the lock of the map. -/
  | retain (olderThanDays cutoff : ℤ)
  /-- It holds the lock, and has removed these messages. -/
  | cleanupRows (olderThanDays : ℤ) (removed : List String)
  | clearMemory
  | clearRows
  | returned (result : Except Error (Reply Json))

/-- The first section. -/
def Operation.call {Json : Type} : Operation Json → MessageCall Json
  | .createMessage m => .check m
  | .acknowledge id => .change .acknowledge id
  | .resolve id => .change .resolve id
  | .archive id => .change .archive id
  | .delete id => .remove id
  | .deleteMultiple ids => .removeMany ids
  | .acknowledgeMultiple ids => .changeMany .acknowledge ids
  | .resolveMultiple ids => .changeMany .resolve ids
  | .cleanupOld olderThanDays => .cleanup olderThanDays
  | .clear => .clearMemory

/-- `HeraMindEvent`, as far as the manager publishes it. -/
inductive Event : Type where
  | messageCreated (messageId title severity message : String) (timestamp : ℤ)
  | messageAcknowledged (messageId acknowledgedBy : String) (timestamp : ℤ)
  | messageResolved (messageId : String) (timestamp : ℤ)

/-- The event after a change. -/
def Change.event (c : Change) (id : String) (now : ℤ) : List Event :=
  match c with
  | .acknowledge => [.messageAcknowledged id "api" (now / second)]
  | .resolve => [.messageResolved id (now / second)]
  | .archive => []

/-! ## The state -/

/-- Something that happened to the message of a call. -/
structure Mark (Json : Type) where
  call : ℕ
  message : Message Json
  time : ℤ

abbrev MessageMap (Json : Type) := KeyedMap String (Message Json) Message.id

/-- `MessageStore`. -/
abbrev MessageStore (Json : Type) := KeyedMap String (StoredMessage Json) StoredMessage.id

/-- `MessageManager`, the calls, and what has happened. -/
structure MessageManager (Json : Type) where
  messages : MessageMap Json
  storage : Option (MessageStore Json)
  channels : HashMap String Channel
  eventBus : Bool
  dedupCache : HashMap String ℤ
  calls : List (MessageCall Json)
  now : ℤ
  events : List Event
  created : List (Message Json)
  handed : List (Mark Json)
  delivered : List (Mark Json)
  suppressed : List (Mark Json)
  entered : List (Mark Json)

/-- What happens next, with the outcome of a storage call or of a send. -/
inductive ManagerLabel (Json : Type) : Type where
  | call (op : Operation Json)
  | run (n : ℕ) (outcome : Except String Unit)
  | setChannel (name : String) (channel : Channel)
  | removeChannel (name : String)
  | elapse (d : ℕ)

/-- `DEDUP_INTERVAL_SECS`. -/
def dedupInterval : ℤ := 60

section

variable {Json : Type}

/-- Change some messages, and collect the rows. -/
def changeAll (c : Change) : MessageMap Json → List String →
    MessageMap Json × List (StoredMessage Json)
  | messages, [] => (messages, [])
  | messages, id :: ids =>
    match messages.lookup id with
    | none => changeAll c messages ids
    | some m =>
      let r := changeAll c (messages.put { m with status := c.status }) ids
      (r.1, Message.toStored { m with status := c.status } :: r.2)

/-- Remove some values of a map. -/
def removeAll {β : Type} {key : β → String} (map : KeyedMap String β key) (ids : List String) :
    KeyedMap String β key :=
  ids.foldl KeyedMap.erase map

/-- The messages before a cutoff. -/
def olderThan (messages : MessageMap Json) (cutoff : ℤ) : List String :=
  (messages.values.filter fun m => decide (m.timestamp < cutoff)).map Message.id

/-- The rows that `MessageStore::cleanup_old` removes. -/
def oldRows (rows : MessageStore Json) (olderThanDays now : ℤ) : List String :=
  (rows.values.filter fun row =>
    decide (row.timestamp < now / second - olderThanDays * 86400)).map StoredMessage.id

namespace MessageManager

variable (s : MessageManager Json)

/-- A message with the same key was sent recently. -/
def isDuplicate (m : Message Json) : Bool :=
  (s.dedupCache.lookup m.dedupKey).any fun lastSent =>
    decide ((s.now - lastSent).tdiv second < dedupInterval)

/-- The dedup cache after a message was sent.  Old entries are pruned. -/
def remember (m : Message Json) : HashMap String ℤ :=
  let cache : HashMap String ℤ := s.dedupCache.insert m.dedupKey s.now
  HashMap.removeAll cache (cache.keys.filter fun key =>
    (cache.lookup key).any fun lastSent =>
      decide (lastSent ≤ s.now - dedupInterval * 5 * second))

/-- `cleanup_old` holds the lock of the map. -/
def isCleaning : Bool :=
  s.calls.any fun
    | .cleanupRows _ _ => true
    | _ => false

/-- A duplicate is being stored, under the lock of the dedup cache. -/
def isStoringDuplicate : Bool :=
  s.calls.any fun
    | .storeDuplicate _ | .insertDuplicate _ => true
    | _ => false

/-- A storage call that was made. -/
def persist (f : MessageStore Json → MessageStore Json) : MessageManager Json :=
  { s with storage := s.storage.map f }

/-- A row is inserted or updated, if the storage call succeeds. -/
def putRow (row : StoredMessage Json) (outcome : Except String Unit) : MessageManager Json :=
  match outcome with
  | .ok () => s.persist fun rows => rows.put row
  | .error _ => s

/-- A row is deleted, if the storage call succeeds. -/
def eraseRow (id : String) (outcome : Except String Unit) : MessageManager Json :=
  match outcome with
  | .ok () => s.persist fun rows => rows.erase id
  | .error _ => s

/-- The call goes on if there is no storage, or the storage call succeeds. -/
def afterStorage (outcome : Except String Unit) (failure : String) (next : MessageCall Json) :
    MessageCall Json :=
  match s.storage, outcome with
  | some _, .error e => .returned (.error (.storage (failure ++ e)))
  | _, _ => next

/-- The next channel gets the message, if it is enabled and its filter matches. -/
def accepts (m : Message Json) (name : String) : Bool :=
  (s.channels.lookup name).any fun channel => channel.enabled && channel.filter.matches m

def notFound (id : String) : MessageCall Json :=
  .returned (.error (.notFound ("Message not found: " ++ id)))

/-- A section in which a call changes the messages in memory. -/
def memorySection : MessageCall Json → Option (MessageManager Json × MessageCall Json)
  | .storeDuplicate m => some ({ s with messages := s.messages.put m }, .insertDuplicate m)
  | .store m => some ({ s with messages := s.messages.put m }, .insert m)
  | .change c id =>
    match s.messages.lookup id with
    | none => some (s, notFound id)
    | some m =>
      some ({ s with messages := s.messages.put { m with status := c.status } },
        .update c (Message.toStored { m with status := c.status }))
  | .remove id =>
    match s.messages.lookup id with
    | none => some (s, notFound id)
    | some _ => some ({ s with messages := s.messages.erase id }, .deleteRow id)
  | .removeMany ids =>
    let messages := removeAll s.messages ids
    some ({ s with messages := messages },
      .deleteRows ids (s.messages.values.length - messages.values.length))
  | .changeMany c ids =>
    let r := changeAll c s.messages ids
    some ({ s with messages := r.1 }, .updateRows r.2 r.2.length)
  | .retain olderThanDays cutoff =>
    let removed := olderThan s.messages cutoff
    some ({ s with messages := removeAll s.messages removed },
      .cleanupRows olderThanDays removed)
  | .clearMemory => some ({ s with messages := KeyedMap.empty }, .clearRows)
  | _ => none

/-- A section in which a call changes the rows of the store. -/
def storageSection (outcome : Except String Unit) :
    MessageCall Json → Option (MessageManager Json × MessageCall Json)
  | .insertDuplicate m =>
    some (s.putRow m.toStored outcome, .returned (.ok (.message m)))
  | .insert m =>
    some (s.putRow m.toStored outcome,
      s.afterStorage outcome "Failed to persist message: " (.listChannels m))
  | .update c row =>
    some (s.putRow row outcome,
      s.afterStorage outcome "Failed to update message: " (.publishChange c row.id))
  | .deleteRow id =>
    some (s.eraseRow id outcome,
      s.afterStorage outcome "Failed to delete message: " (.returned (.ok .unit)))
  | .deleteRows [] count => some (s, .returned (.ok (.count count)))
  | .deleteRows (id :: ids) count => some (s.eraseRow id outcome, .deleteRows ids count)
  | .updateRows [] count => some (s, .returned (.ok (.count count)))
  | .updateRows (row :: rows) count => some (s.putRow row outcome, .updateRows rows count)
  | .cleanupRows olderThanDays removed =>
    some (match outcome with
        | .ok () => s.persist fun rows => removeAll rows (oldRows rows olderThanDays s.now)
        | .error _ => s,
      s.afterStorage outcome "Failed to cleanup messages: "
        (.returned (.ok (.count removed.length))))
  | .clearRows =>
    some (match outcome with
        | .ok () => s.persist fun _ => KeyedMap.empty
        | .error _ => s,
      s.afterStorage outcome "Failed to clear messages: " (.returned (.ok .unit)))
  | _ => none

/-- A section in which a call looks into the dedup cache, or sends its message. -/
def sendSection (n : ℕ) (outcome : Except String Unit) :
    MessageCall Json → Option (MessageManager Json × MessageCall Json)
  | .check m =>
    if s.isDuplicate m then
      some ({ s with suppressed := ⟨n, m, s.now⟩ :: s.suppressed }, .storeDuplicate m)
    else some (s, .store m)
  | .listChannels m => some (s, .sendAll m s.channels.keys)
  | .sendAll m [] => some (s, .publish m)
  | .sendAll m (name :: names) =>
    if s.accepts m name then
      some ({ s with handed := ⟨n, m, s.now⟩ :: s.handed }, .send m names)
    else some (s, .sendAll m names)
  | .send m names =>
    match outcome with
    | .ok () => some ({ s with delivered := ⟨n, m, s.now⟩ :: s.delivered }, .sendAll m names)
    | .error _ => some (s, .sendAll m names)
  | .publish m =>
    some ({ s with
        events :=
          if s.eventBus then
            s.events ++
              [.messageCreated m.id m.title m.severity.asStr m.message (m.timestamp / second)]
          else s.events },
      .updateCache m)
  | .updateCache m =>
    if s.isStoringDuplicate then none
    else
      some ({ s with dedupCache := s.remember m, entered := ⟨n, m, s.now⟩ :: s.entered },
        .returned (.ok (.message m)))
  | .publishChange c id =>
    some ({ s with
        events := if s.eventBus then s.events ++ c.event id s.now else s.events },
      .returned (.ok .unit))
  | .cleanup olderThanDays =>
    some (s, .retain olderThanDays (s.now - olderThanDays * 86400 * second))
  | _ => none

/-- A section of a call.  The map is not changed while `cleanup_old` holds its lock. -/
def runSection (n : ℕ) (outcome : Except String Unit) (call : MessageCall Json) :
    Option (MessageManager Json × MessageCall Json) :=
  match s.memorySection call with
  | some r => if s.isCleaning then none else some r
  | none => (s.storageSection outcome call).or (s.sendSection n outcome call)

/-- One step. -/
def step : ManagerLabel Json → Option (MessageManager Json)
  | .call op =>
    some { s with
      calls := s.calls ++ [op.call]
      created :=
        match op with
        | .createMessage m => m :: s.created
        | _ => s.created }
  | .run n outcome =>
    match s.calls[n]? with
    | none => none
    | some call =>
      (s.runSection n outcome call).map fun r => { r.1 with calls := r.1.calls.set n r.2 }
  | .setChannel name channel => some { s with channels := s.channels.insert name channel }
  | .removeChannel name => some { s with channels := s.channels.erase name }
  | .elapse d => some { s with now := s.now + d }

/-- A call that runs has a section, and goes on from there. -/
theorem step_run {s s' : MessageManager Json} {n : ℕ} {outcome : Except String Unit}
    (h : s.step (.run n outcome) = some s') : ∃ call s₁ call', s.calls[n]? = some call ∧
      s.runSection n outcome call = some (s₁, call') ∧
      s' = { s₁ with calls := s₁.calls.set n call' } := by
  simp only [step] at h
  split at h
  · cases h
  · rename_i call hn
    obtain ⟨⟨s₁, call'⟩, hr, rfl⟩ := Option.map_eq_some_iff.mp h
    exact ⟨call, s₁, call', hn, hr, rfl⟩

/-- The manager when it is opened, with the rows of its store in memory. -/
def opened (lower : Lowercase) (rows : Option (MessageStore Json))
    (channels : HashMap String Channel) (eventBus : Bool) (now : ℤ) : MessageManager Json where
  messages :=
    match rows with
    | none => KeyedMap.empty
    | some rows =>
      (rows.values.map (StoredMessage.toMessage lower)).foldl KeyedMap.put KeyedMap.empty
  storage := rows
  channels := channels
  eventBus := eventBus
  dedupCache := ∅
  calls := []
  now := now
  events := []
  created := []
  handed := []
  delivered := []
  suppressed := []
  entered := []

end MessageManager

end

/-! ## Sample runs -/

namespace Sample

/-- The texts of these runs are in lowercase. -/
def lower : Lowercase := ⟨id, fun _ _ => rfl⟩

def alert (id title source : String) : Message Unit where
  id := id
  category := "alert"
  severity := .warning
  title := title
  message := ""
  source := source
  sourceType := "rule"
  timestamp := 0
  status := .active
  metadata := none
  tags := []

/-- The sections of one call. -/
def sections (n count : ℕ) : List (ManagerLabel Unit) :=
  List.replicate count (.run n (.ok ()))

def seconds (d : ℕ) : ManagerLabel Unit := .elapse (d * 1000000000)

end Sample

end HeraMind.Messages
