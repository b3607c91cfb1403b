/-
# The task of a push target

`spawn_event_driven` and `spawn_interval` (`crates/heramind-data-push/src/scheduler.rs`) run a task
for a target: it reads events from the bus, lets the matcher decide which are pushed, and delivers
each at once in a task of its own, or buffers them for a batch.  The task runs in steps from one
`await` to the next.  Besides what the source keeps, the state numbers the events that passed the
matcher and says where each of them has gone.
-/
import HeraMind.Lib.KeyedMap
import HeraMind.Push.Delivery

namespace HeraMind.Push

/-! ## Targets -/

/-- `PushSchedule`. -/
inductive PushSchedule : Type where
  | eventDriven (eventTypes : List String)
  | interval (intervalSecs : ℕ)
  deriving DecidableEq

/-- `DataSourceFilter`. -/
structure DataSourceFilter where
  sourcePatterns : List String
  onlyChanges : Bool
  deriving DecidableEq

/-- A pattern is a prefix, with or without a star behind it. -/
def matchesPattern (sourceId pattern : String) : Bool :=
  if pattern = "*" then true
  else if pattern.toList.getLast? = some '*' then
    decide (pattern.toList.dropLast <+: sourceId.toList)
  else decide (pattern.toList <+: sourceId.toList) || decide (sourceId = pattern)

/-- `matches`. -/
def DataSourceFilter.matches (f : DataSourceFilter) (sourceId : String) : Bool :=
  f.sourcePatterns.isEmpty || f.sourcePatterns.any (matchesPattern sourceId)

/-- `PushTargetType`. -/
inductive PushTargetType : Type where
  | webhook
  | mqtt
  deriving DecidableEq

/-- `PushTarget`. -/
structure PushTarget (Json : Type) where
  id : String
  name : String
  enabled : Bool
  targetType : PushTargetType
  config : Json
  schedule : PushSchedule
  dataFilter : DataSourceFilter
  template : Option String
  retryConfig : RetryConfig
  batchConfig : BatchConfig
  createdAt : ℤ
  updatedAt : ℤ

/-- What a delivery reads of a target. -/
def PushTarget.destination {Json : Type} (t : PushTarget Json) : Destination where
  targetId := t.id
  template := t.template
  retry := t.retryConfig
  format := t.batchConfig.format

/-! ## The matcher -/

/-- `DataSourceMatcher`. -/
structure DataSourceMatcher where
  filter : DataSourceFilter
  lastValues : HashMap String String

/-- `MAX_LAST_VALUES`. -/
def maxLastValues : ℕ := 4096

namespace DataSourceMatcher

variable (m : DataSourceMatcher)

/-- The map is full, and the source is not in it. -/
def isFull (sourceId : String) : Bool :=
  decide (maxLastValues ≤ m.lastValues.keys.length) && (m.lastValues.lookup sourceId).isNone

/-- A half of the keys, which the order of a hash map picks. -/
def IsHalf (kept : List String) : Prop :=
  kept.Nodup ∧ kept.length = maxLastValues / 2 ∧ ∀ k ∈ kept, k ∈ m.lastValues.keys

instance (kept : List String) : Decidable (m.IsHalf kept) := by
  unfold IsHalf
  infer_instance

def keep (kept : List String) : DataSourceMatcher :=
  { m with lastValues :=
      HashMap.removeAll m.lastValues (m.lastValues.keys.filter fun k => decide (k ∉ kept)) }

/-- The source is pushed for changes only, and this is its last value. -/
def isUnchanged (sourceId value : String) : Bool :=
  m.filter.onlyChanges && decide (m.lastValues.lookup sourceId = some value)

def record (sourceId value : String) : DataSourceMatcher :=
  { m with lastValues := m.lastValues.insert sourceId value }

/-- `should_push`: the matcher after an event that is to be pushed. -/
def shouldPush (sourceId value : String) (kept : List String) : Option DataSourceMatcher :=
  if m.filter.matches sourceId && !m.isUnchanged sourceId value then
    some ((if m.isFull sourceId then m.keep kept else m).record sourceId value)
  else none

end DataSourceMatcher

/-! ## Virtual metrics -/

/-- When values of virtual metrics were seen. -/
abbrev RecentVirtual := HashMap (String × String × ℤ) ℕ

/-- `VIRTUAL_DEDUP_WINDOW_SECS`, in milliseconds. -/
def virtualDedupWindow : ℕ := 5 * 1000

/-- The value was seen within the window. -/
def RecentVirtual.isDuplicate (recent : RecentVirtual) (key : String × String × ℤ) (now : ℕ) :
    Bool :=
  (recent.lookup key).any fun seen => decide (now - seen < virtualDedupWindow)

/-- The value is seen now. -/
def RecentVirtual.record (recent : RecentVirtual) (key : String × String × ℤ) (now : ℕ) :
    RecentVirtual :=
  let inserted : RecentVirtual := recent.insert key now
  if 512 < inserted.keys.length then
    HashMap.removeAll inserted (inserted.keys.filter fun key => !inserted.isDuplicate key now)
  else inserted

/-! ## Events -/

/-- `HeraMindEvent`, as far as it is pushed. -/
inductive Event (Json : Type) : Type where
  | deviceMetric (deviceId metric : String) (value : Json) (timestamp : ℤ)
      (isVirtual : Option Bool)
  | extensionOutput (extensionId outputName : String) (value : Json) (timestamp : ℤ)
  | alertCreated
  | other
  deriving DecidableEq

namespace Event

variable {Json : Type}

def typeName : Event Json → Option String
  | .deviceMetric _ _ _ _ _ => some "device_metric"
  | .extensionOutput _ _ _ _ => some "extension_output"
  | .alertCreated => some "alert_created"
  | .other => none

/-- `matches_event_type`. -/
def matchesType (e : Event Json) (eventTypes : List String) : Bool :=
  eventTypes.isEmpty || e.typeName.any fun name => decide (name ∈ eventTypes)

/-- `extract_event_data`. -/
def extract : Event Json → Option (Entry Json × Bool)
  | .deviceMetric deviceId metric value timestamp isVirtual =>
    some (⟨"device:" ++ deviceId ++ ":" ++ metric, value, timestamp⟩, isVirtual.getD false)
  | .extensionOutput extensionId outputName value timestamp =>
    some (⟨"extension:" ++ extensionId ++ ":" ++ outputName, value, timestamp⟩, false)
  | .alertCreated | .other => none

end Event

/-- What a task finds around it: the text of a value, the images that are inlined, and the
printer of payloads. -/
structure Env (Json : Type) where
  text : Json → String
  resolveImageUrls : Json → Json
  renderer : Renderer Json

/-! ## The state -/

/-- How a delivery was started. -/
inductive DeliveryKind : Type where
  | immediate
  | flush
  | lastFlush
  deriving DecidableEq

/-- Whether a delivery listens to the stop signal, and its timeout. -/
def DeliveryKind.config (kind : DeliveryKind) (retry : RetryConfig) : LoopConfig :=
  match kind with
  | .immediate | .flush => ⟨retry, true, none⟩
  | .lastFlush => ⟨retry, false, some teardownTimeout⟩

/-- Where a delivery is. -/
inductive DeliveryState (Json : Type) : Type where
  | spawned (entry : Entry Json)
  /-- The entry could not be rendered. -/
  | unrendered
  | running (l : RetryLoop)
  deriving DecidableEq

/-- A delivery of events, which are given by their numbers. -/
structure Delivery (Json : Type) where
  ids : List ℕ
  kind : DeliveryKind
  state : DeliveryState Json

namespace Delivery

variable {Json : Type} (d : Delivery Json)

def isOver : Bool :=
  match d.state with
  | .spawned _ => false
  | .unrendered => true
  | .running l =>
    match l.pc with
    | .returned _ | .dropped => true
    | _ => false

/-- A send went through. -/
def isDelivered : Bool :=
  match d.state with
  | .running l => decide (.ok () ∈ l.sends)
  | _ => false

/-- It holds a permit. -/
def isInFlight : Bool := decide (d.kind = .immediate) && !d.isOver

end Delivery

/-- An event that passed the matcher. -/
structure Accepted where
  index : ℕ
  sourceId : String
  value : String

inductive TaskPc : Type where
  | listening
  /-- The delivery of this place is awaited. -/
  | flushing (i : ℕ)
  | lastFlush (i : ℕ)
  | stopped
  deriving DecidableEq

/-- The task of a target. -/
structure PushTask (Json : Type) where
  matcher : DataSourceMatcher
  recentVirtual : RecentVirtual
  buffer : List (ℕ × Entry Json)
  flushTimer : ℕ
  /-- The deliveries that were started, in their order. -/
  deliveries : List (Delivery Json)
  pc : TaskPc
  /-- Milliseconds. -/
  now : ℕ
  stopSent : Bool
  /-- The events that passed the matcher, newest first. -/
  accepted : List Accepted
  /-- Those for which there was no permit. -/
  dropped : List ℕ
  deduplicated : List ℕ
  /-- Those that a batch leaves out. -/
  leftOut : List ℕ

/-- What happens next, with the ids and times that are made up. -/
inductive TaskLabel (Json : Type) : Type where
  | event (e : Event Json) (kept : List String) (logId : String) (time : ℤ)
  | timer (logId : String) (time : ℤ)
  /-- The handle of the target is stopped, or dropped. -/
  | sendStop
  | stop (logId : String) (time : ℤ)
  | close (logId : String) (time : ℤ)
  | render (i : ℕ) (logId : String) (time : ℤ)
  | deliver (i : ℕ) (a : LoopLabel)
  | resume
  | elapse (d : ℕ)

/-- `DATA_PUSH_MAX_INFLIGHT_DELIVERIES`. -/
def maxInflightDeliveries : ℕ := 4

/-- `DATA_PUSH_MAX_BUFFER_ENTRIES`. -/
def maxBufferEntries : ℕ := 1000

namespace PushTask

section

variable {Json : Type} (env : Env Json) (target : PushTarget Json)

/-- Before the first event.  An interval of no length panics. -/
def start (now : ℕ) : Option (PushTask Json) :=
  let task : ℕ → PushTask Json := fun flushTimer =>
    { matcher := ⟨target.dataFilter, ∅⟩
      recentVirtual := ∅
      buffer := []
      flushTimer := flushTimer
      deliveries := []
      pc := .listening
      now := now
      stopSent := false
      accepted := []
      dropped := []
      deduplicated := []
      leftOut := [] }
  match target.schedule with
  | .eventDriven _ => some (task (now + target.batchConfig.batchIntervalMs))
  | .interval secs => if secs = 0 then none else some (task (now + secs * 1000))

/-- The timer after a flush that it triggered, or that a full buffer did. -/
def nextFlush (s : PushTask Json) : ℕ :=
  match target.schedule with
  | .eventDriven _ => s.now + target.batchConfig.batchIntervalMs
  | .interval secs => s.flushTimer + secs * 1000

/-- `flush_batch` is called. -/
def flush (s : PushTask Json) (kind : DeliveryKind) (awaiting : ℕ → TaskPc) (done : TaskPc)
    (logId : String) (time : ℤ) : PushTask Json :=
  let sent := s.buffer.filter fun e => !isRawMetric e.2.sourceId
  let raw := s.buffer.filter fun e => isRawMetric e.2.sourceId
  let s := { s with buffer := [], leftOut := raw.map Prod.fst ++ s.leftOut }
  match flushBatch env.renderer target.destination (sent.map Prod.snd) logId time with
  | none => { s with pc := done, leftOut := sent.map Prod.fst ++ s.leftOut }
  | some l =>
    { s with
      pc := awaiting s.deliveries.length
      deliveries := s.deliveries ++ [⟨sent.map Prod.fst, kind, .running l⟩] }

/-- The number of permits that are taken. -/
def inFlight (s : PushTask Json) : ℕ := (s.deliveries.filter Delivery.isInFlight).length

/-- An event is delivered in a task of its own, if there is a permit. -/
def spawnDelivery (s : PushTask Json) (i : ℕ) (entry : Entry Json) : PushTask Json :=
  if s.inFlight < maxInflightDeliveries then
    { s with deliveries := s.deliveries ++ [⟨[i], .immediate, .spawned entry⟩] }
  else { s with dropped := i :: s.dropped }

/-- An event is buffered.  The timer starts with the first event of a batch. -/
def push (s : PushTask Json) (i : ℕ) (entry : Entry Json) : PushTask Json :=
  { s with
    buffer := s.buffer ++ [(i, entry)]
    flushTimer :=
      match target.schedule with
      | .eventDriven _ =>
        if s.buffer.isEmpty then s.now + target.batchConfig.batchIntervalMs else s.flushTimer
      | .interval _ => s.flushTimer }

/-- An event that passed the matcher, and is no copy, is handed on. -/
def handOn (s : PushTask Json) (i : ℕ) (entry : Entry Json) (logId : String) (time : ℤ) :
    PushTask Json :=
  match target.schedule with
  | .eventDriven _ =>
    if target.batchConfig.isEnabled then
      let s := s.push target i entry
      if target.batchConfig.batchSize ≤ s.buffer.length ∨ maxBufferEntries ≤ s.buffer.length then
        ({ s with flushTimer := s.nextFlush target }).flush env target .flush .flushing .listening
          logId time
      else s
    else s.spawnDelivery i entry
  | .interval _ => s.push target i entry

/-- The event is of a type that the target asks for. -/
def reads (e : Event Json) : Bool :=
  match target.schedule with
  | .eventDriven eventTypes => e.matchesType eventTypes
  | .interval _ => true

/-- An event passed the matcher. -/
def accept (s : PushTask Json) (entry : Entry Json) (isVirtual : Bool)
    (matcher : DataSourceMatcher) (logId : String) (time : ℤ) : PushTask Json :=
  let value := env.text entry.value
  let key := (entry.sourceId, value, entry.timestamp)
  let i := s.accepted.length
  let s := { s with
    matcher := matcher
    accepted := ⟨i, entry.sourceId, value⟩ :: s.accepted }
  if isVirtual && s.recentVirtual.isDuplicate key s.now then
    { s with deduplicated := i :: s.deduplicated }
  else
    let s := if isVirtual then { s with recentVirtual := s.recentVirtual.record key s.now } else s
    s.handOn env target i { entry with value := env.resolveImageUrls entry.value } logId time

/-- An event that is read. -/
def onEvent (s : PushTask Json) (e : Event Json) (kept : List String) (logId : String)
    (time : ℤ) : Option (PushTask Json) :=
  match e.extract with
  | none => some s
  | some (entry, isVirtual) =>
    if s.matcher.isFull entry.sourceId = true ∧ ¬ s.matcher.IsHalf kept then none
    else
      match s.matcher.shouldPush entry.sourceId (env.text entry.value) kept with
      | none => some s
      | some matcher => some (s.accept env target entry isVirtual matcher logId time)

/-- The last flush of a task. -/
def tearDown (s : PushTask Json) (logId : String) (time : ℤ) : PushTask Json :=
  if s.buffer.isEmpty then { s with pc := .stopped }
  else s.flush env target .lastFlush .lastFlush .stopped logId time

/-- `deliver_with_retry` begins. -/
def render (d : Delivery Json) (logId : String) (time : ℤ) : Option (Delivery Json) :=
  match d.state with
  | .spawned entry =>
    match deliverWithRetry env.renderer target.destination entry logId time with
    | .ok l => some { d with state := .running l }
    | .error _ => some { d with state := .unrendered }
  | _ => none

/-- A delivery goes on. -/
def deliver (d : Delivery Json) (stopSent : Bool) (a : LoopLabel) : Option (Delivery Json) :=
  match d.state, a with
  | .running _, .elapse _ => none
  | .running l, .cancelled now saves =>
    if stopSent then
      (l.step (d.kind.config target.retryConfig) (.cancelled now saves)).map fun l =>
        { d with state := .running l }
    else none
  | .running l, a =>
    (l.step (d.kind.config target.retryConfig) a).map fun l => { d with state := .running l }
  | _, _ => none

/-- Time passes for a delivery. -/
def elapse (d : Delivery Json) (ms : ℕ) : Delivery Json :=
  match d.state with
  | .running l => { d with state := .running { l with elapsed := l.elapsed + ms } }
  | _ => d

/-- One step. -/
def step (s : PushTask Json) : TaskLabel Json → Option (PushTask Json)
  | .event e kept logId time =>
    if s.pc = .listening then
      if reads target e then s.onEvent env target e kept logId time else some s
    else none
  | .timer logId time =>
    if s.pc = .listening ∧ s.flushTimer ≤ s.now then
      match target.schedule, s.buffer with
      | .eventDriven _, [] => none
      | .interval _, [] => some { s with flushTimer := s.nextFlush target }
      | _, _ =>
        some (({ s with flushTimer := s.nextFlush target }).flush env target .flush .flushing
          .listening logId time)
    else none
  | .sendStop => some { s with stopSent := true }
  | .stop logId time =>
    if s.pc = .listening ∧ s.stopSent = true then some (s.tearDown env target logId time)
    else none
  | .close logId time =>
    match target.schedule with
    | .eventDriven _ =>
      if s.pc = .listening then some (s.tearDown env target logId time) else none
    | .interval _ => none
  | .render i logId time =>
    match s.deliveries[i]? with
    | none => none
    | some d =>
      (render env target d logId time).map fun d => { s with deliveries := s.deliveries.set i d }
  | .deliver i a =>
    match s.deliveries[i]? with
    | none => none
    | some d =>
      (deliver target d s.stopSent a).map fun d => { s with deliveries := s.deliveries.set i d }
  | .resume =>
    match s.pc with
    | .flushing i =>
      if (s.deliveries[i]?).any Delivery.isOver then
        some { s with
          pc := .listening
          flushTimer :=
            match target.schedule with
            | .eventDriven _ => s.now + target.batchConfig.batchIntervalMs
            | .interval _ => s.flushTimer }
      else none
    | .lastFlush i =>
      if (s.deliveries[i]?).any Delivery.isOver then some { s with pc := .stopped } else none
    | _ => none
  | .elapse d =>
    some { s with
      now := s.now + d
      deliveries := s.deliveries.map fun delivery => elapse delivery d }

end

end PushTask

end HeraMind.Push
