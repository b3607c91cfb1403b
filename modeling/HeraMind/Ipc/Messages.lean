/-
# Messages

The messages from the host to the runner of an extension and the responses of the runner
(`crates/heramind-extension-sdk/src/ipc_types.rs`), and what the runner answers
(`handle_message`, `crates/heramind-extension-runner/src/main.rs`).

`Value` stands for everything that only the extension and the callers look into: json values,
descriptors, metrics, statistics and chunks of data.
-/
import Mathlib.Data.Option.Basic
import Mathlib.Data.List.Basic
import Mathlib.Data.Int.Notation

namespace HeraMind.Ipc

/-- `ErrorKind`. -/
inductive ErrorKind : Type where
  | commandNotFound | invalidArguments | executionFailed | timeout | notFound | invalidFormat
  | notInitialized | internal | security
  deriving DecidableEq

/-- `BatchCommand`. -/
structure BatchCommand (Value : Type) where
  command : String
  args : Value
  deriving DecidableEq

/-- `BatchResult`, without the time it took. -/
structure BatchResult (Value : Type) where
  command : String
  success : Bool
  data : Option Value
  error : Option String
  deriving DecidableEq

/-- `IpcMessage`. -/
inductive IpcMessage (Value : Type) : Type where
  | init (config : Value)
  | executeCommand (command : String) (args : Value) (requestId : ℕ)
  | produceMetrics (requestId : ℕ)
  | getDescriptor (requestId : ℕ)
  | healthCheck (requestId : ℕ)
  | getMetadata (requestId : ℕ)
  | getEventSubscriptions (requestId : ℕ)
  | getStats (requestId : ℕ)
  | shutdown
  | ping (requestId : ℕ) (timestamp : ℤ)
  | initStreamSession (requestId : ℕ) (sessionId : String) (config : Value)
  | closeStreamSession (requestId : ℕ) (sessionId : String)
  | processStreamChunk (requestId : ℕ) (sessionId : String) (chunk : Value)
  | getStreamCapability (requestId : ℕ)
  | processChunk (requestId : ℕ) (chunk : Value)
  | startPush (requestId : ℕ) (sessionId : String)
  | stopPush (requestId : ℕ) (sessionId : String)
  | executeBatch (commands : List (BatchCommand Value)) (requestId : ℕ)
  | invokeCapability (requestId : ℕ) (capability : String) (params : Value)
  | subscribeEvents (requestId : ℕ)
  | unsubscribeEvents (requestId : ℕ)
  | pollEvents (requestId : ℕ)
  | eventPush (eventType : String) (payload : Value)
  | capabilityResult (requestId : ℕ) (result : Value) (error : Option String)
  | configUpdate (config : Value)
  deriving DecidableEq

/-- `IpcResponse`. -/
inductive IpcResponse (Value : Type) : Type where
  | ready (descriptor : Value)
  | success (requestId : ℕ) (data : Value)
  | error (requestId : ℕ) (error : String) (kind : ErrorKind)
  | metrics (requestId : ℕ) (metrics : Value)
  | descriptor (requestId : ℕ) (descriptor : Value)
  | health (requestId : ℕ) (healthy : Bool)
  | metadata (requestId : ℕ) (metadata : Value)
  | eventSubscriptions (requestId : ℕ) (eventTypes : List String)
  | stats (requestId : ℕ) (stats : Value)
  | pong (requestId : ℕ) (timestamp : ℤ)
  | streamSessionInit (requestId : ℕ) (sessionId : String) (success : Bool)
      (error : Option String)
  | streamSessionClosed (requestId : ℕ) (sessionId : String) (totalFrames : ℕ)
  | streamChunkResult (requestId : ℕ) (sessionId : String) (result : Value)
  | streamCapability (requestId : ℕ) (capability : Option Value)
  | chunkResult (requestId : ℕ) (result : Value)
  | pushStarted (requestId : ℕ) (sessionId : String) (success : Bool) (error : Option String)
  | pushStopped (requestId : ℕ) (sessionId : String) (success : Bool)
  | pushOutput (sessionId : String) (data : Value)
  | streamError (requestId : ℕ) (sessionId code message : String)
  | batchResults (requestId : ℕ) (results : List (BatchResult Value))
  | capabilityResult (requestId : ℕ) (result : Value) (error : Option String)
  | eventSubscriptionResult (requestId : ℕ) (subscriptionId : Option String)
  | eventPollResult (requestId : ℕ) (events : List Value)
  | capabilityRequest (requestId : ℕ) (capability : String) (params : Value)
  | shutdownAck
  | configUpdated (success : Bool) (error : Option String)
  deriving DecidableEq

variable {Value : Type}

/-! ## Ids -/

namespace IpcResponse

/-- `IpcResponse::request_id`. -/
def requestId : IpcResponse Value → Option ℕ
  | ready _ => none
  | success requestId _ | error requestId _ _ | metrics requestId _ | descriptor requestId _
  | health requestId _ | metadata requestId _ | eventSubscriptions requestId _
  | stats requestId _ | pong requestId _ | streamSessionInit requestId _ _ _
  | streamSessionClosed requestId _ _ | streamChunkResult requestId _ _
  | streamCapability requestId _ | chunkResult requestId _ | pushStarted requestId _ _ _
  | pushStopped requestId _ _ => some requestId
  | pushOutput _ _ => none
  | streamError requestId _ _ _ | batchResults requestId _ | capabilityResult requestId _ _
  | eventSubscriptionResult requestId _ | eventPollResult requestId _
  | capabilityRequest requestId _ _ => some requestId
  | shutdownAck | configUpdated _ _ => none

/-- `is_push_output`. -/
def isPushOutput : IpcResponse Value → Bool
  | pushOutput _ _ => true
  | _ => false

/-- `is_capability_request`. -/
def isCapabilityRequest : IpcResponse Value → Bool
  | capabilityRequest _ _ _ => true
  | _ => false

/-- The id under which `spawn_receiver_thread` completes a request with the response, if it
does. -/
def routeId (response : IpcResponse Value) : Option ℕ :=
  if response.isCapabilityRequest then none
  else
    match response.requestId with
    | some requestId => some requestId
    | none => if response.isPushOutput then none else some 0

/-- What an extension sends of its own is not routed to a request. -/
theorem routeId_of_own {response : IpcResponse Value}
    (h : (response.isPushOutput || response.isCapabilityRequest) = true) :
    response.routeId = none := by
  cases response with
  | pushOutput sessionId data | capabilityRequest requestId capability params => rfl
  | _ => cases h

end IpcResponse

namespace IpcMessage

/-- The id that the answer to a message will be routed to. -/
def routeId : IpcMessage Value → Option ℕ
  | init _ => some 0
  | executeCommand _ _ requestId | produceMetrics requestId | getDescriptor requestId
  | healthCheck requestId | getMetadata requestId | getEventSubscriptions requestId
  | getStats requestId => some requestId
  | shutdown => some 0
  | ping requestId _ | initStreamSession requestId _ _ | closeStreamSession requestId _
  | processStreamChunk requestId _ _ | getStreamCapability requestId | processChunk requestId _
  | startPush requestId _ | stopPush requestId _ | executeBatch _ requestId
  | invokeCapability requestId _ _ | subscribeEvents requestId | unsubscribeEvents requestId
  | pollEvents requestId => some requestId
  | eventPush _ _ | capabilityResult _ _ _ => none
  | configUpdate _ => some 0

/-- The request id that a message carries, if it asks for an answer under this id. -/
def requestId (message : IpcMessage Value) : Option ℕ :=
  match message with
  | init _ | shutdown | configUpdate _ => none
  | _ => message.routeId

def isShutdown : IpcMessage Value → Bool
  | shutdown => true
  | _ => false

/-- A request is routed under the id that it carries. -/
theorem routeId_of_requestId {message : IpcMessage Value} {id : ℕ}
    (h : message.requestId = some id) : message.routeId = some id := by
  cases message with
  | init config | shutdown | configUpdate config => cases h
  | _ => exact h

end IpcMessage

/-! ## The runner -/

/-- What the extension of the runner does when it is called. -/
structure Answers (Value : Type) where
  init : Value → Except String Unit
  configure : Value → Except String Unit
  /-- The descriptor at the start, and a new one. -/
  descriptor : Value
  getDescriptor : Except String Value
  metadata : Value
  executeCommand : String → Value → Except String Value
  produceMetrics : Except String Value
  healthCheck : Bool
  eventSubscriptions : List String
  getStats : Value
  getStreamCapability : Except String (Option Value)
  initSession : String → Value → Except String Unit
  processSessionChunk : String → Value → Except String Value
  closeSession : String → Except String ℕ
  processChunk : Value → Except String Value
  startPush : String → Except String Unit
  stopPush : String → Except String Unit
  invokeCapability : String → Value → Value × Option String
  newSubscriptionId : String

namespace Answers

variable (answers : Answers Value)

/-- What is answered to a call that may fail. -/
def result {α : Type} (requestId : ℕ) (kind : ErrorKind) (answer : α → IpcResponse Value) :
    Except String α → IpcResponse Value
  | .ok a => answer a
  | .error e => .error requestId e kind

/-- One result of `handle_execute_batch`. -/
def batchResult (command : BatchCommand Value) : BatchResult Value where
  command := command.command
  success := (answers.executeCommand command.command command.args).isOk
  data := (answers.executeCommand command.command command.args).toOption
  error :=
    match answers.executeCommand command.command command.args with
    | .ok _ => none
    | .error e => some e

/-- The error of a call that may fail. -/
def errorOf : Except String Unit → Option String
  | .ok () => none
  | .error e => some e

/-- `handle_message`: the response, if there is one. -/
def handleMessage : IpcMessage Value → Option (IpcResponse Value)
  | .init config =>
    some (result 0 .internal (fun () => .ready answers.descriptor) (answers.init config))
  | .executeCommand command args requestId =>
    some (result requestId .executionFailed (.success requestId)
      (answers.executeCommand command args))
  | .produceMetrics requestId =>
    some (result requestId .internal (.metrics requestId) answers.produceMetrics)
  | .getDescriptor requestId =>
    some (result requestId .internal (.descriptor requestId) answers.getDescriptor)
  | .healthCheck requestId => some (.health requestId answers.healthCheck)
  | .getMetadata requestId => some (.metadata requestId answers.metadata)
  | .getEventSubscriptions requestId =>
    some (.eventSubscriptions requestId answers.eventSubscriptions)
  | .getStats requestId => some (.stats requestId answers.getStats)
  | .shutdown => some .shutdownAck
  | .configUpdate config =>
    some (.configUpdated (answers.configure config).isOk (errorOf (answers.configure config)))
  | .ping requestId timestamp => some (.pong requestId timestamp)
  | .getStreamCapability requestId =>
    some (result requestId .internal (.streamCapability requestId) answers.getStreamCapability)
  | .initStreamSession requestId sessionId config =>
    some (.streamSessionInit requestId sessionId (answers.initSession sessionId config).isOk
      (errorOf (answers.initSession sessionId config)))
  | .processStreamChunk requestId sessionId chunk =>
    some (result requestId .executionFailed (.streamChunkResult requestId sessionId)
      (answers.processSessionChunk sessionId chunk))
  | .closeStreamSession requestId sessionId =>
    some (result requestId .executionFailed (.streamSessionClosed requestId sessionId)
      (answers.closeSession sessionId))
  | .processChunk requestId chunk =>
    some (result requestId .executionFailed (.chunkResult requestId) (answers.processChunk chunk))
  | .startPush requestId sessionId =>
    some (.pushStarted requestId sessionId (answers.startPush sessionId).isOk
      (errorOf (answers.startPush sessionId)))
  | .stopPush requestId sessionId =>
    some (.pushStopped requestId sessionId (answers.stopPush sessionId).isOk)
  | .executeBatch commands requestId =>
    some (.batchResults requestId (commands.map answers.batchResult))
  | .invokeCapability requestId capability params =>
    let answer := answers.invokeCapability capability params
    some (.capabilityResult requestId answer.1 answer.2)
  | .subscribeEvents requestId =>
    some (.eventSubscriptionResult requestId (some answers.newSubscriptionId))
  | .unsubscribeEvents requestId => some (.eventSubscriptionResult requestId none)
  | .pollEvents requestId => some (.eventPollResult requestId [])
  | .eventPush _ _ | .capabilityResult _ _ _ => none

theorem routeId_result {α : Type} {requestId : ℕ} {kind : ErrorKind}
    {answer : α → IpcResponse Value} {outcome : Except String α}
    (h : ∀ a, (answer a).routeId = some requestId) :
    (result requestId kind answer outcome).routeId = some requestId := by
  cases outcome with
  | ok a => exact h a
  | error e => rfl

/-- The runner answers under the id of the message. -/
theorem routeId_handleMessage {message : IpcMessage Value} {response : IpcResponse Value}
    (h : answers.handleMessage message = some response) : response.routeId = message.routeId := by
  cases message with
  | eventPush eventType payload | capabilityResult requestId result error => cases h
  | init config | executeCommand command args requestId | produceMetrics requestId
  | getDescriptor requestId | getStreamCapability requestId
  | processStreamChunk requestId sessionId chunk | closeStreamSession requestId sessionId
  | processChunk requestId chunk => cases h; exact routeId_result fun _ => rfl
  | _ => cases h; rfl

/-- Every request is answered. -/
theorem exists_handleMessage {message : IpcMessage Value} {id : ℕ}
    (h : message.requestId = some id) :
    ∃ response, answers.handleMessage message = some response := by
  cases message with
  | eventPush eventType payload | capabilityResult requestId result error => cases h
  | _ => exact ⟨_, rfl⟩

end Answers

namespace Sample

/-- An extension that agrees to everything. -/
def answers : Answers Unit where
  init _ := .ok ()
  configure _ := .ok ()
  descriptor := ()
  getDescriptor := .ok ()
  metadata := ()
  executeCommand _ _ := .ok ()
  produceMetrics := .ok ()
  healthCheck := true
  eventSubscriptions := []
  getStats := ()
  getStreamCapability := .ok none
  initSession _ _ := .ok ()
  processSessionChunk _ _ := .ok ()
  closeSession _ := .ok 0
  processChunk _ := .ok ()
  startPush _ := .ok ()
  stopPush _ := .ok ()
  invokeCapability _ _ := ((), none)
  newSubscriptionId := "subscription"

end Sample

end HeraMind.Ipc
