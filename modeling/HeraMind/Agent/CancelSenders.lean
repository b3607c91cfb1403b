/-
# The cancel senders of the sessions

`crates/heramind-agent/src/session.rs`: a call that streams an answer registers the sender of its
interrupt signal under the session, builds the inner stream and returns a wrapper around it.  The
wrapper removes the sender, by the session alone, once the inner stream has ended, or in a task that
is spawned when the wrapper is dropped after its first poll.

One action of the step function is what runs between two places where a call, a stream or a spawned
task may wait.
-/
import HeraMind.Lib.Calls
import HeraMind.Lib.KeyedMap
import HeraMind.Lib.Leases
import HeraMind.Lib.Run

namespace HeraMind.Agent

/-! ## Calls and streams -/

inductive HeraMindError where
  | notFound (text : String)
  | validation (text : String)
  | storage (text : String)
  | llm (text : String)
  deriving DecidableEq

/-- What a streaming call asks of the agent that `get_session` finds. -/
structure SessionAgent where
  supportsMultimodal : Bool

/-- A streaming call, with what its calls of `get_session` return. -/
inductive StreamRequest where
  | events (agent : Except HeraMindError SessionAgent)
  | multimodal (images : List String) (first second : Except HeraMindError SessionAgent)

def noVision : HeraMindError :=
  .validation ("Current model does not support image input. " ++
    "Please select a vision-capable model or remove images before retrying.")

def alreadyGenerating : HeraMindError :=
  .validation ("A response is already being generated for this session — " ++
    "wait for it to finish or cancel it first")

/-- What a call does before it registers its sender. -/
def StreamRequest.check : StreamRequest → Except HeraMindError Unit
  | .events agent => do
    let _ ← agent
    return ()
  | .multimodal images first second => do
    if !images.isEmpty then
      let agent ← first
      if !agent.supportsMultimodal then
        throw noVision
    let _ ← second
    return ()

/-- How far a call and the stream it returns have come. -/
inductive Stage where
  /-- It has returned an error. -/
  | failed (e : HeraMindError)
  /-- Its sender is registered and its inner stream is being built. -/
  | constructing
  /-- The stream is returned and was never polled, so there is no guard. -/
  | returned
  /-- The stream has its guard and hands on the events of the inner stream. -/
  | producing
  /-- The inner stream has ended, and the stream waits for the lock to remove the sender. -/
  | ended
  /-- The stream was dropped, and the task that the guard has spawned waits for the lock. -/
  | cleaning
  /-- There is no stream and no task. -/
  | gone
  deriving DecidableEq

/-- There is a call, a stream or a task that is not done. -/
def Stage.Active : Stage → Prop
  | .failed _ | .gone => False
  | _ => True

instance (stage : Stage) : Decidable stage.Active := by
  cases stage <;> unfold Stage.Active <;> infer_instance

/-- What may happen to one call. -/
inductive StreamEvent where
  /-- The inner stream is built, or the call fails. -/
  | constructed (result : Except HeraMindError Unit)
  /-- The stream is polled, and the inner stream has an event or has ended. -/
  | poll (more : Bool)
  /-- The stream that has ended gets the lock. -/
  | release
  | drop
  /-- The spawned task gets the lock. -/
  | cleanUp

/-- The next stage, and whether the sender of the session is removed. -/
def Stage.next : Stage → StreamEvent → Option (Stage × Bool)
  | .constructing, .constructed (.ok _) => some (.returned, false)
  -- the `?` returns with the sender still registered
  | .constructing, .constructed (.error e) => some (.failed e, false)
  | .returned, .poll more | .producing, .poll more =>
    some (if more then .producing else .ended, false)
  | .ended, .release => some (.gone, true)
  -- the generator has not run, so no guard is dropped with it
  | .returned, .drop => some (.gone, false)
  | .producing, .drop | .ended, .drop => some (.cleaning, false)
  | .cleaning, .cleanUp => some (.gone, true)
  | _, _ => none

/-- A call with the value of its interrupt signal. -/
structure StreamCall where
  sessionId : String
  stage : Stage
  interrupt : Bool
  deriving DecidableEq

/-! ## The manager -/

/-- The registered senders, each as the place of its call, and the calls that were made. -/
structure CancelSenders where
  senders : HashMap String ℕ
  calls : List StreamCall

namespace CancelSenders

def init : CancelSenders := ⟨∅, []⟩

/-- Whether a sender is registered for the session, and the map with this one if not. -/
def registerCancelSender (senders : HashMap String ℕ) (sessionId : String) (sender : ℕ) :
    HashMap String ℕ × Bool :=
  if (senders.lookup sessionId).isSome then (senders, false)
  else (senders.insert sessionId sender, true)

/-- `process_message_events` and `process_message_multimodal_stream`, up to the inner stream. -/
def processMessage (m : CancelSenders) (sessionId : String) (request : StreamRequest) :
    CancelSenders :=
  match request.check with
  | .error e => { m with calls := m.calls ++ [⟨sessionId, .failed e, false⟩] }
  | .ok () =>
    match registerCancelSender m.senders sessionId m.calls.length with
    | (_, false) => { m with calls := m.calls ++ [⟨sessionId, .failed alreadyGenerating, false⟩] }
    | (senders, true) => ⟨senders, m.calls ++ [⟨sessionId, .constructing, false⟩]⟩

/-- `true` is sent to a receiver. -/
def interrupt (calls : List StreamCall) (i : ℕ) : List StreamCall :=
  match calls[i]? with
  | some c => calls.set i { c with interrupt := true }
  | none => calls

def cancelSession (m : CancelSenders) (sessionId : String) : CancelSenders × Bool :=
  match m.senders.lookup sessionId with
  | some sender => (⟨m.senders.erase sessionId, interrupt m.calls sender⟩, true)
  | none => (m, false)

/-- Something happens to the call at place `i`. -/
def event (m : CancelSenders) (i : ℕ) (e : StreamEvent) : Option CancelSenders := do
  let c ← m.calls[i]?
  let (stage, removes) ← c.stage.next e
  return {
    senders := if removes then m.senders.erase c.sessionId else m.senders
    calls := m.calls.set i { c with stage } }

end CancelSenders

inductive StreamAction where
  | call (sessionId : String) (request : StreamRequest)
  | cancel (sessionId : String)
  | event (i : ℕ) (e : StreamEvent)

def streamStep (m : CancelSenders) : StreamAction → Option CancelSenders
  | .call sessionId request => some (m.processMessage sessionId request)
  | .cancel sessionId => some (m.cancelSession sessionId).1
  | .event i e => m.event i e

end HeraMind.Agent
