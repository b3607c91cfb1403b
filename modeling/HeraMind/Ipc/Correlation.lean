/-
# Answers to the right caller

The receiver thread of an extension process routes a response to the caller that is registered
under its id (`spawn_receiver_thread`, `crates/heramind-core/src/extension/isolated/process.rs`).
A response without an id goes to id 0, under which `start` and `stop` wait.  But messages that
nobody waits for are answered there too: `ConfigUpdate`, and `CloseStreamSession` as
`close_all_stream_sessions` sends it; and so may be what an earlier process still has to say,
since all processes of an extension share the tracker.

Here a message carries the call that sent it, and a response the call of its message.
-/
import HeraMind.Ipc.InFlight
import HeraMind.Ipc.Messages

namespace HeraMind.Ipc

open List
open Transition

/-! ## What the callers see of the tracker -/

/-- The response that was taken for a channel, or has been sent into it. -/
def Oneshot.response {Response : Type} (c : Oneshot Response) : Option Response :=
  match c.state with
  | .taken response | .filled response => some response
  | _ => none

namespace InFlightRequests

variable {Response : Type} {t t' : InFlightRequests Response} {id k n : ℕ}

/-- The ids of all channels ever made, with their responses. -/
def views (t : InFlightRequests Response) : List (ℕ × Option Response) :=
  t.channels.map fun c => (c.requestId, c.response)

theorem views_eq_some {x : Option Response} :
    t.views[k]? = some (id, x) ↔
      ∃ c, t.channels[k]? = some c ∧ c.requestId = id ∧ c.response = x := by
  unfold views
  rw [getElem?_map, Option.map_eq_some_iff]
  simp only [Prod.mk.injEq]

/-- Nothing is registered and nothing completed. -/
structure Quiet (t t' : InFlightRequests Response) : Prop where
  pending : ∀ n k, t'.pending.lookup n = some k → t.pending.lookup n = some k
  views : t'.views = t.views

theorem Quiet.refl (t : InFlightRequests Response) : Quiet t t := ⟨fun _ _ h => h, rfl⟩

theorem lookup_of_release {state : ChannelState Response} (hstate : state ≠ .empty)
    (h : (t.release id state hstate).pending.lookup n = some k) :
    t.pending.lookup n = some k := by
  rw [lookup_release] at h
  split at h
  · cases h
  · exact h

/-- The view of the channel that `release` is about. -/
theorem views_release {state : ChannelState Response} (hstate : state ≠ .empty) (j : ℕ) :
    (t.release id state hstate).views[j]? =
      if t.pending.lookup id = some j then some (id, (Oneshot.mk id state).response)
      else t.views[j]? := by
  unfold views
  rw [getElem?_map, getElem?_map, getElem?_release]
  split <;> rfl

theorem quiet_cancel (t : InFlightRequests Response) (id : ℕ) : Quiet t (t.cancel id) where
  pending _ _ h := lookup_of_release (by simp) h
  views := by
    apply ext_getElem?
    intro j
    show (t.release id .closed _).views[j]? = _
    rw [views_release]
    split
    · rename_i hlookup
      have hchannel := (t.owned id j).mp hlookup
      exact (views_eq_some.mpr ⟨_, hchannel, rfl, rfl⟩).symm
    · rfl

theorem quiet_cancelAll (t : InFlightRequests Response) : Quiet t t.cancelAll where
  pending n k h := by
    have hnone : (∅ : HashMap ℕ ℕ).lookup n = some k := h
    rw [AList.lookup_empty] at hnone
    cases hnone
  views := by
    show (t.channels.map Oneshot.dropped).map _ = t.channels.map _
    rw [map_map]
    apply map_congr_left
    rintro ⟨id, state⟩ -
    cases state <;> rfl

theorem quiet_deliver (t : InFlightRequests Response) (k : ℕ) : Quiet t (t.deliver k) where
  pending _ _ h := h
  views := by
    apply ext_getElem?
    intro j
    show ((t.channels.modify k Oneshot.sent).map _)[j]? = (t.channels.map _)[j]?
    rw [getElem?_map, getElem?_map, getElem?_modify]
    cases hc : t.channels[j]? with
    | none => rfl
    | some c =>
      obtain ⟨id, state⟩ := c
      show some (_, Oneshot.response (if k = j then _ else _)) = _
      split <;> cases state <;> rfl

theorem views_registerWithId (t : InFlightRequests Response) (id : ℕ) :
    (t.registerWithId id).views = t.views ++ [(id, none)] := by
  show ((t.cancel id).channels ++ [_]).map _ = _
  rw [map_append]
  show (t.cancel id).views ++ _ = _
  rw [(t.quiet_cancel id).views]
  rfl

theorem lookup_registerWithId (h : (t.registerWithId id).pending.lookup n = some k) :
    t.pending.lookup n = some k ∨ n = id ∧ k = t.views.length := by
  have hinsert : ((t.cancel id).pending.insert id (t.cancel id).channels.length).lookup n =
      some k := h
  by_cases hn : n = id
  · rw [hn, AList.lookup_insert, length_cancel] at hinsert
    refine Or.inr ⟨hn, ?_⟩
    rw [← Option.some.inj hinsert]
    exact (length_map _).symm
  · rw [AList.lookup_insert_ne hn] at hinsert
    exact Or.inl ((t.quiet_cancel id).pending n k hinsert)

end InFlightRequests

namespace Requests

variable {Response : Type} {s s' : Requests Response} {a : Label Response} {k : ℕ}

/-- The steps that neither register a request nor take a response. -/
def Label.isQuiet : Label Response → Bool
  | .call _ | .complete _ _ | .probe => false
  | _ => true

theorem quiet_setPhase {phase : CallPhase} :
    InFlightRequests.Quiet s.inFlight (s.setPhase k phase).inFlight :=
  InFlightRequests.Quiet.refl _

theorem quiet_leave {cancels : Bool} :
    InFlightRequests.Quiet s.inFlight (s.leave k cancels).inFlight := by
  cases cancels with
  | false => exact InFlightRequests.Quiet.refl _
  | true =>
    show InFlightRequests.Quiet s.inFlight (s.cancel k).inFlight
    unfold cancel
    split
    · exact InFlightRequests.Quiet.refl _
    · exact s.inFlight.quiet_cancel _

theorem quiet_step (h : s.step a = some s') (ha : a.isQuiet = true) :
    InFlightRequests.Quiet s.inFlight s'.inFlight ∧ s'.calls.length = s.calls.length := by
  have hquiet : InFlightRequests.Quiet s.inFlight s'.inFlight := by
    cases a with
    | call method | complete id response | probe => cases ha
    | sent k =>
      simp only [step] at h
      split at h <;> cases h
      exact quiet_setPhase
    | sendFailed k =>
      simp only [step] at h
      split at h
      · split at h <;> cases h
        · exact quiet_leave
        · exact quiet_leave
        · exact quiet_setPhase
      · cases h
    | deliver k =>
      cases h
      exact s.inFlight.quiet_deliver k
    | cancelAll =>
      cases h
      exact s.inFlight.quiet_cancelAll
    | wake k | timeout k =>
      simp only [step] at h
      split at h <;> cases h
      · exact quiet_leave
      · exact quiet_leave
    | drop k =>
      simp only [step] at h
      split at h <;> cases h
      exact quiet_leave
  refine ⟨hquiet, ?_⟩
  have hlen := congrArg List.length hquiet.views
  unfold InFlightRequests.views at hlen
  rw [length_map, length_map] at hlen
  rw [s.aligned, s'.aligned, hlen]

end Requests

/-! ## The link -/

/-- What a method of `IsolatedExtension` asks for. -/
inductive Request (Value : Type) : Type where
  | start (config : Value)
  | stop
  | executeCommand (command : String) (args : Value)
  | produceMetrics
  | refreshDescriptor
  | getStats
  | executeBatchIpc (commands : List (BatchCommand Value))
  | healthCheck
  | streamCapability
  | initSession (sessionId : String) (config : Value)
  | processSessionChunk (sessionId : String) (chunk : Value)
  | closeSession (sessionId : String)
  | processChunk (chunk : Value)
  | startPush (sessionId : String)
  | stopPush (sessionId : String)
  | getEventSubscriptions
  | ping (timestamp : ℤ)

namespace Request

variable {Value : Type}

def method : Request Value → Method
  | start _ => .start
  | stop => .stop
  | executeCommand _ _ => .executeCommand
  | produceMetrics => .produceMetrics
  | refreshDescriptor => .refreshDescriptor
  | getStats => .getStats
  | executeBatchIpc _ => .executeBatchIpc
  | healthCheck => .healthCheck
  | streamCapability => .streamCapability
  | initSession _ _ => .initSession
  | processSessionChunk _ _ => .processSessionChunk
  | closeSession _ => .closeSession
  | processChunk _ => .processChunk
  | startPush _ => .startPush
  | stopPush _ => .stopPush
  | getEventSubscriptions => .getEventSubscriptions
  | ping _ => .ping

/-- The message under a request id. -/
def message (requestId : ℕ) : Request Value → IpcMessage Value
  | start config => .init config
  | stop => .shutdown
  | executeCommand command args => .executeCommand command args requestId
  | produceMetrics => .produceMetrics requestId
  | refreshDescriptor => .getDescriptor requestId
  | getStats => .getStats requestId
  | executeBatchIpc commands => .executeBatch commands requestId
  | healthCheck => .healthCheck requestId
  | streamCapability => .getStreamCapability requestId
  | initSession sessionId config => .initStreamSession requestId sessionId config
  | processSessionChunk sessionId chunk => .processStreamChunk requestId sessionId chunk
  | closeSession sessionId => .closeStreamSession requestId sessionId
  | processChunk chunk => .processChunk requestId chunk
  | startPush sessionId => .startPush requestId sessionId
  | stopPush sessionId => .stopPush requestId sessionId
  | getEventSubscriptions => .getEventSubscriptions requestId
  | ping timestamp => .ping requestId timestamp

end Request

/-- A message that nobody waits for. -/
inductive Notice (Value : Type) : Type where
  | eventPush (eventType : String) (payload : Value)
  | configUpdate (config : Value)
  /-- `close_all_stream_sessions` closes a session. -/
  | closeStreamSession (sessionId : String)
  | capabilityResult (requestId : ℕ) (result : Value) (error : Option String)

def Notice.message {Value : Type} : Notice Value → IpcMessage Value
  | eventPush eventType payload => .eventPush eventType payload
  | configUpdate config => .configUpdate config
  | closeStreamSession sessionId => .closeStreamSession 0 sessionId
  | capabilityResult requestId result error => .capabilityResult requestId result error

/-- A message with the call that sent it, or a response with the call it is for. -/
structure Tagged (α : Type) where
  content : α
  caller : Option ℕ

/-- One process of the extension: what it has yet to handle, and what its receiver thread has yet
to read. -/
structure Peer (Value : Type) where
  stdin : List (Tagged (IpcMessage Value))
  stdout : List (Tagged (IpcResponse Value))
  /-- Its receiver thread is running. -/
  receiving : Bool

/-- An extension, with its processes, newest first, and the requests of all calls. -/
structure Link (Value : Type) where
  requests : Requests (Tagged (IpcResponse Value))
  made : List (Request Value)
  peers : List (Peer Value)
  aligned : made.length = requests.calls.length

namespace Link

variable {Value : Type}

def new : Link Value where
  requests := .new
  made := []
  peers := []
  aligned := rfl

/-- What can happen next: a process is spawned, a method is called, its message is sent, perhaps
more than once, or a message that nobody waits for, the host does something else with its
requests, or the process `g` handles a message or loses it, sends something of its own, or its
receiver thread reads a response, cannot use it, or exits. -/
inductive Label (Value : Type) : Type where
  | spawn
  | call (request : Request Value)
  | attempt (k : ℕ)
  | notify (notice : Notice Value)
  | host (a : Requests.Label (Tagged (IpcResponse Value)))
  | handle (g : ℕ) (answers : Answers Value)
  | lose (g : ℕ)
  | emit (g : ℕ) (response : IpcResponse Value)
  | receive (g : ℕ)
  | discard (g : ℕ)
  | exit (g : ℕ)

section Step

variable (s : Link Value)

/-- The message of a call. -/
def messageOf (k : ℕ) : Option (IpcMessage Value) :=
  match s.made[k]?, s.requests.inFlight.views[k]? with
  | some request, some (id, _) => some (request.message id)
  | _, _ => none

/-- Write a message to the newest process. -/
def write (message : Tagged (IpcMessage Value)) : Link Value :=
  match s.peers with
  | [] => s
  | p :: rest => { s with peers := { p with stdin := p.stdin ++ [message] } :: rest }

def setPeer (g : ℕ) (p : Peer Value) : Link Value := { s with peers := s.peers.set g p }

/-- A request is registered. -/
def register (request : Request Value) : Link Value where
  requests := s.requests.register request.method
  made := s.made ++ [request]
  peers := s.peers
  aligned := by
    show _ = (s.requests.calls ++ [_]).length
    rw [length_append, length_append, s.aligned]
    rfl

/-- `in_flight.complete`, up to its send. -/
def complete (id : ℕ) (response : Tagged (IpcResponse Value)) : Link Value where
  requests := { s.requests with
    inFlight := s.requests.inFlight.complete id response
    aligned := by rw [s.requests.aligned, InFlightRequests.length_complete] }
  made := s.made
  peers := s.peers
  aligned := s.aligned

/-- The routing of a response. -/
def route (response : Tagged (IpcResponse Value)) : Link Value :=
  match response.content.routeId with
  | some id => s.complete id response
  | none => s

/-- `in_flight.cancel_all`. -/
def cancelAll : Link Value where
  requests := { s.requests with
    inFlight := s.requests.inFlight.cancelAll
    aligned := by rw [s.requests.aligned, InFlightRequests.length_cancelAll] }
  made := s.made
  peers := s.peers
  aligned := s.aligned

/-- One step. -/
def step : Label Value → Option (Link Value)
  | .spawn => some { s with peers := ⟨[], [], true⟩ :: s.peers }
  | .call request =>
    if request.method.fixedId.isSome && s.requests.handshaking then none
    else some (s.register request)
  | .attempt k =>
    match s.requests.phase k, s.messageOf k with
    | some .sending, some message => some (s.write ⟨message, some k⟩)
    | _, _ => none
  | .notify notice => some (s.write ⟨notice.message, none⟩)
  | .host a =>
    if ha : a.isQuiet = true then
      match hs : s.requests.step a with
      | some requests => some { s with
          requests := requests
          aligned := by rw [s.aligned, (Requests.quiet_step hs ha).2] }
      | none => none
    else none
  | .handle g answers =>
    match s.peers[g]? with
    | some ⟨message :: stdin, stdout, receiving⟩ =>
      let response := (answers.handleMessage message.content).map (⟨·, message.caller⟩)
      some (s.setPeer g ⟨stdin, stdout ++ response.toList, receiving⟩)
    | _ => none
  | .lose g =>
    match s.peers[g]? with
    | some ⟨_ :: stdin, stdout, receiving⟩ => some (s.setPeer g ⟨stdin, stdout, receiving⟩)
    | _ => none
  | .emit g response =>
    match s.peers[g]? with
    | some ⟨stdin, stdout, receiving⟩ =>
      if response.isPushOutput || response.isCapabilityRequest then
        some (s.setPeer g ⟨stdin, stdout ++ [⟨response, none⟩], receiving⟩)
      else none
    | none => none
  | .receive g =>
    match s.peers[g]? with
    | some ⟨stdin, response :: stdout, true⟩ =>
      some ((s.setPeer g ⟨stdin, stdout, true⟩).route response)
    | _ => none
  | .discard g =>
    match s.peers[g]? with
    | some ⟨stdin, _ :: stdout, true⟩ => some (s.setPeer g ⟨stdin, stdout, true⟩)
    | _ => none
  | .exit g =>
    match s.peers[g]? with
    | some ⟨stdin, stdout, true⟩ => some (s.setPeer g ⟨stdin, stdout, false⟩).cancelAll
    | _ => none

end Step

/-! ## The claim -/

section Claim

variable (s : Link Value)

/-- The response was produced for the message of the call. -/
def Produced (k : ℕ) (response : IpcResponse Value) : Prop :=
  ∃ message answers, s.messageOf k = some message ∧
    Answers.handleMessage answers message = some response

/-- Callers get responses to their own messages only. -/
structure Correlated : Prop where
  own : ∀ (k id : ℕ) (response : Tagged (IpcResponse Value)),
    s.requests.inFlight.views[k]? = some (id, some response) →
    response.caller = some k ∧ s.Produced k response.content
  start : ∀ (k id : ℕ) (response : Tagged (IpcResponse Value)) (config : Value),
    s.requests.inFlight.views[k]? = some (id, some response) →
    s.made[k]? = some (.start config) →
    (∃ descriptor, response.content = .ready descriptor) ∨
      ∃ e kind, response.content = .error 0 e kind
  stop : ∀ (k id : ℕ) (response : Tagged (IpcResponse Value)),
    s.requests.inFlight.views[k]? = some (id, some response) →
    s.made[k]? = some .stop → response.content = .shutdownAck

/-- Something that a running receiver thread may route to the id is on its way. -/
def outstanding (id : ℕ) : Bool :=
  s.peers.any fun p => p.receiving &&
    (p.stdin.any (fun message => decide (message.content.routeId = some id)) ||
      p.stdout.any (fun response => decide (response.content.routeId = some id)))

/-- Nobody but the caller is registered under the id. -/
def isFree (id : ℕ) (caller : Option ℕ) : Bool :=
  match s.requests.inFlight.pending.lookup id with
  | none => true
  | some k => decide (caller = some k)

/-- The id of a message is kept apart: while a request is registered under an id, nothing else
that is answered under this id is on its way or sent. -/
def keepsApart : Label Value → Bool
  | .call request =>
    !s.outstanding (request.method.fixedId.getD s.requests.inFlight.nextId)
  | .attempt k =>
    match s.messageOf k with
    | some message => message.routeId.all fun id => s.isFree id (some k)
    | none => true
  | .notify notice => notice.message.routeId.all fun id => s.isFree id none
  | _ => true

end Claim

/-! ## Apart -/

section Apart

variable {s s' : Link Value} {a : Label Value} {k id : ℕ} {p : Peer Value}
  {caller : Option ℕ} {tr : List (Link Value × Label Value)}

theorem messageOf_eq_some {message : IpcMessage Value} :
    s.messageOf k = some message ↔ ∃ request id x, s.made[k]? = some request ∧
      s.requests.inFlight.views[k]? = some (id, x) ∧ message = request.message id := by
  unfold messageOf
  constructor
  · intro h
    split at h
    · rename_i request id x hmade hview
      exact ⟨request, id, x, hmade, hview, (Option.some.inj h).symm⟩
    · cases h
  · rintro ⟨request, id, x, hmade, hview, rfl⟩
    rw [hmade, hview]

theorem isFree_iff :
    s.isFree id caller = true ↔
      ∀ k, s.requests.inFlight.pending.lookup id = some k → caller = some k := by
  unfold isFree
  cases s.requests.inFlight.pending.lookup id with
  | none | some j => simp

/-- The messages of a process come from their callers, its responses answer the messages of
theirs, and what its receiver thread may route to an id is not for another caller. -/
structure PeerOk (s : Link Value) (p : Peer Value) : Prop where
  messages : ∀ m ∈ p.stdin, ∀ k, m.caller = some k → s.messageOf k = some m.content
  responses : ∀ r ∈ p.stdout, ∀ k, r.caller = some k → s.Produced k r.content
  messagesApart : p.receiving = true →
    ∀ m ∈ p.stdin, ∀ id, m.content.routeId = some id → s.isFree id m.caller = true
  responsesApart : p.receiving = true →
    ∀ r ∈ p.stdout, ∀ id, r.content.routeId = some id → s.isFree id r.caller = true

/-- No call changes its message. -/
def Grows (s s' : Link Value) : Prop :=
  ∀ k message, s.messageOf k = some message → s'.messageOf k = some message

theorem Produced.mono (hgrows : Grows s s') {response : IpcResponse Value}
    (h : s.Produced k response) : s'.Produced k response := by
  obtain ⟨message, answers, hmessage, hresponse⟩ := h
  exact ⟨message, answers, hgrows k message hmessage, hresponse⟩

theorem PeerOk.mono (h : PeerOk s p) (hgrows : Grows s s')
    (hfree : ∀ id caller, s.isFree id caller = true → s'.isFree id caller = true) :
    PeerOk s' p where
  messages m hm k hk := hgrows k _ (h.messages m hm k hk)
  responses r hr k hk := (h.responses r hr k hk).mono hgrows
  messagesApart hrec m hm id hid := hfree id _ (h.messagesApart hrec m hm id hid)
  responsesApart hrec r hr id hid := hfree id _ (h.responsesApart hrec r hr id hid)

/-- What holds between two steps. -/
structure Inv (s : Link Value) : Prop where
  peers : ∀ p ∈ s.peers, PeerOk s p
  own : ∀ (k id : ℕ) (response : Tagged (IpcResponse Value)),
    s.requests.inFlight.views[k]? = some (id, some response) →
    response.caller = some k ∧ s.Produced k response.content

/-- Only the pipes of the processes change. -/
theorem Inv.of_peers (h : Inv s) (hrequests : s'.requests = s.requests)
    (hmade : s'.made = s.made) (hpeers : ∀ p ∈ s'.peers, PeerOk s p) : Inv s' := by
  have hmessageOf : s'.messageOf = s.messageOf := by
    funext k
    unfold messageOf
    rw [hrequests, hmade]
  have hgrows : Grows s s' := by
    intro k message hmessage
    rw [hmessageOf, hmessage]
  refine ⟨fun p hp => (hpeers p hp).mono hgrows fun id caller hfree => ?_,
    fun k id response hview => ?_⟩
  · unfold isFree at hfree ⊢
    rw [hrequests, hfree]
  · rw [hrequests] at hview
    obtain ⟨hcaller, hproduced⟩ := h.own k id response hview
    exact ⟨hcaller, hproduced.mono hgrows⟩

/-- Nothing is registered and nothing completed. -/
theorem Inv.of_quiet (h : Inv s)
    (hquiet : InFlightRequests.Quiet s.requests.inFlight s'.requests.inFlight)
    (hmade : s'.made = s.made) (hpeers : s'.peers = s.peers) : Inv s' := by
  have hmessageOf : s'.messageOf = s.messageOf := by
    funext k
    unfold messageOf
    rw [hquiet.views, hmade]
  have hgrows : Grows s s' := by
    intro k message hmessage
    rw [hmessageOf, hmessage]
  refine ⟨fun p hp => ?_, fun k id response hview => ?_⟩
  · rw [hpeers] at hp
    refine (h.peers p hp).mono hgrows fun id caller hfree => ?_
    rw [isFree_iff] at hfree ⊢
    exact fun k hk => hfree k (hquiet.pending id k hk)
  · rw [hquiet.views] at hview
    obtain ⟨hcaller, hproduced⟩ := h.own k id response hview
    exact ⟨hcaller, hproduced.mono hgrows⟩

theorem Inv.register (h : Inv s) {request : Request Value}
    (hapart : s.outstanding (request.method.fixedId.getD s.requests.inFlight.nextId) = false) :
    Inv (s.register request) := by
  generalize hid : request.method.fixedId.getD s.requests.inFlight.nextId = id at hapart
  have hviews : (s.register request).requests.inFlight.views =
      s.requests.inFlight.views ++ [(id, none)] := by
    show (s.requests.inFlight.registerFor request.method.fixedId).views = _
    rw [← hid]
    cases request.method.fixedId with
    | none => exact s.requests.inFlight.views_registerWithId _
    | some id => exact s.requests.inFlight.views_registerWithId id
  have hlookup : ∀ n k, (s.register request).requests.inFlight.pending.lookup n = some k →
      s.requests.inFlight.pending.lookup n = some k ∨ n = id := by
    intro n k hk
    have hk : (s.requests.inFlight.registerFor request.method.fixedId).pending.lookup n =
        some k := hk
    rw [← hid]
    cases hfixed : request.method.fixedId with
    | none | some id' =>
      rw [hfixed] at hk
      exact (InFlightRequests.lookup_registerWithId hk).imp_right And.left
  have hgrows : Grows s (s.register request) := by
    intro k message hmessage
    rw [messageOf_eq_some] at hmessage ⊢
    obtain ⟨request', id', x, hmade, hview, hmessage⟩ := hmessage
    refine ⟨request', id', x, ?_, ?_, hmessage⟩
    · show (s.made ++ [request])[k]? = _
      rw [getElem?_append_left (List.getElem?_eq_some_iff.mp hmade).1, hmade]
    · rw [hviews, getElem?_append_left (List.getElem?_eq_some_iff.mp hview).1, hview]
  have hfree : ∀ n caller, n ≠ id → s.isFree n caller = true →
      (s.register request).isFree n caller = true := by
    intro n caller hn hfree
    rw [isFree_iff] at hfree ⊢
    exact fun k hk => hfree k ((hlookup n k hk).resolve_right hn)
  refine ⟨fun p hp => ?_, fun k n response hview => ?_⟩
  · have hp : p ∈ s.peers := hp
    have hok := h.peers p hp
    have hnone : p.receiving = true →
        (∀ m ∈ p.stdin, m.content.routeId ≠ some id) ∧
        ∀ r ∈ p.stdout, r.content.routeId ≠ some id := by
      intro hrec
      unfold outstanding at hapart
      rw [any_eq_false] at hapart
      have hp' := hapart p hp
      simp only [hrec, Bool.true_and, Bool.or_eq_true, any_eq_true, decide_eq_true_eq,
        not_or, not_exists, not_and] at hp'
      exact hp'
    refine ⟨fun m hm k hk => hgrows k _ (hok.messages m hm k hk),
      fun r hr k hk => (hok.responses r hr k hk).mono hgrows, fun hrec m hm n hn => ?_,
      fun hrec r hr n hn => ?_⟩
    · refine hfree n _ ?_ (hok.messagesApart hrec m hm n hn)
      rintro rfl
      exact (hnone hrec).1 m hm hn
    · refine hfree n _ ?_ (hok.responsesApart hrec r hr n hn)
      rintro rfl
      exact (hnone hrec).2 r hr hn
  · rw [hviews] at hview
    by_cases hlt : k < s.requests.inFlight.views.length
    · rw [getElem?_append_left hlt] at hview
      obtain ⟨hcaller, hproduced⟩ := h.own k n response hview
      exact ⟨hcaller, hproduced.mono hgrows⟩
    · rw [getElem?_append_right (Nat.le_of_not_lt hlt), getElem?_singleton] at hview
      split at hview
      · cases hview
      · cases hview

/-- A response for the caller that is registered is taken for it. -/
theorem Inv.complete (h : Inv s) {response : Tagged (IpcResponse Value)}
    (hproduced : ∀ k, response.caller = some k → s.Produced k response.content)
    (hfree : s.isFree id response.caller = true) : Inv (s.complete id response) := by
  have hviews : ∀ j, (s.complete id response).requests.inFlight.views[j]? =
      if s.requests.inFlight.pending.lookup id = some j then some (id, some response)
      else s.requests.inFlight.views[j]? := fun j =>
    InFlightRequests.views_release (by simp) j
  have hgrows : Grows s (s.complete id response) := by
    intro k message hmessage
    rw [messageOf_eq_some] at hmessage ⊢
    obtain ⟨request, id', x, hmade, hview, hmessage⟩ := hmessage
    by_cases hk : s.requests.inFlight.pending.lookup id = some k
    · have hid : id' = id := by
        obtain ⟨c, hc, hid', -⟩ := InFlightRequests.views_eq_some.mp hview
        rw [(s.requests.inFlight.owned id k).mp hk] at hc
        rw [← hid', ← Option.some.inj hc]
      exact ⟨request, id, some response, hmade, by rw [hviews, if_pos hk], by rw [hmessage, hid]⟩
    · exact ⟨request, id', x, hmade, by rw [hviews, if_neg hk, hview], hmessage⟩
  refine ⟨fun p hp => ?_, fun k n r hview => ?_⟩
  · refine (h.peers p hp).mono hgrows fun n caller hn => ?_
    rw [isFree_iff] at hn ⊢
    exact fun k hk => hn k (InFlightRequests.lookup_of_release (by simp) hk)
  · rw [hviews] at hview
    split at hview
    · rename_i hk
      cases hview
      have hcaller := isFree_iff.mp hfree k hk
      exact ⟨hcaller, (hproduced k hcaller).mono hgrows⟩
    · obtain ⟨hcaller, hproduced'⟩ := h.own k n r hview
      exact ⟨hcaller, hproduced'.mono hgrows⟩

theorem Inv.setPeer (h : Inv s) {g : ℕ} (hp : PeerOk s p) : Inv (s.setPeer g p) := by
  refine h.of_peers rfl rfl fun q hq => ?_
  rcases mem_or_eq_of_mem_set hq with hq | rfl
  · exact h.peers q hq
  · exact hp

theorem Inv.write (h : Inv s) {message : Tagged (IpcMessage Value)}
    (hcaller : ∀ k, message.caller = some k → s.messageOf k = some message.content)
    (hapart : ∀ id, message.content.routeId = some id → s.isFree id message.caller = true) :
    Inv (s.write message) := by
  unfold Link.write
  split
  · exact h
  · rename_i p rest hpeers
    refine h.of_peers rfl rfl fun q hq => ?_
    have hp := h.peers p (by rw [hpeers]; exact mem_cons_self)
    rcases mem_cons.mp hq with rfl | hq
    · refine ⟨fun m hm k hk => ?_, hp.responses, fun hrec m hm id hid => ?_,
        hp.responsesApart⟩
      · rcases mem_append.mp hm with hm | hm
        · exact hp.messages m hm k hk
        · rw [mem_singleton.mp hm] at hk ⊢
          exact hcaller k hk
      · rcases mem_append.mp hm with hm | hm
        · exact hp.messagesApart hrec m hm id hid
        · rw [mem_singleton.mp hm] at hid ⊢
          exact hapart id hid
    · exact h.peers q (by rw [hpeers]; exact mem_cons_of_mem _ hq)

/-- The runner handles a message: its response is for the same caller and under the same id. -/
theorem PeerOk.handle {message : Tagged (IpcMessage Value)}
    {stdin : List (Tagged (IpcMessage Value))} {stdout : List (Tagged (IpcResponse Value))}
    {receiving : Bool} (h : PeerOk s ⟨message :: stdin, stdout, receiving⟩)
    (answers : Answers Value) :
    PeerOk s ⟨stdin, stdout ++
      ((answers.handleMessage message.content).map (⟨·, message.caller⟩)).toList, receiving⟩ := by
  have hnew : ∀ r ∈ ((answers.handleMessage message.content).map
      (Tagged.mk · message.caller)).toList,
      r.caller = message.caller ∧ answers.handleMessage message.content = some r.content := by
    intro r hr
    rw [Option.mem_toList, Option.map_eq_some_iff] at hr
    obtain ⟨response, hresponse, rfl⟩ := hr
    exact ⟨rfl, hresponse⟩
  have hmem : message ∈ message :: stdin := mem_cons_self
  refine ⟨fun m hm k hk => h.messages m (mem_cons_of_mem _ hm) k hk, fun r hr k hk => ?_,
    fun hrec m hm id hid => h.messagesApart hrec m (mem_cons_of_mem _ hm) id hid,
    fun hrec r hr id hid => ?_⟩
  · rcases mem_append.mp hr with hr | hr
    · exact h.responses r hr k hk
    · obtain ⟨hcaller, hresponse⟩ := hnew r hr
      rw [hcaller] at hk
      exact ⟨message.content, answers, h.messages message hmem k hk, hresponse⟩
  · rcases mem_append.mp hr with hr | hr
    · exact h.responsesApart hrec r hr id hid
    · obtain ⟨hcaller, hresponse⟩ := hnew r hr
      rw [Answers.routeId_handleMessage answers hresponse] at hid
      rw [hcaller]
      exact h.messagesApart hrec message hmem id hid

/-- The step lemma. -/
theorem Inv.step (h : Inv s) (hapart : s.keepsApart a = true) (hs : s.step a = some s') :
    Inv s' := by
  cases a with
  | spawn =>
    cases hs
    refine h.of_peers rfl rfl fun p hp => ?_
    rcases mem_cons.mp hp with rfl | hp
    · exact ⟨fun m hm => absurd hm not_mem_nil, fun r hr => absurd hr not_mem_nil,
        fun _ m hm => absurd hm not_mem_nil, fun _ r hr => absurd hr not_mem_nil⟩
    · exact h.peers p hp
  | call request =>
    simp only [Link.step] at hs
    split at hs <;> cases hs
    simp only [keepsApart, Bool.not_eq_true'] at hapart
    exact h.register hapart
  | attempt k =>
    simp only [Link.step] at hs
    split at hs
    · rename_i message hphase hmessage
      cases hs
      simp only [keepsApart, hmessage, Option.all_eq_true] at hapart
      refine h.write (fun j hj => ?_) hapart
      rw [← Option.some.inj hj]
      exact hmessage
    · cases hs
  | notify notice =>
    cases hs
    simp only [keepsApart, Option.all_eq_true] at hapart
    exact h.write (fun j hj => by cases hj) hapart
  | host a =>
    simp only [Link.step] at hs
    split at hs
    · rename_i ha
      split at hs
      · rename_i requests hstep
        cases hs
        exact h.of_quiet (Requests.quiet_step hstep ha).1 rfl rfl
      · cases hs
    · cases hs
  | handle g answers =>
    simp only [Link.step] at hs
    split at hs
    · rename_i message stdin stdout receiving hp
      cases hs
      exact h.setPeer ((h.peers _ (mem_of_getElem? hp)).handle answers)
    · cases hs
  | lose g =>
    simp only [Link.step] at hs
    split at hs
    · rename_i message stdin stdout receiving hp
      cases hs
      have hok := h.peers _ (mem_of_getElem? hp)
      exact h.setPeer ⟨fun m hm => hok.messages m (mem_cons_of_mem _ hm), hok.responses,
        fun hrec m hm => hok.messagesApart hrec m (mem_cons_of_mem _ hm),
        hok.responsesApart⟩
    · cases hs
  | emit g response =>
    simp only [Link.step] at hs
    split at hs
    · rename_i stdin stdout receiving hp
      split at hs
      · rename_i hown
        cases hs
        have hok := h.peers _ (mem_of_getElem? hp)
        have hroute := IpcResponse.routeId_of_own hown
        refine h.setPeer ⟨hok.messages, fun r hr k hk => ?_, hok.messagesApart,
          fun hrec r hr id hid => ?_⟩
        · rcases mem_append.mp hr with hr | hr
          · exact hok.responses r hr k hk
          · rw [mem_singleton.mp hr] at hk
            cases hk
        · rcases mem_append.mp hr with hr | hr
          · exact hok.responsesApart hrec r hr id hid
          · rw [mem_singleton.mp hr] at hid
            rw [show (Tagged.mk response none).content = response from rfl, hroute] at hid
            cases hid
      · cases hs
    · cases hs
  | receive g =>
    simp only [Link.step] at hs
    split at hs
    · rename_i stdin response stdout hp
      cases hs
      have hok := h.peers _ (mem_of_getElem? hp)
      have hset : Inv (s.setPeer g ⟨stdin, stdout, true⟩) :=
        h.setPeer ⟨hok.messages, fun r hr => hok.responses r (mem_cons_of_mem _ hr),
          hok.messagesApart,
          fun hrec r hr => hok.responsesApart hrec r (mem_cons_of_mem _ hr)⟩
      unfold route
      split
      · rename_i id hid
        exact hset.complete (hok.responses response mem_cons_self)
          (hok.responsesApart rfl response mem_cons_self id hid)
      · exact hset
    · cases hs
  | discard g =>
    simp only [Link.step] at hs
    split at hs
    · rename_i stdin response stdout hp
      cases hs
      have hok := h.peers _ (mem_of_getElem? hp)
      exact h.setPeer ⟨hok.messages, fun r hr => hok.responses r (mem_cons_of_mem _ hr),
        hok.messagesApart,
        fun hrec r hr => hok.responsesApart hrec r (mem_cons_of_mem _ hr)⟩
    · cases hs
  | exit g =>
    simp only [Link.step] at hs
    split at hs
    · rename_i stdin stdout hp
      cases hs
      have hok := h.peers _ (mem_of_getElem? hp)
      have hset : Inv (s.setPeer g ⟨stdin, stdout, false⟩) :=
        h.setPeer ⟨hok.messages, hok.responses, fun hrec => absurd hrec (by simp),
          fun hrec => absurd hrec (by simp)⟩
      exact hset.of_quiet (s.requests.inFlight.quiet_cancelAll) rfl rfl
    · cases hs

/-- The run lemma. -/
theorem inv_of_run (hrun : Run step new tr s)
    (hapart : Within (fun s a => s.keepsApart a = true) tr) : Inv s := by
  refine hrun.invariant hapart ?_ ?_
  · exact ⟨fun p hp => absurd hp not_mem_nil, fun k id response hview => by cases hview⟩
  · intro s a s' h hapart hs
    exact h.step hapart hs

/-- The answers to the first and to the last message. -/
theorem Inv.correlated (h : Inv s) : s.Correlated where
  own := h.own
  start k id response config hview hmade := by
    obtain ⟨-, message, answers, hmessage, hresponse⟩ := h.own k id response hview
    obtain ⟨request, id', x, hmade', -, rfl⟩ := messageOf_eq_some.mp hmessage
    rw [hmade] at hmade'
    cases hmade'
    have hinit : Answers.result 0 .internal (fun () => .ready answers.descriptor)
        (answers.init config) = response.content := Option.some.inj hresponse
    rw [← hinit]
    cases answers.init config with
    | ok u => exact Or.inl ⟨answers.descriptor, rfl⟩
    | error e => exact Or.inr ⟨e, .internal, rfl⟩
  stop k id response hview hmade := by
    obtain ⟨-, message, answers, hmessage, hresponse⟩ := h.own k id response hview
    obtain ⟨request, id', x, hmade', -, rfl⟩ := messageOf_eq_some.mp hmessage
    rw [hmade] at hmade'
    cases hmade'
    exact (Option.some.inj hresponse).symm

/-- Whatever the order in which messages and responses arrive, and however many processes there
have been: as long as the ids are kept apart, every caller gets a response to its own message
only. -/
theorem correlated_of_apart (tr : List (Link Value × Label Value)) (s : Link Value)
    (hrun : Run step new tr s) (hapart : Within (fun s a => s.keepsApart a = true) tr) :
    s.Correlated :=
  (inv_of_run hrun hapart).correlated

end Apart

end Link

/-! ## Answers to somebody else -/

namespace Sample

/-- The process is started. -/
def started : List (Link.Label Unit) :=
  [.spawn, .call (.start ()), .attempt 0, .host (.sent 0), .handle 0 answers, .receive 0,
    .host (.deliver 0), .host (.wake 0)]

/-- A config update is answered, a command is sent twice, and the process is stopped. -/
def apart : List (Link.Label Unit) :=
  started ++ [.notify (.configUpdate ()), .handle 0 answers, .receive 0,
    .call (.executeCommand "run" ()), .attempt 1, .attempt 1, .host (.sent 1), .handle 0 answers,
    .receive 0, .host (.deliver 1), .host (.wake 1), .emit 0 (.pushOutput "session" ()),
    .call .stop, .attempt 2, .host (.sent 2), .receive 0, .handle 0 answers, .receive 0,
    .handle 0 answers, .receive 0]

/-- The process is stopped right after a config update. -/
def stopped : List (Link.Label Unit) :=
  started ++ [.notify (.configUpdate ()), .call .stop, .attempt 1, .host (.sent 1),
    .handle 0 answers, .receive 0]

/-- The process is replaced right after a config update. -/
def replaced : List (Link.Label Unit) :=
  started ++ [.notify (.configUpdate ()), .handle 0 answers, .host .cancelAll, .spawn,
    .call (.start ()), .receive 1]

end Sample

namespace Link

theorem correlated_to_the_stop :
    ∃ tr s, Run step (new : Link Unit) tr s ∧ s.Correlated ∧
      s.requests.inFlight.views.map (fun v => v.2.isSome) = [true, true, true] := by
  obtain ⟨tr, s, hrun, hapart, hviews⟩ := exists_run step (new : Link Unit) Sample.apart
    (fun tr s => Within (fun s a => keepsApart s a = true) tr ∧
      s.requests.inFlight.views.map (fun v => v.2.isSome) = [true, true, true])
    (by decide)
  exact ⟨tr, s, hrun, correlated_of_apart tr s hrun hapart, hviews⟩

/-- The method that has been given a response to a message of somebody else. -/
def misled (s : Link Unit) (k : ℕ) : Option Method :=
  match s.made[k]?, s.requests.inFlight.views[k]? with
  | some request, some (_, some response) =>
    if response.caller = some k then none else some request.method
  | _, _ => none

theorem not_correlated_of_misled {s : Link Unit} {k : ℕ} {method : Method}
    (h : s.misled k = some method) : ¬ s.Correlated := by
  intro hcorrelated
  unfold misled at h
  split at h
  · rename_i request id response hmade hview
    rw [if_pos (hcorrelated.own k id response hview).1] at h
    cases h
  · cases h

/-- The answer to a config update ends the wait of `stop`, and also the wait of the `start` of
another process. -/
theorem config_update_ends_handshakes :
    (∃ tr s, Run step (new : Link Unit) tr s ∧ s.misled 1 = some .stop ∧ ¬ s.Correlated) ∧
    ∃ tr s, Run step (new : Link Unit) tr s ∧ s.misled 1 = some .start ∧ ¬ s.Correlated := by
  constructor
  · obtain ⟨tr, s, hrun, hp⟩ := exists_run step (new : Link Unit) Sample.stopped
      (fun tr s => s.misled 1 = some .stop) (by decide)
    have hmisled := hp
    exact ⟨tr, s, hrun, hmisled, not_correlated_of_misled hmisled⟩
  · obtain ⟨tr, s, hrun, hp⟩ := exists_run step (new : Link Unit) Sample.replaced
      (fun tr s => s.misled 1 = some .start) (by decide)
    have hmisled := hp
    exact ⟨tr, s, hrun, hmisled, not_correlated_of_misled hmisled⟩

end Link

end HeraMind.Ipc
