/-
# No request is lost

The way of a request from the host to the extension and back.  The host writes it to the stdin of
the runner (`send_message`, `crates/heramind-core/src/extension/isolated/process.rs`); the reader
thread of the runner parses it and puts it into a queue of 128 messages (`start_stdin_reader`
and `push_event`, `crates/heramind-extension-runner/src/ipc_routing.rs`); the main loop of the
runner handles one message after the other and writes the responses to stdout (`run` and
`send_response`, `main.rs`); and the receiver thread of the host routes them
(`spawn_receiver_thread`).

Nobody is told of a message that is too long for the reader thread, that it cannot parse, or that
does not fit into the queue, nor of a response that cannot be serialized or is too long for the
host.  The ghosts beside the pipes and the queue say which message is where.
-/
import HeraMind.Ipc.Messages
import HeraMind.Ipc.Receiver

namespace HeraMind.Ipc

open List Option Bool
open Transition

/-! ## Pipes -/

/-- A pipe of frames: its bytes, and what was written as frames that were not read yet. -/
structure Pipe (α : Type) where
  bytes : List UInt8
  frames : List (α × Payload)

namespace Pipe

variable {α : Type} {p p' : Pipe α} {a : α} {payload : Payload}

def empty : Pipe α := ⟨[], []⟩

def write (p : Pipe α) (a : α) (payload : Payload) : Pipe α :=
  ⟨p.bytes ++ (IpcFrame.mk payload).encode, p.frames ++ [(a, payload)]⟩

/-- Read the next frame, with what it was written as. -/
def read (p : Pipe α) : Option (Payload × Option α × Pipe α) :=
  match readFrame p.bytes with
  | none => none
  | some (payload, rest) => some (payload, p.frames.head?.map Prod.fst, ⟨rest, p.frames.tail⟩)

/-- The bytes are the frames. -/
structure Aligned (p : Pipe α) : Prop where
  bytes : p.bytes = frameStream (p.frames.map fun f => ⟨f.2⟩)
  encodable : ∀ f ∈ p.frames, f.2.length < 2 ^ 32

theorem aligned_empty : (empty : Pipe α).Aligned := ⟨rfl, fun _ hf => absurd hf not_mem_nil⟩

theorem Aligned.write (h : p.Aligned) (hlt : payload.length < 2 ^ 32) :
    (p.write a payload).Aligned where
  bytes := by
    show p.bytes ++ _ = frameStream ((p.frames ++ [(a, payload)]).map _)
    rw [map_append, frameStream_append, ← h.bytes]
    simp
  encodable f hf := by
    rcases mem_append.mp hf with hf | hf
    · exact h.encodable f hf
    · rw [mem_singleton.mp hf]
      exact hlt

/-- The reader of an aligned pipe gets the frame that was written first. -/
theorem Aligned.read_cons (h : p.Aligned) {rest : List (α × Payload)}
    (hframes : p.frames = (a, payload) :: rest) :
    ∃ p', p.read = some (payload, some a, p') ∧ p'.frames = rest ∧ p'.Aligned := by
  have hmem : ((a, payload) : α × Payload) ∈ p.frames := by
    rw [hframes]
    exact mem_cons_self
  have hbytes := h.bytes
  rw [hframes, map_cons, frameStream_cons] at hbytes
  have hread : readFrame ((IpcFrame.mk payload).encode ++ frameStream (rest.map fun f => ⟨f.2⟩)) =
      some (payload, frameStream (rest.map fun f => ⟨f.2⟩)) :=
    readFrame_encode (h.encodable _ hmem) _
  rw [← hbytes] at hread
  refine ⟨⟨frameStream (rest.map fun f => ⟨f.2⟩), rest⟩, ?_, rfl, rfl, fun f hf => ?_⟩
  · unfold Pipe.read
    rw [hread, hframes]
    rfl
  · apply h.encodable
    rw [hframes]
    exact mem_cons_of_mem _ hf

/-- What a reader of an aligned pipe gets was written. -/
theorem Aligned.read_eq (h : p.Aligned) {a? : Option α} (hread : p.read = some (payload, a?, p')) :
    ∃ a, a? = some a ∧ p.frames = (a, payload) :: p'.frames ∧ p'.Aligned := by
  cases hframes : p.frames with
  | nil =>
    have hbytes := h.bytes
    rw [hframes] at hbytes
    unfold Pipe.read at hread
    rw [hbytes] at hread
    cases hread
  | cons f rest =>
    obtain ⟨a, payload'⟩ := f
    obtain ⟨q, hq, hrest, hq'⟩ := h.read_cons hframes
    rw [hread] at hq
    cases hq
    exact ⟨a, rfl, by rw [hrest], hq'⟩

end Pipe

/-! ## The line -/

/-- The serialization of messages and responses. -/
structure Codec (Value : Type) where
  messageToBytes : IpcMessage Value → Except String Payload
  messageFromBytes : Payload → Except String (IpcMessage Value)
  responseToBytes : IpcResponse Value → Except String Payload
  /-- `parse_response_payload`. -/
  responseFromBytes : Payload → Except String (IpcResponse Value)

/-- The capacity of the event channel of the runner. -/
def eventChannelCapacity : ℕ := 128

/-- The default of `HERAMIND_IPC_MAX_SIZE`. -/
def defaultMaxSize : ℕ := 10 * 1024 * 1024

/-- The line between the host and one process. -/
structure Line (Value : Type) where
  /-- All messages that the host has written. -/
  sent : List (IpcMessage Value)
  /-- Each frame is the message of an index. -/
  stdin : Pipe ℕ
  /-- The messages that the reader thread has taken off stdin. -/
  read : List ℕ
  queue : List (IpcMessage Value × Option ℕ)
  /-- Each frame is a response, for the message of an index if it is an answer. -/
  stdout : Pipe (Option ℕ × IpcResponse Value)
  /-- The responses that the host has routed, with the id. -/
  routed : List (Option ℕ × ℕ × IpcResponse Value)
  /-- The frames that a reader has dropped for their size. -/
  refused : ℕ
  /-- The main loop of the runner goes on. -/
  running : Bool

namespace Line

variable {Value : Type}

def new : Line Value where
  sent := []
  stdin := .empty
  read := []
  queue := []
  stdout := .empty
  routed := []
  refused := 0
  running := true

/-- What can happen next: the host writes a message, the reader thread reads one, the main loop
handles one, and writes the response or cannot, the extension sends something of its own, or the
receiver thread of the host reads a response. -/
inductive Label (Value : Type) : Type where
  | send (message : IpcMessage Value)
  | read
  | handle (answers : Answers Value) (written : Bool)
  | emit (response : IpcResponse Value)
  | receive

section Step

variable (codec : Codec Value) (maxSize : ℕ) (s : Line Value)

/-- The routing of the reader thread, with `push_event`. -/
def push (message : IpcMessage Value) (index : Option ℕ) : Line Value :=
  match message with
  -- for a capability call that waits
  | .capabilityResult _ _ _ => s
  | _ =>
    if s.queue.length < eventChannelCapacity then
      { s with queue := s.queue ++ [(message, index)] }
    -- the message is dropped, whatever it is
    else s

/-- `send_response`. -/
def sendResponse (response : IpcResponse Value) (index : Option ℕ) (written : Bool) : Line Value :=
  match codec.responseToBytes response with
  | .error _ => s
  | .ok payload =>
    if written then { s with stdout := s.stdout.write (index, response) payload } else s

/-- The receiver thread routes a response. -/
def route (response : IpcResponse Value) (index : Option ℕ) : Line Value :=
  match response.routeId with
  | some id => { s with routed := s.routed ++ [(index, id, response)] }
  | none => s

/-- The reader thread has taken a frame. -/
def afterRead (payload : Payload) (index : Option ℕ) : Line Value :=
  if maxSize < payload.length then { s with refused := s.refused + 1 }
  else
    match codec.messageFromBytes payload with
    | .error _ => s
    | .ok message => s.push message index

/-- The receiver thread of the host has taken a frame. -/
def afterReceive (payload : Payload) (index : Option ℕ) : Line Value :=
  if ipcMaxBufferSize < payload.length then { s with refused := s.refused + 1 }
  else
    match codec.responseFromBytes payload with
    | .error _ => s
    | .ok response => s.route response index

/-- One step. -/
def step : Label Value → Option (Line Value)
  | .send message =>
    match codec.messageToBytes message with
    | .error _ => none
    | .ok payload => some { s with
        sent := s.sent ++ [message]
        stdin := s.stdin.write s.sent.length payload }
  | .read =>
    match s.stdin.read with
    | none => none
    | some (payload, index, stdin) =>
      some (({ s with stdin := stdin, read := s.read ++ index.toList } : Line Value).afterRead
        codec maxSize payload index)
  | .handle answers written =>
    match s.running, s.queue with
    | true, (message, index) :: queue =>
      let s : Line Value := { s with queue := queue, running := !message.isShutdown }
      match answers.handleMessage message with
      | none => some s
      | some response => some (s.sendResponse codec response index written)
    | _, _ => none
  | .emit response =>
    if response.isPushOutput || response.isCapabilityRequest then
      some (s.sendResponse codec response none true)
    else none
  | .receive =>
    match s.stdout.read with
    | none => none
    | some (payload, ghost, stdout) =>
      some (({ s with stdout := stdout } : Line Value).afterReceive codec payload
        (ghost.bind Prod.fst))

end Step

/-! ## The claim -/

section Claim

variable (codec : Codec Value) (maxSize : ℕ) (s : Line Value)

/-- Where a request is that the reader thread has taken off stdin: in the queue, or as a response
on its way, or routed under its id. -/
inductive Kept (s : Line Value) (index id : ℕ) (message : IpcMessage Value) : Prop
  | queued : (message, some index) ∈ s.queue → Kept s index id message
  | answered {answers : Answers Value} {response : IpcResponse Value} {payload : Payload} :
      answers.handleMessage message = some response →
      ((some index, response), payload) ∈ s.stdout.frames → Kept s index id message
  | routed {answers : Answers Value} {response : IpcResponse Value} :
      answers.handleMessage message = some response →
      (some index, id, response) ∈ s.routed → Kept s index id message

/-- No request that was read is lost, nothing is dropped for its size, and what is on its way can
go on. -/
structure Lossless : Prop where
  kept : ∀ index ∈ s.read, ∀ message id, s.sent[index]? = some message →
    message.requestId = some id → s.Kept index id message
  accepted : s.refused = 0
  handles : s.running = true → s.queue ≠ [] → ∀ answers written,
    (s.step codec maxSize (.handle answers written)).isSome = true
  receives : s.stdout.frames ≠ [] → (s.step codec maxSize .receive).isSome = true

/-- The message of the index is a request. -/
def isRequest (index : Option ℕ) : Bool :=
  (index.bind fun j => s.sent[j]?).any fun message => message.requestId.isSome

variable [DecidableEq Value]

/-- The step loses no request: what is written fits into the length of a frame, what is read is
not over the limit of its reader, and a request is parsed as what it was, finds room in the
queue, and has a response that can be serialized and written, and is parsed as what it was. -/
def fits : Label Value → Bool
  | .send message =>
    (codec.messageToBytes message).toOption.all fun payload => decide (payload.length < 2 ^ 32)
  | .read =>
    s.stdin.frames.head?.all fun f =>
      decide (f.2.length ≤ maxSize) && (!s.isRequest (some f.1) ||
        decide ((codec.messageFromBytes f.2).toOption = s.sent[f.1]?) &&
          decide (s.queue.length < eventChannelCapacity))
  | .handle answers written =>
    s.queue.head?.all fun m => (answers.handleMessage m.1).all fun response =>
      match codec.responseToBytes response with
      | .ok payload => decide (payload.length < 2 ^ 32) && (written || !s.isRequest m.2)
      | .error _ => !s.isRequest m.2
  | .emit response =>
    (codec.responseToBytes response).toOption.all fun payload =>
      decide (payload.length < 2 ^ 32)
  | .receive =>
    s.stdout.frames.head?.all fun f =>
      decide (f.2.length ≤ ipcMaxBufferSize) && (!s.isRequest f.1.1 ||
        decide ((codec.responseFromBytes f.2).toOption = some f.1.2))

end Claim

/-! ## Steps that fit -/

section Fits

variable {codec : Codec Value} {maxSize : ℕ} {s s' : Line Value} {a : Label Value}
  {index : Option ℕ} {tr : List (Line Value × Label Value)}

/-- What holds between two steps. -/
structure Inv (s : Line Value) : Prop where
  stdin : s.stdin.Aligned
  stdout : s.stdout.Aligned
  /-- Frames and entries of the queue have messages that were sent. -/
  unread : ∀ f ∈ s.stdin.frames, f.1 < s.sent.length
  read : ∀ index ∈ s.read, index < s.sent.length
  kept : ∀ index ∈ s.read, ∀ message id, s.sent[index]? = some message →
    message.requestId = some id → s.Kept index id message
  accepted : s.refused = 0

theorem isRequest_iff {j : ℕ} :
    s.isRequest (some j) = true ↔
      ∃ message id, s.sent[j]? = some message ∧ message.requestId = some id := by
  unfold isRequest
  rw [bind_some]
  cases s.sent[j]? with
  | none => simp
  | some message => simp [isSome_iff_exists]

theorem Inv.new : Inv (new : Line Value) where
  stdin := Pipe.aligned_empty
  stdout := Pipe.aligned_empty
  unread _ hf := absurd hf not_mem_nil
  read _ hj := absurd hj not_mem_nil
  kept _ hj := absurd hj not_mem_nil
  accepted := rfl

variable {message : IpcMessage Value}

theorem Kept.mono {j id : ℕ} (h : s.Kept j id message)
    (hqueue : (message, some j) ∈ s.queue → (message, some j) ∈ s'.queue)
    (hstdout : ∀ f ∈ s.stdout.frames, f ∈ s'.stdout.frames)
    (hrouted : ∀ r ∈ s.routed, r ∈ s'.routed) : s'.Kept j id message := by
  cases h with
  | queued hmem => exact .queued (hqueue hmem)
  | answered hresponse hmem => exact .answered hresponse (hstdout _ hmem)
  | routed hresponse hmem => exact .routed hresponse (hrouted _ hmem)

/-! The host writes. -/

variable {payload : Payload}

theorem Inv.send (h : Inv s) (hlt : payload.length < 2 ^ 32) :
    Inv { s with
      sent := s.sent ++ [message]
      stdin := s.stdin.write s.sent.length payload } where
  stdin := h.stdin.write hlt
  stdout := h.stdout
  unread f hf := by
    show f.1 < (s.sent ++ [message]).length
    rw [length_append, length_singleton]
    rcases mem_append.mp hf with hf | hf
    · exact Nat.lt_succ_of_lt (h.unread f hf)
    · rw [mem_singleton.mp hf]
      exact Nat.lt_succ_self _
  read j hj := by
    show j < (s.sent ++ [message]).length
    rw [length_append, length_singleton]
    exact Nat.lt_succ_of_lt (h.read j hj)
  kept j hj message' id hmessage hid := by
    have hmessage : (s.sent ++ [message])[j]? = some message' := hmessage
    rw [getElem?_append_left (h.read j hj)] at hmessage
    exact (h.kept j hj message' id hmessage hid).mono (fun hmem => hmem) (fun _ hf => hf)
      (fun _ hr => hr)
  accepted := h.accepted

/-! The reader thread reads. -/

/-- All that the routing of the reader thread can change is the queue. -/
theorem push_eq (message : IpcMessage Value) :
    s.push message index = { s with queue := (s.push message index).queue } := by
  unfold push
  split
  · rfl
  · split <;> rfl

theorem queue_push (message : IpcMessage Value) :
    (s.push message index).queue = s.queue ∨
      ∃ e, (s.push message index).queue = s.queue ++ [e] := by
  unfold push
  split
  · exact Or.inl rfl
  · split
    · exact Or.inr ⟨_, rfl⟩
    · exact Or.inl rfl

theorem mem_queue_push {id : ℕ} (h : message.requestId = some id)
    (hroom : s.queue.length < eventChannelCapacity) :
    (message, index) ∈ (s.push message index).queue := by
  unfold push
  split
  · cases h
  · rw [if_pos hroom]
    exact mem_append_right _ mem_cons_self

/-- The reader thread takes a frame; if it is a request, the request gets into the queue. -/
theorem Inv.afterRead (h : Inv s) {j : ℕ} {stdin : Pipe ℕ}
    (hframes : s.stdin.frames = (j, payload) :: stdin.frames) (hstdin : stdin.Aligned)
    (hqueue : s'.queue = s.queue ∨ ∃ e, s'.queue = s.queue ++ [e])
    (hsame : s' = { s with stdin := stdin, read := s.read ++ [j], queue := s'.queue })
    (hnew : ∀ message id, s.sent[j]? = some message → message.requestId = some id →
      (message, some j) ∈ s'.queue) : Inv s' := by
  have hsent : s'.sent = s.sent := by rw [hsame]
  have hread : s'.read = s.read ++ [j] := by rw [hsame]
  have hj : j < s.sent.length := by
    apply h.unread (j, payload)
    rw [hframes]
    exact mem_cons_self
  have hsub : ∀ e ∈ s.queue, e ∈ s'.queue := by
    intro e he
    rcases hqueue with hq | ⟨e', hq⟩
    · rw [hq]
      exact he
    · rw [hq]
      exact mem_append_left _ he
  refine ⟨by rw [hsame]; exact hstdin, by rw [hsame]; exact h.stdout, fun f hf => ?_,
    fun k hk => ?_, fun k hk message id hmessage hid => ?_, by rw [hsame]; exact h.accepted⟩
  · rw [hsent]
    apply h.unread
    rw [hframes]
    rw [hsame] at hf
    exact mem_cons_of_mem _ hf
  · rw [hread] at hk
    rw [hsent]
    rcases mem_append.mp hk with hk | hk
    · exact h.read k hk
    · rw [mem_singleton.mp hk]
      exact hj
  · rw [hread] at hk
    rw [hsent] at hmessage
    rcases mem_append.mp hk with hk | hk
    · refine (h.kept k hk message id hmessage hid).mono (fun hmem => hsub _ hmem) ?_ ?_
      · rw [hsame]
        exact fun _ hf => hf
      · rw [hsame]
        exact fun _ hr => hr
    · rw [mem_singleton.mp hk] at hmessage ⊢
      exact .queued (hnew message id hmessage hid)

theorem eq_ok_of_toOption {ε α : Type} {x : Except ε α} {a : α} (h : x.toOption = some a) :
    x = .ok a := by
  cases x with
  | error e => cases h
  | ok b => rw [some.inj h]

theorem Inv.stepRead [DecidableEq Value] (h : Inv s) (hfits : s.fits codec maxSize .read = true)
    (hs : s.step codec maxSize .read = some s') : Inv s' := by
  simp only [Line.step] at hs
  split at hs
  · cases hs
  · rename_i payload ghost stdin hread
    cases hs
    obtain ⟨j, rfl, hframes, hstdin⟩ := h.stdin.read_eq hread
    simp only [fits, hframes, head?_cons, all_some, and_eq_true, decide_eq_true_eq] at hfits
    obtain ⟨hle, hrequest⟩ := hfits
    have hgood : ∀ message id, s.sent[j]? = some message → message.requestId = some id →
        codec.messageFromBytes payload = .ok message ∧ s.queue.length < eventChannelCapacity := by
      intro message id hmessage hid
      rw [isRequest_iff.mpr ⟨message, id, hmessage, hid⟩, hmessage] at hrequest
      simp only [Bool.not_true, Bool.false_or, and_eq_true, decide_eq_true_eq] at hrequest
      exact ⟨eq_ok_of_toOption hrequest.1, hrequest.2⟩
    unfold Line.afterRead
    rw [if_neg (Nat.not_lt_of_le hle)]
    cases hparse : codec.messageFromBytes payload with
    | error e =>
      refine h.afterRead hframes hstdin (Or.inl rfl) rfl fun message id hmessage hid => ?_
      rw [(hgood message id hmessage hid).1] at hparse
      cases hparse
    | ok m =>
      refine h.afterRead hframes hstdin (queue_push m) (push_eq m) fun message id hmessage hid => ?_
      obtain ⟨hm, hroom⟩ := hgood message id hmessage hid
      rw [hparse] at hm
      cases hm
      exact mem_queue_push (s := { s with stdin := stdin, read := s.read ++ [j] }) hid hroom

/-! The main loop handles. -/

/-- All that a response can change is stdout. -/
theorem sendResponse_eq (response : IpcResponse Value) (written : Bool) :
    s.sendResponse codec response index written = { s with
      stdout := (s.sendResponse codec response index written).stdout } := by
  unfold sendResponse
  split
  · rfl
  · split <;> rfl

theorem frames_sendResponse (response : IpcResponse Value) (written : Bool) :
    ∀ f ∈ s.stdout.frames, f ∈ (s.sendResponse codec response index written).stdout.frames := by
  intro f hf
  unfold sendResponse
  split
  · exact hf
  · split
    · exact mem_append_left _ hf
    · exact hf

variable {response : IpcResponse Value}

theorem aligned_sendResponse {written : Bool} (h : s.stdout.Aligned)
    (hlt : ∀ payload, codec.responseToBytes response = .ok payload → payload.length < 2 ^ 32) :
    (s.sendResponse codec response index written).stdout.Aligned := by
  unfold sendResponse
  split
  · exact h
  · rename_i payload hpayload
    split
    · exact h.write (hlt payload hpayload)
    · exact h

/-- An entry of the queue is handled; if it is a request, its response gets to stdout. -/
theorem Inv.handled (h : Inv s) {m : IpcMessage Value}
    {queue : List (IpcMessage Value × Option ℕ)} {running : Bool}
    {stdout : Pipe (Option ℕ × IpcResponse Value)} (hqueue : s.queue = (m, index) :: queue)
    (hstdout : stdout.Aligned) (hframes : ∀ f ∈ s.stdout.frames, f ∈ stdout.frames)
    (hnew : ∀ j id, index = some j → s.sent[j]? = some m → m.requestId = some id →
      ∃ (answers : Answers Value) (response : IpcResponse Value) (payload : Payload),
        answers.handleMessage m = some response ∧
        ((some j, response), payload) ∈ stdout.frames) :
    Inv { s with queue := queue, running := running, stdout := stdout } where
  stdin := h.stdin
  stdout := hstdout
  unread := h.unread
  read := h.read
  kept j hj message id hmessage hid := by
    have hkept := h.kept j hj message id hmessage hid
    by_cases hhead : (message, some j) = (m, index)
    · cases hhead
      obtain ⟨answers, response, payload, hresponse, hmem⟩ := hnew j id rfl hmessage hid
      exact .answered hresponse hmem
    · refine hkept.mono (fun hmem => ?_) hframes (fun _ hr => hr)
      rw [hqueue] at hmem
      exact (mem_cons.mp hmem).resolve_left hhead
  accepted := h.accepted

theorem Inv.stepHandle [DecidableEq Value] (h : Inv s) {answers : Answers Value} {written : Bool}
    (hfits : s.fits codec maxSize (.handle answers written) = true)
    (hs : s.step codec maxSize (.handle answers written) = some s') : Inv s' := by
  simp only [Line.step] at hs
  split at hs
  · rename_i m index queue hrunning hqueue
    simp only [fits, hqueue, head?_cons, all_some] at hfits
    cases hresponse : answers.handleMessage m with
    | none =>
      simp only [hresponse, some.injEq] at hs
      subst hs
      refine h.handled hqueue h.stdout (fun _ hf => hf) fun j id _ _ hid => ?_
      obtain ⟨response, hsome⟩ := answers.exists_handleMessage hid
      rw [hresponse] at hsome
      cases hsome
    | some response =>
      simp only [hresponse, some.injEq] at hs
      subst hs
      simp only [hresponse, all_some] at hfits
      rw [sendResponse_eq]
      refine h.handled hqueue (aligned_sendResponse h.stdout fun payload hpayload => ?_)
        (frames_sendResponse (s := { s with queue := queue, running := !m.isShutdown }) response
          written) fun j id hindex hmessage hid => ?_
      · simp only [hpayload, and_eq_true, decide_eq_true_eq] at hfits
        exact hfits.1
      · subst hindex
        have hrequest : s.isRequest (some j) = true := isRequest_iff.mpr ⟨m, id, hmessage, hid⟩
        cases hpayload : codec.responseToBytes response with
        | error e =>
          rw [hpayload, hrequest] at hfits
          cases hfits
        | ok payload =>
          simp only [hpayload, hrequest, and_eq_true, Bool.not_true, Bool.or_false] at hfits
          refine ⟨answers, response, payload, hresponse, ?_⟩
          simp only [sendResponse, hpayload, hfits.2, if_true]
          exact mem_append_right _ mem_cons_self
  · cases hs

/-! The host receives. -/

/-- All that the routing of a response can change is what has been routed. -/
theorem route_eq (response : IpcResponse Value) :
    s.route response index = { s with routed := (s.route response index).routed } := by
  unfold route
  split <;> rfl

theorem routed_route (response : IpcResponse Value) :
    ∀ r ∈ s.routed, r ∈ (s.route response index).routed := by
  intro r hr
  unfold route
  split
  · exact mem_append_left _ hr
  · exact hr

theorem mem_routed_route {id : ℕ} (h : response.routeId = some id) :
    (index, id, response) ∈ (s.route response index).routed := by
  simp only [route, h]
  exact mem_append_right _ mem_cons_self

/-- The receiver thread takes a frame; if it answers a request, it is routed under its id. -/
theorem Inv.received (h : Inv s) {stdout : Pipe (Option ℕ × IpcResponse Value)}
    {routed : List (Option ℕ × ℕ × IpcResponse Value)}
    (hframes : s.stdout.frames = ((index, response), payload) :: stdout.frames)
    (hstdout : stdout.Aligned) (hrouted : ∀ r ∈ s.routed, r ∈ routed)
    (hnew : ∀ j id, index = some j → s.isRequest (some j) = true →
      response.routeId = some id → (some j, id, response) ∈ routed) :
    Inv { s with stdout := stdout, routed := routed } where
  stdin := h.stdin
  stdout := hstdout
  unread := h.unread
  read := h.read
  kept j hj message id hmessage hid := by
    have hrequest : s.isRequest (some j) = true := isRequest_iff.mpr ⟨message, id, hmessage, hid⟩
    cases h.kept j hj message id hmessage hid with
    | queued hmem => exact .queued hmem
    | @answered answers response' payload' hresponse hmem =>
      rw [hframes] at hmem
      rcases mem_cons.mp hmem with hhead | hmem
      · cases hhead
        refine .routed hresponse (hnew j id rfl hrequest ?_)
        rw [answers.routeId_handleMessage hresponse]
        exact IpcMessage.routeId_of_requestId hid
      · exact .answered hresponse hmem
    | routed hresponse hmem => exact .routed hresponse (hrouted _ hmem)
  accepted := h.accepted

theorem Inv.stepReceive [DecidableEq Value] (h : Inv s)
    (hfits : s.fits codec maxSize .receive = true)
    (hs : s.step codec maxSize .receive = some s') : Inv s' := by
  simp only [Line.step] at hs
  split at hs
  · cases hs
  · rename_i payload ghost stdout hread
    cases hs
    obtain ⟨⟨index, response⟩, rfl, hframes, hstdout⟩ := h.stdout.read_eq hread
    simp only [fits, hframes, head?_cons, all_some, and_eq_true, decide_eq_true_eq] at hfits
    obtain ⟨hle, hrequest⟩ := hfits
    have hgood : ∀ j, index = some j → s.isRequest (some j) = true →
        codec.responseFromBytes payload = .ok response := by
      intro j hj hj'
      rw [hj, hj'] at hrequest
      simp only [Bool.not_true, Bool.false_or, decide_eq_true_eq] at hrequest
      exact eq_ok_of_toOption hrequest
    unfold Line.afterReceive
    rw [if_neg (Nat.not_lt_of_le hle)]
    cases hparse : codec.responseFromBytes payload with
    | error e =>
      refine h.received hframes hstdout (fun _ hr => hr) fun j id hj hj' _ => ?_
      rw [hgood j hj hj'] at hparse
      cases hparse
    | ok response' =>
      show Inv (route { s with stdout := stdout } response' index)
      rw [route_eq]
      refine h.received hframes hstdout
        (routed_route (s := { s with stdout := stdout }) response') fun j id hj hj' hid => ?_
      rw [hgood j hj hj'] at hparse
      cases hparse
      subst hj
      exact mem_routed_route hid

/-- The step lemma. -/
theorem Inv.step [DecidableEq Value] (h : Inv s) (hfits : s.fits codec maxSize a = true)
    (hs : s.step codec maxSize a = some s') : Inv s' := by
  cases a with
  | send message =>
    simp only [Line.step] at hs
    split at hs
    · cases hs
    · rename_i payload hpayload
      cases hs
      simp only [fits, hpayload, Except.toOption, all_some, decide_eq_true_eq] at hfits
      exact h.send hfits
  | read => exact h.stepRead hfits hs
  | handle answers written => exact h.stepHandle hfits hs
  | emit response =>
    simp only [Line.step] at hs
    split at hs
    · cases hs
      rw [sendResponse_eq]
      refine ⟨h.stdin, aligned_sendResponse h.stdout fun payload hpayload => ?_, h.unread, h.read,
        fun j hj message id hmessage hid => ?_, h.accepted⟩
      · simp only [fits, hpayload, Except.toOption, all_some, decide_eq_true_eq] at hfits
        exact hfits
      · exact (h.kept j hj message id hmessage hid).mono (fun hmem => hmem)
          (frames_sendResponse response true) (fun _ hr => hr)
    · cases hs
  | receive => exact h.stepReceive hfits hs

/-- The run lemma. -/
theorem inv_of_run [DecidableEq Value] (hrun : Run (Line.step codec maxSize) Line.new tr s)
    (hfits : Within (fun s a => s.fits codec maxSize a = true) tr) : Inv s := by
  refine hrun.invariant hfits Inv.new ?_
  intro s a s' h hfits hs
  exact h.step hfits hs

theorem Inv.lossless (h : Inv s) : s.Lossless codec maxSize where
  kept := h.kept
  accepted := h.accepted
  handles hrunning hqueue answers written := by
    simp only [Line.step, hrunning]
    cases hcons : s.queue with
    | nil => exact absurd hcons hqueue
    | cons e queue =>
      obtain ⟨m, index⟩ := e
      simp only
      split <;> rfl
  receives hframes := by
    cases hcons : s.stdout.frames with
    | nil => exact absurd hcons hframes
    | cons f rest =>
      obtain ⟨ghost, payload⟩ := f
      obtain ⟨p, hread, -, -⟩ := h.stdout.read_cons hcons
      simp only [Line.step, hread]
      rfl

/-- Whatever is sent, at any rate, and in any order of steps: as long as what is sent fits, no
request that the reader thread has read is lost. -/
theorem lossless_of_fits [DecidableEq Value] (codec : Codec Value) (maxSize : ℕ)
    (tr : List (Line Value × Label Value)) (s : Line Value)
    (hrun : Run (Line.step codec maxSize) Line.new tr s)
    (hfits : Within (fun s a => s.fits codec maxSize a = true) tr) : s.Lossless codec maxSize :=
  (inv_of_run hrun hfits).lossless

end Fits

end Line

/-! ## Lost requests -/

namespace Sample

/-- Commands and events, and successful responses, as bytes. -/
def codec : Codec Unit where
  messageToBytes
    | .executeCommand _ _ requestId => .ok [1, UInt8.ofNat requestId]
    | .eventPush _ _ => .ok [0]
    | _ => .error "not a command"
  messageFromBytes
    | [1, requestId] => .ok (.executeCommand "run" () requestId.toNat)
    | [0] => .ok (.eventPush "tick" ())
    | _ => .error "invalid message"
  responseToBytes
    | .success requestId _ => .ok [1, UInt8.ofNat requestId]
    | _ => .error "not a success"
  responseFromBytes
    | [1, requestId] => .ok (.success requestId.toNat ())
    | _ => .error "invalid response"

def command : Line.Label Unit := .send (.executeCommand "run" () 7)

def event : Line.Label Unit := .send (.eventPush "tick" ())

/-- A command between two events. -/
def steady : List (Line.Label Unit) :=
  [event, command, .read, .read, event, .handle answers true, .handle answers true, .read, .receive]

/-- The main loop is busy while 128 events arrive, and then a command. -/
def flood : List (Line.Label Unit) :=
  List.replicate 128 event ++ command :: List.replicate 129 .read

end Sample

namespace Line

theorem lossless_command :
    ∃ tr s, Run (step Sample.codec 16) (new : Line Unit) tr s ∧ s.Lossless Sample.codec 16 ∧
      s.routed = [(some 1, 7, .success 7 ())] := by
  obtain ⟨tr, s, hrun, hfits, hrouted⟩ := exists_run (step Sample.codec 16) (new : Line Unit)
    Sample.steady
    (fun tr s => Within (fun s a => fits Sample.codec 16 s a = true) tr ∧
      s.routed = [(some 1, 7, .success 7 ())])
    (by decide)
  exact ⟨tr, s, hrun, lossless_of_fits Sample.codec 16 tr s hrun hfits, hrouted⟩

/-- A request that was read is nowhere. -/
def lost (s : Line Unit) (j : ℕ) : Bool :=
  s.read.contains j && s.isRequest (some j) && s.queue.all (fun e => decide (e.2 ≠ some j)) &&
    s.stdout.frames.isEmpty && s.routed.isEmpty

theorem not_lossless_of_lost {codec : Codec Unit} {maxSize : ℕ} {s : Line Unit} {j : ℕ}
    (h : s.lost j = true) : ¬ s.Lossless codec maxSize := by
  intro hlossless
  simp only [lost, and_eq_true, List.isEmpty_iff] at h
  obtain ⟨⟨⟨⟨hread, hrequest⟩, hqueue⟩, hframes⟩, hrouted⟩ := h
  obtain ⟨message, id, hmessage, hid⟩ := isRequest_iff.mp hrequest
  cases hlossless.kept j (contains_iff_mem.mp hread) message id hmessage hid with
  | queued hmem => exact of_decide_eq_true (all_eq_true.mp hqueue _ hmem) rfl
  | answered _ hmem =>
    rw [hframes] at hmem
    cases hmem
  | routed _ hmem =>
    rw [hrouted] at hmem
    cases hmem

/-- A command that finds the queue full of events is dropped, and so is one that is over the
limit of the runner. -/
theorem command_dropped :
    (∃ tr s, Run (step Sample.codec defaultMaxSize) (new : Line Unit) tr s ∧
      s.lost 128 = true ∧ ¬ s.Lossless Sample.codec defaultMaxSize) ∧
    ∃ tr s, Run (step Sample.codec 1) (new : Line Unit) tr s ∧ s.refused = 1 ∧
      s.lost 0 = true ∧ ¬ s.Lossless Sample.codec 1 := by
  constructor
  · obtain ⟨tr, s, hrun, hp⟩ := exists_run (step Sample.codec defaultMaxSize)
      (new : Line Unit) Sample.flood (fun tr s => lost s 128 = true) (by decide +kernel)
    exact ⟨tr, s, hrun, hp, not_lossless_of_lost hp⟩
  · obtain ⟨tr, s, hrun, hrefused, hlost⟩ := exists_run (step Sample.codec 1) (new : Line Unit)
      [Sample.command, .read] (fun _ s => s.refused = 1 ∧ lost s 0 = true) (by decide)
    exact ⟨tr, s, hrun, hrefused, hlost, not_lossless_of_lost hlost⟩

end Line

end HeraMind.Ipc
