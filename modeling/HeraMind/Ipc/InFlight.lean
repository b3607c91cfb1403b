/-
# Requests in flight

The tracker of the requests that the host has sent to an extension (`InFlightRequests`,
`crates/heramind-core/src/extension/isolated/in_flight.rs`), and the methods of
`IsolatedExtension` that use it (`process.rs`).  A method registers an id, sends its message and
waits; the entry of its id should go when it leaves.  It does when a response arrives, and when
`wait_with_timeout` gives up.  But most methods leave the entry behind when the message cannot be
sent, some wait with a timeout of their own, and no method cleans up when its caller is gone.

An entry that is left behind keeps `pending_count` above zero, and the health monitor then skips
its probes.
-/
import HeraMind.Lib.KeyedMap
import HeraMind.Lib.Run
import Mathlib.Algebra.Order.Sub.Basic
import Mathlib.Algebra.Group.Nat.Defs

namespace HeraMind.Ipc

open Option hiding all_eq_true
open AList
open List
open Transition

/-! ## The tracker -/

/-- The channel from the tracker to one caller. -/
inductive ChannelState (Response : Type) : Type where
  /-- Its sender is in the tracker. -/
  | empty
  /-- `complete` has taken its sender, and has yet to send. -/
  | taken (response : Response)
  | filled (response : Response)
  | closed
  deriving DecidableEq

/-- A oneshot channel, with the id it was registered under. -/
structure Oneshot (Response : Type) where
  requestId : ℕ
  state : ChannelState Response

namespace Oneshot

variable {Response : Type}

/-- A sender that was in the map is dropped. -/
def dropped (c : Oneshot Response) : Oneshot Response :=
  match c.state with
  | .empty => { c with state := .closed }
  | _ => c

/-- A sender that was taken sends. -/
def sent (c : Oneshot Response) : Oneshot Response :=
  match c.state with
  | .taken response => { c with state := .filled response }
  | _ => c

theorem state_dropped (c : Oneshot Response) : c.dropped.state ≠ .empty := by
  unfold dropped
  split
  · simp
  · assumption

theorem sent_eq_empty {c : Oneshot Response} {id : ℕ} (h : c.sent = ⟨id, .empty⟩) :
    c = ⟨id, .empty⟩ := by
  unfold sent at h
  split at h
  · cases h
  · exact h

end Oneshot

/-- `InFlightRequests`: for every pending id the channel of its sender, among the channels ever
made. -/
structure InFlightRequests (Response : Type) where
  nextId : ℕ
  pending : HashMap ℕ ℕ
  channels : List (Oneshot Response)
  /-- The senders of the empty channels are the ones in the map. -/
  owned : ∀ id k, pending.lookup id = some k ↔ channels[k]? = some ⟨id, .empty⟩

namespace InFlightRequests

variable {Response : Type}

/-- Ids begin with 1; 0 is for the start and the stop of the process. -/
def new : InFlightRequests Response where
  nextId := 1
  pending := ∅
  channels := []
  owned := by simp

/-- Remove the entry of an id, and put its channel into another state. -/
def release (t : InFlightRequests Response) (id : ℕ) (state : ChannelState Response)
    (hstate : state ≠ .empty) : InFlightRequests Response :=
  match hk : t.pending.lookup id with
  | none => t
  | some k => { t with
      pending := t.pending.erase id
      channels := t.channels.set k ⟨id, state⟩
      owned := by
        intro id' k'
        have hchannel := (t.owned id k).mp hk
        rw [getElem?_set]
        by_cases hkk : k = k'
        · subst hkk
          have hlt := (List.getElem?_eq_some_iff.mp hchannel).1
          rw [if_pos rfl, if_pos hlt]
          refine iff_of_false (fun hl => ?_) (fun he => ?_)
          · by_cases hid : id' = id
            · rw [hid, AList.lookup_erase] at hl
              cases hl
            · rw [AList.lookup_erase_ne hid, t.owned, hchannel] at hl
              cases hl
              exact hid rfl
          · cases he
            exact hstate rfl
        · rw [if_neg hkk]
          by_cases hid : id' = id
          · rw [hid, AList.lookup_erase, ← t.owned, hk]
            exact iff_of_false nofun (fun he => hkk (some.inj he))
          · rw [AList.lookup_erase_ne hid, t.owned] }

section Release

variable (t : InFlightRequests Response) (id : ℕ) {state : ChannelState Response}
  (hstate : state ≠ .empty)

theorem lookup_release (id' : ℕ) :
    (t.release id state hstate).pending.lookup id' =
      if id' = id then none else t.pending.lookup id' := by
  unfold release
  split
  · rename_i hk
    by_cases hid : id' = id
    · rw [if_pos hid, hid, hk]
    · rw [if_neg hid]
  · show (t.pending.erase id).lookup id' = _
    by_cases hid : id' = id
    · rw [if_pos hid, hid, AList.lookup_erase]
    · rw [if_neg hid, AList.lookup_erase_ne hid]

theorem getElem?_release (k : ℕ) :
    (t.release id state hstate).channels[k]? =
      if t.pending.lookup id = some k then some ⟨id, state⟩ else t.channels[k]? := by
  unfold release
  split
  · rename_i hk
    rw [hk, if_neg (by simp)]
  · rename_i k' hk
    show (t.channels.set k' _)[k]? = _
    have hlt := (List.getElem?_eq_some_iff.mp ((t.owned id k').mp hk)).1
    rw [getElem?_set, if_pos hlt, hk]
    by_cases hkk : k' = k
    · rw [if_pos hkk, if_pos (by rw [hkk])]
    · rw [if_neg hkk, if_neg (fun h => hkk (some.inj h))]

@[simp] theorem length_release :
    (t.release id state hstate).channels.length = t.channels.length := by
  unfold release
  split
  · rfl
  · exact length_set

end Release

/-- `register_with_id`.  A sender that was there before is dropped. -/
def registerWithId (t : InFlightRequests Response) (id : ℕ) : InFlightRequests Response :=
  let u := t.release id .closed (by simp)
  { u with
    pending := u.pending.insert id u.channels.length
    channels := u.channels ++ [⟨id, .empty⟩]
    owned := by
      intro id' k
      have hnone : u.pending.lookup id = none := by
        rw [lookup_release, if_pos rfl]
      by_cases hlt : k < u.channels.length
      · rw [getElem?_append_left hlt]
        by_cases hid : id' = id
        · rw [hid, lookup_insert, ← u.owned, hnone]
          refine iff_of_false (fun h => ?_) nofun
          cases h
          exact Nat.lt_irrefl _ hlt
        · rw [lookup_insert_ne hid, u.owned]
      · rw [getElem?_append_right (Nat.le_of_not_lt hlt)]
        by_cases hk : k = u.channels.length
        · subst hk
          rw [Nat.sub_self]
          by_cases hid : id' = id
          · rw [hid, lookup_insert]
            exact iff_of_true rfl rfl
          · rw [lookup_insert_ne hid, u.owned, getElem?_eq_none (Nat.le_refl _)]
            refine iff_of_false nofun (fun h => ?_)
            cases h
            exact hid rfl
        · have hgt : u.channels.length < k := by omega
          rw [getElem?_eq_none (by simp; omega)]
          refine iff_of_false (fun h => ?_) nofun
          by_cases hid : id' = id
          · rw [hid, lookup_insert] at h
            exact hk (some.inj h).symm
          · rw [lookup_insert_ne hid, u.owned, getElem?_eq_none (Nat.le_of_lt hgt)] at h
            cases h }

/-- `register`: the next id, a `u64` that wraps around. -/
def register (t : InFlightRequests Response) : InFlightRequests Response :=
  { t.registerWithId t.nextId with nextId := (t.nextId + 1) % 2 ^ 64 }

/-- A method registers under its fixed id, if it has one. -/
def registerFor (t : InFlightRequests Response) : Option ℕ → InFlightRequests Response
  | some id => t.registerWithId id
  | none => t.register

/-- `complete`, up to the end of the critical section. -/
def complete (t : InFlightRequests Response) (id : ℕ) (response : Response) :
    InFlightRequests Response :=
  t.release id (.taken response) (by simp)

/-- `cancel`. -/
def cancel (t : InFlightRequests Response) (id : ℕ) : InFlightRequests Response :=
  t.release id .closed (by simp)

/-- `pending_count`. -/
def pendingCount (t : InFlightRequests Response) : ℕ := t.pending.keys.length

/-- `cancel_all`. -/
def cancelAll (t : InFlightRequests Response) : InFlightRequests Response :=
  { t with
    pending := ∅
    channels := t.channels.map Oneshot.dropped
    owned := by
      intro id k
      rw [AList.lookup_empty]
      refine iff_of_false nofun (fun h => ?_)
      rw [getElem?_map, map_eq_some_iff] at h
      obtain ⟨c, -, hc⟩ := h
      have hstate := c.state_dropped
      rw [hc] at hstate
      exact hstate rfl }

/-- The end of `complete`: the response is sent. -/
def deliver (t : InFlightRequests Response) (k : ℕ) : InFlightRequests Response :=
  { t with
    channels := t.channels.modify k Oneshot.sent
    owned := by
      intro id k'
      rw [t.owned, getElem?_modify]
      by_cases hkk : k = k'
      · subst hkk
        simp only [if_true, Option.map_eq_map, map_eq_some_iff]
        constructor
        · intro h
          exact ⟨_, h, rfl⟩
        · rintro ⟨c, hc, hsent⟩
          rw [hc, ← Oneshot.sent_eq_empty hsent]
      · simp [hkk] }

section Lengths

variable (t : InFlightRequests Response)

@[simp] theorem length_registerWithId (id : ℕ) :
    (t.registerWithId id).channels.length = t.channels.length + 1 := by
  show ((t.release id .closed _).channels ++ [_]).length = _
  rw [length_append, length_release, length_singleton]

@[simp] theorem length_registerFor (fixedId : Option ℕ) :
    (t.registerFor fixedId).channels.length = t.channels.length + 1 := by
  cases fixedId with
  | none => exact t.length_registerWithId t.nextId
  | some id => exact t.length_registerWithId id

@[simp] theorem length_complete (id : ℕ) (response : Response) :
    (t.complete id response).channels.length = t.channels.length :=
  t.length_release id (by simp)

@[simp] theorem length_cancel (id : ℕ) : (t.cancel id).channels.length = t.channels.length :=
  t.length_release id (by simp)

@[simp] theorem length_cancelAll : t.cancelAll.channels.length = t.channels.length :=
  length_map _

@[simp] theorem length_deliver (k : ℕ) : (t.deliver k).channels.length = t.channels.length :=
  length_modify _ _ _

end Lengths

/-! The empty channels after each operation. -/

section Empty

variable {t : InFlightRequests Response} {id k : ℕ}

theorem getElem?_release_empty {id' : ℕ} {state : ChannelState Response}
    (hstate : state ≠ .empty)
    (h : (t.release id' state hstate).channels[k]? = some ⟨id, .empty⟩) :
    t.channels[k]? = some ⟨id, .empty⟩ ∧ id ≠ id' := by
  rw [← (t.release id' state hstate).owned, lookup_release] at h
  split at h
  · cases h
  · rename_i hid
    exact ⟨(t.owned id k).mp h, hid⟩

theorem getElem?_cancelAll : t.cancelAll.channels[k]? ≠ some ⟨id, .empty⟩ := by
  intro h
  rw [← t.cancelAll.owned] at h
  have hnone : (∅ : HashMap ℕ ℕ).lookup id = some k := h
  rw [AList.lookup_empty] at hnone
  cases hnone

theorem getElem?_deliver {j : ℕ} :
    (t.deliver j).channels[k]? = some ⟨id, .empty⟩ ↔ t.channels[k]? = some ⟨id, .empty⟩ := by
  rw [← t.owned, ← (t.deliver j).owned]
  rfl

/-- A new channel is the last one. -/
theorem getElem?_registerWithId {id' : ℕ}
    (h : (t.registerWithId id').channels[k]? = some ⟨id, .empty⟩) :
    t.channels[k]? = some ⟨id, .empty⟩ ∨ k = t.channels.length := by
  have happend : (t.registerWithId id').channels =
      (t.release id' .closed (by simp)).channels ++ [⟨id', .empty⟩] := rfl
  rw [happend] at h
  by_cases hlt : k < t.channels.length
  · rw [getElem?_append_left (by simpa using hlt)] at h
    exact Or.inl (getElem?_release_empty (by simp) h).1
  · have hk := (List.getElem?_eq_some_iff.mp h).1
    rw [length_append, length_release, length_singleton] at hk
    exact Or.inr (by omega)

theorem getElem?_registerFor {fixedId : Option ℕ}
    (h : (t.registerFor fixedId).channels[k]? = some ⟨id, .empty⟩) :
    t.channels[k]? = some ⟨id, .empty⟩ ∨ k = t.channels.length := by
  cases fixedId with
  | none | some id' => exact getElem?_registerWithId h

end Empty

end InFlightRequests

/-! ## The methods -/

/-- The methods of `IsolatedExtension` that register a request. -/
inductive Method : Type where
  | start | stop
  | executeCommand | produceMetrics | refreshDescriptor | getStats | executeBatchIpc
  | healthCheck | streamCapability | initSession | processSessionChunk | closeSession
  | processChunk | startPush | stopPush | getEventSubscriptions | ping
  deriving DecidableEq

/-- What a method does when its message cannot be sent. -/
inductive OnSendFailure : Type where
  /-- It returns, and leaves its entry. -/
  | leave
  | cancel
  /-- It waits all the same. -/
  | wait
  deriving DecidableEq

namespace Method

/-- The id of the handshakes. -/
def fixedId : Method → Option ℕ
  | start | stop => some 0
  | _ => none

def onSendFailure : Method → OnSendFailure
  | stop => .wait
  | ping => .cancel
  | _ => .leave

/-- The method waits with `wait_with_timeout`, which cancels, not with a timeout of its own. -/
def waitsWithTimeout : Method → Bool
  | initSession | processSessionChunk | closeSession | getEventSubscriptions => false
  | _ => true

end Method

inductive CallPhase : Type where
  | sending
  | waiting
  /-- It has returned, or its caller has dropped it. -/
  | left
  deriving DecidableEq

structure Call where
  method : Method
  phase : CallPhase

/-- The tracker of an extension, and all calls of its methods that have registered a request. -/
structure Requests (Response : Type) where
  inFlight : InFlightRequests Response
  calls : List Call
  aligned : calls.length = inFlight.channels.length

namespace Requests

variable {Response : Type}

def new : Requests Response where
  inFlight := .new
  calls := []
  aligned := rfl

/-- What can happen next: a method is called, its message is sent or not, a response arrives and
is sent on, all requests are cancelled, a call returns after its channel is filled or closed, or
after a timeout, or is dropped, or the health monitor probes. -/
inductive Label (Response : Type) : Type where
  | call (method : Method)
  | sent (k : ℕ)
  | sendFailed (k : ℕ)
  | complete (id : ℕ) (response : Response)
  | deliver (k : ℕ)
  | cancelAll
  | wake (k : ℕ)
  | timeout (k : ℕ)
  | drop (k : ℕ)
  | probe
  deriving DecidableEq

section Step

variable (s : Requests Response)

/-- The phase of a call. -/
def phase (k : ℕ) : Option CallPhase := s.calls[k]?.map Call.phase

def state (k : ℕ) : Option (ChannelState Response) := s.inFlight.channels[k]?.map Oneshot.state

/-- A call moves on. -/
def setPhase (k : ℕ) (phase : CallPhase) : Requests Response where
  inFlight := s.inFlight
  calls := s.calls.modify k fun call => { call with phase := phase }
  aligned := by rw [length_modify, s.aligned]

/-- A call cancels its request. -/
def cancel (k : ℕ) : Requests Response :=
  match s.inFlight.channels[k]? with
  | none => s
  | some c => { s with
      inFlight := s.inFlight.cancel c.requestId
      aligned := by rw [s.aligned, InFlightRequests.length_cancel] }

/-- The other handshake holds the lock of the process. -/
def handshaking : Bool :=
  s.calls.any fun call => call.method.fixedId.isSome && decide (call.phase ≠ .left)

/-- A method registers its request. -/
def register (method : Method) : Requests Response where
  inFlight := s.inFlight.registerFor method.fixedId
  calls := s.calls ++ [⟨method, .sending⟩]
  aligned := by
    rw [length_append, length_singleton, s.aligned, InFlightRequests.length_registerFor]

/-- A call leaves. -/
def leave (k : ℕ) (cancels : Bool) : Requests Response :=
  (if cancels then s.cancel k else s).setPhase k .left

/-- The health monitor finds requests in flight, and does not probe. -/
def probeSkipped : Bool := decide (0 < s.inFlight.pendingCount)

/-- One step. -/
def step : Label Response → Option (Requests Response)
  | .call method =>
    if method.fixedId.isSome && s.handshaking then none else some (s.register method)
  | .sent k =>
    match s.calls[k]? with
    | some ⟨_, .sending⟩ => some (s.setPhase k .waiting)
    | _ => none
  | .sendFailed k =>
    match s.calls[k]? with
    | some ⟨method, .sending⟩ =>
      match method.onSendFailure with
      | .leave => some (s.leave k false)
      | .cancel => some (s.leave k true)
      | .wait => some (s.setPhase k .waiting)
    | _ => none
  | .complete id response => some { s with
      inFlight := s.inFlight.complete id response
      aligned := by rw [s.aligned, InFlightRequests.length_complete] }
  | .deliver k => some { s with
      inFlight := s.inFlight.deliver k
      aligned := by rw [s.aligned, InFlightRequests.length_deliver] }
  | .cancelAll => some { s with
      inFlight := s.inFlight.cancelAll
      aligned := by rw [s.aligned, InFlightRequests.length_cancelAll] }
  | .wake k =>
    match s.calls[k]?, s.state k with
    | some ⟨_, .waiting⟩, some (.filled _) => some (s.leave k false)
    | some ⟨method, .waiting⟩, some .closed => some (s.leave k method.waitsWithTimeout)
    | _, _ => none
  | .timeout k =>
    match s.calls[k]?, s.state k with
    | some ⟨method, .waiting⟩, some .empty => some (s.leave k method.waitsWithTimeout)
    -- the response is on its way, but the caller has not seen it
    | some ⟨method, .waiting⟩, some (.taken _) => some (s.leave k method.waitsWithTimeout)
    | _, _ => none
  | .drop k =>
    match s.phase k with
    | some .left | none => none
    | _ => some (s.leave k false)
  | .probe => if s.probeSkipped then some s else some (s.register .ping)

end Step

/-! ## The claim -/

section Claim

variable (s : Requests Response)

/-- The call has not left. -/
def Live (k : ℕ) : Prop := ∃ call, s.calls[k]? = some call ∧ call.phase ≠ .left

/-- The call has not left, and nobody has answered it or closed its channel. -/
def Waits (k id : ℕ) : Prop := s.Live k ∧ s.inFlight.channels[k]? = some ⟨id, .empty⟩

/-- The pending ids are those of the callers that wait.  So if nobody waits, the next probe is
not skipped. -/
structure Accounted : Prop where
  pending : ∀ id, id ∈ s.inFlight.pending ↔ ∃ k, s.Waits k id
  probed : (∀ k id, ¬ s.Waits k id) → s.inFlight.pendingCount = 0 ∧ s.probeSkipped = false

/-- The request of a call is still pending. -/
def isPending (k : ℕ) : Bool :=
  match s.state k with
  | some .empty => true
  | _ => false

/-- The step does not leave a pending request behind: the message of a method that would leave
it is sent, a timeout cancels, and no caller is dropped before its answer. -/
def cleanly : Label Response → Bool
  | .sendFailed k =>
    match s.calls[k]? with
    | some ⟨method, _⟩ => decide (method.onSendFailure ≠ .leave) || !s.isPending k
    | none => true
  | .timeout k =>
    match s.calls[k]? with
    | some ⟨method, _⟩ => method.waitsWithTimeout || !s.isPending k
    | none => true
  | .drop k => !s.isPending k
  | _ => true

end Claim

/-! ## Attended requests -/

section Attended

variable {s s' : Requests Response} {a : Label Response} {k : ℕ}

/-- Every pending request has its caller. -/
def Attended (s : Requests Response) : Prop :=
  ∀ k id, s.inFlight.channels[k]? = some ⟨id, .empty⟩ → s.Live k

theorem isPending_iff : s.isPending k = true ↔ ∃ id, s.inFlight.channels[k]? = some ⟨id, .empty⟩ := by
  unfold isPending state
  cases hc : s.inFlight.channels[k]? with
  | none => simp
  | some c =>
    obtain ⟨id, state⟩ := c
    cases state <;> simp

theorem accounted_iff_attended : s.Accounted ↔ s.Attended := by
  constructor
  · intro h k id hchannel
    have hlookup := (s.inFlight.owned id k).mpr hchannel
    have hmem : id ∈ s.inFlight.pending := by
      rw [← lookup_isSome, hlookup]
      rfl
    obtain ⟨k', hlive, hchannel'⟩ := (h.pending id).mp hmem
    have hlookup' := (s.inFlight.owned id k').mpr hchannel'
    rw [hlookup] at hlookup'
    rw [some.inj hlookup']
    exact hlive
  · intro h
    have hpending : ∀ id, id ∈ s.inFlight.pending ↔ ∃ k, s.Waits k id := by
      intro id
      rw [← lookup_isSome, isSome_iff_exists]
      constructor
      · rintro ⟨k, hlookup⟩
        have hchannel := (s.inFlight.owned id k).mp hlookup
        exact ⟨k, h k id hchannel, hchannel⟩
      · rintro ⟨k, -, hchannel⟩
        exact ⟨k, (s.inFlight.owned id k).mpr hchannel⟩
    refine ⟨hpending, fun hidle => ?_⟩
    have hzero : s.inFlight.pendingCount = 0 := by
      unfold InFlightRequests.pendingCount
      rw [length_eq_zero_iff, eq_nil_iff_forall_not_mem]
      intro id hid
      obtain ⟨k, hwaits⟩ := (hpending id).mp (AList.mem_keys.mpr hid)
      exact hidle k id hwaits
    exact ⟨hzero, by simp [probeSkipped, hzero]⟩

/-- A step that makes no request pending, and after which nobody has left a pending one. -/
theorem Attended.of_channels (h : s.Attended)
    (hchannels : ∀ k id, s'.inFlight.channels[k]? = some ⟨id, .empty⟩ →
      s.inFlight.channels[k]? = some ⟨id, .empty⟩ ∧ (s.Live k → s'.Live k)) : s'.Attended := by
  intro k id hchannel
  obtain ⟨hbefore, hlive⟩ := hchannels k id hchannel
  exact hlive (h k id hbefore)

theorem live_setPhase {phase : CallPhase} (hphase : phase ≠ .left) {j : ℕ} (h : s.Live j) :
    (s.setPhase k phase).Live j := by
  obtain ⟨call, hcall, hleft⟩ := h
  by_cases hkj : k = j
  · subst hkj
    exact ⟨{ call with phase := phase }, by simp [setPhase, hcall], hphase⟩
  · exact ⟨call, by simp [setPhase, hkj, hcall], hleft⟩

theorem attended_setPhase {phase : CallPhase} (hphase : phase ≠ .left) (h : s.Attended) :
    (s.setPhase k phase).Attended :=
  h.of_channels fun _ _ hchannel => ⟨hchannel, live_setPhase hphase⟩

theorem calls_cancel : (s.cancel k).calls = s.calls := by
  unfold cancel
  split <;> rfl

/-- A call that leaves is not live, the others are as before. -/
theorem live_leave {cancels : Bool} {j : ℕ} :
    (s.leave k cancels).Live j ↔ j ≠ k ∧ s.Live j := by
  have hcalls : (s.leave k cancels).calls =
      s.calls.modify k fun call => { call with phase := .left } := by
    unfold leave
    cases cancels with
    | false => rfl
    | true =>
      show (s.cancel k).calls.modify k _ = _
      rw [calls_cancel]
  unfold Live
  rw [hcalls, getElem?_modify]
  by_cases hkj : k = j
  · subst hkj
    simp only [if_true, Option.map_eq_map, map_eq_some_iff]
    refine iff_of_false ?_ (fun h => h.1 rfl)
    rintro ⟨call, ⟨call', -, rfl⟩, hleft⟩
    exact hleft rfl
  · simp [hkj, Ne.symm hkj]

/-- A call that cancels takes its own request with it, if that is still pending. -/
theorem channels_leave {cancels : Bool} {j id : ℕ}
    (h : (s.leave k cancels).inFlight.channels[j]? = some ⟨id, .empty⟩) :
    s.inFlight.channels[j]? = some ⟨id, .empty⟩ ∧ (cancels = true → j ≠ k) := by
  cases cancels with
  | false => exact ⟨h, nofun⟩
  | true =>
    have hcancel : (s.cancel k).inFlight.channels[j]? = some ⟨id, .empty⟩ := h
    unfold cancel at hcancel
    split at hcancel
    · rename_i hnone
      refine ⟨hcancel, fun _ hjk => ?_⟩
      rw [hjk, hnone] at hcancel
      cases hcancel
    · rename_i c hc
      obtain ⟨hbefore, hid⟩ := InFlightRequests.getElem?_release_empty (by simp) hcancel
      refine ⟨hbefore, fun _ hjk => hid ?_⟩
      rw [hjk, hc] at hbefore
      rw [some.inj hbefore]

/-- The condition for a call to leave. -/
theorem attended_leave {cancels : Bool} (h : s.Attended) :
    (s.leave k cancels).Attended ↔ (cancels || !s.isPending k) = true := by
  constructor
  · intro hleave
    cases cancels with
    | true => rfl
    | false =>
      rw [Bool.false_or, Bool.not_eq_true', ← Bool.not_eq_true]
      intro hpending
      obtain ⟨id, hchannel⟩ := isPending_iff.mp hpending
      exact (live_leave.mp (hleave k id hchannel)).1 rfl
  · intro hclean
    refine h.of_channels fun j id hchannel => ?_
    obtain ⟨hbefore, hne⟩ := channels_leave hchannel
    refine ⟨hbefore, fun hlive => live_leave.mpr ⟨?_, hlive⟩⟩
    cases cancels with
    | true => exact hne rfl
    | false =>
      rintro rfl
      rw [Bool.false_or, Bool.not_eq_true', ← Bool.not_eq_true] at hclean
      exact hclean (isPending_iff.mpr ⟨id, hbefore⟩)

theorem attended_register (method : Method) (h : s.Attended) : (s.register method).Attended := by
  intro k id hchannel
  have hcalls : (s.register method).calls = s.calls ++ [⟨method, .sending⟩] := rfl
  unfold Live
  rw [hcalls]
  rcases InFlightRequests.getElem?_registerFor hchannel with hbefore | rfl
  · obtain ⟨call, hcall, hleft⟩ := h k id hbefore
    have hlt := (List.getElem?_eq_some_iff.mp hcall).1
    exact ⟨call, by rw [getElem?_append_left hlt, hcall], hleft⟩
  · exact ⟨⟨method, .sending⟩, by rw [← s.aligned]; simp, by simp⟩

/-- The step lemma: a step from a state without an unattended request leaves none behind if and
only if it is clean. -/
theorem attended_step (h : s.Attended) (hs : s.step a = some s') :
    s'.Attended ↔ s.cleanly a = true := by
  cases a with
  | call method =>
    simp only [step] at hs
    split at hs <;> cases hs
    exact iff_of_true (attended_register method h) rfl
  | sent k =>
    simp only [step] at hs
    split at hs <;> cases hs
    exact iff_of_true (attended_setPhase (by simp) h) rfl
  | sendFailed k =>
    simp only [step] at hs
    split at hs
    · rename_i method hcall
      simp only [cleanly, hcall]
      split at hs
      · rename_i hleave
        cases hs
        rw [attended_leave h, hleave]
        simp
      · rename_i hcancel
        cases hs
        rw [attended_leave h, hcancel]
        simp
      · rename_i hwait
        cases hs
        rw [hwait]
        exact iff_of_true (attended_setPhase (by simp) h) rfl
    · cases hs
  | complete id response =>
    cases hs
    refine iff_of_true (h.of_channels fun j id' hchannel => ?_) rfl
    exact ⟨(InFlightRequests.getElem?_release_empty (by simp) hchannel).1, fun hlive => hlive⟩
  | deliver k =>
    cases hs
    refine iff_of_true (h.of_channels fun j id hchannel => ?_) rfl
    exact ⟨InFlightRequests.getElem?_deliver.mp hchannel, fun hlive => hlive⟩
  | cancelAll =>
    cases hs
    refine iff_of_true (h.of_channels fun j id hchannel => ?_) rfl
    exact absurd hchannel InFlightRequests.getElem?_cancelAll
  | wake k =>
    simp only [step] at hs
    have hstate : s.isPending k = false := by
      unfold isPending
      split at hs
      · rename_i hk
        rw [hk]
      · rename_i hk
        rw [hk]
      · cases hs
    split at hs <;> cases hs
    · exact iff_of_true ((attended_leave h).mpr (by rw [hstate]; rfl)) rfl
    · exact iff_of_true ((attended_leave h).mpr (by rw [hstate]; simp)) rfl
  | timeout k =>
    simp only [step] at hs
    split at hs
    · rename_i method hcall hk
      cases hs
      simp only [cleanly, hcall]
      exact attended_leave h
    · rename_i method response hcall hk
      cases hs
      simp only [cleanly, hcall]
      exact attended_leave h
    · cases hs
  | drop k =>
    simp only [step] at hs
    split at hs <;> cases hs
    rw [attended_leave h]
    simp [cleanly]
  | probe =>
    simp only [step] at hs
    split at hs <;> cases hs
    · exact iff_of_true h rfl
    · exact iff_of_true (attended_register .ping h) rfl

/-- In every state of a run exactly the requests of the callers that wait are pending, if and only
if no step leaves a pending request behind. -/
theorem accounted_iff (tr : List (Requests Response × Label Response)) (s : Requests Response)
    (hrun : Run step new tr s) :
    (s.Accounted ∧ ∀ e ∈ tr, e.1.Accounted) ↔ Within (fun s a => s.cleanly a = true) tr := by
  simp only [accounted_iff_attended]
  induction hrun with
  | nil =>
    refine iff_of_true ⟨fun k id hchannel => ?_, fun e he => absurd he not_mem_nil⟩ (within_nil _)
    cases hchannel
  | snoc hrun hs ih =>
    rw [within_cons, forall_mem_cons, ← ih]
    constructor
    · rintro ⟨hlast, hbefore, hall⟩
      exact ⟨(attended_step hbefore hs).mp hlast, hbefore, hall⟩
    · rintro ⟨hclean, hbefore, hall⟩
      exact ⟨(attended_step hbefore hs).mpr hclean, hbefore, hall⟩

end Attended

end Requests

/-! ## Requests left behind -/

namespace Sample

/-- The process is started; a command times out, which cancels everything; a ping cannot be sent;
a session is closed. -/
def accounted : List (Requests.Label Unit) :=
  [.call .start, .sent 0, .complete 0 (), .deliver 0, .wake 0,
    .call .executeCommand, .call .closeSession, .sent 1, .sent 2, .timeout 1, .complete 2 (),
    .deliver 2, .cancelAll, .wake 2, .probe, .sendFailed 3]

/-- The metrics cannot be asked for, then the health monitor probes. -/
def sendFailure : List (Requests.Label Unit) :=
  [.call .produceMetrics, .sendFailed 0, .probe]

/-- A session is not opened within ten seconds, then the health monitor probes. -/
def ownTimeout : List (Requests.Label Unit) :=
  [.call .initSession, .sent 0, .timeout 0, .probe]

end Sample

namespace Requests

theorem accounted_after_timeout :
    ∃ tr s, Run step (new : Requests Unit) tr s ∧ s.Accounted ∧
      s.calls.map Call.phase = [.left, .left, .left, .left] := by
  obtain ⟨tr, s, hrun, hclean, hcalls⟩ := exists_run step (new : Requests Unit) Sample.accounted
    (fun tr s => Within (fun s a => cleanly s a = true) tr ∧
      s.calls.map Call.phase = [.left, .left, .left, .left])
    (by decide)
  exact ⟨tr, s, hrun, ((accounted_iff tr s hrun).mpr hclean).1, hcalls⟩

/-- All calls have left, but the next probe is skipped. -/
def abandoned (s : Requests Unit) : Bool :=
  s.calls.all (fun call => decide (call.phase = .left)) && s.probeSkipped

theorem not_accounted_of_abandoned {s : Requests Unit} (h : s.abandoned = true) :
    ¬ s.Accounted := by
  intro haccounted
  unfold abandoned at h
  rw [Bool.and_eq_true, all_eq_true] at h
  have hidle : ∀ k id, ¬ s.Waits k id := by
    rintro k id ⟨⟨call, hcall, hleft⟩, -⟩
    exact hleft (of_decide_eq_true (h.1 call (mem_of_getElem? hcall)))
  rw [(haccounted.probed hidle).2] at h
  cases h.2

/-- A request that could not be sent, or was given up after ten seconds, stays pending, and no
probe is made any more. -/
theorem request_left_behind :
    (∃ tr s, Run step (new : Requests Unit) tr s ∧
      tr.map Prod.snd = Sample.sendFailure.reverse ∧ ¬ s.Accounted) ∧
    ∃ tr s, Run step (new : Requests Unit) tr s ∧
      tr.map Prod.snd = Sample.ownTimeout.reverse ∧ ¬ s.Accounted := by
  constructor
  · obtain ⟨tr, s, hrun, htrace, habandoned⟩ := exists_run step (new : Requests Unit)
      Sample.sendFailure
      (fun tr s => tr.map Prod.snd = Sample.sendFailure.reverse ∧ abandoned s = true)
      (by decide)
    exact ⟨tr, s, hrun, htrace, not_accounted_of_abandoned habandoned⟩
  · obtain ⟨tr, s, hrun, htrace, habandoned⟩ := exists_run step (new : Requests Unit)
      Sample.ownTimeout
      (fun tr s => tr.map Prod.snd = Sample.ownTimeout.reverse ∧ abandoned s = true)
      (by decide)
    exact ⟨tr, s, hrun, htrace, not_accounted_of_abandoned habandoned⟩

end Requests

end HeraMind.Ipc
