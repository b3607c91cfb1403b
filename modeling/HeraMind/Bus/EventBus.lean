/-
# The event bus

The bus that all components publish on and subscribe to (`crates/heramind-core/src/eventbus.rs`).
A subscriber that falls behind loses events: the `recv` of both kinds of receivers adds the
number that the channel reports to its own counter and to that of the bus.  A `try_recv`, also
the one within `recv`, takes the report for an empty channel.

A receiver is borrowed for the time of a call, so what a call does between two accesses to the
channel is one step with the access.
-/
import HeraMind.Lib.Broadcast
import HeraMind.Lib.Run
import HeraMind.Lib.Calls
import Mathlib.Algebra.BigOperators.Group.List.Basic
import Mathlib.Algebra.GroupWithZero.Nat

namespace HeraMind.Bus

open List
open Transition Broadcast

variable {Event Metadata α : Type}

/-! ## Receivers -/

/-- Where the call of a receiver is. -/
inductive Call : Type where
  | idle
  | recv
  /-- `recv` has been told that it lags, and tries again at once. -/
  | recovering
  | tryRecv
  /-- The receiver was dropped. -/
  | gone
  deriving DecidableEq

/-- `EventBusReceiver`, and with a filter `FilteredReceiver`. -/
structure Receiver (Event Metadata : Type) where
  filter : Option (Event → Bool)
  /-- The position of the channel when it subscribed. -/
  since : ℕ
  next : ℕ
  call : Call
  dropped : ℕ
  handed : List (Event × Metadata)
  rejected : List (Event × Metadata)

namespace Receiver

variable (r : Receiver Event Metadata)

/-- `subscribe` and `subscribe_filtered`. -/
def subscribe (filter : Option (Event → Bool)) (position : ℕ) : Receiver Event Metadata where
  filter := filter
  since := position
  next := position
  call := .idle
  dropped := 0
  handed := []
  rejected := []

/-- The filter lets the event through, if there is one. -/
def passes (event : Event) : Bool :=
  match r.filter with
  | some filter => filter event
  | none => true

/-- The call has got an event, which it hands out or rejects. -/
def take (event : Event × Metadata) : Receiver Event Metadata :=
  if r.passes event.1 then
    { r with next := r.next + 1, handed := r.handed ++ [event], call := .idle }
  else { r with next := r.next + 1, rejected := r.rejected ++ [event] }

/-- `recv` was told that it lags. -/
def countLag (n : ℕ) : Receiver Event Metadata :=
  { r with
    next := r.next + n
    dropped := r.dropped + n
    call := if r.filter.isSome then .recv else .recovering }

/-- A call goes on after a `try_recv` that was told that it lags. -/
def skipLag (n : ℕ) (call : Call) : Receiver Event Metadata :=
  { r with next := r.next + n, call := call }

end Receiver

/-! ## The bus -/

/-- `EventBus`, with all its receivers. -/
structure EventBus (Event Metadata : Type) where
  channel : Channel (Event × Metadata)
  /-- All senders are gone. -/
  closed : Bool
  totalDropped : ℕ
  receivers : List (Receiver Event Metadata)

/-- What can happen next: an event is published, a subscriber comes, a call of a receiver begins
or goes on, the future of a `recv` is dropped, a receiver is, or all senders are. -/
inductive Label (Event Metadata : Type) : Type where
  | publish (event : Event) (metadata : Metadata)
  | subscribe (filter : Option (Event → Bool))
  | recv (i : ℕ)
  | tryRecv (i : ℕ)
  | poll (i : ℕ)
  | cancel (i : ℕ)
  | drop (i : ℕ)
  | close

namespace EventBus

/-- `with_capacity`. -/
def withCapacity (capacity : ℕ) (pos : 0 < capacity) : EventBus Event Metadata where
  channel := ⟨capacity, pos, []⟩
  closed := false
  totalDropped := 0
  receivers := []

section Step

variable (s : EventBus Event Metadata)

def setReceiver (i : ℕ) (r : Receiver Event Metadata) : EventBus Event Metadata :=
  { s with receivers := s.receivers.set i r }

/-- `publish_with_metadata`.  Without a subscriber the event is discarded. -/
def publish (event : Event × Metadata) : EventBus Event Metadata :=
  if s.receivers.all fun r => r.call = .gone then s
  else { s with channel := s.channel.send event }

/-- The next access of a call of a receiver to the channel. -/
def poll (i : ℕ) (r : Receiver Event Metadata) : Option (EventBus Event Metadata) :=
  match r.call, s.channel.receive r.next with
  | .recv, .value event => some (s.setReceiver i (r.take event))
  | .recv, .lagged n =>
    some { s.setReceiver i (r.countLag n) with totalDropped := s.totalDropped + n }
  | .recv, .empty => if s.closed then some (s.setReceiver i { r with call := .idle }) else none
  | .recovering, .value event => some (s.setReceiver i (r.take event))
  | .recovering, .lagged n => some (s.setReceiver i (r.skipLag n .recv))
  | .recovering, .empty => some (s.setReceiver i { r with call := .recv })
  | .tryRecv, .value event => some (s.setReceiver i (r.take event))
  | .tryRecv, .lagged n => some (s.setReceiver i (r.skipLag n .idle))
  | .tryRecv, .empty => some (s.setReceiver i { r with call := .idle })
  | .idle, _ | .gone, _ => none

/-- A receiver begins or gives up a call, or goes. -/
def setCall (i : ℕ) (before : List Call) (call : Call) : Option (EventBus Event Metadata) :=
  match s.receivers[i]? with
  | some r => if r.call ∈ before then some (s.setReceiver i { r with call := call }) else none
  | none => none

/-- One step. -/
def step : Label Event Metadata → Option (EventBus Event Metadata)
  | .publish event metadata => if s.closed then none else some (s.publish (event, metadata))
  | .subscribe filter =>
    some { s with
      receivers := s.receivers ++ [.subscribe filter s.channel.sent.length] }
  | .recv i => s.setCall i [.idle] .recv
  | .tryRecv i => s.setCall i [.idle] .tryRecv
  | .poll i =>
    match s.receivers[i]? with
    | some r => s.poll i r
    | none => none
  | .cancel i => s.setCall i [.recv, .recovering] .idle
  | .drop i => s.setCall i [.idle] .gone
  | .close => some { s with closed := true }

end Step

/-! ## The claim -/

section Claim

variable (s : EventBus Event Metadata)

/-- The events that the buffer still holds for a receiver. -/
def retained (r : Receiver Event Metadata) : List (Event × Metadata) := s.channel.retained r.next

/-- The events published since a receiver subscribed. -/
def published (r : Receiver Event Metadata) : List (Event × Metadata) :=
  s.channel.sent.drop r.since

/-- The number of events that were overwritten before the receiver got them, and that the channel
has not told it of. -/
def unreported (r : Receiver Event Metadata) : ℕ := s.channel.missed r.next

/-- All the events published since a receiver subscribed are handed out, rejected, counted as
dropped, or still there for it. -/
def Balanced (r : Receiver Event Metadata) : Prop :=
  r.handed.length + r.rejected.length + r.dropped + (s.retained r).length = (s.published r).length

instance (r : Receiver Event Metadata) : Decidable (s.Balanced r) :=
  inferInstanceAs (Decidable (_ = _))

/-- The `try_recv` of the channel, called by `try_recv` or by `recv`, tells the receiver that it
lags. -/
def lagsInTry (i : ℕ) : Label Event Metadata → Bool
  | .poll j =>
    match s.receivers[j]? with
    | some r =>
      decide (i = j) && decide (r.call = .tryRecv ∨ r.call = .recovering) &&
        decide (0 < s.unreported r)
    | none => false
  | _ => false

/-- A call of `try_recv` returns `None`. -/
def answersNone (i : ℕ) : Prop :=
  ∃ r, s.receivers[i]? = some r ∧ r.call = .tryRecv ∧ ∀ event, s.channel.receive r.next ≠ .value event

/-- A `try_recv` that returns `None` has left no event for its receiver. -/
def HonestNone (a : Label Event Metadata) : Prop :=
  ∀ i r, a = .poll i → s.receivers[i]? = some r → s.answersNone i →
    ∀ event ∈ s.retained r, r.passes event.1 = false

end Claim

/-! ## The steps of a receiver -/

section Steps

variable {s s' : EventBus Event Metadata} {a : Label Event Metadata} {i : ℕ}
  {r r' : Receiver Event Metadata} {c : Channel (Event × Metadata)}
  {tr : List (EventBus Event Metadata × Label Event Metadata)}

/-- What an access to the channel can do to a receiver and to the counter of the bus. -/
inductive Polled (c : Channel (Event × Metadata)) (r : Receiver Event Metadata) :
    Receiver Event Metadata → ℕ → Prop
  | value {event : Event × Metadata} : c.receive r.next = .value event → Polled c r (r.take event) 0
  | counted {n : ℕ} : r.call = .recv → c.receive r.next = .lagged n → Polled c r (r.countLag n) n
  | skipped {n : ℕ} (call : Call) : (r.call = .tryRecv ∨ r.call = .recovering) →
      c.receive r.next = .lagged n → Polled c r (r.skipLag n call) 0
  | empty (call : Call) : Polled c r { r with call := call } 0

theorem polled_of_poll (h : s.poll i r = some s') :
    ∃ r' n, Polled s.channel r r' n ∧
      s' = { s.setReceiver i r' with totalDropped := s.totalDropped + n } := by
  unfold poll at h
  split at h
  · rename_i hreceive
    cases h
    exact ⟨_, 0, .value hreceive, rfl⟩
  · rename_i hcall hreceive
    cases h
    exact ⟨_, _, .counted hcall hreceive, rfl⟩
  · split at h <;> cases h
    exact ⟨_, 0, .empty .idle, rfl⟩
  · rename_i hreceive
    cases h
    exact ⟨_, 0, .value hreceive, rfl⟩
  · rename_i hcall hreceive
    cases h
    exact ⟨_, 0, .skipped .recv (Or.inr hcall) hreceive, rfl⟩
  · cases h
    exact ⟨_, 0, .empty .recv, rfl⟩
  · rename_i hreceive
    cases h
    exact ⟨_, 0, .value hreceive, rfl⟩
  · rename_i hcall hreceive
    cases h
    exact ⟨_, 0, .skipped .idle (Or.inl hcall) hreceive, rfl⟩
  · cases h
    exact ⟨_, 0, .empty .idle, rfl⟩
  · cases h
  · cases h

/-- All that a step can do. -/
inductive Stepped (s : EventBus Event Metadata) :
    Label Event Metadata → EventBus Event Metadata → Prop
  | published {event : Event} {metadata : Metadata} (c : Channel (Event × Metadata)) :
      c = s.channel ∨ c = s.channel.send (event, metadata) →
      Stepped s (.publish event metadata) { s with channel := c }
  | subscribed (filter : Option (Event → Bool)) :
      Stepped s (.subscribe filter) { s with
        receivers := s.receivers ++ [.subscribe filter s.channel.sent.length] }
  | called {a : Label Event Metadata} (i : ℕ) (r : Receiver Event Metadata) (call : Call) :
      (∀ j, s.lagsInTry j a = false) → s.receivers[i]? = some r →
      Stepped s a (s.setReceiver i { r with call := call })
  | polled (i : ℕ) (r r' : Receiver Event Metadata) (n : ℕ) :
      s.receivers[i]? = some r → Polled s.channel r r' n →
      Stepped s (.poll i) { s.setReceiver i r' with totalDropped := s.totalDropped + n }
  | closed : Stepped s .close { s with closed := true }

theorem stepped_setCall {before : List Call} {call : Call} (ha : ∀ j, s.lagsInTry j a = false)
    (h : s.setCall i before call = some s') : Stepped s a s' := by
  unfold setCall at h
  split at h
  · rename_i r hr
    split at h <;> cases h
    exact .called i r call ha hr
  · cases h

theorem stepped_of_step (h : s.step a = some s') : Stepped s a s' := by
  cases a with
  | publish event metadata =>
    simp only [step] at h
    split at h <;> cases h
    unfold publish
    split
    · exact .published s.channel (Or.inl rfl)
    · exact .published _ (Or.inr rfl)
  | subscribe filter =>
    cases h
    exact .subscribed filter
  | recv i | tryRecv i => exact stepped_setCall (fun _ => rfl) h
  | poll i =>
    simp only [step] at h
    split at h
    · rename_i r hr
      obtain ⟨r', n, hpolled, rfl⟩ := polled_of_poll h
      exact .polled i r r' n hr hpolled
    · cases h
  | cancel i | drop i => exact stepped_setCall (fun _ => rfl) h
  | close =>
    cases h
    exact .closed

/-! ## Order -/

/-- A receiver has handed out events that were sent since it subscribed and before its position,
in the order in which they were sent. -/
structure Sound (c : Channel (Event × Metadata)) (r : Receiver Event Metadata) : Prop where
  since : r.since ≤ r.next
  next : r.next ≤ c.sent.length
  handed : r.handed.Sublist ((c.sent.take r.next).drop r.since)
  passed : ∀ event ∈ r.handed, r.passes event.1 = true
  rejected : ∀ event ∈ r.rejected, r.passes event.1 = false

theorem Sound.send (h : Sound c r) (event : Event × Metadata) : Sound (c.send event) r where
  since := h.since
  next := by
    show r.next ≤ (c.sent ++ [event]).length
    have hnext := h.next
    rw [length_append]
    omega
  handed := by
    show r.handed.Sublist (((c.sent ++ [event]).take r.next).drop r.since)
    rw [take_append_of_le_length h.next]
    exact h.handed
  passed := h.passed
  rejected := h.rejected

theorem sublist_of_le {m n : ℕ} {l : List α} (h : m ≤ n) (k : ℕ) :
    ((l.take m).drop k).Sublist ((l.take n).drop k) := by
  have htake : l.take m = (l.take n).take m := by
    rw [take_take, Nat.min_eq_left h]
  rw [htake, drop_take]
  exact take_sublist _ _

theorem drop_take_succ {l : List α} {x : α} {k n : ℕ} (hk : k ≤ n) (hx : l[n]? = some x) :
    (l.take (n + 1)).drop k = (l.take n).drop k ++ [x] := by
  have hn := (List.getElem?_eq_some_iff.mp hx).1
  rw [take_add_one, hx, drop_append_of_le_length]
  · rfl
  · rw [length_take]
    omega

theorem Sound.take {event : Event × Metadata} (h : Sound c r)
    (hreceive : c.receive r.next = .value event) : Sound c (r.take event) := by
  obtain ⟨-, hget⟩ := Channel.receive_eq_value hreceive
  have hlt := (List.getElem?_eq_some_iff.mp hget).1
  have hsince := h.since
  have hgrown : (c.sent.take (r.next + 1)).drop r.since =
      (c.sent.take r.next).drop r.since ++ [event] := drop_take_succ hsince hget
  unfold Receiver.take
  split
  · rename_i hpass
    refine ⟨Nat.le_succ_of_le hsince, hlt, ?_, ?_, h.rejected⟩
    · show (r.handed ++ [event]).Sublist ((c.sent.take (r.next + 1)).drop r.since)
      rw [hgrown]
      exact h.handed.append (List.Sublist.refl _)
    · intro e he
      rcases mem_append.mp he with he | he
      · exact h.passed e he
      · rw [mem_singleton.mp he]
        exact hpass
  · rename_i hfail
    refine ⟨Nat.le_succ_of_le hsince, hlt, ?_, h.passed, ?_⟩
    · show r.handed.Sublist ((c.sent.take (r.next + 1)).drop r.since)
      rw [hgrown]
      exact h.handed.trans (sublist_append_left _ _)
    · intro e he
      rcases mem_append.mp he with he | he
      · exact h.rejected e he
      · rw [mem_singleton.mp he]
        exact (Bool.not_eq_true _).mp hfail

/-- The position moves over missed events. -/
theorem Sound.skip {n : ℕ} (h : Sound c r) (hreceive : c.receive r.next = .lagged n)
    (call : Call) (dropped : ℕ) :
    Sound c { r with next := r.next + n, call := call, dropped := dropped } where
  since := Nat.le_add_right_of_le h.since
  next := by
    have hlag := Channel.receive_eq_lagged hreceive
    have hle := c.oldest_le
    show r.next + n ≤ c.sent.length
    omega
  handed := h.handed.trans (sublist_of_le (Nat.le_add_right _ _) _)
  passed := h.passed
  rejected := h.rejected

theorem Sound.polled {n : ℕ} (h : Sound c r) (hpolled : Polled c r r' n) : Sound c r' := by
  cases hpolled with
  | value hreceive => exact h.take hreceive
  | counted _ hreceive => exact h.skip hreceive _ _
  | skipped call _ hreceive => exact h.skip hreceive call r.dropped
  | empty call => exact ⟨h.since, h.next, h.handed, h.passed, h.rejected⟩

/-- The step lemma for the order. -/
theorem sound_step (h : ∀ r ∈ s.receivers, Sound s.channel r) (hs : s.step a = some s') :
    ∀ r ∈ s'.receivers, Sound s'.channel r := by
  cases stepped_of_step hs with
  | published c hc =>
    intro r hr
    rcases hc with rfl | rfl
    · exact h r hr
    · exact (h r hr).send _
  | subscribed filter =>
    intro r hr
    rcases mem_append.mp hr with hr | hr
    · exact h r hr
    · rw [mem_singleton.mp hr]
      refine ⟨Nat.le_refl _, Nat.le_refl _, nil_sublist _, ?_, ?_⟩
      · intro e he
        cases he
      · intro e he
        cases he
  | called i r call _ hr =>
    have hsound := h r (mem_of_getElem? hr)
    exact Calls.forall_mem_set h
      ⟨hsound.since, hsound.next, hsound.handed, hsound.passed, hsound.rejected⟩
  | polled i r r' n hr hpolled =>
    exact Calls.forall_mem_set h ((h r (mem_of_getElem? hr)).polled hpolled)
  | closed => exact h

theorem sound_of_run {capacity : ℕ} {pos : 0 < capacity}
    (hrun : Run step (withCapacity capacity pos) tr s) : ∀ r ∈ s.receivers, Sound s.channel r := by
  refine hrun.invariant' (I := fun s => ∀ r ∈ s.receivers, Sound s.channel r) ?_
    fun s a s' h hs => sound_step h hs
  intro r hr
  cases hr

/-! ## Counts -/

/-- The position of a receiver is what it has got and what it was told that it missed. -/
def Counted (r : Receiver Event Metadata) : Prop :=
  r.since + r.handed.length + r.rejected.length + r.dropped = r.next

theorem counted_take {event : Event × Metadata} (h : Counted r) : Counted (r.take event) := by
  unfold Counted Receiver.take at *
  split
  · show r.since + (r.handed ++ [event]).length + r.rejected.length + r.dropped = r.next + 1
    rw [length_append, length_singleton]
    omega
  · show r.since + r.handed.length + (r.rejected ++ [event]).length + r.dropped = r.next + 1
    rw [length_append, length_singleton]
    omega

/-- An access to the channel is counted, unless a `try_recv` was told that the receiver lags. -/
theorem counted_polled {n : ℕ} (h : Counted r) (hpolled : Polled s.channel r r' n)
    (hr : s.receivers[i]? = some r) (hlag : s.lagsInTry i (.poll i) = false) : Counted r' := by
  cases hpolled with
  | value => exact counted_take h
  | counted =>
    show r.since + r.handed.length + r.rejected.length + (r.dropped + n) = r.next + n
    unfold Counted at h
    omega
  | @skipped n call hcall hreceive =>
    have hmissed := Channel.receive_eq_lagged hreceive
    have hpos : 0 < s.unreported r := by
      show 0 < s.channel.oldest - r.next
      omega
    simp [lagsInTry, hr, hcall, hpos] at hlag
  | empty call => exact h

/-- The step lemma for the counts of one receiver. -/
theorem counted_step (hlag : s.lagsInTry i a = false) (hs : s.step a = some s')
    (h : ∀ r, s.receivers[i]? = some r → Counted r) :
    ∀ r, s'.receivers[i]? = some r → Counted r := by
  cases stepped_of_step hs with
  | published c hc => exact h
  | subscribed filter =>
    intro r hr
    have hr' : (s.receivers ++ [.subscribe filter s.channel.sent.length])[i]? = some r := hr
    by_cases hlt : i < s.receivers.length
    · rw [getElem?_append_left hlt] at hr'
      exact h r hr'
    · rw [getElem?_append_right (Nat.le_of_not_lt hlt), getElem?_singleton] at hr'
      split at hr' <;> cases hr'
      rfl
  | called j r call _ hr =>
    intro q hq
    have hq' : (s.receivers.set j { r with call := call })[i]? = some q := hq
    rw [getElem?_set] at hq'
    split at hq'
    · rename_i hji
      subst hji
      split at hq' <;> cases hq'
      exact h r hr
    · exact h q hq'
  | polled j r r' n hr hpolled =>
    intro q hq
    have hq' : (s.receivers.set j r')[i]? = some q := hq
    rw [getElem?_set] at hq'
    split at hq'
    · rename_i hji
      subst hji
      split at hq' <;> cases hq'
      exact counted_polled (h r hr) hpolled hr hlag
    · exact h q hq'
  | closed => exact h

theorem counted_of_run {capacity : ℕ} {pos : 0 < capacity}
    (hrun : Run step (withCapacity capacity pos) tr s)
    (hlag : Within (fun s a => s.lagsInTry i a = false) tr) (hr : s.receivers[i]? = some r) :
    Counted r := by
  refine hrun.invariant (I := fun s => ∀ r, s.receivers[i]? = some r → Counted r) hlag ?_
    (fun s a s' h hlag hs => counted_step hlag hs h) r hr
  intro r hr
  cases hr

theorem sum_map_set {f : α → ℕ} {x y : α} {l : List α} (h : l[i]? = some x) :
    ((l.set i y).map f).sum + f x = (l.map f).sum + f y := by
  induction l generalizing i with
  | nil => cases h
  | cons z l ih =>
    cases i with
    | zero =>
      cases h
      simp only [set_cons_zero, map_cons, sum_cons]
      omega
    | succ i =>
      have hl := ih (i := i) h
      simp only [set_cons_succ, map_cons, sum_cons]
      omega

/-- An access to the channel adds the same number to both counters. -/
theorem dropped_polled {n : ℕ} (hpolled : Polled c r r' n) : r'.dropped = r.dropped + n := by
  cases hpolled with
  | value =>
    unfold Receiver.take
    split <;> rfl
  | counted | skipped | empty => rfl

/-- The step lemma for the counter of the bus. -/
theorem total_step (h : s.totalDropped = (s.receivers.map Receiver.dropped).sum)
    (hs : s.step a = some s') : s'.totalDropped = (s'.receivers.map Receiver.dropped).sum := by
  cases stepped_of_step hs with
  | published c hc => exact h
  | subscribed filter =>
    show s.totalDropped = ((s.receivers ++ [_]).map Receiver.dropped).sum
    rw [map_append, sum_append, h]
    rfl
  | called i r call _ hr =>
    show s.totalDropped = ((s.receivers.set i { r with call := call }).map Receiver.dropped).sum
    have hsum := sum_map_set (f := Receiver.dropped) (y := { r with call := call }) hr
    have hsame : ({ r with call := call } : Receiver Event Metadata).dropped = r.dropped := rfl
    omega
  | polled i r r' n hr hpolled =>
    show s.totalDropped + n = ((s.receivers.set i r').map Receiver.dropped).sum
    have hsum := sum_map_set (f := Receiver.dropped) (y := r') hr
    have hdropped := dropped_polled hpolled
    omega
  | closed => exact h

/-! ## The end of a `try_recv` -/

/-- A `try_recv` that was not told that its receiver lags returns `None` when nothing is left. -/
theorem retained_of_answersNone (hr : s.receivers[i]? = some r) (hnone : s.answersNone i)
    (hlag : s.lagsInTry i (.poll i) = false) : s.retained r = [] := by
  obtain ⟨q, hq, hcall, hvalue⟩ := hnone
  rw [hr] at hq
  cases hq
  cases hreceive : s.channel.receive r.next with
  | value event => exact absurd hreceive (hvalue event)
  | lagged n =>
    have hmissed := Channel.receive_eq_lagged hreceive
    have hpos : 0 < s.unreported r := by
      show 0 < s.channel.oldest - r.next
      omega
    simp [lagsInTry, hr, hcall, hpos] at hlag
  | empty => exact (Channel.receive_eq_empty hreceive).1

end Steps

end EventBus

/-! ## A receiver that falls behind -/

namespace Sample

open EventBus

/-- A plain and a filtered receiver of a bus with two places: one of each event is handed out or
rejected, then `recv` and the filtered `try_recv` go on after a lag. -/
def behind : List (Label ℕ Unit) :=
  [.subscribe none, .subscribe (some fun n => n % 2 = 0), .publish 1 (), .tryRecv 1, .poll 1,
    .poll 1, .recv 0, .poll 0, .publish 2 (), .publish 3 (), .publish 4 (), .recv 0, .poll 0,
    .poll 0, .recv 1, .poll 1, .poll 1, .poll 1, .tryRecv 1, .poll 1]

/-- Two events on a bus with one place. -/
def overrun : List (Label ℕ Unit) := [.subscribe none, .publish 1 (), .publish 2 ()]

/-- The receiver calls `try_recv` then. -/
def overrunThenTry : List (Label ℕ Unit) := overrun ++ [.tryRecv 0, .poll 0]

/-- Events come in while `recv` is recovering. -/
def overrunTwice : List (Label ℕ Unit) :=
  overrun ++ [.recv 0, .poll 0, .publish 3 (), .publish 4 (), .poll 0, .poll 0]

end Sample

namespace EventBus

/-- A `try_recv` that is told that its receiver lags, while an event for it is there. -/
def losesEvent (s : EventBus Event Metadata) : Label Event Metadata → Bool
  | .poll i =>
    match s.receivers[i]? with
    | some r =>
      decide (r.call = .tryRecv) && decide (0 < s.unreported r) &&
        (s.retained r).any fun event => r.passes event.1
    | none => false
  | _ => false

theorem not_honestNone {s : EventBus Event Metadata} {a : Label Event Metadata}
    (h : s.losesEvent a = true) : ¬ s.HonestNone a := by
  intro hhonest
  cases a with
  | poll i =>
    simp only [losesEvent] at h
    split at h
    · rename_i r hr
      simp only [Bool.and_eq_true, decide_eq_true_eq] at h
      obtain ⟨⟨hcall, hlag⟩, hany⟩ := h
      obtain ⟨event, hevent, hpasses⟩ := any_eq_true.mp hany
      have hnone : s.answersNone i := by
        refine ⟨r, hr, hcall, fun event hvalue => ?_⟩
        have hle := (Channel.receive_eq_value hvalue).1
        have hlt : 0 < s.channel.oldest - r.next := hlag
        omega
      have hfail := hhonest i r rfl hr hnone event hevent
      rw [hpasses] at hfail
      cases hfail
    · cases h
  | _ => cases h

end EventBus

end HeraMind.Bus
