/-
# The recovery record of a streamed reply

`process_stream_to_channel` (`crates/heramind-api/src/handlers/sessions.rs`) consumes the events of
a reply and keeps a row in the table of pending streams, from which an interrupted reply is
recovered.
-/
import Mathlib.Data.Nat.Notation

namespace HeraMind.Agent

open List

/-- An event of the agent.  The others have no part in the row. -/
inductive AgentEvent where
  | thinking (content : String)
  | content (content : String)
  | other (json : String)
  | endEvent
  deriving DecidableEq

structure PendingStreamState where
  content : String := ""
  thinking : String := ""

def PendingStreamState.updateContent (s : PendingStreamState) (content : String) :
    PendingStreamState :=
  { s with content }

def PendingStreamState.updateThinking (s : PendingStreamState) (thinking : String) :
    PendingStreamState :=
  { s with thinking }

/-- An event, whether two seconds have passed since the last save, and whether the channel takes
it. -/
structure Received where
  event : AgentEvent
  elapsed : Bool
  accepted : Bool

/-- How a stream without an `End` stops. -/
inductive Ending where
  | ended
  | timedOut

/-- The task, with the events consumed so far and whether it has saved since the last one. -/
structure StreamTask where
  pendingState : PendingStreamState := {}
  pendingSaveCounter : ℕ := 0
  clientDetached : Bool := false
  pendingStream : Option PendingStreamState := none
  extReply : Option String := none
  consumed : List AgentEvent := []
  saved : Bool := false

namespace StreamTask

def pendingSaveEventInterval : ℕ := 20

def save (t : StreamTask) : StreamTask :=
  { t with pendingSaveCounter := 0, pendingStream := some t.pendingState, saved := true }

/-- The debounced save of a new state. -/
def update (t : StreamTask) (pendingState : PendingStreamState) (elapsed : Bool) : StreamTask :=
  if pendingSaveEventInterval ≤ t.pendingSaveCounter + 1 ∨ elapsed = true then
    { t with pendingState }.save
  else { t with pendingState, pendingSaveCounter := t.pendingSaveCounter + 1 }

/-- The event arrives, and is sent on unless the client is detached. -/
def receive (t : StreamTask) (r : Received) : StreamTask :=
  { t with
    consumed := t.consumed ++ [r.event]
    clientDetached := t.clientDetached || !r.accepted
    saved := false }

def consume (t : StreamTask) (r : Received) : StreamTask :=
  match r.event with
  | .thinking content => (t.receive r).update (t.pendingState.updateThinking content) r.elapsed
  | .content content => (t.receive r).update (t.pendingState.updateContent content) r.elapsed
  | .other _ => t.receive r
  | .endEvent => { t.receive r with pendingStream := none, extReply := some t.pendingState.content }

/-- The loop: the task after each event, and in the end. -/
def process (t : StreamTask) : List Received → Ending → List StreamTask × StreamTask
  | [], .ended => ([], t)
  | [], .timedOut => ([], { t with pendingStream := none })
  | r :: rest, ending =>
    if r.event = .endEvent then ([t.consume r], t.consume r)
    else
      let after := process (t.consume r) rest ending
      (t.consume r :: after.1, after.2)

end StreamTask

/-! ## The reply so far -/

def PendingStreamState.field (s : PendingStreamState) (isContent : Bool) : String :=
  if isContent then s.content else s.thinking

def AgentEvent.text? : AgentEvent → Bool → Option String
  | .content text, true | .thinking text, false => some text
  | _, _ => none

/-- The texts of the `Content` events, or of the `Thinking` events. -/
def texts (isContent : Bool) (events : List AgentEvent) : List String :=
  events.filterMap (AgentEvent.text? · isContent)

/-- What is saved, and what memory gets, are the texts so far. -/
structure StreamTask.Recorded (t : StreamTask) : Prop where
  saved : t.saved = true → ∀ c, t.pendingState.field c = String.join (texts c t.consumed)
  extracted : ∀ reply ∈ t.extReply, reply = String.join (texts true t.consumed)

/-- The row is recorded after every event, and none is left in the end. -/
def RecordsReply (received : List Received) (ending : Ending) : Prop :=
  let run := ({} : StreamTask).save.process received ending
  (∀ t ∈ run.1, t.Recorded) ∧ run.2.pendingStream = none

/-- Only the last text of each kind is not empty. -/
def Whole (events : List AgentEvent) : Prop :=
  ∀ c, ∀ text ∈ (texts c events).dropLast, text = ""

theorem join_eq_empty_iff (l : List String) : String.join l = "" ↔ ∀ text ∈ l, text = "" := by
  induction l with
  | nil => simp
  | cons text l ih => rw [String.join_cons, String.append_eq_empty_iff, ih, forall_mem_cons]

theorem getLastD_eq_join_iff {l : List String} :
    l.getLastD "" = String.join l ↔ ∀ text ∈ l.dropLast, text = "" := by
  rcases eq_nil_or_concat l with rfl | ⟨l, last, rfl⟩
  · simp
  · rw [concat_eq_append, getLastD_concat, dropLast_concat, ← join_eq_empty_iff, String.join_append]
    constructor
    · intro h
      have hlength := congrArg String.length h
      simp only [String.length_append, String.join_cons, String.join_nil] at hlength
      exact String.length_eq_zero_iff.mp (by omega)
    · intro h
      simp [h]

theorem Whole.of_append {events rest : List AgentEvent} (h : Whole (events ++ rest)) :
    Whole events := by
  intro c text htext
  apply h c
  rw [texts, filterMap_append, dropLast_append]
  split
  · exact htext
  · exact mem_append_left _ (dropLast_subset _ htext)

theorem getLastD_append_toList (l : List String) (o : Option String) :
    (l ++ o.toList).getLastD "" = o.getD (l.getLastD "") := by
  cases o with
  | none => simp
  | some text => exact getLastD_concat

theorem texts_concat (c : Bool) (events : List AgentEvent) (e : AgentEvent) :
    texts c (events ++ [e]) = texts c events ++ (e.text? c).toList := by
  unfold texts
  rw [filterMap_append]
  cases h : e.text? c <;> simp [h]

namespace StreamTask

variable {t : StreamTask} {r : Received} {ending : Ending}

/-- The task goes on: its state is that of the last texts, and it has a row. -/
structure Live (t : StreamTask) : Prop where
  last : ∀ c, t.pendingState.field c = (texts c t.consumed).getLastD ""
  unsent : t.extReply = none
  row : t.pendingStream ≠ none

theorem Live.recorded_iff (h : t.Live) : t.Recorded ↔ (t.saved = true → Whole t.consumed) := by
  constructor
  · intro hrec hsaved c
    rw [← getLastD_eq_join_iff, ← h.last]
    exact hrec.saved hsaved c
  · intro hwhole
    refine ⟨fun hsaved c => ?_, fun reply hreply => ?_⟩
    · rw [h.last, getLastD_eq_join_iff]
      exact hwhole hsaved c
    · rw [h.unsent] at hreply
      cases hreply

theorem Live.update (h : t.Live) (r : Received) {s : PendingStreamState}
    (hs : ∀ c, s.field c = (r.event.text? c).getD (t.pendingState.field c)) :
    ((t.receive r).update s r.elapsed).Live ∧
      ((t.receive r).update s r.elapsed).consumed = t.consumed ++ [r.event] ∧
      (r.elapsed = true → ((t.receive r).update s r.elapsed).saved = true) := by
  have hlast : ∀ c, s.field c = (texts c (t.consumed ++ [r.event])).getLastD "" := by
    intro c
    rw [texts_concat, getLastD_append_toList, ← h.last, hs]
  unfold StreamTask.update
  split
  · exact ⟨⟨hlast, h.unsent, Option.some_ne_none _⟩, rfl, fun _ => rfl⟩
  · rename_i hsave
    exact ⟨⟨hlast, h.unsent, h.row⟩, rfl, fun he => absurd (Or.inr he) hsave⟩

/-- An event with a text is saved when it is time. -/
theorem Live.consume (h : t.Live) (hr : r.event ≠ .endEvent) :
    (t.consume r).Live ∧ (t.consume r).consumed = t.consumed ++ [r.event] ∧
      (r.elapsed = true → (t.consume r).saved = true ∨ ∀ c, r.event.text? c = none) := by
  obtain ⟨event, elapsed, accepted⟩ := r
  cases event with
  | thinking content =>
    obtain ⟨hlive, hconsumed, hsaved⟩ := h.update ⟨.thinking content, elapsed, accepted⟩
      (s := t.pendingState.updateThinking content) fun c => by cases c <;> rfl
    exact ⟨hlive, hconsumed, fun he => Or.inl (hsaved he)⟩
  | content content =>
    obtain ⟨hlive, hconsumed, hsaved⟩ := h.update ⟨.content content, elapsed, accepted⟩
      (s := t.pendingState.updateContent content) fun c => by cases c <;> rfl
    exact ⟨hlive, hconsumed, fun he => Or.inl (hsaved he)⟩
  | other json =>
    refine ⟨⟨fun c => ?_, h.unsent, h.row⟩, rfl, fun _ => Or.inr fun c => by cases c <;> rfl⟩
    show t.pendingState.field c = (texts c (t.consumed ++ [.other json])).getLastD ""
    rw [texts_concat, getLastD_append_toList, ← h.last]
    cases c <;> rfl
  | endEvent => exact absurd rfl hr

/-- What follows from here, in every timing. -/
theorem recorded_process_iff (events : List AgentEvent) (ht : t.Live) (hwhole : Whole t.consumed) :
    (∀ received : List Received, received.map Received.event = events →
      (∀ t' ∈ (t.process received ending).1, t'.Recorded) ∧
        (t.process received ending).2.pendingStream = none) ↔
      Whole (t.consumed ++ events.takeWhile (· ≠ .endEvent)) ∧
        (.endEvent ∈ events ∨ ending = .timedOut) := by
  induction events generalizing t with
  | nil =>
    rw [takeWhile_nil, append_nil]
    constructor
    · intro h
      cases ending with
      | ended => exact absurd (h [] rfl).2 ht.row
      | timedOut => exact ⟨hwhole, Or.inr rfl⟩
    · rintro ⟨-, hend⟩ received hmap
      obtain rfl := map_eq_nil_iff.mp hmap
      obtain rfl := hend.resolve_left not_mem_nil
      exact ⟨fun t' ht' => absurd ht' not_mem_nil, rfl⟩
  | cons e events ih =>
    by_cases he : e = .endEvent
    · subst he
      rw [takeWhile_cons_of_neg (by simp), append_nil]
      refine iff_of_true ?_ ⟨hwhole, Or.inl mem_cons_self⟩
      intro received hmap
      obtain ⟨⟨_, elapsed, accepted⟩, rest, rfl, rfl, -⟩ := map_eq_cons_iff.mp hmap
      refine ⟨fun t' ht' => ?_, rfl⟩
      obtain rfl := mem_singleton.mp ht'
      refine ⟨nofun, ?_⟩
      intro reply hreply
      cases hreply
      show t.pendingState.field true = String.join (texts true (t.consumed ++ [.endEvent]))
      rw [texts_concat, ht.last, getLastD_eq_join_iff.mpr (hwhole true)]
      exact congrArg String.join (append_nil _).symm
    · rw [takeWhile_cons_of_pos (by simpa using he), append_cons]
      constructor
      · intro h
        obtain ⟨hlive, hconsumed, hsaved⟩ := ht.consume (r := ⟨e, true, true⟩) he
        have hafter : ∀ rest : List Received, rest.map Received.event = events → _ :=
          fun rest hrest => h (⟨e, true, true⟩ :: rest) (congrArg (e :: ·) hrest)
        simp only [process, if_neg he] at hafter
        have hone : Whole (t.consumed ++ [e]) := by
          rcases hsaved rfl with hsaved | hnone
          · have hrecorded := (hafter (events.map (⟨·, true, true⟩))
              (map_map.trans (map_id' _))).1 _ mem_cons_self
            rw [← hconsumed]
            exact hlive.recorded_iff.mp hrecorded hsaved
          · intro c
            rw [texts_concat, hnone c, Option.toList_none, append_nil]
            exact hwhole c
        have hrest := (ih hlive (hconsumed ▸ hone)).mp fun rest hmap =>
          ⟨fun t' ht' => (hafter rest hmap).1 t' (mem_cons_of_mem _ ht'), (hafter rest hmap).2⟩
        rw [hconsumed] at hrest
        exact ⟨hrest.1, hrest.2.imp_left (mem_cons_of_mem _)⟩
      · rintro ⟨hevents, hend⟩ received hmap
        obtain ⟨r, rest, rfl, rfl, hrest⟩ := map_eq_cons_iff.mp hmap
        obtain ⟨hlive, hconsumed, -⟩ := ht.consume he
        have hone := hevents.of_append
        rw [← hconsumed] at hone hevents
        obtain ⟨hrecorded, hrow⟩ := (ih hlive hone).mpr
          ⟨hevents, hend.imp_left fun h => (mem_cons.mp h).resolve_left (Ne.symm he)⟩ rest hrest
        rw [process, if_neg he]
        refine ⟨?_, hrow⟩
        rintro t' (_ | ⟨_, ht'⟩)
        · exact hlive.recorded_iff.mpr fun _ => hone
        · exact hrecorded t' ht'

end StreamTask

/-- The row is that of the reply in every timing exactly when only the last texts are not empty and
the stream ends with an `End` or a timeout. -/
theorem recordsReply_iff (events : List AgentEvent) (ending : Ending) :
    (∀ received : List Received, received.map Received.event = events →
      RecordsReply received ending) ↔
      Whole (events.takeWhile (· ≠ .endEvent)) ∧ (.endEvent ∈ events ∨ ending = .timedOut) := by
  refine StreamTask.recorded_process_iff events ⟨fun c => ?_, rfl, Option.some_ne_none _⟩ ?_
  · cases c <;> rfl
  · exact fun c text htext => absurd htext not_mem_nil

/-- A reply in two pieces: memory gets the second one. -/
theorem second_piece_extracted : ¬ ∀ received ending, RecordsReply received ending := by
  intro h
  have hrecorded := (h [⟨.content "Hello", false, true⟩, ⟨.content " world", false, true⟩,
    ⟨.endEvent, false, true⟩] .ended).1 _
    (mem_cons_of_mem _ (mem_cons_of_mem _ mem_cons_self))
  exact absurd (hrecorded.extracted " world" rfl) (by decide)

end HeraMind.Agent
