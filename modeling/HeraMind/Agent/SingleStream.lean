/-
# One stream per session

`crates/heramind-agent/src/session.rs`: the registration of the cancel sender "doubles as the
per-session mutual exclusion".  A cancellation gives the session free while the cancelled stream
still runs, and a stream that was never polled does not give it free at all; between the two lie the
runs in which a session has one stream that can be cancelled and is never stuck.
-/
import HeraMind.Agent.CancelSenders

namespace HeraMind.Agent

open Option Function
open Transition

namespace CancelSenders

/-! ## What should hold -/

/-- A session has one stream that produces events, a cancellation reaches it, and without calls,
streams and tasks the next call is not refused. -/
structure SingleStream (m : CancelSenders) : Prop where
  one : ∀ (i j : ℕ) (c d : StreamCall), m.calls[i]? = some c → m.calls[j]? = some d →
    c.sessionId = d.sessionId → c.stage = .producing → d.stage = .producing → i = j
  own : ∀ (i : ℕ) (c : StreamCall), m.calls[i]? = some c → c.stage = .producing →
    c.interrupt = false →
    m.senders.lookup c.sessionId = some i ∧ (m.cancelSession c.sessionId).2 = true ∧
    (m.cancelSession c.sessionId).1.calls[i]? = some { c with interrupt := true }
  free : ∀ sessionId, (∀ c ∈ m.calls, c.sessionId = sessionId → ¬ c.stage.Active) →
    ∀ sender, (registerCancelSender m.senders sessionId sender).2 = true

/-! ## Runs in order -/

/-- A call that ends without removing a sender leaves none of its own behind. -/
def OrderlyEvent (m : CancelSenders) (i : ℕ) (c : StreamCall) : StreamEvent → Prop
  | .constructed (.error _) => m.senders.lookup c.sessionId ≠ some i
  | .drop => c.stage = .returned → m.senders.lookup c.sessionId ≠ some i
  | _ => True

/-- A session that is given free has nothing left of the calls before. -/
def Orderly (m : CancelSenders) : StreamAction → Prop
  | .call sessionId request => request.check = .ok () → m.senders.lookup sessionId = none →
    ∀ c ∈ m.calls, c.sessionId = sessionId → ¬ c.stage.Active
  | .cancel _ => True
  | .event i e => ∀ c ∈ m.calls[i]?, m.OrderlyEvent i c e

instance (m : CancelSenders) (i : ℕ) (c : StreamCall) (e : StreamEvent) :
    Decidable (m.OrderlyEvent i c e) := by
  unfold OrderlyEvent
  split <;> infer_instance

instance (m : CancelSenders) (a : StreamAction) : Decidable (m.Orderly a) := by
  unfold Orderly
  split <;> infer_instance

/-! ## Sessions as names that are taken and released -/

/-- The session that a call uses. -/
def usesOf (c : StreamCall) : Option String :=
  if c.stage.Active then some c.sessionId else none

theorem usesOf_eq_some {c : StreamCall} {sessionId : String} :
    usesOf c = some sessionId ↔ c.stage.Active ∧ c.sessionId = sessionId := by
  rw [usesOf]
  split
  · rename_i hactive
    rw [some.injEq, and_iff_right hactive]
  · rename_i hactive
    constructor
    · nofun
    · rintro ⟨h, -⟩
      exact absurd h hactive

/-- A session is a name, a call is the party that takes it, and its sender is the registration. -/
def leases (m : CancelSenders) : Leases String ℕ where
  holder := m.senders.lookup
  uses := fun i => m.calls[i]?.bind usesOf
  revoked := { i | ∃ c, m.calls[i]? = some c ∧ c.interrupt = true }

variable {m m' : CancelSenders} {i : ℕ} {c : StreamCall} {sessionId : String}

theorem leases_uses (hi : m.calls[i]? = some c) : m.leases.uses i = usesOf c := by
  show m.calls[i]?.bind usesOf = usesOf c
  rw [hi]
  rfl

theorem exists_of_uses (h : m.leases.uses i = some sessionId) :
    ∃ c, m.calls[i]? = some c ∧ c.stage.Active ∧ c.sessionId = sessionId := by
  obtain ⟨c, hi, hc⟩ := bind_eq_some_iff.mp h
  exact ⟨c, hi, usesOf_eq_some.mp hc⟩

/-- The names in use after a call has gone on. -/
theorem uses_set (hi : m.calls[i]? = some c) (senders : HashMap String ℕ) (c' : StreamCall) :
    (leases ⟨senders, m.calls.set i c'⟩).uses = Function.update m.leases.uses i (usesOf c') := by
  have hset := Calls.getElem?_set_eq_update hi c'
  funext j
  show (m.calls.set i c')[j]?.bind usesOf = _
  rw [show (m.calls.set i c')[j]? = _ from congrFun hset j]
  by_cases hj : j = i
  · rw [hj, update_self, update_self]
    rfl
  · rw [update_of_ne hj, update_of_ne hj]
    rfl

/-- The names in use after a new call was made. -/
theorem uses_append (senders : HashMap String ℕ) (c : StreamCall) :
    (leases ⟨senders, m.calls ++ [c]⟩).uses =
      Function.update m.leases.uses m.calls.length (usesOf c) := by
  have happend := Calls.getElem?_append_eq_update m.calls c
  funext j
  show (m.calls ++ [c])[j]?.bind usesOf = _
  rw [show (m.calls ++ [c])[j]? = _ from congrFun happend j]
  by_cases hj : j = m.calls.length
  · rw [hj, update_self, update_self]
    rfl
  · rw [update_of_ne hj, update_of_ne hj]
    rfl

theorem uses_length (m : CancelSenders) : m.leases.uses m.calls.length = none := by
  show m.calls[m.calls.length]?.bind usesOf = none
  rw [List.getElem?_eq_none (Nat.le_refl _)]
  rfl

/-- Who was told to stop, after a call has gone on. -/
theorem revoked_set (hi : m.calls[i]? = some c) (senders : HashMap String ℕ) (stage : Stage) :
    (leases ⟨senders, m.calls.set i { c with stage }⟩).revoked = m.leases.revoked := by
  ext j
  constructor
  · rintro ⟨d, hd, hint⟩
    obtain ⟨rfl, rfl⟩ | ⟨-, hd⟩ := Calls.getElem?_set_cases hd
    · exact ⟨c, hi, hint⟩
    · exact ⟨d, hd, hint⟩
  · rintro ⟨d, hd, hint⟩
    by_cases hj : j = i
    · subst hj
      rw [hi, some.injEq] at hd
      rw [← hd] at hint
      exact ⟨_, Calls.getElem?_set_self hi _, hint⟩
    · exact ⟨d, Calls.getElem?_set_of_ne hd hj _, hint⟩

theorem revoked_append (senders : HashMap String ℕ) (sessionId : String) (stage : Stage) :
    (leases ⟨senders, m.calls ++ [⟨sessionId, stage, false⟩]⟩).revoked = m.leases.revoked := by
  ext j
  constructor
  · rintro ⟨d, hd, hint⟩
    obtain ⟨-, rfl⟩ | hd := Calls.getElem?_append_cases hd
    · cases hint
    · exact ⟨d, hd, hint⟩
  · rintro ⟨d, hd, hint⟩
    exact ⟨d, Calls.getElem?_append_of_some hd _, hint⟩

/-! ## What a step does to the sessions -/

/-- A call that returns an error at once takes no session. -/
theorem leases_failed (m : CancelSenders) (sessionId : String) (e : HeraMindError) :
    leases ⟨m.senders, m.calls ++ [⟨sessionId, .failed e, false⟩]⟩ = m.leases := by
  apply Leases.ext
  · rfl
  · rw [uses_append]
    have hnone : usesOf ⟨sessionId, .failed e, false⟩ = none := rfl
    rw [hnone, ← m.uses_length, update_eq_self]
  · exact revoked_append _ _ _

/-- A call that registers its sender takes the session. -/
theorem leases_constructing (m : CancelSenders) (sessionId : String) :
    leases ⟨m.senders.insert sessionId m.calls.length,
      m.calls ++ [⟨sessionId, .constructing, false⟩]⟩ =
      m.leases.take m.calls.length sessionId := by
  apply Leases.ext
  · exact HashMap.lookup_insert_eq_update _ _ _
  · exact uses_append _ _
  · exact revoked_append _ _ _

theorem registerCancelSender_eq (senders : HashMap String ℕ) (sessionId : String) (sender : ℕ) :
    registerCancelSender senders sessionId sender = (senders, false) ∨
      senders.lookup sessionId = none ∧
        registerCancelSender senders sessionId sender = (senders.insert sessionId sender, true) := by
  rw [registerCancelSender]
  split
  · exact Or.inl rfl
  · rename_i hnone
    rw [not_isSome_iff_eq_none] at hnone
    exact Or.inr ⟨hnone, rfl⟩

theorem step_call {request : StreamRequest} (hG : m.Orderly (.call sessionId request)) :
    m.leases.Step (m.processMessage sessionId request).leases := by
  rw [processMessage]
  cases hcheck : request.check with
  | error e =>
    rw [leases_failed]
    exact .stay
  | ok u =>
    rcases registerCancelSender_eq m.senders sessionId m.calls.length with hreg | ⟨hnone, hreg⟩
    · simp only [hreg]
      rw [leases_failed]
      exact .stay
    · simp only [hreg]
      rw [leases_constructing]
      refine .take _ _ m.uses_length ?_
      intro j hj
      obtain ⟨c, hc, hactive, hsession⟩ := exists_of_uses hj
      exact hG hcheck hnone c (List.mem_of_getElem? hc) hsession hactive

theorem step_cancel (h : m.leases.Consistent) (sessionId : String) :
    m.leases.Step (m.cancelSession sessionId).1.leases := by
  rw [cancelSession]
  cases hl : m.senders.lookup sessionId with
  | none => exact .stay
  | some i =>
    obtain ⟨c, hi, -, -⟩ := exists_of_uses (h.used i sessionId hl)
    have heq : leases ⟨m.senders.erase sessionId, interrupt m.calls i⟩ =
        m.leases.revoke i sessionId := by
      simp only [interrupt, hi]
      apply Leases.ext
      · exact HashMap.lookup_erase_eq_update _ _
      · rw [uses_set hi]
        have huse : usesOf { c with interrupt := true } = m.leases.uses i := (leases_uses hi).symm
        rw [huse, update_eq_self]
        rfl
      · ext j
        constructor
        · rintro ⟨d, hd, hint⟩
          obtain ⟨hj, -⟩ | ⟨-, hd⟩ := Calls.getElem?_set_cases hd
          · exact Or.inl hj
          · exact Or.inr ⟨d, hd, hint⟩
        · rintro (hj | ⟨d, hd, hint⟩)
          · subst hj
            exact ⟨_, Calls.getElem?_set_self hi _, rfl⟩
          · by_cases hj : j = i
            · subst hj
              exact ⟨_, Calls.getElem?_set_self hi _, rfl⟩
            · exact ⟨d, Calls.getElem?_set_of_ne hd hj _, hint⟩
    show m.leases.Step (leases ⟨m.senders.erase sessionId, interrupt m.calls i⟩)
    rw [heq]
    exact .revoke i sessionId hl

/-- Everything that an event does to a call: it stays active and no sender is removed, it is done
and the sender of the session is removed, or it is done without that. -/
theorem next_cases {stage stage' : Stage} {e : StreamEvent} {removes : Bool}
    (h : stage.next e = some (stage', removes)) :
    stage.Active ∧ (stage'.Active ∧ removes = false ∨ ¬ stage'.Active ∧ removes = true ∨
      ¬ stage'.Active ∧ removes = false ∧
        ((∃ err, e = .constructed (.error err)) ∨ e = .drop ∧ stage = .returned)) := by
  unfold Stage.next at h
  split at h
  · cases h
    exact ⟨trivial, Or.inl ⟨trivial, rfl⟩⟩
  · cases h
    exact ⟨trivial, Or.inr (Or.inr ⟨id, rfl, Or.inl ⟨_, rfl⟩⟩)⟩
  · cases h
    refine ⟨trivial, Or.inl ⟨?_, rfl⟩⟩
    split <;> trivial
  · cases h
    refine ⟨trivial, Or.inl ⟨?_, rfl⟩⟩
    split <;> trivial
  · cases h
    exact ⟨trivial, Or.inr (Or.inl ⟨id, rfl⟩)⟩
  · cases h
    exact ⟨trivial, Or.inr (Or.inr ⟨id, rfl, Or.inr ⟨rfl, rfl⟩⟩)⟩
  · cases h
    exact ⟨trivial, Or.inl ⟨trivial, rfl⟩⟩
  · cases h
    exact ⟨trivial, Or.inl ⟨trivial, rfl⟩⟩
  · cases h
    exact ⟨trivial, Or.inr (Or.inl ⟨id, rfl⟩)⟩
  · cases h

theorem step_event {e : StreamEvent} (hG : m.Orderly (.event i e))
    (hs : m.event i e = some m') : m.leases.Step m'.leases := by
  obtain ⟨c, hi, hs⟩ := bind_eq_some_iff.mp hs
  obtain ⟨⟨stage, removes⟩, hnext, hs⟩ := bind_eq_some_iff.mp hs
  obtain rfl := some.inj hs
  have huse : ∀ senders, (leases ⟨senders, m.calls.set i { c with stage }⟩).uses =
      Function.update m.leases.uses i (usesOf { c with stage }) :=
    fun senders => uses_set hi senders _
  obtain ⟨hactive, hcases⟩ := next_cases hnext
  have hc : m.leases.uses i = some c.sessionId := by
    rw [leases_uses hi]
    exact usesOf_eq_some.mpr ⟨hactive, rfl⟩
  obtain ⟨hactive', rfl⟩ | ⟨hdone, rfl⟩ | ⟨hdone, rfl, hleft⟩ := hcases
  · -- the call goes on with the session it uses
    have heq : leases ⟨m.senders, m.calls.set i { c with stage }⟩ = m.leases := by
      apply Leases.ext
      · rfl
      · have hsame : usesOf { c with stage } = m.leases.uses i := by
          rw [hc]
          exact usesOf_eq_some.mpr ⟨hactive', rfl⟩
        rw [huse, hsame, update_eq_self]
      · exact revoked_set hi _ _
    show m.leases.Step (leases ⟨m.senders, m.calls.set i { c with stage }⟩)
    rw [heq]
    exact .stay
  · -- the sender of the session is removed
    have heq : leases ⟨m.senders.erase c.sessionId, m.calls.set i { c with stage }⟩ =
        m.leases.release i c.sessionId := by
      apply Leases.ext
      · exact HashMap.lookup_erase_eq_update _ _
      · rw [huse, usesOf, if_neg hdone]
        rfl
      · exact revoked_set hi _ _
    show m.leases.Step (leases ⟨m.senders.erase c.sessionId, m.calls.set i { c with stage }⟩)
    rw [heq]
    exact .release i c.sessionId hc
  · -- nothing is removed
    have heq : leases ⟨m.senders, m.calls.set i { c with stage }⟩ = m.leases.leave i := by
      apply Leases.ext
      · rfl
      · rw [huse, usesOf, if_neg hdone]
        rfl
      · exact revoked_set hi _ _
    have hother : m.senders.lookup c.sessionId ≠ some i := by
      have hGc := hG c hi
      rcases hleft with ⟨err, rfl⟩ | ⟨rfl, hreturned⟩
      · exact hGc
      · exact hGc hreturned
    show m.leases.Step (leases ⟨m.senders, m.calls.set i { c with stage }⟩)
    rw [heq]
    exact .leave i c.sessionId hc hother

/-- A step in order takes, revokes, leaves or releases a session. -/
theorem step_leases {a : StreamAction} (h : m.leases.Consistent) (hG : m.Orderly a)
    (hs : streamStep m a = some m') : m.leases.Step m'.leases := by
  cases a with
  | call sessionId request =>
    obtain rfl := some.inj hs
    exact step_call hG
  | cancel sessionId =>
    obtain rfl := some.inj hs
    exact step_cancel h sessionId
  | event i e => exact step_event hG hs

theorem consistent_init : init.leases.Consistent := by
  have heq : init.leases = ⟨fun _ => none, fun _ => none, ∅⟩ := by
    apply Leases.ext
    · funext sessionId
      rfl
    · rfl
    · ext j
      constructor
      · rintro ⟨c, hc, -⟩
        cases hc
      · nofun
  rw [heq]
  exact .empty

/-- Consistent sessions have a single stream. -/
theorem singleStream_of_consistent (h : m.leases.Consistent) : m.SingleStream where
  one := by
    intro i j c d hi hj hsession hc hd
    refine h.alone i j c.sessionId ?_ ?_
    · rw [leases_uses hi, usesOf_eq_some, hc]
      exact ⟨trivial, rfl⟩
    · rw [leases_uses hj, usesOf_eq_some, hd]
      exact ⟨trivial, hsession.symm⟩
  own := by
    intro i c hi hc hint
    have hholder : m.senders.lookup c.sessionId = some i := by
      refine h.registered i c.sessionId ?_ ?_
      · rw [leases_uses hi, usesOf_eq_some, hc]
        exact ⟨trivial, rfl⟩
      · rintro ⟨d, hd, hint'⟩
        rw [hi, some.injEq] at hd
        rw [← hd, hint] at hint'
        cases hint'
    refine ⟨hholder, ?_, ?_⟩
    · rw [cancelSession, hholder]
    · rw [cancelSession, hholder]
      simp only [interrupt, hi]
      exact Calls.getElem?_set_self hi _
  free := by
    intro sessionId hgone sender
    have hnone : m.senders.lookup sessionId = none := by
      apply h.free
      intro i huse
      obtain ⟨c, hi, hactive, hsession⟩ := exists_of_uses huse
      exact hgone c (List.mem_of_getElem? hi) hsession hactive
    rw [registerCancelSender, hnone]
    rfl

/-- As long as a session that is given free has nothing left of the calls before, and no call ends
with its sender left behind, a session has a single stream. -/
theorem singleStream_of_run {tr : List (CancelSenders × StreamAction)}
    (hrun : Run streamStep init tr m) (hG : Within Orderly tr) : m.SingleStream := by
  apply singleStream_of_consistent
  refine hrun.invariant (I := fun m => m.leases.Consistent) hG consistent_init ?_
  intro m a m' h hGa hs
  exact h.step (step_leases h hGa hs)

/-- A request whose session is found. -/
def found : StreamRequest := .events (.ok ⟨false⟩)

/-- A stream is cancelled and polled to its end, and only then the next one starts. -/
theorem singleStream_of_run_cancelled : ∃ tr m, Run streamStep init tr m ∧ Within Orderly tr ∧
    m.calls = [⟨"chat", .gone, true⟩, ⟨"chat", .producing, false⟩] ∧ m.SingleStream := by
  obtain ⟨tr, m, hrun, hG, hcalls⟩ := exists_run streamStep init
    [.call "chat" found, .event 0 (.constructed (.ok ())), .event 0 (.poll true), .cancel "chat",
      .event 0 (.poll false), .event 0 .release, .call "chat" found,
      .event 1 (.constructed (.ok ())), .event 1 (.poll true)]
    (fun tr m => Within Orderly tr ∧ m.calls = [⟨"chat", .gone, true⟩, ⟨"chat", .producing, false⟩])
    (by decide)
  exact ⟨tr, m, hrun, hG, hcalls, singleStream_of_run hrun hG⟩

/-- The next stream starts while the cancelled one still runs: the cancelled one then removes its
sender, so that a third one starts beside it, and neither was cancelled.  A stream that is dropped
before its first poll leaves its sender, and the session is refused for good. -/
theorem two_streams_and_stuck :
    (∃ tr m, Run streamStep init tr m ∧
      m.calls = [⟨"chat", .gone, true⟩, ⟨"chat", .producing, false⟩, ⟨"chat", .producing, false⟩] ∧
      m.senders.lookup "chat" = some 2 ∧ ¬ m.SingleStream) ∧
    ∃ tr m, Run streamStep init tr m ∧ m.calls = [⟨"chat", .gone, false⟩] ∧
      (registerCancelSender m.senders "chat" 1).2 = false ∧ ¬ m.SingleStream := by
  constructor
  · obtain ⟨tr, m, hrun, hcalls, hlookup⟩ := exists_run streamStep init
      [.call "chat" found, .event 0 (.constructed (.ok ())), .event 0 (.poll true), .cancel "chat",
        .call "chat" found, .event 1 (.constructed (.ok ())), .event 1 (.poll true),
        .event 0 (.poll false), .event 0 .release, .call "chat" found,
        .event 2 (.constructed (.ok ())), .event 2 (.poll true)]
      (fun tr m => m.calls = [⟨"chat", .gone, true⟩, ⟨"chat", .producing, false⟩,
        ⟨"chat", .producing, false⟩] ∧ m.senders.lookup "chat" = some 2)
      (by decide)
    refine ⟨tr, m, hrun, hcalls, hlookup, ?_⟩
    intro h
    have heq := h.one 1 2 _ _ (by rw [hcalls]; rfl) (by rw [hcalls]; rfl) rfl rfl rfl
    omega
  · obtain ⟨tr, m, hrun, hcalls, hrefused⟩ := exists_run streamStep init
      [.call "chat" found, .event 0 (.constructed (.ok ())), .event 0 .drop]
      (fun tr m => m.calls = [⟨"chat", .gone, false⟩] ∧
        (registerCancelSender m.senders "chat" 1).2 = false)
      (by decide)
    refine ⟨tr, m, hrun, hcalls, hrefused, ?_⟩
    intro h
    have hfree := h.free "chat" ?_ 1
    · rw [hrefused] at hfree
      cases hfree
    · intro c hc _
      rw [hcalls, List.mem_singleton] at hc
      rw [hc]
      exact id

end CancelSenders

end HeraMind.Agent
