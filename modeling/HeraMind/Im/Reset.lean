/-
# Resets of a session

A message is run in the session that the store holds for its chat, under the lock of the chat.  A
reset deletes the record without that lock.  So a call that has created a session and is still to
store it, or has read the record and is still to write it back, brings back a session from before
the reset.
-/
import HeraMind.Lib.Run
import HeraMind.Lib.Calls
import HeraMind.Im.Router

namespace HeraMind.Im

open List Option AList
open Transition

namespace ImCall

/-- The chat whose session the next section of the call resets. -/
def resetting : ImCall → Option String
  | .resetSession m => some m.key
  | .resetRequest platform chatId => some (chatKey platform chatId)
  | _ => none

/-- The chat and the session that the call is to store, or may be to. -/
def binds : ImCall → Option (String × ℕ)
  | .getSession m sessionId _ | .putSession m sessionId _ => some (m.key, sessionId)
  | .touchPut m record _ => some (m.key, record.neoSessionId)
  | _ => none

/-- The message that the call is still to run. -/
def waiting : ImCall → Option InboundMessage
  | .checkAllowlist m | .checkSeen m | .lockChat m | .lookup m | .resolveAgent m
  | .createSession m _ | .getSession m _ _ | .putSession m _ _ => some m
  | _ => none

end ImCall

namespace ImRouter

/-! ## The property -/

/-- Every message was run in a session that was created after the resets of its chat before it. -/
def RunAfterReset (s : ImRouter) : Prop :=
  ∀ x ∈ s.ran, ∀ since ∈ s.since[x.call]?, since ≤ x.sessionId

/-- At most one message of a chat is being run. -/
def RunsAlone (s : ImRouter) : Prop :=
  ∀ (i j : ℕ) (m m' : InboundMessage) (sessionId sessionId' : ℕ),
    s.calls[i]? = some (.run m sessionId) → s.calls[j]? = some (.run m' sessionId') →
    m.key = m'.key → i = j

/-- When the session of a chat is reset, no call is to store a session for the chat. -/
def ResetAlone (s : ImRouter) : RouterLabel → Prop
  | .run n _ => ∀ call ∈ s.calls[n]?, ∀ key ∈ call.resetting,
    ∀ other ∈ s.calls, ∀ b ∈ other.binds, b.1 ≠ key
  | _ => True

instance (s : ImRouter) : DecidablePred s.ResetAlone
  | .run n _ => inferInstanceAs (Decidable (∀ call ∈ s.calls[n]?, ∀ key ∈ call.resetting,
      ∀ other ∈ s.calls, ∀ b ∈ other.binds, b.1 ≠ key))
  | .inbound _ | .removeAllowlist _ | .resetSession _ _ | .evictExpired _ | .setBridges _
  | .elapse _ => isTrue trivial

variable {s s' : ImRouter} {n : ℕ} {outcome : Outcome} {call call' : ImCall}

/-! ## The lock of a chat -/

theorem locking_afterSeen (m : InboundMessage) : m.afterSeen.locking = none := by
  unfold InboundMessage.afterSeen
  cases command m.text <;> rfl

/-- A call has locked its chat before the section, or the section locks it. -/
theorem locking_of_section {m : InboundMessage} (h : Section s n outcome call s' call')
    (hm : call'.locking = some m) : call.locking = some m ∨ s.isLocked m.key = false := by
  cases h with
  | accepted =>
    rw [locking_afterSeen] at hm
    cases hm
  | locks hlocked =>
    cases hm
    exact Or.inr hlocked
  | _ => first | exact Or.inl hm | cases hm

/-- No chat is locked by two calls. -/
def LockedOnce (s : ImRouter) : Prop :=
  ∀ (i j : ℕ) (c c' : ImCall) (m m' : InboundMessage), s.calls[i]? = some c →
    s.calls[j]? = some c' → c.locking = some m → c'.locking = some m' → m.key = m'.key → i = j

theorem LockedOnce.step {a : RouterLabel} (h : LockedOnce s) (hs : s.step a = some s') :
    LockedOnce s' := by
  have hbegin : ∀ (s : ImRouter) (call : ImCall) (since : ℕ), LockedOnce s →
      call.locking = none → LockedOnce (s.beginCall call since) := by
    intro s call since h hnone i j c c' m m' hi hj hm hm' hkey
    rcases Calls.getElem?_append_cases hi with ⟨-, rfl⟩ | hi
    · rw [hnone] at hm
      cases hm
    · rcases Calls.getElem?_append_cases hj with ⟨-, rfl⟩ | hj
      · rw [hnone] at hm'
        cases hm'
      · exact h i j c c' m m' hi hj hm hm' hkey
  cases a with
  | inbound m =>
    cases hs
    refine hbegin { s with
      delivered := m :: s.delivered
      passed := if m.isStart then m :: s.passed else s.passed } _ _ h ?_
    unfold InboundMessage.call
    split <;> rfl
  | removeAllowlist chatId | resetSession platform chatId | evictExpired cutoff =>
    cases hs
    exact hbegin s _ _ h rfl
  | run n outcome =>
    obtain ⟨call, s₁, call', hn, hsection, rfl⟩ := step_run hs
    have hlocking := fun m => locking_of_section (m := m) (section_of_runSection hsection)
    -- A call that is new to the lock of a chat has found it free.
    have hfree : ∀ (j : ℕ) (c : ImCall) (m m' : InboundMessage), s.calls[j]? = some c →
        c.locking = some m' → m.key = m'.key → s.isLocked m.key = true := by
      intro j c m m' hj hm' hkey
      refine any_eq_true.mpr ⟨c, mem_of_getElem? hj, ?_⟩
      rw [hm', any_some, decide_eq_true_eq]
      exact hkey.symm
    intro i j c c' m m' hi hj hm hm' hkey
    rcases Calls.getElem?_set_cases hi with ⟨rfl, rfl⟩ | ⟨-, hi'⟩
    · rcases Calls.getElem?_set_cases hj with ⟨rfl, -⟩ | ⟨-, hj'⟩
      · rfl
      · rcases hlocking m hm with hold | hunlocked
        · exact h i j call c' m m' hn hj' hold hm' hkey
        · rw [hfree j c' m m' hj' hm' hkey] at hunlocked
          cases hunlocked
    · rcases Calls.getElem?_set_cases hj with ⟨rfl, rfl⟩ | ⟨-, hj'⟩
      · rcases hlocking m' hm' with hold | hunlocked
        · exact h i j c call m m' hi' hn hm hold hkey
        · rw [hfree i c m' m hi' hm hkey.symm] at hunlocked
          cases hunlocked
      · exact h i j c c' m m' hi' hj' hm hm' hkey
  | setBridges platforms | elapse d =>
    cases hs
    exact h

theorem LockedOnce.runsAlone (h : LockedOnce s) : s.RunsAlone :=
  fun i j m m' _ _ hi hj hkey => h i j _ _ m m' hi hj rfl rfl hkey

/-! ## Sessions from after a reset -/

/-- How many sessions there were when a chat was last reset. -/
def resetBound (s : ImRouter) (key : String) : ℕ :=
  (s.lastReset.lookup key).getD 0

/-- What is stored for a chat, or is to be, is a session from after its last reset. -/
structure Renewed (s : ImRouter) : Prop where
  length : s.since.length = s.calls.length
  bound : ∀ key, s.resetBound key ≤ s.sessionsCreated
  records : ∀ key record, s.sessions.lookup key = some record →
    s.resetBound key ≤ record.neoSessionId
  binds : ∀ call ∈ s.calls, ∀ b ∈ call.binds, s.resetBound b.1 ≤ b.2
  waits : ∀ (i : ℕ) (call : ImCall) (m : InboundMessage) (since : ℕ), s.calls[i]? = some call →
    call.waiting = some m → s.since[i]? = some since → since ≤ s.resetBound m.key
  ran : ∀ x ∈ s.ran, ∃ since, s.since[x.call]? = some since ∧ since ≤ x.sessionId

namespace Renewed

/-- A call is made. -/
theorem beginCall (h : Renewed s) (call : ImCall) (since : ℕ) (hbinds : call.binds = none)
    (hwaits : ∀ m, call.waiting = some m → since = s.resetBound m.key) :
    Renewed (s.beginCall call since) where
  length := by
    show (s.since ++ [since]).length = (s.calls ++ [call]).length
    rw [length_append, length_append, h.length]
    rfl
  bound := h.bound
  records := h.records
  binds c hc b hb := by
    rcases mem_append.mp hc with hc | hc
    · exact h.binds c hc b hb
    · rw [mem_singleton.mp hc, hbinds] at hb
      cases hb
  waits i c m b hi hm hb := by
    rcases Calls.getElem?_append_cases hi with ⟨rfl, rfl⟩ | hi
    · rcases Calls.getElem?_append_cases hb with ⟨-, rfl⟩ | hb
      · exact (hwaits m hm).le
      · have hlt := (List.getElem?_eq_some_iff.mp hb).1
        rw [h.length] at hlt
        exact absurd hlt (Nat.lt_irrefl _)
    · rcases Calls.getElem?_append_cases hb with ⟨heq, -⟩ | hb
      · have hlt := (List.getElem?_eq_some_iff.mp hi).1
        rw [heq, h.length] at hlt
        exact absurd hlt (Nat.lt_irrefl _)
      · exact h.waits i c m b hi hm hb
  ran x hx := by
    obtain ⟨b, hb, hle⟩ := h.ran x hx
    exact ⟨b, Calls.getElem?_append_of_some hb since, hle⟩

/-- A call goes on, and no session is reset. -/
theorem keep (h : Renewed s) (s' : ImRouter) (hn : s.calls[n]? = some call)
    (hsince : s'.since = s.since) (hlast : s'.lastReset = s.lastReset)
    (hcreated : s.sessionsCreated ≤ s'.sessionsCreated)
    (hrecords : ∀ key record, s'.sessions.lookup key = some record →
      s.resetBound key ≤ record.neoSessionId)
    (hran : ∀ x ∈ s'.ran, x ∈ s.ran ∨ (x.call = n ∧ ∃ m, call.waiting = some m ∧
      s.resetBound m.key ≤ x.sessionId))
    (hbinds : ∀ b ∈ call'.binds, s.resetBound b.1 ≤ b.2)
    (hwaits : ∀ m, call'.waiting = some m → call.waiting = some m) :
    Renewed { s' with calls := s.calls.set n call' } := by
  have hbound : ∀ key, s'.resetBound key = s.resetBound key := by
    intro key
    unfold resetBound
    rw [hlast]
  refine ⟨?_, ?_, ?_, ?_, ?_, ?_⟩
  · show s'.since.length = (s.calls.set n call').length
    rw [hsince, length_set, h.length]
  · intro key
    show s'.resetBound key ≤ s'.sessionsCreated
    rw [hbound]
    exact Nat.le_trans (h.bound key) hcreated
  · intro key record hrecord
    show s'.resetBound key ≤ record.neoSessionId
    rw [hbound]
    exact hrecords key record hrecord
  · intro c hc b hb
    show s'.resetBound b.1 ≤ b.2
    rw [hbound]
    rcases mem_or_eq_of_mem_set hc with hc | rfl
    · exact h.binds c hc b hb
    · exact hbinds b hb
  · intro i c m b hi hm hb
    show b ≤ s'.resetBound m.key
    rw [hbound]
    rw [show ({ s' with calls := s.calls.set n call' } : ImRouter).since = s.since from
      hsince] at hb
    rcases Calls.getElem?_set_cases hi with ⟨rfl, rfl⟩ | ⟨-, hi⟩
    · exact h.waits i call m b hn (hwaits m hm) hb
    · exact h.waits i c m b hi hm hb
  · intro x hx
    show ∃ b, s'.since[x.call]? = some b ∧ b ≤ x.sessionId
    rw [hsince]
    rcases hran x hx with hx | ⟨rfl, m, hm, hle⟩
    · exact h.ran x hx
    · have hlt := (List.getElem?_eq_some_iff.mp hn).1
      rw [← h.length] at hlt
      refine ⟨s.since[x.call], getElem?_eq_getElem hlt, Nat.le_trans ?_ hle⟩
      exact h.waits x.call call m _ hn hm (getElem?_eq_getElem hlt)

/-- A call goes on, and neither sessions nor runs change. -/
theorem quiet (h : Renewed s) (hn : s.calls[n]? = some call) (hsince : s'.since = s.since)
    (hlast : s'.lastReset = s.lastReset) (hcreated : s'.sessionsCreated = s.sessionsCreated)
    (hsessions : s'.sessions = s.sessions) (hran : s'.ran = s.ran)
    (hbinds : ∀ b ∈ call'.binds, b ∈ call.binds)
    (hwaits : ∀ m, call'.waiting = some m → call.waiting = some m) :
    Renewed { s' with calls := s.calls.set n call' } := by
  refine h.keep s' hn hsince hlast hcreated.ge ?_ ?_ ?_ hwaits
  · rw [hsessions]
    exact h.records
  · intro x hx
    rw [hran] at hx
    exact Or.inl hx
  · intro b hb
    exact h.binds call (mem_of_getElem? hn) b (hbinds b hb)

/-- The session of a chat is reset, and no call is to store one. -/
theorem reset (h : Renewed s) {key : String}
    (halone : ∀ other ∈ s.calls, ∀ b ∈ other.binds, b.1 ≠ key) (hbinds : call'.binds = none)
    (hwaits : call'.waiting = none) :
    Renewed { s.reset key with calls := s.calls.set n call' } := by
  have hself : (s.reset key).resetBound key = s.sessionsCreated := by
    unfold resetBound ImRouter.reset
    rw [lookup_insert, getD_some]
  have hne : ∀ key', key' ≠ key → (s.reset key).resetBound key' = s.resetBound key' := by
    intro key' hkey
    unfold resetBound ImRouter.reset
    rw [lookup_insert_ne hkey]
  refine ⟨?_, ?_, ?_, ?_, ?_, h.ran⟩
  · show s.since.length = (s.calls.set n call').length
    rw [length_set, h.length]
  · intro key'
    show (s.reset key).resetBound key' ≤ s.sessionsCreated
    by_cases hkey : key' = key
    · rw [hkey, hself]
    · rw [hne key' hkey]
      exact h.bound key'
  · intro key' record hrecord
    show (s.reset key).resetBound key' ≤ record.neoSessionId
    have hlookup : (s.sessions.erase key).lookup key' = some record := hrecord
    by_cases hkey : key' = key
    · rw [hkey, AList.lookup_erase] at hlookup
      cases hlookup
    · rw [hne key' hkey]
      rw [AList.lookup_erase_ne hkey] at hlookup
      exact h.records key' record hlookup
  · intro c hc b hb
    show (s.reset key).resetBound b.1 ≤ b.2
    rcases mem_or_eq_of_mem_set hc with hc | rfl
    · rw [hne b.1 (halone c hc b hb)]
      exact h.binds c hc b hb
    · rw [hbinds] at hb
      cases hb
  · intro i c m b hi hm hb
    show b ≤ (s.reset key).resetBound m.key
    rcases Calls.getElem?_set_cases hi with ⟨-, rfl⟩ | ⟨-, hi⟩
    · rw [hwaits] at hm
      cases hm
    · have hle := h.waits i c m b hi hm hb
      by_cases hkey : m.key = key
      · rw [hkey, hself]
        exact Nat.le_trans (hkey ▸ hle) (h.bound key)
      · rw [hne m.key hkey]
        exact hle

/-- A message is run in the session of a record. -/
theorem found (h : Renewed s) {m : InboundMessage} {record : ImSessionRecord}
    (hn : s.calls[n]? = some call) (hwaits : call.waiting = some m)
    (hrecord : s.sessions.lookup m.key = some record) :
    Renewed { s with
      ran := ⟨n, record.neoSessionId⟩ :: s.ran
      calls := s.calls.set n (.run m record.neoSessionId) } := by
  refine h.keep { s with ran := ⟨n, record.neoSessionId⟩ :: s.ran } hn rfl rfl
    (Nat.le_refl _) h.records ?_ ?_ ?_
  · intro x hx
    rcases mem_cons.mp hx with rfl | hx
    · exact Or.inr ⟨rfl, m, hwaits, h.records m.key record hrecord⟩
    · exact Or.inl hx
  · intro b hb
    cases hb
  · intro m' hm'
    cases hm'

theorem runSection (h : Renewed s) (hn : s.calls[n]? = some call)
    (halone : ∀ key ∈ call.resetting, ∀ other ∈ s.calls, ∀ b ∈ other.binds, b.1 ≠ key)
    (hsection : Section s n outcome call s' call') :
    Renewed { s' with calls := s.calls.set n call' } := by
  have hmem := mem_of_getElem? hn
  cases hsection with
  | consumed hconsume =>
    obtain ⟨invites, admitted, rfl⟩ := consume_frame hconsume
    exact h.quiet hn rfl rfl rfl rfl rfl (fun b hb => by cases hb) (fun m hm => by cases hm)
  | @accepted m =>
    refine h.quiet hn rfl rfl rfl rfl rfl ?_ ?_
    · intro b hb
      unfold InboundMessage.afterSeen at hb
      split at hb <;> cases hb
    · intro m' hm'
      unfold InboundMessage.afterSeen at hm'
      split at hm' <;> first | exact hm' | cases hm'
  | resets | resetRequested => exact h.reset (halone _ rfl) rfl rfl
  | found hrecord | present hrecord => exact h.found hn rfl hrecord
  | created =>
    refine h.keep { s with sessionsCreated := s.sessionsCreated + 1 } hn rfl rfl
      (Nat.le_succ _) h.records (fun x hx => Or.inl hx) ?_ (fun m hm => hm)
    intro b hb
    cases hb
    exact h.bound _
  | @stored m sessionId agentId =>
    have hle : s.resetBound m.key ≤ sessionId := h.binds _ hmem (m.key, sessionId) rfl
    refine h.keep { s with
      sessions := s.sessions.insert m.key ⟨sessionId, agentId, s.now, s.now⟩
      ran := ⟨n, sessionId⟩ :: s.ran } hn rfl rfl (Nat.le_refl _) ?_ ?_
      (fun b hb => by cases hb) (fun m hm => by cases hm)
    · intro key record hrecord
      by_cases hkey : key = m.key
      · rw [hkey] at hrecord ⊢
        rw [lookup_insert] at hrecord
        cases hrecord
        exact hle
      · rw [lookup_insert_ne hkey] at hrecord
        exact h.records key record hrecord
    · intro x hx
      rcases mem_cons.mp hx with rfl | hx
      · exact Or.inr ⟨rfl, m, rfl, hle⟩
      · exact Or.inl hx
  | touched hrecord =>
    refine h.keep s hn rfl rfl (Nat.le_refl _) h.records (fun x hx => Or.inl hx) ?_
      (fun m hm => by cases hm)
    intro b hb
    cases hb
    exact h.records _ _ hrecord
  | @touchStored m record text =>
    have hle : s.resetBound m.key ≤ record.neoSessionId := h.binds _ hmem _ rfl
    refine h.keep { s with sessions := s.sessions.insert m.key record } hn rfl rfl (Nat.le_refl _)
      ?_ (fun x hx => Or.inl hx) (fun b hb => by cases hb) (fun m hm => by cases hm)
    intro key record' hrecord
    by_cases hkey : key = m.key
    · rw [hkey] at hrecord ⊢
      rw [lookup_insert] at hrecord
      cases hrecord
      exact hle
    · rw [lookup_insert_ne hkey] at hrecord
      exact h.records key record' hrecord
  | @evicts cutoff =>
    refine h.keep { s with sessions := s.fresh cutoff } hn rfl rfl (Nat.le_refl _) ?_
      (fun x hx => Or.inl hx) (fun b hb => by cases hb) (fun m hm => by cases hm)
    intro key record hrecord
    have hlookup : (s.sessions.lookup key).filter
        (fun record => !decide (record.lastActive < cutoff)) = some record := by
      rw [← HashMap.lookup_removeAll_filter]
      exact hrecord
    exact h.records key record (filter_eq_some_iff.mp hlookup).1
  | _ =>
    refine h.quiet hn rfl rfl rfl rfl rfl ?_ ?_
    · intro b hb
      first | exact hb | cases hb
    · intro m hm
      first | exact hm | cases hm

theorem step {a : RouterLabel} (h : Renewed s) (halone : s.ResetAlone a)
    (hs : s.step a = some s') : Renewed s' := by
  cases a with
  | inbound m =>
    cases hs
    have hdelivered : Renewed { s with
        delivered := m :: s.delivered
        passed := if m.isStart then m :: s.passed else s.passed } :=
      ⟨h.length, h.bound, h.records, h.binds, h.waits, h.ran⟩
    refine hdelivered.beginCall _ _ ?_ ?_
    · unfold InboundMessage.call
      split <;> rfl
    · intro m' hm'
      unfold InboundMessage.call at hm'
      split at hm' <;> cases hm'
      rfl
  | removeAllowlist chatId | resetSession platform chatId | evictExpired cutoff =>
    cases hs
    exact h.beginCall _ _ rfl (fun m hm => by cases hm)
  | run n outcome =>
    obtain ⟨call, s₁, call', hn, hsection, rfl⟩ := step_run hs
    exact h.runSection hn (halone call hn) (section_of_runSection hsection)
  | setBridges platforms | elapse d =>
    cases hs
    exact ⟨h.length, h.bound, h.records, h.binds, h.waits, h.ran⟩

end Renewed

/-! ## Runs -/

/-- In every run at most one message of a chat is run at a time; and in every run in which sessions
are reset while no call is to store one for the chat, every message that comes in after a reset is
run in a session that was created after it. -/
theorem reset_of_run (sessions : HashMap String ImSessionRecord)
    (invites : HashMap String InviteRecord) (allowTable : HashMap String ℤ)
    (allowlist : Option (List String)) (sessionsCreated : ℕ) (bridges : List ImPlatform) (now : ℤ)
    (tr : List (ImRouter × RouterLabel)) (s : ImRouter)
    (hr : Run step (opened sessions invites allowTable allowlist sessionsCreated bridges now)
      tr s) :
    s.RunsAlone ∧ (Within ResetAlone tr → s.RunAfterReset) := by
  constructor
  · have hlocked : LockedOnce s := by
      refine hr.invariant' ?_ fun _ _ _ h hs => h.step hs
      intro i j c c' m m' hi
      cases hi
    exact hlocked.runsAlone
  · intro halone
    have hrenewed : Renewed s := by
      refine hr.invariant halone ?_ fun _ _ _ h hok hs => h.step hok hs
      refine ⟨rfl, fun key => Nat.zero_le _, fun key record _ => Nat.zero_le _, ?_, ?_, ?_⟩
      · intro call hcall
        cases hcall
      · intro i call m since hi
        cases hi
      · intro x hx
        cases hx
    intro x hx since hsince
    obtain ⟨since', hsince', hle⟩ := hrenewed.ran x hx
    rw [hsince'] at hsince
    cases hsince
    exact hle

end ImRouter

namespace Sample

/-- A message is handled until its session was created. -/
def created (n : ℕ) : List RouterLabel :=
  sections n 4 ++ .run n (.agent (some "a")) :: sections n 1

/-- The session is stored, and the agent answers. -/
def answered (n : ℕ) : List RouterLabel :=
  sections n 2 ++ [.run n (.answer "hi")]

/-- The session is reset, and the next message is run in a new one. -/
def resetBetween : List RouterLabel :=
  hello "1" :: created 0 ++ answered 0 ++ sections 0 3 ++
    .resetSession .telegram "c" :: sections 1 1 ++ hello "2" :: created 2 ++ answered 2

/-- The session is reset while the first message writes its record back. -/
def resetWhileTouched : List RouterLabel :=
  hello "1" :: created 0 ++ answered 0 ++ sections 0 1 ++
    .resetSession .telegram "c" :: sections 1 1 ++ sections 0 2 ++ hello "2" :: sections 2 4

/-- The session is reset before the session of the first message is stored. -/
def resetWhileCreated : List RouterLabel :=
  hello "1" :: created 0 ++ .resetSession .telegram "c" :: sections 1 1 ++ answered 0 ++
    sections 0 3 ++ hello "2" :: sections 2 4

end Sample

namespace ImRouter

instance (s : ImRouter) : Decidable s.RunAfterReset :=
  inferInstanceAs (Decidable (∀ x ∈ s.ran, ∀ since ∈ s.since[x.call]?, _))

/-- The second message is run in the second session. -/
theorem reset_of_run_between : ∃ tr s, Run step Sample.unguarded tr s ∧ Within ResetAlone tr ∧
    s.ran = [⟨2, 1⟩, ⟨0, 0⟩] ∧ s.since = [0, 0, 1] ∧ s.RunAfterReset := by
  obtain ⟨tr, s, hrun, halone, hran, hsince⟩ := exists_run step Sample.unguarded Sample.resetBetween
    (fun tr s => Within ResetAlone tr ∧ s.ran = [⟨2, 1⟩, ⟨0, 0⟩] ∧ s.since = [0, 0, 1])
    (by decide)
  exact ⟨tr, s, hrun, halone, hran, hsince,
    (reset_of_run ∅ ∅ ∅ none 0 [.telegram] 0 tr s hrun).2 halone⟩

/-- The second message is run in the session from before the reset, which was written back, or was
stored, after it. -/
theorem runs_before_reset :
    (∃ tr s, Run step Sample.unguarded tr s ∧ s.ran = [⟨2, 0⟩, ⟨0, 0⟩] ∧ s.since = [0, 0, 1] ∧
      ¬ s.RunAfterReset) ∧
    ∃ tr s, Run step Sample.unguarded tr s ∧ s.ran = [⟨2, 0⟩, ⟨0, 0⟩] ∧ s.since = [0, 0, 1] ∧
      s.sessionsCreated = 1 ∧ ¬ s.RunAfterReset := by
  constructor
  · exact exists_run _ _ Sample.resetWhileTouched _ (by decide)
  · exact exists_run _ _ Sample.resetWhileCreated _ (by decide)

end ImRouter

end HeraMind.Im
