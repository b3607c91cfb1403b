/-
# Answers to messages

A message that is handled is answered once.  Every `/start` is handled, also one that is delivered
again; of the other messages only the first with its id.  An answer is lost when the session of the
message cannot be read, created or stored, or when the bridge of its platform is not registered at
the moment of the answer.

The invariant counts, for one message id, the answers that were given and those that calls in
progress still owe.
-/
import HeraMind.Lib.Run
import HeraMind.Lib.Calls
import HeraMind.Im.Router

namespace HeraMind.Im

open List
open Transition

namespace ImCall

/-- The message that the call is to answer. -/
def owed : ImCall → Option InboundMessage
  | .consumeInvite m _ | .allowAdd m | .insertAllowed m | .resetSession m | .lockChat m
  | .lookup m | .resolveAgent m | .createSession m _ | .getSession m _ _ | .putSession m _ _
  | .run m _ | .touchGet m _ | .touchPut m _ _ | .reply m _ _ => some m
  | _ => none

/-- The message that is not answered if the next section of the call fails. -/
def droppable : ImCall → Option InboundMessage
  | .lookup m | .createSession m _ | .getSession m _ _ | .putSession m _ _ => some m
  | _ => none

/-- The message that the next section of the call answers. -/
def answering : ImCall → Option InboundMessage
  | .reply m _ _ => some m
  | _ => none

/-- The message that has still to pass a check. -/
def unchecked : ImCall → Option InboundMessage
  | .checkAllowlist m | .checkSeen m => some m
  | _ => none

/-- The call is to answer a message with this id. -/
def owes (x : String) (call : ImCall) : Bool :=
  call.owed.any fun m => m.msgId = x

end ImCall

namespace ImRouter

/-! ## The property -/

/-- How often a message id was answered. -/
def answers (s : ImRouter) (x : String) : ℕ :=
  s.replies.countP fun r => r.msgId = x

/-- How often `/start` was delivered with this message id. -/
def starts (s : ImRouter) (x : String) : ℕ :=
  s.passed.countP fun m => m.isStart && m.msgId = x

/-- A message other than `/start` with this id has passed the allowlist. -/
def Admits (s : ImRouter) (x : String) : Prop :=
  ∃ m ∈ s.passed, m.isStart = false ∧ m.msgId = x

instance (s : ImRouter) (x : String) : Decidable (s.Admits x) :=
  inferInstanceAs (Decidable (∃ m ∈ s.passed, m.isStart = false ∧ m.msgId = x))

/-- How many answers a message id is due: one for every `/start`, and one for the other messages
that have passed the allowlist. -/
def due (s : ImRouter) (x : String) : ℕ :=
  s.starts x + if s.Admits x then 1 else 0

/-- The session of a message with this id is read, created and stored without a failure, and the
bridge of its platform is registered when it is answered. -/
def Answerable (x : String) (s : ImRouter) : RouterLabel → Prop
  | .run n outcome => ∀ call ∈ s.calls[n]?,
      (∀ m ∈ call.droppable, m.msgId = x → outcome = .ok) ∧
        ∀ m ∈ call.answering, m.msgId = x → m.platform ∈ s.bridges
  | _ => True

instance (x : String) (s : ImRouter) : DecidablePred (Answerable x s)
  | .run n outcome => inferInstanceAs (Decidable (∀ call ∈ s.calls[n]?,
      (∀ m ∈ call.droppable, m.msgId = x → outcome = .ok) ∧
        ∀ m ∈ call.answering, m.msgId = x → m.platform ∈ s.bridges))
  | .inbound _ | .removeAllowlist _ | .resetSession _ _ | .evictExpired _ | .setBridges _
  | .elapse _ => isTrue trivial

variable {s s' : ImRouter} {n : ℕ} {outcome : Outcome} {call call' : ImCall} {x : String}

/-! ## What a section does for the answers -/

/-- Whether a message id was seen, as a number. -/
def seenCount (s : ImRouter) (x : String) : ℕ :=
  if x ∈ s.seen then 1 else 0

/-- What a section answers is what its call owed; an id that is seen for the first time makes the
call owe an answer. -/
def Settles (x : String) (s : ImRouter) (call : ImCall) (s' : ImRouter) (call' : ImCall) : Prop :=
  s'.answers x + (if call'.owes x then 1 else 0) + s.seenCount x =
    s.answers x + (if call.owes x then 1 else 0) + s'.seenCount x

/-- The answer to a message with this id is lost. -/
def Drops (x : String) (s : ImRouter) (outcome : Outcome) (call : ImCall) : Prop :=
  (∃ m ∈ call.droppable, m.msgId = x ∧ outcome ≠ .ok) ∨
    ∃ m ∈ call.answering, m.msgId = x ∧ m.platform ∉ s.bridges

theorem Settles.quiet (hreplies : s'.replies = s.replies) (hseen : s'.seen = s.seen)
    (howes : call'.owes x = call.owes x) : Settles x s call s' call' := by
  unfold Settles answers seenCount
  rw [hreplies, hseen, howes]

variable {m : InboundMessage}

/-- A call that returns although it owes an answer has lost it. -/
theorem settles_or_drops (howed : call.owed = some m)
    (hdrops : m.msgId = x → Drops x s outcome call) :
    Settles x s call s .returned ∨ Drops x s outcome call := by
  by_cases hx : m.msgId = x
  · exact Or.inr (hdrops hx)
  · left
    refine .quiet rfl rfl ?_
    unfold ImCall.owes
    rw [howed, Option.any_some, decide_eq_false hx]
    rfl

theorem owed_afterSeen (m : InboundMessage) : m.afterSeen.owed = some m := by
  unfold InboundMessage.afterSeen
  split <;> rfl

theorem Section.settles (x : String) (h : Section s n outcome call s' call') :
    Settles x s call s' call' ∨ (s' = s ∧ call' = .returned ∧ Drops x s outcome call) := by
  cases h with
  | consumed hconsume =>
    obtain ⟨invites, admitted, rfl⟩ := consume_frame hconsume
    exact Or.inl (.quiet rfl rfl rfl)
  | @accepted m hseen =>
    left
    have howes : m.afterSeen.owes x = decide (m.msgId = x) := by
      unfold ImCall.owes
      rw [owed_afterSeen]
      rfl
    unfold Settles seenCount
    rw [howes]
    show s.answers x + _ + _ = s.answers x + 0 + if x ∈ m.msgId :: s.seen then 1 else 0
    by_cases hx : m.msgId = x
    · rw [if_pos (decide_eq_true hx), if_neg (hx ▸ hseen),
        if_pos (hx ▸ mem_cons_self)]
    · have hmem : x ∈ m.msgId :: s.seen ↔ x ∈ s.seen := by
        rw [mem_cons]
        exact or_iff_right (Ne.symm hx)
      rw [if_neg (by rw [decide_eq_false hx]; exact Bool.false_ne_true)]
      simp only [hmem]
  | lookupFails hfails | createFails hfails | getFails hfails | putFails hfails =>
    refine Or.imp_right (fun hdrops => ⟨rfl, rfl, hdrops⟩) (settles_or_drops rfl ?_)
    exact fun hx => Or.inl ⟨_, rfl, hx, hfails⟩
  | unanswered hbridge =>
    refine Or.imp_right (fun hdrops => ⟨rfl, rfl, hdrops⟩) (settles_or_drops rfl ?_)
    exact fun hx => Or.inr ⟨_, rfl, hx, hbridge⟩
  | @replies m text locked =>
    left
    unfold Settles answers
    rw [countP_cons]
    rfl
  | requestFails hfails hcall =>
    left
    refine .quiet rfl rfl ?_
    rcases hcall with rfl | ⟨chatId, rfl⟩ | ⟨platform, chatId, rfl⟩ | ⟨cutoff, rfl⟩ <;> rfl
  | _ => exact Or.inl (.quiet rfl rfl rfl)

/-- Only a message that has still to pass a check goes on to the next one. -/
theorem Section.unchecked (h : Section s n outcome call s' call') (hm : call'.unchecked = some m) :
    call.unchecked = some m ∧ (call' = .checkSeen m → m ∈ s'.passed) := by
  cases h with
  | passes =>
    cases hm
    exact ⟨rfl, fun _ => mem_cons_self⟩
  | @accepted m' =>
    unfold InboundMessage.afterSeen at hm
    split at hm <;> cases hm
  | _ => cases hm

/-- A message that has passed the allowlist is looked for among the seen ones next. -/
theorem Section.passed (h : Section s n outcome call s' call') :
    s'.passed = s.passed ∨
      ∃ m, call = .checkAllowlist m ∧ call' = .checkSeen m ∧ s'.passed = m :: s.passed := by
  cases h with
  | consumed hconsume =>
    obtain ⟨invites, admitted, rfl⟩ := consume_frame hconsume
    exact Or.inl rfl
  | passes => exact Or.inr ⟨_, rfl, rfl, rfl⟩
  | _ => exact Or.inl rfl

theorem Section.mem_passed (h : Section s n outcome call s' call')
    (hm : m ∈ s.passed) : m ∈ s'.passed := by
  rcases h.passed with heq | ⟨m', -, -, heq⟩
  · rwa [heq]
  · rw [heq]
    exact mem_cons_of_mem _ hm

/-- The id of a message is seen once it was looked for. -/
theorem Section.seen (h : Section s n outcome call s' call') :
    (s'.seen = s.seen ∧ ∀ m, call = .checkSeen m → m.msgId ∈ s.seen) ∨
      ∃ m, call = .checkSeen m ∧ s'.seen = m.msgId :: s.seen := by
  cases h with
  | consumed hconsume =>
    obtain ⟨invites, admitted, rfl⟩ := consume_frame hconsume
    exact Or.inl ⟨rfl, fun m hm => by cases hm⟩
  | duplicate hseen =>
    refine Or.inl ⟨rfl, fun m hm => ?_⟩
    cases hm
    exact hseen
  | accepted => exact Or.inr ⟨_, rfl, rfl⟩
  | requestFails hfails hcall =>
    refine Or.inl ⟨rfl, fun m hm => ?_⟩
    rcases hcall with rfl | ⟨chatId, rfl⟩ | ⟨platform, chatId, rfl⟩ | ⟨cutoff, rfl⟩ <;> cases hm
  | _ => exact Or.inl ⟨rfl, fun m hm => by cases hm⟩

theorem Section.mem_seen (h : Section s n outcome call s' call') (hx : x ∈ s.seen) :
    x ∈ s'.seen := by
  rcases h.seen with ⟨heq, -⟩ | ⟨m, -, heq⟩
  · rwa [heq]
  · rw [heq]
    exact mem_cons_of_mem _ hx

/-! ## Accounts of a message id -/

/-- What was answered, what is still owed and what is lost is what is due. -/
structure Accounted (x : String) (lost : ℕ) (s : ImRouter) : Prop where
  unchecked : ∀ call ∈ s.calls, ∀ m ∈ call.unchecked,
    m.isStart = false ∧ (call = .checkSeen m → m ∈ s.passed)
  seen : x ∈ s.seen → s.Admits x
  admitted : ∀ m ∈ s.passed, m.isStart = false → m.msgId = x →
    x ∈ s.seen ∨ .checkSeen m ∈ s.calls
  balance : s.answers x + s.calls.countP (ImCall.owes x) + lost = s.starts x + s.seenCount x

theorem countP_append_singleton (x : String) (calls : List ImCall) (call : ImCall) :
    (calls ++ [call]).countP (ImCall.owes x) =
      calls.countP (ImCall.owes x) + if call.owes x then 1 else 0 := by
  rw [countP_append, countP_singleton]

theorem owes_of_owed_none (h : call.owed = none) (x : String) : call.owes x = false := by
  unfold ImCall.owes
  rw [h]
  rfl

theorem owes_of_owed (h : call.owed = some m) (x : String) :
    call.owes x = decide (m.msgId = x) := by
  unfold ImCall.owes
  rw [h]
  rfl

/-- A message that comes in is checked against the allowlist, unless it is a `/start`. -/
theorem call_cases (m : InboundMessage) :
    (m.isStart = true ∧ m.call.owed = some m ∧ m.call.unchecked = none) ∨
      (m.isStart = false ∧ m.call = .checkAllowlist m) := by
  unfold InboundMessage.isStart InboundMessage.call
  cases command m.text with
  | start token =>
    left
    cases token <;> exact ⟨rfl, rfl, rfl⟩
  | _ => exact Or.inr ⟨rfl, rfl⟩

namespace Accounted

variable {lost : ℕ}

/-- A call is made that owes no answer. -/
theorem beginCall (h : Accounted x lost s) (since : ℕ) (howed : call.owed = none)
    (hunchecked : ∀ m ∈ call.unchecked, m.isStart = false ∧ call ≠ .checkSeen m) :
    Accounted x lost (s.beginCall call since) where
  unchecked c hc m hm := by
    rcases mem_append.mp hc with hc | hc
    · exact h.unchecked c hc m hm
    · rw [mem_singleton.mp hc] at hm ⊢
      exact ⟨(hunchecked m hm).1, fun heq => absurd heq (hunchecked m hm).2⟩
  seen := h.seen
  admitted m hm hstart hx :=
    (h.admitted m hm hstart hx).imp_right fun hmem => mem_append_left _ hmem
  balance := by
    show s.answers x + (s.calls ++ [call]).countP (ImCall.owes x) + lost = s.starts x + s.seenCount x
    rw [countP_append_singleton, owes_of_owed_none howed]
    exact h.balance

/-- A `/start` comes in. -/
theorem start (h : Accounted x lost s) {m : InboundMessage} (since : ℕ)
    (hstart : m.isStart = true) (howed : call.owed = some m) (hunchecked : call.unchecked = none) :
    Accounted x lost (ImRouter.beginCall { s with
      delivered := m :: s.delivered
      passed := m :: s.passed } call since) where
  unchecked c hc m' hm' := by
    rcases mem_append.mp hc with hc | hc
    · obtain ⟨hnot, hlooked⟩ := h.unchecked c hc m' hm'
      exact ⟨hnot, fun heq => mem_cons_of_mem _ (hlooked heq)⟩
    · rw [mem_singleton.mp hc, hunchecked] at hm'
      cases hm'
  seen hx := by
    obtain ⟨m', hm', hrest⟩ := h.seen hx
    exact ⟨m', mem_cons_of_mem _ hm', hrest⟩
  admitted m' hm' hnot hx := by
    rcases mem_cons.mp hm' with rfl | hm'
    · rw [hstart] at hnot
      cases hnot
    · exact (h.admitted m' hm' hnot hx).imp_right fun hmem => mem_append_left _ hmem
  balance := by
    show s.answers x + (s.calls ++ [call]).countP (ImCall.owes x) + lost =
      (m :: s.passed).countP (fun m => m.isStart && m.msgId = x) + s.seenCount x
    rw [countP_append_singleton, owes_of_owed howed, countP_cons, hstart, Bool.true_and]
    have hbalance := h.balance
    unfold starts at hbalance
    omega

/-- A call goes on, and the balance is kept. -/
theorem advance (h : Accounted x lost s) (hn : s.calls[n]? = some call)
    (hsection : Section s n outcome call s' call') {lost' : ℕ}
    (hbalance : s'.answers x + (s.calls.set n call').countP (ImCall.owes x) + lost' =
      s'.starts x + s'.seenCount x) :
    Accounted x lost' { s' with calls := s.calls.set n call' } := by
  have hmem := mem_of_getElem? hn
  refine ⟨?_, ?_, ?_, hbalance⟩
  · intro c hc m hm
    rcases mem_or_eq_of_mem_set hc with hc | rfl
    · obtain ⟨hnot, hlooked⟩ := h.unchecked c hc m hm
      exact ⟨hnot, fun heq => hsection.mem_passed (hlooked heq)⟩
    · obtain ⟨hold, hlooked⟩ := hsection.unchecked hm
      exact ⟨(h.unchecked call hmem m hold).1, hlooked⟩
  · intro hx
    have hx' : x ∈ s'.seen := hx
    have hkeep : x ∈ s.seen → ∃ m ∈ s'.passed, m.isStart = false ∧ m.msgId = x := by
      intro hx
      obtain ⟨m, hm, hrest⟩ := h.seen hx
      exact ⟨m, hsection.mem_passed hm, hrest⟩
    rcases hsection.seen with ⟨heq, -⟩ | ⟨m, rfl, heq⟩
    · exact hkeep (heq ▸ hx')
    · rw [heq] at hx'
      rcases mem_cons.mp hx' with rfl | hx'
      · obtain ⟨hnot, hlooked⟩ := h.unchecked _ hmem m rfl
        exact ⟨m, hsection.mem_passed (hlooked rfl), hnot, rfl⟩
      · exact hkeep hx'
  · intro m hm hnot hx
    show x ∈ s'.seen ∨ .checkSeen m ∈ s.calls.set n call'
    have hkeep : m ∈ s.passed → x ∈ s'.seen ∨ .checkSeen m ∈ s.calls.set n call' := by
      intro hm
      rcases h.admitted m hm hnot hx with hx' | hlooked
      · exact Or.inl (hsection.mem_seen hx')
      · rcases Calls.mem_set_or_eq hn hlooked call' with rfl | hlooked
        · left
          rcases hsection.seen with ⟨heq, hdup⟩ | ⟨m', heq', heq⟩
          · rw [heq, ← hx]
            exact hdup m rfl
          · cases heq'
            rw [heq, ← hx]
            exact mem_cons_self
        · exact Or.inr hlooked
    rcases hsection.passed with heq | ⟨m', rfl, rfl, heq⟩
    · exact hkeep (heq ▸ hm)
    · have hm' : m ∈ s'.passed := hm
      rw [heq] at hm'
      rcases mem_cons.mp hm' with rfl | hm'
      · exact Or.inr (Calls.mem_set_self hn _)
      · exact hkeep hm'

/-- No `/start` is checked against the allowlist. -/
theorem starts_eq (h : Accounted x lost s) (hn : s.calls[n]? = some call)
    (hsection : Section s n outcome call s' call') : s'.starts x = s.starts x := by
  unfold starts
  rcases hsection.passed with heq | ⟨m, rfl, -, heq⟩
  · rw [heq]
  · rw [heq, countP_cons, (h.unchecked _ (mem_of_getElem? hn) m rfl).1]
    rfl

theorem runSection (h : Accounted x lost s) (hn : s.calls[n]? = some call)
    (hsection : Section s n outcome call s' call') :
    ∃ lost', Accounted x lost' { s' with calls := s.calls.set n call' } ∧
      (¬ Drops x s outcome call → lost' = lost) := by
  have hcount := Calls.countP_set (ImCall.owes x) hn call'
  have hstarts := h.starts_eq hn hsection
  have hbalance := h.balance
  rcases hsection.settles x with hsettles | ⟨rfl, rfl, hdrops⟩
  · unfold Settles at hsettles
    refine ⟨lost, h.advance hn hsection ?_, fun _ => rfl⟩
    omega
  · refine ⟨lost + if call.owes x then 1 else 0, h.advance hn hsection ?_,
      fun hnot => absurd hdrops hnot⟩
    rw [owes_of_owed_none (show ImCall.returned.owed = none from rfl),
      if_neg Bool.false_ne_true] at hcount
    omega

theorem step {a : RouterLabel} (h : Accounted x lost s) (hs : s.step a = some s') :
    ∃ lost', Accounted x lost' s' ∧ (Answerable x s a → lost' = lost) := by
  cases a with
  | inbound m =>
    cases hs
    refine ⟨lost, ?_, fun _ => rfl⟩
    rcases call_cases m with ⟨hstart, howed, hunchecked⟩ | ⟨hstart, hcall⟩
    · rw [if_pos hstart]
      exact h.start _ hstart howed hunchecked
    · rw [hcall, hstart]
      have hdelivered : Accounted x lost { s with delivered := m :: s.delivered } :=
        ⟨h.unchecked, h.seen, h.admitted, h.balance⟩
      refine hdelivered.beginCall _ rfl ?_
      intro m' hm'
      cases hm'
      exact ⟨hstart, fun heq => by cases heq⟩
  | removeAllowlist chatId | resetSession platform chatId | evictExpired cutoff =>
    cases hs
    exact ⟨lost, h.beginCall _ rfl (fun m hm => by cases hm), fun _ => rfl⟩
  | run n outcome =>
    obtain ⟨call, s₁, call', hn, hsection, rfl⟩ := step_run hs
    obtain ⟨lost', haccounted, hkeeps⟩ := h.runSection hn (section_of_runSection hsection)
    refine ⟨lost', haccounted, fun hanswerable => hkeeps ?_⟩
    obtain ⟨hok, hbridge⟩ := hanswerable call hn
    rintro (⟨m, hm, hx, hfails⟩ | ⟨m, hm, hx, hunregistered⟩)
    · exact hfails (hok m hm hx)
    · exact hunregistered (hbridge m hm hx)
  | setBridges platforms | elapse d =>
    cases hs
    exact ⟨lost, ⟨h.unchecked, h.seen, h.admitted, h.balance⟩, fun _ => rfl⟩

/-- An id is not answered more often than it is due. -/
theorem answers_le (h : Accounted x lost s) : s.answers x ≤ s.due x := by
  have hbalance := h.balance
  unfold seenCount at hbalance
  unfold due
  by_cases hx : x ∈ s.seen
  · rw [if_pos hx] at hbalance
    rw [if_pos (h.seen hx)]
    omega
  · rw [if_neg hx] at hbalance
    omega

/-- When no call is in progress and nothing is lost, an id was answered as often as it is due. -/
theorem answers_eq (h : Accounted x 0 s) (hreturned : ∀ call ∈ s.calls, call = .returned) :
    s.answers x = s.due x := by
  have howes : s.calls.countP (ImCall.owes x) = 0 := by
    rw [countP_eq_zero]
    intro call hcall
    rw [hreturned call hcall]
    exact Bool.false_ne_true
  have hbalance := h.balance
  unfold seenCount at hbalance
  unfold due
  by_cases hx : x ∈ s.seen
  · rw [if_pos hx] at hbalance
    rw [if_pos (h.seen hx)]
    omega
  · have hadmits : ¬ s.Admits x := by
      rintro ⟨m, hm, hnot, hid⟩
      rcases h.admitted m hm hnot hid with hx' | hlooked
      · exact hx hx'
      · cases hreturned _ hlooked
    rw [if_neg hx] at hbalance
    rw [if_neg hadmits]
    omega

end Accounted

/-! ## Runs -/

/-- In every run an id is answered at most once for every `/start` with it, and once for the other
messages with it; and exactly so often once all calls have returned, if no failure loses an answer
and the bridge is registered. -/
theorem replies_of_run (sessions : HashMap String ImSessionRecord)
    (invites : HashMap String InviteRecord) (allowTable : HashMap String ℤ)
    (allowlist : Option (List String)) (sessionsCreated : ℕ) (bridges : List ImPlatform) (now : ℤ)
    (tr : List (ImRouter × RouterLabel)) (s : ImRouter)
    (hr : Run step (opened sessions invites allowTable allowlist sessionsCreated bridges now)
      tr s) (x : String) :
    s.answers x ≤ s.due x ∧
      (Within (Answerable x) tr → (∀ call ∈ s.calls, call = .returned) →
        s.answers x = s.due x) := by
  have hopened : Accounted x 0
      (opened sessions invites allowTable allowlist sessionsCreated bridges now) := by
    refine ⟨?_, ?_, ?_, rfl⟩
    · intro call hcall
      cases hcall
    · intro hx
      cases hx
    · intro m hm
      cases hm
  constructor
  · obtain ⟨lost, h⟩ : ∃ lost, Accounted x lost s := by
      refine hr.invariant' (I := fun s => ∃ lost, Accounted x lost s) ⟨0, hopened⟩ ?_
      rintro s a s' ⟨lost, h⟩ hs
      obtain ⟨lost', h', -⟩ := h.step hs
      exact ⟨lost', h'⟩
    exact h.answers_le
  · intro hanswerable hreturned
    have h : Accounted x 0 s := by
      refine hr.invariant hanswerable hopened ?_
      intro s a s' h hok hs
      obtain ⟨lost', h', hkeeps⟩ := h.step hs
      rwa [hkeeps hok] at h'
    exact h.answers_eq hreturned

end ImRouter

namespace Sample

/-- A router with an invite, to which the `/start` with the invite is delivered twice. -/
def withInvite : ImRouter :=
  ImRouter.opened ∅ ((∅ : HashMap String InviteRecord).insert "t" ⟨0, false, none, none⟩) ∅
    (some []) 0 [.telegram] 0

def startTwice : List RouterLabel :=
  .inbound ⟨.telegram, "c", "u", "/start t", "1"⟩ :: sections 0 4 ++
    .inbound ⟨.telegram, "c", "u", "/start t", "1"⟩ :: sections 1 2

/-- A message is delivered twice and answered once. -/
def helloTwice : List RouterLabel :=
  hello "1" :: hello "1" :: sections 1 4 ++ sections 0 2 ++
    .run 1 (.agent (some "a")) :: sections 1 3 ++ .run 1 (.answer "hi") :: sections 1 3

/-- The session of a message cannot be created, and the message is delivered again. -/
def creationFails : List RouterLabel :=
  hello "1" :: sections 0 4 ++ .run 0 (.agent (some "a")) :: .run 0 (.err "e") ::
    hello "1" :: sections 1 2

end Sample

namespace ImRouter

theorem replies_of_run_helloTwice : ∃ tr s, Run step Sample.unguarded tr s ∧
    Within (Answerable "1") tr ∧ (∀ call ∈ s.calls, call = .returned) ∧ s.due "1" = 1 ∧
      s.answers "1" = s.due "1" := by
  obtain ⟨tr, s, hrun, hanswerable, hreturned, hdue⟩ := exists_run step Sample.unguarded
    Sample.helloTwice
    (fun tr s => Within (Answerable "1") tr ∧ (∀ call ∈ s.calls, call = .returned) ∧ s.due "1" = 1)
    (by decide)
  exact ⟨tr, s, hrun, hanswerable, hreturned, hdue,
    (replies_of_run ∅ ∅ ∅ none 0 [.telegram] 0 tr s hrun "1").2 hanswerable hreturned⟩

/-- A `/start` that is delivered again is answered again, and a message whose session cannot be
created is not answered, even if it is delivered again. -/
theorem answers_twice_or_never :
    (∃ tr s, Run step Sample.withInvite tr s ∧ s.replies =
      [⟨"1", "邀请无效或已使用"⟩, ⟨"1", "✅ 绑定成功，现在可以与我对话了"⟩]) ∧
    ∃ tr s, Run step Sample.unguarded tr s ∧ Within (fun s _ => s.bridges = [.telegram]) tr ∧
      (∀ call ∈ s.calls, call = .returned) ∧
      s.passed = List.replicate 2 ⟨.telegram, "c", "u", "hello", "1"⟩ ∧ s.replies = [] := by
  constructor
  · exact exists_run _ _ Sample.startTwice _ (by decide)
  · exact exists_run _ _ Sample.creationFails _ (by decide)

end ImRouter

end HeraMind.Im
