/-
# The runtime allowlist and the stored one

`/start` enters a chat into the store and then into memory.  The removal of a chat deletes it from
the store, reads the whole store, and then replaces the whole list in memory.  So the two lists may
differ while a call is still to write what the store holds; and they stay different when a call
writes what the store held before, and no other call is to write after it.
-/
import HeraMind.Lib.Run
import HeraMind.Lib.Calls
import HeraMind.Im.Router

namespace HeraMind.Im

open List Option AList
open Transition

namespace ImCall

/-- What the call is still to leave in memory for a chat, if it is to write there; a removal that
has not read the store is to leave what the store holds. -/
def leaves (stored : Bool) (chatId : String) : ImCall → Option Bool
  | .insertAllowed m => if chatId = m.chatId then some true else none
  | .allowRemove _ | .allowList => some stored
  | .setAllowlist chats => some (decide (chatId ∈ chats))
  | _ => none

/-- The call is part of a `/start` or of a removal. -/
def isAllowlistCall : ImCall → Bool
  | .consumeInvite _ _ | .allowAdd _ | .insertAllowed _ | .allowRemove _ | .allowList
  | .setAllowlist _ => true
  | _ => false

/-- The next section of the call is a store operation of a `/start` or of a removal. -/
def isAllowlistStore : ImCall → Bool
  | .consumeInvite _ _ | .allowAdd _ | .allowRemove _ | .allowList => true
  | _ => false

end ImCall

namespace ImRouter

section

variable (s : ImRouter)

/-- The chat is in the stored allowlist. -/
def stores (chatId : String) : Bool :=
  (s.allowTable.lookup chatId).isSome

/-- The chat is in the runtime allowlist. -/
def admits (chatId : String) : Bool :=
  s.allowlist.any fun allow => chatId ∈ allow

/-! ## The conditions -/

/-- The chats for which the next section of a call may change the runtime allowlist, with what it
writes. -/
def runtimeWrites : ImCall → List (String × Bool)
  | .insertAllowed m => [(m.chatId, true)]
  | .setAllowlist chats =>
    chats.map (fun chat => (chat, true)) ++
      (s.allowTable.keys.filter fun chat => chat ∉ chats).map fun chat => (chat, false)
  | _ => []

/-- Store operations succeed. -/
def AllowlistStored : RouterLabel → Prop
  | .run n outcome => ∀ call ∈ s.calls[n]?, call.isAllowlistStore = true → outcome = .ok
  | _ => True

/-- What a section writes into the runtime allowlist is what the store holds, or another call is
still to write that. -/
def AllowlistInOrder : RouterLabel → Prop
  | .run n _ => ∀ call ∈ s.calls[n]?, ∀ w ∈ s.runtimeWrites call,
    w.2 = s.stores w.1 ∨
      ∃ other ∈ s.calls.eraseIdx n, other.leaves (s.stores w.1) w.1 = some (s.stores w.1)
  | _ => True

instance : DecidablePred s.AllowlistStored
  | .run n outcome => inferInstanceAs (Decidable
      (∀ call ∈ s.calls[n]?, call.isAllowlistStore = true → outcome = .ok))
  | .inbound _ | .removeAllowlist _ | .resetSession _ _ | .evictExpired _ | .setBridges _
  | .elapse _ => isTrue trivial

instance : DecidablePred s.AllowlistInOrder
  | .run n _ => inferInstanceAs (Decidable (∀ call ∈ s.calls[n]?, ∀ w ∈ s.runtimeWrites call,
      _ ∨ ∃ other ∈ s.calls.eraseIdx n, _))
  | .inbound _ | .removeAllowlist _ | .resetSession _ _ | .evictExpired _ | .setBridges _
  | .elapse _ => isTrue trivial

end

variable {s s' : ImRouter} {n : ℕ} {outcome : Outcome} {call call' : ImCall}

/-! ## What a section does to the allowlists -/

/-- What a section does for one chat: it leaves both lists alone, or writes to the runtime list, or
makes the two agree, or leaves it to the call to make them agree. -/
def AllowStep (s : ImRouter) (call : ImCall) (s' : ImRouter) (call' : ImCall)
    (chat : String) : Prop :=
  (s'.admits chat = s.admits chat ∧ s'.stores chat = s.stores chat ∧
      (call.leaves (s.stores chat) chat = some (s.stores chat) →
        call'.leaves (s.stores chat) chat = some (s.stores chat))) ∨
    (s'.stores chat = s.stores chat ∧
      ∃ w ∈ s.runtimeWrites call, w.1 = chat ∧ s'.admits chat = w.2) ∨
    s'.admits chat = s'.stores chat ∨
    call'.leaves (s'.stores chat) chat = some (s'.stores chat)

/-- A section of a call that does not write the allowlists. -/
theorem AllowStep.quiet {chat : String} (hallowlist : s'.allowlist = s.allowlist)
    (htable : s'.allowTable = s.allowTable) (hleaves : ∀ stored, call.leaves stored chat = none) :
    AllowStep s call s' call' chat := by
  left
  unfold admits stores
  rw [hallowlist, htable]
  refine ⟨rfl, rfl, fun h => ?_⟩
  rw [hleaves] at h
  cases h

theorem admits_allowChat (hsome : s.allowlist.isSome = true) (chatId chat : String) :
    (s.allowChat chatId).admits chat = if chat = chatId then true else s.admits chat := by
  obtain ⟨allow, hallow⟩ := isSome_iff_exists.mp hsome
  unfold admits allowChat
  dsimp only
  rw [hallow, map_some, any_some, any_some]
  by_cases hchat : chat = chatId
  · rw [if_pos hchat, decide_eq_true_eq, hchat]
    split
    · assumption
    · exact mem_cons_self
  · rw [if_neg hchat]
    split
    · rfl
    · exact decide_eq_decide.mpr (by rw [mem_cons, or_iff_right hchat])

theorem stores_insert (chatId chat : String) (time : ℤ) :
    ({ s with allowTable := s.allowTable.insert chatId time } : ImRouter).stores chat =
      if chat = chatId then true else s.stores chat := by
  unfold stores
  by_cases hchat : chat = chatId
  · rw [if_pos hchat, hchat, lookup_insert, isSome_some]
  · rw [if_neg hchat, lookup_insert_ne hchat]

theorem decide_mem_keys (s : ImRouter) (chat : String) :
    decide (chat ∈ s.allowTable.keys) = s.stores chat := by
  unfold stores
  rw [Bool.eq_iff_iff, decide_eq_true_eq, lookup_isSome]
  exact AList.mem_keys.symm

theorem allowStep_of_section (hsome : s.allowlist.isSome = true)
    (hstored : call.isAllowlistStore = true → outcome = .ok)
    (h : Section s n outcome call s' call') (chat : String) :
    s'.allowlist.isSome = true ∧ AllowStep s call s' call' chat := by
  cases h with
  | consumed h =>
    obtain ⟨invites, admitted, rfl⟩ := consume_frame h
    exact ⟨hsome, .quiet rfl rfl fun _ => rfl⟩
  | @allowAdd m =>
    refine ⟨hsome, ?_⟩
    by_cases hchat : chat = m.chatId
    · right
      right
      right
      rw [stores_insert, if_pos hchat]
      exact if_pos hchat
    · left
      refine ⟨rfl, ?_, fun hleaves => by cases hleaves⟩
      rw [stores_insert, if_neg hchat]
  | allowAddFails hfails => exact absurd (hstored rfl) hfails
  | @insertAllowed m =>
    refine ⟨?_, ?_⟩
    · unfold allowChat
      rw [isSome_map]
      exact hsome
    · by_cases hchat : chat = m.chatId
      · right
        left
        refine ⟨rfl, (m.chatId, true), mem_singleton.mpr rfl, hchat.symm, ?_⟩
        rw [admits_allowChat hsome, if_pos hchat]
      · left
        refine ⟨?_, rfl, fun hleaves => ?_⟩
        · rw [admits_allowChat hsome, if_neg hchat]
        · rw [ImCall.leaves, if_neg hchat] at hleaves
          cases hleaves
  | removes => exact ⟨hsome, Or.inr (Or.inr (Or.inr rfl))⟩
  | lists =>
    refine ⟨hsome, Or.inr (Or.inr (Or.inr ?_))⟩
    exact congrArg some (decide_mem_keys s chat)
  | @replaces chats =>
    refine ⟨rfl, ?_⟩
    have hadmits : ({ s with allowlist := some chats } : ImRouter).admits chat =
        decide (chat ∈ chats) := any_some
    by_cases hchat : chat ∈ chats
    · right
      left
      refine ⟨rfl, (chat, true), mem_append_left _ (mem_map_of_mem hchat), rfl, ?_⟩
      rw [hadmits, decide_eq_true hchat]
    · by_cases hkey : chat ∈ s.allowTable.keys
      · right
        left
        refine ⟨rfl, (chat, false), mem_append_right _ ?_, rfl, ?_⟩
        · exact mem_map_of_mem (mem_filter.mpr ⟨hkey, decide_eq_true hchat⟩)
        · rw [hadmits, decide_eq_false hchat]
      · right
        right
        left
        rw [hadmits, decide_eq_false hchat, ← decide_eq_false hkey]
        exact decide_mem_keys s chat
  | requestFails hfails h =>
    rcases h with rfl | ⟨chatId, rfl⟩ | ⟨platform, chatId, rfl⟩ | ⟨cutoff, rfl⟩
    · exact absurd (hstored rfl) hfails
    · exact absurd (hstored rfl) hfails
    · exact ⟨hsome, .quiet rfl rfl fun _ => rfl⟩
    · exact ⟨hsome, .quiet rfl rfl fun _ => rfl⟩
  | _ => exact ⟨hsome, .quiet rfl rfl fun _ => rfl⟩

/-! ## Lists that differ for a while -/

/-- The lists agree about a chat, or a call is still to make them agree. -/
structure AllowlistSettled (s : ImRouter) : Prop where
  isSome : s.allowlist.isSome = true
  settled : ∀ chat, s.admits chat = s.stores chat ∨
    ∃ call ∈ s.calls, call.leaves (s.stores chat) chat = some (s.stores chat)

namespace AllowlistSettled

/-- A call is made. -/
theorem beginCall (h : AllowlistSettled s) (call : ImCall) (since : ℕ) :
    AllowlistSettled (s.beginCall call since) where
  isSome := h.isSome
  settled chat := by
    rcases h.settled chat with heq | ⟨c, hc, hleaves⟩
    · exact Or.inl heq
    · exact Or.inr ⟨c, mem_append_left _ hc, hleaves⟩

/-- A call runs a section. -/
theorem run (h : AllowlistSettled s) (hn : s.calls[n]? = some call)
    (hstored : call.isAllowlistStore = true → outcome = .ok)
    (horder : ∀ w ∈ s.runtimeWrites call, w.2 = s.stores w.1 ∨
      ∃ other ∈ s.calls.eraseIdx n, other.leaves (s.stores w.1) w.1 = some (s.stores w.1))
    (hsection : Section s n outcome call s' call') :
    AllowlistSettled { s' with calls := s.calls.set n call' } := by
  refine ⟨(allowStep_of_section h.isSome hstored hsection "").1, fun chat => ?_⟩
  obtain ⟨-, hstep⟩ := allowStep_of_section h.isSome hstored hsection chat
  show s'.admits chat = s'.stores chat ∨
    ∃ c ∈ s.calls.set n call', c.leaves (s'.stores chat) chat = some (s'.stores chat)
  rcases hstep with ⟨hadmits, hstores, hleaves⟩ | ⟨hstores, w, hw, rfl, hwrite⟩ | hsame | hleaves
  · rw [hadmits, hstores]
    exact (h.settled chat).imp_right (Calls.exists_mem_set hn hleaves)
  · rw [hwrite, hstores]
    rcases horder w hw with heq | ⟨other, hother, hcovers⟩
    · exact Or.inl heq
    · exact Or.inr ⟨other, Calls.mem_set_of_mem_eraseIdx hother call', hcovers⟩
  · exact Or.inl hsame
  · exact Or.inr ⟨call', Calls.mem_set_self hn call', hleaves⟩

theorem step {a : RouterLabel} (h : AllowlistSettled s) (hstored : s.AllowlistStored a)
    (horder : s.AllowlistInOrder a) (hs : s.step a = some s') : AllowlistSettled s' := by
  cases a with
  | inbound m =>
    cases hs
    exact (⟨h.isSome, h.settled⟩ : AllowlistSettled { s with
      delivered := m :: s.delivered
      passed := if m.isStart then m :: s.passed else s.passed }).beginCall _ _
  | removeAllowlist chatId | resetSession platform chatId | evictExpired cutoff =>
    cases hs
    exact h.beginCall _ _
  | run n outcome =>
    obtain ⟨call, s₁, call', hn, hsection, rfl⟩ := step_run hs
    exact h.run hn (hstored call hn) (horder call hn) (section_of_runSection hsection)
  | setBridges platforms | elapse d =>
    cases hs
    exact ⟨h.isSome, h.settled⟩

end AllowlistSettled

/-! ## Invites -/

/-- The invites that admitted a chat are used, and no two of them are the same. -/
structure InvitesUsed (s : ImRouter) : Prop where
  used : ∀ p ∈ s.admitted, ∃ invite, s.invites.lookup p.1 = some invite ∧ invite.used = true
  once : (s.admitted.map Prod.fst).Nodup

theorem InvitesUsed.congr (h : InvitesUsed s) (hinvites : s'.invites = s.invites)
    (hadmitted : s'.admitted = s.admitted) : InvitesUsed s' := by
  refine ⟨?_, ?_⟩
  · rw [hadmitted, hinvites]
    exact h.used
  · rw [hadmitted]
    exact h.once

theorem InvitesUsed.consume {m : InboundMessage} {token : String} (h : InvitesUsed s)
    (hconsume : s.consume m token = some s') : InvitesUsed s' := by
  unfold ImRouter.consume at hconsume
  split at hconsume
  · cases hconsume
  · rename_i invite hinvite
    split at hconsume
    · cases hconsume
    · rename_i hunused
      cases hconsume
      have hne : ∀ p ∈ s.admitted, p.1 ≠ token := by
        intro p hp htoken
        obtain ⟨used, hused, hflag⟩ := h.used p hp
        rw [htoken, hinvite] at hused
        cases hused
        exact hunused hflag
      refine ⟨fun p hp => ?_, ?_⟩
      · rcases mem_cons.mp hp with rfl | hp
        · exact ⟨_, lookup_insert _, rfl⟩
        · obtain ⟨used, hused, hflag⟩ := h.used p hp
          exact ⟨used, (lookup_insert_ne (hne p hp)).trans hused, hflag⟩
      · rw [map_cons, nodup_cons]
        refine ⟨fun hmem => ?_, h.once⟩
        obtain ⟨p, hp, htoken⟩ := mem_map.mp hmem
        exact hne p hp htoken

theorem InvitesUsed.runSection (h : InvitesUsed s) (hsection : Section s n outcome call s' call') :
    InvitesUsed s' := by
  cases hsection with
  | consumed hconsume => exact h.consume hconsume
  | _ => exact h.congr rfl rfl

theorem InvitesUsed.step {a : RouterLabel} (h : InvitesUsed s) (hs : s.step a = some s') :
    InvitesUsed s' := by
  cases a with
  | run n outcome =>
    obtain ⟨call, s₁, call', -, hsection, rfl⟩ := step_run hs
    exact (h.runSection (section_of_runSection hsection)).congr rfl rfl
  | _ =>
    cases hs
    exact h.congr rfl rfl

/-! ## Runs -/

/-- In every run each invite admits at most one chat; and in every run in which store operations
succeed and the runtime allowlist is written in order, it agrees with the stored one once all
`/start` messages and removals are done. -/
theorem allowlist_of_run (sessions : HashMap String ImSessionRecord)
    (invites : HashMap String InviteRecord) (allowTable : HashMap String ℤ) (sessionsCreated : ℕ)
    (bridges : List ImPlatform) (now : ℤ) (tr : List (ImRouter × RouterLabel)) (s : ImRouter)
    (hr : Run step (opened sessions invites allowTable (some allowTable.keys) sessionsCreated
      bridges now) tr s) :
    (s.admitted.map Prod.fst).Nodup ∧
      (Within AllowlistStored tr → Within AllowlistInOrder tr →
        (∀ call ∈ s.calls, call.isAllowlistCall = false) →
          ∀ chat, s.admits chat = s.stores chat) := by
  constructor
  · have hinvites : InvitesUsed s := by
      refine hr.invariant' ?_ fun _ _ _ h hs => h.step hs
      refine ⟨?_, nodup_nil⟩
      intro p hp
      cases hp
    exact hinvites.once
  · intro hstored horder hdone chat
    have hboth : Within (fun s a => AllowlistStored s a ∧ AllowlistInOrder s a) tr := fun e he =>
      ⟨hstored e he, horder e he⟩
    have hsettled : AllowlistSettled s := by
      refine hr.invariant hboth ?_ fun _ _ _ h hok hs => h.step hok.1 hok.2 hs
      refine ⟨rfl, fun chat => Or.inl ?_⟩
      exact any_some.trans (decide_mem_keys (opened sessions invites allowTable
        (some allowTable.keys) sessionsCreated bridges now) chat)
    rcases hsettled.settled chat with heq | ⟨call, hcall, hleaves⟩
    · exact heq
    · have hnot := hdone call hcall
      cases call with
      | insertAllowed m | allowRemove chatId | allowList | setAllowlist chats => cases hnot
      | _ => cases hleaves

end ImRouter

namespace Sample

def allowedChats : HashMap String ℤ :=
  ((∅ : HashMap String ℤ).insert "a" 0).insert "b" 0

/-- Two chats are allowed, and there is an invite. -/
def invited : ImRouter :=
  ImRouter.opened ∅ ((∅ : HashMap String InviteRecord).insert "t" ⟨0, false, none, none⟩)
    allowedChats (some allowedChats.keys) 0 [.telegram] 0

def start (chatId msgId : String) : RouterLabel :=
  .inbound ⟨.telegram, chatId, chatId, "/start t", msgId⟩

/-- A chat is bound, another one uses the same invite, and one is removed. -/
def oneByOne : List RouterLabel :=
  start "c" "1" :: sections 0 4 ++ start "d" "2" :: sections 1 2 ++
    .removeAllowlist "a" :: sections 2 3

/-- A chat is bound after a removal has read the store. -/
def boundMeanwhile : List RouterLabel :=
  .removeAllowlist "a" :: sections 0 2 ++ start "c" "1" :: sections 1 4 ++ sections 0 1

/-- A chat is removed after the removal of another one has read the store. -/
def removedMeanwhile : List RouterLabel :=
  .removeAllowlist "a" :: sections 0 2 ++ .removeAllowlist "b" :: sections 1 3 ++ sections 0 1

/-- A chat is removed while it is being bound. -/
def removedWhileBound : List RouterLabel :=
  start "c" "1" :: sections 0 2 ++ .removeAllowlist "c" :: sections 1 3 ++ sections 0 2

end Sample

namespace ImRouter

/-- One chat is removed and one is bound. -/
theorem allowlist_of_run_oneByOne : ∃ tr s, Run step Sample.invited tr s ∧
    Within AllowlistStored tr ∧ Within AllowlistInOrder tr ∧ s.admitted = [("t", "c")] ∧
      (∀ chat, s.admits chat = s.stores chat) ∧ s.admits "a" = false ∧ s.admits "c" = true := by
  obtain ⟨tr, s, hrun, hstored, horder, hdone, hadmitted, hremoved, hbound⟩ := exists_run step
    Sample.invited Sample.oneByOne
    (fun tr s => Within AllowlistStored tr ∧ Within AllowlistInOrder tr ∧
      (∀ call ∈ s.calls, call.isAllowlistCall = false) ∧ s.admitted = [("t", "c")] ∧
      s.admits "a" = false ∧ s.admits "c" = true)
    (by decide)
  exact ⟨tr, s, hrun, hstored, horder, hadmitted,
    (allowlist_of_run _ _ _ _ _ _ tr s hrun).2 hstored horder hdone, hremoved, hbound⟩

/-- Everything has succeeded and is done, but a chat that was bound is not admitted, and two chats
that were removed are. -/
theorem allowlists_differ :
    (∃ tr s, Run step Sample.invited tr s ∧ Within AllowlistStored tr ∧
      (∀ call ∈ s.calls, call = .returned) ∧ s.stores "c" = true ∧ s.admits "c" = false) ∧
    (∃ tr s, Run step Sample.invited tr s ∧ Within AllowlistStored tr ∧
      (∀ call ∈ s.calls, call = .returned) ∧ s.stores "b" = false ∧ s.admits "b" = true) ∧
    ∃ tr s, Run step Sample.invited tr s ∧ Within AllowlistStored tr ∧
      (∀ call ∈ s.calls, call = .returned) ∧ s.stores "c" = false ∧ s.admits "c" = true := by
  refine ⟨?_, ?_, ?_⟩
  · exact exists_run _ _ Sample.boundMeanwhile _ (by decide)
  · exact exists_run _ _ Sample.removedMeanwhile _ (by decide)
  · exact exists_run _ _ Sample.removedWhileBound _ (by decide)

end ImRouter

end HeraMind.Im
