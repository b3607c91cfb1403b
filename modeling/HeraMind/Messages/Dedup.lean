/-
# Duplicates of alerts

`create_message` looks into the dedup cache, sends the message, and then enters it into the cache.
So two messages of one alert are kept apart when the second one is looked up after the first one was
entered; and a message is suppressed because of an entry, whether or not its message was delivered,
and whichever message has the same key.
-/
import HeraMind.Lib.Run
import HeraMind.Lib.Calls
import HeraMind.Messages.Manager

namespace HeraMind.Messages

open List Option Bool
open Transition

/-- The interval in which an alert is sent once. -/
def dedupWindow : ℤ := dedupInterval * second

section

variable {Json : Type}

/-- The message that a call has not found in the dedup cache, until it enters it there. -/
def MessageCall.sending : MessageCall Json → Option (Message Json)
  | .store m | .insert m | .listChannels m | .sendAll m _ | .send m _ | .publish m
  | .updateCache m => some m
  | _ => none

/-- The message that a call is to look up in the dedup cache. -/
def MessageCall.checking : MessageCall Json → Option (Message Json)
  | .check m => some m
  | _ => none

/-- The message that a call is to enter into the dedup cache. -/
def MessageCall.caching : MessageCall Json → Option (Message Json)
  | .updateCache m => some m
  | _ => none

def Operation.creating : Operation Json → Option (Message Json)
  | .createMessage m => some m
  | _ => none

/-- The message that a call may have handed to channels. -/
def MessageCall.handing : MessageCall Json → Option (Message Json)
  | .sendAll m _ | .send m _ | .publish m | .updateCache m => some m
  | _ => none

theorem MessageCall.sending_of_handing {call : MessageCall Json} {m : Message Json}
    (h : call.handing = some m) : call.sending = some m := by
  cases call <;> first | exact h | cases h

namespace MessageManager

/-! ## The property -/

/-- Two messages of one alert are handed to channels at least a minute apart. -/
def HandedApart (handed : List (Mark Json)) : Prop :=
  ∀ x ∈ handed, ∀ y ∈ handed, x.call ≠ y.call → x.message.SameAlert y.message →
    x.time + dedupWindow ≤ y.time ∨ y.time + dedupWindow ≤ x.time

/-- A message is suppressed only if another one of its alert was delivered within a minute. -/
def SuppressedAfterDelivery (s : MessageManager Json) : Prop :=
  ∀ x ∈ s.suppressed, ∃ y ∈ s.delivered, y.call ≠ x.call ∧ y.message.SameAlert x.message ∧
    y.time ≤ x.time ∧ x.time < y.time + dedupWindow

/-! ## The conditions -/

/-- A message that is not found in the cache is not looked up while another call is sending one of
the same alert. -/
def Alone (s : MessageManager Json) : ManagerLabel Json → Prop
  | .run n _ => ∀ call ∈ s.calls[n]?, ∀ m ∈ call.checking, s.isDuplicate m = false →
    ∀ c ∈ s.calls, ∀ m' ∈ c.sending, ¬ m'.SameAlert m
  | .call _ | .setChannel _ _ | .removeChannel _ | .elapse _ => True

/-- The last time that a channel has delivered the message of a call. -/
def lastDelivery (s : MessageManager Json) (n : ℕ) : Option (Mark Json) :=
  s.delivered.find? fun x => x.call = n

/-- A message is entered into the cache after a channel has delivered it, and no message with its key
is looked up between a minute after the last delivery and a minute after the entry. -/
def CallConfirmed (s : MessageManager Json) (n : ℕ) (call : MessageCall Json) : Prop :=
  (∀ m ∈ call.caching, ∃ x ∈ s.lastDelivery n, x.message.dedupKey = m.dedupKey) ∧
    ∀ m ∈ call.checking, ∀ y ∈ s.entered, y.message.dedupKey = m.dedupKey →
      ∀ x ∈ s.lastDelivery y.call, ¬ (x.time + dedupWindow ≤ s.now ∧ s.now < y.time + dedupWindow)

/-- What is entered into the cache was delivered, it is not looked up when only the entry is less
than a minute old, and the keys of messages tell their alerts apart. -/
def Confirmed (s : MessageManager Json) : ManagerLabel Json → Prop
  | .run n _ => ∀ call ∈ s.calls[n]?, s.CallConfirmed n call
  | .call op => ∀ m ∈ op.creating, ∀ m' ∈ s.created, m'.dedupKey = m.dedupKey → m'.SameAlert m
  | .setChannel _ _ | .removeChannel _ | .elapse _ => True

instance (handed : List (Mark Json)) : Decidable (HandedApart handed) :=
  inferInstanceAs (Decidable (∀ x ∈ handed, ∀ y ∈ handed, _ → _ → _ ∨ _))

instance (s : MessageManager Json) : Decidable s.SuppressedAfterDelivery :=
  inferInstanceAs (Decidable (∀ x ∈ s.suppressed, ∃ y ∈ s.delivered, _ ∧ _ ∧ _ ∧ _))

instance (s : MessageManager Json) : DecidablePred s.Alone
  | .run n _ => inferInstanceAs (Decidable (∀ call ∈ s.calls[n]?, ∀ m ∈ call.checking,
      s.isDuplicate m = false → ∀ c ∈ s.calls, ∀ m' ∈ c.sending, ¬ m'.SameAlert m))
  | .call _ | .setChannel _ _ | .removeChannel _ | .elapse _ => isTrue trivial

instance (s : MessageManager Json) (n : ℕ) : DecidablePred (s.CallConfirmed n) := fun call =>
  inferInstanceAs (Decidable ((∀ m ∈ call.caching, ∃ x ∈ s.lastDelivery n, _) ∧
    ∀ m ∈ call.checking, ∀ y ∈ s.entered, _ → ∀ x ∈ s.lastDelivery y.call, ¬ (_ ∧ _)))

instance (s : MessageManager Json) : DecidablePred s.Confirmed
  | .run n _ => inferInstanceAs (Decidable (∀ call ∈ s.calls[n]?, s.CallConfirmed n call))
  | .call op => inferInstanceAs (Decidable (∀ m ∈ op.creating, ∀ m' ∈ s.created, _ → _))
  | .setChannel _ _ | .removeChannel _ | .elapse _ => isTrue trivial

/-! ## What a section does -/

/-- A section that leaves the cache and the history alone. -/
structure SameHistory (s s' : MessageManager Json) : Prop where
  calls : s'.calls = s.calls := by rfl
  now : s'.now = s.now := by rfl
  dedupCache : s'.dedupCache = s.dedupCache := by rfl
  created : s'.created = s.created := by rfl
  handed : s'.handed = s.handed := by rfl
  delivered : s'.delivered = s.delivered := by rfl
  suppressed : s'.suppressed = s.suppressed := by rfl
  entered : s'.entered = s.entered := by rfl

/-- What a section of a call does to the cache and the history. -/
inductive Effect (s : MessageManager Json) (n : ℕ) :
    MessageCall Json → MessageManager Json → MessageCall Json → Prop
  | quiet {call s' call'} (same : SameHistory s s')
      (sending : ∀ m, call'.sending = some m → call.sending = some m)
      (handing : ∀ m, call.handing = some m → call'.handing = some m)
      (checked : ∀ m, call' ≠ .check m := by rintro _ ⟨⟩) : Effect s n call s' call'
  | suppress {m} (hit : s.isDuplicate m = true) :
      Effect s n (.check m) { s with suppressed := ⟨n, m, s.now⟩ :: s.suppressed }
        (.storeDuplicate m)
  | pass {m} (miss : s.isDuplicate m = false) : Effect s n (.check m) s (.store m)
  | hand {m name names} :
      Effect s n (.sendAll m (name :: names))
        { s with handed := ⟨n, m, s.now⟩ :: s.handed } (.send m names)
  | deliver {m names} :
      Effect s n (.send m names) { s with delivered := ⟨n, m, s.now⟩ :: s.delivered }
        (.sendAll m names)
  | update {m} :
      Effect s n (.updateCache m)
        { s with dedupCache := s.remember m, entered := ⟨n, m, s.now⟩ :: s.entered }
        (.returned (.ok (.message m)))

variable {s s' : MessageManager Json} {n : ℕ} {call call' : MessageCall Json}
  {outcome : Except String Unit}

/-- A call that neither sends a message nor looks one up. -/
theorem Effect.idle (same : SameHistory s s') (hsending : call'.sending = none)
    (hhanding : call.handing = none)
    (hchecked : ∀ m, call' ≠ .check m := by rintro _ ⟨⟩) : Effect s n call s' call' := by
  refine .quiet same ?_ ?_ hchecked
  · intro m hm
    rw [hsending] at hm
    cases hm
  · intro m hm
    rw [hhanding] at hm
    cases hm

theorem sameHistory_putRow (s : MessageManager Json) (row : StoredMessage Json)
    (outcome : Except String Unit) : SameHistory s (s.putRow row outcome) := by
  cases outcome with
  | ok _ | error e => exact {}

theorem sameHistory_eraseRow (s : MessageManager Json) (id : String)
    (outcome : Except String Unit) : SameHistory s (s.eraseRow id outcome) := by
  cases outcome with
  | ok _ | error e => exact {}

/-- After a storage call, the call goes on or fails. -/
theorem afterStorage_cases (s : MessageManager Json) (outcome : Except String Unit)
    (failure : String) (next : MessageCall Json) :
    s.afterStorage outcome failure next = next ∨
      ∃ e, s.afterStorage outcome failure next = .returned (.error e) := by
  unfold afterStorage
  split
  · exact Or.inr ⟨_, rfl⟩
  · exact Or.inl rfl

theorem effect_of_memorySection (h : s.memorySection call = some (s', call')) :
    Effect s n call s' call' := by
  cases call with
  | storeDuplicate m =>
    cases h
    exact .idle {} rfl rfl
  | store m =>
    cases h
    exact .quiet {} (fun _ hm => hm) (fun _ hm => by cases hm)
  | change c id | remove id =>
    simp only [memorySection] at h
    split at h
    · cases h
      exact .idle {} rfl rfl
    · cases h
      exact .idle {} rfl rfl
  | removeMany ids | changeMany c ids | retain olderThanDays cutoff | clearMemory =>
    cases h
    exact .idle {} rfl rfl
  | _ => cases h

/-- A storage call after which a call goes on with something else than a message to send. -/
theorem Effect.afterStorage {failure : String} {next : MessageCall Json} (same : SameHistory s s')
    (hsending : next.sending = none) (hhanding : call.handing = none)
    (hchecked : ∀ m, next ≠ .check m := by rintro _ ⟨⟩) :
    Effect s n call s' (s.afterStorage outcome failure next) := by
  rcases afterStorage_cases s outcome failure next with hnext | ⟨e, hnext⟩
  · rw [hnext]
    exact .idle same hsending hhanding hchecked
  · rw [hnext]
    exact .idle same rfl hhanding

theorem effect_of_storageSection (h : s.storageSection outcome call = some (s', call')) :
    Effect s n call s' call' := by
  cases call with
  | insertDuplicate m =>
    cases h
    exact .idle (sameHistory_putRow s _ _) rfl rfl
  | insert m =>
    cases h
    rcases afterStorage_cases s outcome "Failed to persist message: " (.listChannels m) with
      hnext | ⟨e, hnext⟩
    · rw [hnext]
      exact .quiet (sameHistory_putRow s _ _) (fun _ hm => hm) (fun _ hm => by cases hm)
    · rw [hnext]
      exact .idle (sameHistory_putRow s _ _) rfl rfl
  | update c row =>
    cases h
    exact .afterStorage (sameHistory_putRow s _ _) rfl rfl
  | deleteRow id =>
    cases h
    exact .afterStorage (sameHistory_eraseRow s _ _) rfl rfl
  | deleteRows ids count =>
    cases ids with
    | nil =>
      cases h
      exact .idle {} rfl rfl
    | cons id ids =>
      cases h
      exact .idle (sameHistory_eraseRow s _ _) rfl rfl
  | updateRows rows count =>
    cases rows with
    | nil =>
      cases h
      exact .idle {} rfl rfl
    | cons row rows =>
      cases h
      exact .idle (sameHistory_putRow s _ _) rfl rfl
  | cleanupRows olderThanDays removed | clearRows =>
    cases h
    refine .afterStorage ?_ rfl rfl
    cases outcome with
    | ok _ | error e => exact {}
  | _ => cases h

theorem effect_of_sendSection (h : s.sendSection n outcome call = some (s', call')) :
    Effect s n call s' call' := by
  cases call with
  | check m =>
    simp only [sendSection] at h
    split at h
    · rename_i hit
      cases h
      exact .suppress hit
    · rename_i miss
      cases h
      exact .pass (not_eq_true _ ▸ miss)
  | listChannels m =>
    cases h
    exact .quiet {} (fun _ hm => hm) (fun _ hm => by cases hm)
  | sendAll m names =>
    cases names with
    | nil =>
      cases h
      exact .quiet {} (fun _ hm => hm) (fun _ hm => hm)
    | cons name names =>
      simp only [sendSection] at h
      split at h
      · cases h
        exact .hand
      · cases h
        exact .quiet {} (fun _ hm => hm) (fun _ hm => hm)
  | send m names =>
    cases outcome with
    | ok _ =>
      cases h
      exact .deliver
    | error e =>
      cases h
      exact .quiet {} (fun _ hm => hm) (fun _ hm => hm)
  | publish m =>
    cases h
    exact .quiet {} (fun _ hm => hm) (fun _ hm => hm)
  | updateCache m =>
    simp only [sendSection] at h
    split at h
    · cases h
    · cases h
      exact .update
  | publishChange c id =>
    cases h
    exact .idle {} rfl rfl
  | cleanup olderThanDays =>
    cases h
    exact .idle {} rfl rfl
  | _ => cases h

theorem effect_of_runSection (h : s.runSection n outcome call = some (s', call')) :
    Effect s n call s' call' := by
  unfold runSection at h
  split at h
  · rename_i r hr
    split at h
    · cases h
    · cases h
      exact effect_of_memorySection hr
  · rcases or_eq_some_iff.mp h with h | ⟨-, h⟩
    · exact effect_of_storageSection h
    · exact effect_of_sendSection h

/-! ## The cache -/

theorem lookup_remember (s : MessageManager Json) (m : Message Json) (key : String) :
    (s.remember m).lookup key =
      if key = m.dedupKey then some s.now
      else
        (s.dedupCache.lookup key).filter fun lastSent =>
          decide (s.now - dedupInterval * 5 * second < lastSent) := by
  have hremember : (s.remember m).lookup key =
      ((s.dedupCache.insert m.dedupKey s.now).lookup key).filter fun lastSent =>
        !decide (lastSent ≤ s.now - dedupInterval * 5 * second) :=
    HashMap.lookup_removeAll_filter _ _ key
  rw [hremember]
  by_cases hkey : key = m.dedupKey
  · rw [if_pos hkey, hkey, AList.lookup_insert, filter_some, if_pos]
    unfold dedupInterval second
    rw [not_eq_true', decide_eq_false_iff_not]
    omega
  · rw [if_neg hkey, AList.lookup_insert_ne hkey]
    congr 1
    funext lastSent
    rw [← decide_not]
    congr 1
    exact propext Int.not_le

/-- Whole seconds of a time that is less than a minute. -/
theorem tdiv_second_lt {d : ℤ} (hd : 0 ≤ d) : d.tdiv second < dedupInterval ↔ d < dedupWindow := by
  rw [Int.tdiv_eq_ediv_of_nonneg hd]
  unfold second dedupInterval dedupWindow dedupInterval second
  omega

/-- The time of a mark is in the cache, or so old that it was pruned. -/
def Remembered (s : MessageManager Json) (x : Mark Json) : Prop :=
  (∃ lastSent, s.dedupCache.lookup x.message.dedupKey = some lastSent ∧ x.time ≤ lastSent) ∨
    x.time + dedupInterval * 5 * second ≤ s.now

/-- A message that is found in the cache was remembered less than a minute ago. -/
theorem isDuplicate_eq_false {m : Message Json} {x : Mark Json} (h : Remembered s x)
    (hkey : x.message.dedupKey = m.dedupKey) (hmiss : s.isDuplicate m = false) :
    x.time + dedupWindow ≤ s.now := by
  rcases h with ⟨lastSent, hlookup, hle⟩ | hold
  · unfold isDuplicate at hmiss
    rw [← hkey, hlookup, any_some, decide_eq_false_iff_not] at hmiss
    by_cases hd : 0 ≤ s.now - lastSent
    · rw [tdiv_second_lt hd] at hmiss
      omega
    · exfalso
      apply hmiss
      have hnonpos : 0 ≤ (-(s.now - lastSent)).tdiv second :=
        Int.tdiv_nonneg (by omega) (by decide)
      rw [Int.neg_tdiv] at hnonpos
      unfold dedupInterval
      omega
  · unfold dedupWindow
    unfold dedupInterval second at *
    omega

/-! ## Messages that are kept apart -/

theorem dedupKey_eq {m m' : Message Json} (h : m.SameAlert m') : m.dedupKey = m'.dedupKey := by
  obtain ⟨htitle, hsource, hseverity⟩ := h
  unfold Message.dedupKey
  rw [htitle, hsource, hseverity]

theorem sameAlert_symm {m m' : Message Json} (h : m.SameAlert m') : m'.SameAlert m :=
  ⟨h.1.symm, h.2.1.symm, h.2.2.symm⟩

/-- One call at a time sends a message of an alert, and those that were handed to channels before are
a minute old or will be found in the cache. -/
structure Apart (s : MessageManager Json) : Prop where
  past : ∀ x ∈ s.handed, x.time ≤ s.now
  kept : ∀ x ∈ s.handed,
    (∃ call, s.calls[x.call]? = some call ∧ call.handing = some x.message) ∨ Remembered s x
  single : ∀ (i j : ℕ) (c c' : MessageCall Json) (m m' : Message Json),
    s.calls[i]? = some c → s.calls[j]? = some c' → c.sending = some m → c'.sending = some m' →
    m.SameAlert m' → i = j
  clear : ∀ (i : ℕ) (c : MessageCall Json) (m : Message Json), s.calls[i]? = some c →
    c.sending = some m → ∀ x ∈ s.handed, x.call ≠ i → x.message.SameAlert m →
    x.time + dedupWindow ≤ s.now
  apart : HandedApart s.handed

namespace Apart

/-- A section that neither hands a message to a channel nor changes the cache. -/
theorem quiet (h : Apart s) (hn : s.calls[n]? = some call) (hcalls : s'.calls = s.calls)
    (hnow : s'.now = s.now) (hcache : s'.dedupCache = s.dedupCache)
    (hhanded : s'.handed = s.handed)
    (hsending : ∀ m, call'.sending = some m → call.sending = some m)
    (hhanding : ∀ m, call.handing = some m → call'.handing = some m) :
    Apart { s' with calls := s'.calls.set n call' } where
  past x hx := by
    rw [hhanded] at hx
    show x.time ≤ s'.now
    rw [hnow]
    exact h.past x hx
  kept x hx := by
    rw [hhanded] at hx
    rcases h.kept x hx with ⟨c, hc, hm⟩ | hremembered
    · left
      dsimp only
      rw [hcalls]
      by_cases hxn : x.call = n
      · rw [hxn, hn] at hc
        cases hc
        refine ⟨call', ?_, hhanding _ hm⟩
        rw [hxn, Calls.getElem?_set_self hn _]
      · refine ⟨c, ?_, hm⟩
        rw [getElem?_set_ne (Ne.symm hxn), hc]
    · right
      unfold Remembered
      dsimp only
      rw [hcache, hnow]
      exact hremembered
  single i j c c' m m' hi hj hm hm' hsame := by
    dsimp only at hi hj
    rw [hcalls] at hi hj
    have hold : ∀ {k : ℕ} {d : MessageCall Json} {u : Message Json},
        (s.calls.set n call')[k]? = some d → d.sending = some u →
        ∃ d', s.calls[k]? = some d' ∧ d'.sending = some u := by
      intro k d u hk hu
      rcases Calls.getElem?_set_cases hk with ⟨rfl, rfl⟩ | ⟨-, hk⟩
      · exact ⟨call, hn, hsending u hu⟩
      · exact ⟨d, hk, hu⟩
    obtain ⟨d, hd, hdm⟩ := hold hi hm
    obtain ⟨d', hd', hdm'⟩ := hold hj hm'
    exact h.single i j d d' m m' hd hd' hdm hdm' hsame
  clear i c m hi hm x hx hne hsame := by
    dsimp only at hi
    rw [hcalls] at hi
    rw [hhanded] at hx
    show x.time + dedupWindow ≤ s'.now
    rw [hnow]
    rcases Calls.getElem?_set_cases hi with ⟨rfl, rfl⟩ | ⟨-, hi⟩
    · exact h.clear i call m hn (hsending m hm) x hx hne hsame
    · exact h.clear i c m hi hm x hx hne hsame
  apart := by
    show HandedApart s'.handed
    rw [hhanded]
    exact h.apart

variable {m : Message Json}

/-- A message that was not found in the cache is going to be sent. -/
theorem pass (h : Apart s) (hn : s.calls[n]? = some (.check m)) (hmiss : s.isDuplicate m = false)
    (halone : ∀ call ∈ s.calls, ∀ m' ∈ call.sending, ¬ m'.SameAlert m) :
    Apart { s with calls := s.calls.set n (.store m) } where
  past := h.past
  kept x hx := by
    rcases h.kept x hx with ⟨c, hc, hm⟩ | hremembered
    · left
      have hne : n ≠ x.call := by
        intro heq
        rw [← heq, hn] at hc
        cases hc
        cases hm
      exact ⟨c, by rw [getElem?_set_ne hne, hc], hm⟩
    · exact Or.inr hremembered
  single i j c c' u u' hi hj hu hu' hsame := by
    rcases Calls.getElem?_set_cases hi with ⟨hin, rfl⟩ | ⟨-, hold⟩
    · rcases Calls.getElem?_set_cases hj with ⟨hjn, -⟩ | ⟨-, hold'⟩
      · rw [hin, hjn]
      · cases hu
        exact absurd (sameAlert_symm hsame) (halone c' (mem_of_getElem? hold') u' hu')
    · rcases Calls.getElem?_set_cases hj with ⟨-, rfl⟩ | ⟨-, hold'⟩
      · cases hu'
        exact absurd hsame (halone c (mem_of_getElem? hold) u hu)
      · exact h.single i j c c' u u' hold hold' hu hu' hsame
  clear i c u hi hu x hx hne hsame := by
    rcases Calls.getElem?_set_cases hi with ⟨rfl, rfl⟩ | ⟨-, hi⟩
    · cases hu
      rcases h.kept x hx with ⟨c, hc, hm⟩ | hremembered
      · exact absurd hsame
          (halone c (mem_of_getElem? hc) _ (MessageCall.sending_of_handing hm))
      · exact isDuplicate_eq_false hremembered (dedupKey_eq hsame) hmiss
    · exact h.clear i c u hi hu x hx hne hsame
  apart := h.apart

/-- A message is handed to a channel. -/
theorem hand (h : Apart s) (hn : s.calls[n]? = some call)
    (hsending : call.sending = some m) (hhanding : call.handing = some m)
    (hsending' : call'.sending = some m) (hhanding' : call'.handing = some m) :
    Apart
      { s with
        handed := ⟨n, m, s.now⟩ :: s.handed
        calls := s.calls.set n call' } := by
  have hsame : ∀ u, call'.sending = some u → call.sending = some u := by
    intro u hu
    rw [hsending', ← hsending] at hu
    exact hu
  have hsame' : ∀ u, call.handing = some u → call'.handing = some u := by
    intro u hu
    rw [hhanding, ← hhanding'] at hu
    exact hu
  have hquiet : Apart { s with calls := s.calls.set n call' } :=
    h.quiet hn rfl rfl rfl rfl hsame hsame'
  refine ⟨?_, ?_, hquiet.single, ?_, ?_⟩
  · intro x hx
    rcases mem_cons.mp hx with rfl | hx
    · exact Int.le_refl _
    · exact h.past x hx
  · intro x hx
    rcases mem_cons.mp hx with rfl | hx
    · left
      exact ⟨call', Calls.getElem?_set_self hn _, hhanding'⟩
    · exact hquiet.kept x hx
  · intro i c u hi hu x hx hne halert
    rcases mem_cons.mp hx with rfl | hx
    · have hi' : s.calls[i]? = some c := by
        rcases Calls.getElem?_set_cases hi with ⟨heq, -⟩ | ⟨-, hi⟩
        · exact absurd heq.symm hne
        · exact hi
      exact absurd (h.single n i call c m u hn hi' hsending hu halert) hne
    · exact hquiet.clear i c u hi hu x hx hne halert
  · intro x hx y hy hne halert
    rcases mem_cons.mp hx with rfl | hx
    · rcases mem_cons.mp hy with rfl | hy
      · exact absurd rfl hne
      · right
        exact h.clear n call m hn hsending y hy (Ne.symm hne) (sameAlert_symm halert)
    · rcases mem_cons.mp hy with rfl | hy
      · left
        exact h.clear n call m hn hsending x hx hne halert
      · exact h.apart x hx y hy hne halert

/-- A message is entered into the cache. -/
theorem update (h : Apart s) (hn : s.calls[n]? = some (.updateCache m))
    (hsending : call'.sending = none) :
    Apart
      { s with
        dedupCache := s.remember m
        entered := ⟨n, m, s.now⟩ :: s.entered
        calls := s.calls.set n call' } := by
  have hold : ∀ {i : ℕ} {c : MessageCall Json}, (s.calls.set n call')[i]? = some c →
      ∀ {u}, c.sending = some u → i ≠ n ∧ s.calls[i]? = some c := by
    intro i c hi u hu
    rcases Calls.getElem?_set_cases hi with ⟨-, rfl⟩ | hi
    · rw [hsending] at hu
      cases hu
    · exact hi
  have hlookup : ∀ x : Mark Json, x.message.dedupKey = m.dedupKey → x.time ≤ s.now →
      ∃ lastSent, (s.remember m).lookup x.message.dedupKey = some lastSent ∧ x.time ≤ lastSent := by
    intro x hkey hpast
    exact ⟨s.now, by rw [lookup_remember, if_pos hkey], hpast⟩
  refine ⟨h.past, ?_, ?_, ?_, h.apart⟩
  · intro x hx
    by_cases hkey : x.message.dedupKey = m.dedupKey
    · exact Or.inr (Or.inl (hlookup x hkey (h.past x hx)))
    · rcases h.kept x hx with ⟨c, hc, hm⟩ | ⟨lastSent, hcache, hle⟩ | hpruned
      · left
        have hne : n ≠ x.call := by
          intro heq
          rw [← heq, hn] at hc
          cases hc
          cases hm
          exact hkey rfl
        exact ⟨c, by rw [getElem?_set_ne hne, hc], hm⟩
      · right
        by_cases hrecent : s.now - dedupInterval * 5 * second < lastSent
        · left
          refine ⟨lastSent, ?_, hle⟩
          dsimp only
          rw [lookup_remember, if_neg hkey, hcache, filter_some, if_pos (decide_eq_true hrecent)]
        · right
          show x.time + dedupInterval * 5 * second ≤ s.now
          omega
      · exact Or.inr (Or.inr hpruned)
  · intro i j c c' u u' hi hj hu hu' halert
    exact h.single i j c c' u u' (hold hi hu).2 (hold hj hu').2 hu hu' halert
  · intro i c u hi hu x hx hne halert
    exact h.clear i c u (hold hi hu).2 hu x hx hne halert

/-- Calls that do not send a message are made, and the clock moves. -/
theorem later (h : Apart s) (hcalls : ∃ more : List (MessageCall Json),
      s'.calls = s.calls ++ more ∧ ∀ c ∈ more, c.sending = none)
    (hnow : s.now ≤ s'.now) (hcache : s'.dedupCache = s.dedupCache)
    (hhanded : s'.handed = s.handed) : Apart s' := by
  obtain ⟨more, hcalls, hmore⟩ := hcalls
  have hold : ∀ {i : ℕ} {c : MessageCall Json}, s'.calls[i]? = some c →
      ∀ {u}, c.sending = some u → s.calls[i]? = some c := by
    intro i c hi u hu
    rw [hcalls] at hi
    by_cases hlt : i < s.calls.length
    · rw [getElem?_append_left hlt] at hi
      exact hi
    · rw [getElem?_append_right (by omega)] at hi
      rw [hmore c (mem_of_getElem? hi)] at hu
      cases hu
  refine ⟨?_, ?_, ?_, ?_, ?_⟩
  · intro x hx
    rw [hhanded] at hx
    exact Int.le_trans (h.past x hx) hnow
  · intro x hx
    rw [hhanded] at hx
    rcases h.kept x hx with ⟨c, hc, hm⟩ | ⟨lastSent, hlookup, hle⟩ | hpruned
    · left
      refine ⟨c, ?_, hm⟩
      rw [hcalls, getElem?_append_left (List.getElem?_eq_some_iff.mp hc).1, hc]
    · exact Or.inr (Or.inl ⟨lastSent, hcache ▸ hlookup, hle⟩)
    · exact Or.inr (Or.inr (Int.le_trans hpruned hnow))
  · intro i j c c' u u' hi hj hu hu' halert
    exact h.single i j c c' u u' (hold hi hu) (hold hj hu') hu hu' halert
  · intro i c u hi hu x hx hne halert
    rw [hhanded] at hx
    exact Int.le_trans (h.clear i c u (hold hi hu) hu x hx hne halert) hnow
  · rw [hhanded]
    exact h.apart

/-- A lookup without a rival keeps the calls apart. -/
theorem step {a : ManagerLabel Json} (h : Apart s) (hok : s.Alone a)
    (hs : s.step a = some s') : Apart s' := by
  cases a with
  | call op =>
    cases hs
    refine h.later ⟨[op.call], rfl, ?_⟩ (Int.le_refl _) rfl rfl
    intro c hc
    rw [mem_singleton.mp hc]
    cases op <;> rfl
  | run n outcome =>
    obtain ⟨call, s₁, call', hn, hr, rfl⟩ := step_run hs
    have heffect := effect_of_runSection hr
    have halone := hok call hn
    cases heffect with
    | quiet same hsending hhanding _ =>
      exact h.quiet hn same.calls same.now same.dedupCache same.handed hsending hhanding
    | suppress hit =>
      exact h.quiet hn rfl rfl rfl rfl (fun u hu => by cases hu) (fun u hu => by cases hu)
    | pass miss => exact h.pass hn miss (halone _ rfl miss)
    | hand => exact h.hand hn rfl rfl rfl rfl
    | deliver => exact h.quiet hn rfl rfl rfl rfl (fun u hu => hu) (fun u hu => hu)
    | update => exact h.update hn rfl
  | setChannel name channel | removeChannel name =>
    cases hs
    exact h.later ⟨[], (append_nil _).symm, fun c hc => by cases hc⟩ (Int.le_refl _) rfl rfl
  | elapse d =>
    cases hs
    refine h.later ⟨[], (append_nil _).symm, fun c hc => by cases hc⟩ ?_ rfl rfl
    show s.now ≤ s.now + d
    omega

end Apart

/-! ## Messages that are suppressed -/

/-- A message is entered into the cache, and its call has delivered it before and does nothing
more. -/
structure EntryKnown (s : MessageManager Json) (y : Mark Json) : Prop where
  past : y.time ≤ s.now
  sent : ∃ c, s.calls[y.call]? = some c ∧ c.sending = none ∧ ∀ m, c ≠ .check m
  delivered : ∃ x, s.lastDelivery y.call = some x ∧ x.message.dedupKey = y.message.dedupKey

/-- The entries of the cache are those of messages that were delivered, and the keys of messages tell
their alerts apart. -/
structure Known (s : MessageManager Json) : Prop where
  started : ∀ x ∈ s.delivered, ∃ c, s.calls[x.call]? = some c ∧ ∀ m, c ≠ .check m
  past : ∀ x ∈ s.delivered, x.time ≤ s.now
  entries : ∀ key lastSent, s.dedupCache.lookup key = some lastSent →
    ∃ y ∈ s.entered, y.message.dedupKey = key ∧ y.time = lastSent
  entered : ∀ y ∈ s.entered, EntryKnown s y
  created : ∀ c ∈ s.calls, ∀ m, c = .check m ∨ c.sending = some m → m ∈ s.created
  deliveredCreated : ∀ x ∈ s.delivered, x.message ∈ s.created
  keys : ∀ m ∈ s.created, ∀ m' ∈ s.created, m.dedupKey = m'.dedupKey → m.SameAlert m'
  sound : SuppressedAfterDelivery s

namespace Known

/-- The call goes on, and the history grows by nothing that concerns the cache. -/
theorem started_set (h : Known s) (hn : s.calls[n]? = some call)
    (hchecked : ∀ m, call' ≠ .check m) :
    ∀ x ∈ s.delivered, ∃ c, (s.calls.set n call')[x.call]? = some c ∧ ∀ m, c ≠ .check m := by
  intro x hx
  obtain ⟨c, hc, hcheck⟩ := h.started x hx
  by_cases hxn : x.call = n
  · refine ⟨call', ?_, hchecked⟩
    rw [hxn, Calls.getElem?_set_self hn _]
  · exact ⟨c, by rw [getElem?_set_ne (Ne.symm hxn), hc], hcheck⟩

theorem created_set (h : Known s)
    (hchecked : ∀ m, call' ≠ .check m)
    (hsending : ∀ m, call'.sending = some m → m ∈ s.created) :
    ∀ c ∈ s.calls.set n call', ∀ m, c = .check m ∨ c.sending = some m → m ∈ s.created := by
  intro c hc m hm
  rcases mem_or_eq_of_mem_set hc with hc | rfl
  · exact h.created c hc m hm
  · rcases hm with hm | hm
    · exact absurd hm (hchecked m)
    · exact hsending m hm

/-- The call that goes on is not one that has entered its message, or does not send it. -/
theorem entered_set (h : Known s) (hn : s.calls[n]? = some call)
    (hchecked : ∀ m, call' ≠ .check m)
    (hsending : ∀ m, call'.sending = some m → call.sending = some m ∨ ∃ m, call = .check m) :
    ∀ y ∈ s.entered, EntryKnown { s with calls := s.calls.set n call' } y := by
  intro y hy
  obtain ⟨hpast, ⟨c, hc, hnone, hcheck⟩, hdelivered⟩ := h.entered y hy
  refine ⟨hpast, ?_, hdelivered⟩
  by_cases hyn : y.call = n
  · rw [hyn, hn] at hc
    cases hc
    refine ⟨call', by rw [hyn]; exact Calls.getElem?_set_self hn _, ?_, hchecked⟩
    cases hcall' : call'.sending with
    | none => rfl
    | some m =>
      rcases hsending m hcall' with hm | ⟨m, hm⟩
      · rw [hnone] at hm
        cases hm
      · exact absurd hm (hcheck m)
  · exact ⟨c, by dsimp only; rw [getElem?_set_ne (Ne.symm hyn), hc], hnone, hcheck⟩

theorem quiet (h : Known s) (hn : s.calls[n]? = some call) (same : SameHistory s s')
    (hchecked : ∀ m, call' ≠ .check m)
    (hsending : ∀ m, call'.sending = some m → call.sending = some m) :
    Known { s' with calls := s'.calls.set n call' } := by
  have hmem : ∀ m, call'.sending = some m → m ∈ s.created := fun m hm =>
    h.created call (mem_of_getElem? hn) m (Or.inr (hsending m hm))
  refine ⟨?_, ?_, ?_, ?_, ?_, ?_, ?_, ?_⟩
  · dsimp only
    rw [same.delivered, same.calls]
    exact h.started_set hn hchecked
  · dsimp only
    rw [same.delivered, same.now]
    exact h.past
  · dsimp only
    rw [same.entered, same.dedupCache]
    exact h.entries
  · intro y hy
    dsimp only at hy
    rw [same.entered] at hy
    obtain ⟨hpast, hsent, hdelivered⟩ :=
      h.entered_set hn hchecked (fun m hm => Or.inl (hsending m hm)) y hy
    refine ⟨?_, ?_, ?_⟩
    · show y.time ≤ s'.now
      rw [same.now]
      exact hpast
    · dsimp only
      rw [same.calls]
      exact hsent
    · unfold lastDelivery
      dsimp only
      rw [same.delivered]
      exact hdelivered
  · dsimp only
    rw [same.created, same.calls]
    exact h.created_set hchecked hmem
  · dsimp only
    rw [same.delivered, same.created]
    exact h.deliveredCreated
  · dsimp only
    rw [same.created]
    exact h.keys
  · unfold SuppressedAfterDelivery
    dsimp only
    rw [same.suppressed, same.delivered]
    exact h.sound

variable {m : Message Json}

/-- A message is suppressed. -/
theorem suppress (h : Known s) (hn : s.calls[n]? = some (.check m)) (hit : s.isDuplicate m = true)
    (htimely : ∀ y ∈ s.entered, y.message.dedupKey = m.dedupKey → ∀ x ∈ s.lastDelivery y.call,
      ¬ (x.time + dedupWindow ≤ s.now ∧ s.now < y.time + dedupWindow)) :
    Known
      { s with
        suppressed := ⟨n, m, s.now⟩ :: s.suppressed
        calls := s.calls.set n (.storeDuplicate m) } := by
  have hchecked : ∀ m', MessageCall.storeDuplicate m ≠ .check m' := fun m' hm => by cases hm
  refine ⟨h.started_set hn hchecked, h.past, h.entries, fun y hy => ?_,
    h.created_set hchecked (fun _ hm => by cases hm), h.deliveredCreated, h.keys, ?_⟩
  · obtain ⟨hpast, hsent, hdelivered⟩ :=
      h.entered_set hn hchecked (fun _ hm => by cases hm) y hy
    exact ⟨hpast, hsent, hdelivered⟩
  intro x hx
  rcases mem_cons.mp hx with rfl | hx
  · unfold isDuplicate at hit
    obtain ⟨lastSent, hlookup, hrecent⟩ := (Option.any_eq_true _ _).mp hit
    obtain ⟨y, hy, hkey, htime⟩ := h.entries _ _ hlookup
    obtain ⟨hpast, -, x, hlast, hxkey⟩ := h.entered y hy
    have hx : x ∈ s.delivered := mem_of_find?_eq_some hlast
    have hm : m ∈ s.created :=
      h.created _ (mem_of_getElem? hn) m (Or.inl rfl)
    refine ⟨x, hx, ?_, h.keys _ (h.deliveredCreated x hx) _ hm (hxkey.trans hkey), h.past x hx, ?_⟩
    · intro heq
      obtain ⟨c, hc, hcheck⟩ := h.started x hx
      dsimp only at heq
      rw [heq, hn] at hc
      cases hc
      exact hcheck m rfl
    · -- the entry is less than a minute old, so the delivery is
      rw [decide_eq_true_eq, ← htime, tdiv_second_lt (by omega)] at hrecent
      have hgap := htimely y hy hkey x hlast
      show s.now < x.time + dedupWindow
      omega
  · exact h.sound x hx

/-- A channel has delivered a message. -/
theorem deliver (h : Known s) (hn : s.calls[n]? = some call)
    (hsending : call.sending = some m) (hchecked : ∀ m, call' ≠ .check m)
    (hsending' : call'.sending = some m) :
    Known
      { s with
        delivered := ⟨n, m, s.now⟩ :: s.delivered
        calls := s.calls.set n call' } := by
  have hm : m ∈ s.created := h.created call (mem_of_getElem? hn) m (Or.inr hsending)
  refine ⟨?_, ?_, h.entries, ?_, ?_, ?_, h.keys, ?_⟩
  · intro x hx
    rcases mem_cons.mp hx with rfl | hx
    · exact ⟨call', Calls.getElem?_set_self hn _, hchecked⟩
    · exact h.started_set hn hchecked x hx
  · intro x hx
    rcases mem_cons.mp hx with rfl | hx
    · exact Int.le_refl _
    · exact h.past x hx
  · intro y hy
    obtain ⟨hpast, hsent, x, hlast, hkey⟩ :=
      h.entered_set hn hchecked (fun m' _ => Or.inl (by rwa [hsending, ← hsending'])) y hy
    refine ⟨hpast, hsent, x, ?_, hkey⟩
    -- a call that still sends its message has not entered it
    have hne : n ≠ y.call := by
      rintro rfl
      obtain ⟨-, ⟨c, hc, hnone, -⟩, -⟩ := h.entered y hy
      rw [hn] at hc
      cases hc
      rw [hsending] at hnone
      cases hnone
    rw [lastDelivery, find?_cons_of_neg (by simpa using hne)]
    exact hlast
  · refine h.created_set hchecked fun m' hm' => ?_
    rw [hsending'] at hm'
    cases hm'
    exact hm
  · intro x hx
    rcases mem_cons.mp hx with rfl | hx
    · exact hm
    · exact h.deliveredCreated x hx
  · intro x hx
    obtain ⟨y, hy, hsound⟩ := h.sound x hx
    exact ⟨y, mem_cons_of_mem _ hy, hsound⟩

/-- A message that was delivered is entered into the cache. -/
theorem update (h : Known s) (hn : s.calls[n]? = some call)
    (hchecked : ∀ m, call' ≠ .check m) (hsending : call'.sending = none)
    (hdelivered : ∃ x ∈ s.lastDelivery n, x.message.dedupKey = m.dedupKey) :
    Known
      { s with
        dedupCache := s.remember m
        entered := ⟨n, m, s.now⟩ :: s.entered
        calls := s.calls.set n call' } := by
  refine ⟨h.started_set hn hchecked, h.past, ?_, ?_, ?_, h.deliveredCreated, h.keys, h.sound⟩
  · intro key lastSent hlookup
    dsimp only at hlookup
    rw [lookup_remember] at hlookup
    split at hlookup
    · rename_i hkey
      cases hlookup
      exact ⟨_, mem_cons_self, hkey.symm, rfl⟩
    · obtain ⟨y, hy, hentry⟩ := h.entries key lastSent (filter_eq_some_iff.mp hlookup).1
      exact ⟨y, mem_cons_of_mem _ hy, hentry⟩
  · intro y hy
    rcases mem_cons.mp hy with rfl | hy
    · obtain ⟨x, hlast, hkey⟩ := hdelivered
      exact ⟨Int.le_refl _, ⟨call', Calls.getElem?_set_self hn _, hsending, hchecked⟩, x, hlast, hkey⟩
    · obtain ⟨hpast, hsent, hdelivered⟩ := h.entered_set hn hchecked
        (fun m' hm' => by rw [hsending] at hm'; cases hm') y hy
      exact ⟨hpast, hsent, hdelivered⟩
  · refine h.created_set hchecked fun m' hm' => ?_
    rw [hsending] at hm'
    cases hm'

/-- A step whose entries and messages are confirmed. -/
theorem step {a : ManagerLabel Json} (h : Known s) (hok : s.Confirmed a)
    (hs : s.step a = some s') : Known s' := by
  cases a with
  | call op =>
    cases hs
    have hcreated : ∀ m ∈ s.created,
        m ∈ (match op with
          | .createMessage m => m :: s.created
          | _ => s.created) := by
      intro m hm
      split
      · exact mem_cons_of_mem _ hm
      · exact hm
    refine ⟨?_, h.past, h.entries, ?_, ?_, fun x hx => hcreated _ (h.deliveredCreated x hx), ?_,
      h.sound⟩
    · intro x hx
      obtain ⟨c, hc, hcheck⟩ := h.started x hx
      exact ⟨c, Calls.getElem?_append_of_some hc _, hcheck⟩
    · intro y hy
      obtain ⟨hpast, ⟨c, hc, hsent⟩, hdelivered⟩ := h.entered y hy
      exact ⟨hpast, ⟨c, Calls.getElem?_append_of_some hc _, hsent⟩, hdelivered⟩
    · intro c hc m hm
      rcases mem_append.mp hc with hc | hc
      · exact hcreated m (h.created c hc m hm)
      · rw [mem_singleton.mp hc] at hm
        cases op with
        | createMessage m' =>
          rcases hm with hm | hm
          · cases hm
            exact mem_cons_self
          · cases hm
        | _ => rcases hm with hm | hm <;> cases hm
    · cases op with
      | createMessage m =>
        intro m₁ hm₁ m₂ hm₂ hkey
        rcases mem_cons.mp hm₁ with rfl | hold₁
        · rcases mem_cons.mp hm₂ with rfl | hold₂
          · exact ⟨rfl, rfl, rfl⟩
          · exact sameAlert_symm (hok _ rfl m₂ hold₂ hkey.symm)
        · rcases mem_cons.mp hm₂ with rfl | hold₂
          · exact hok _ rfl m₁ hold₁ hkey
          · exact h.keys m₁ hold₁ m₂ hold₂ hkey
      | _ => exact h.keys
  | run n outcome =>
    obtain ⟨call, s₁, call', hn, hr, rfl⟩ := step_run hs
    have heffect := effect_of_runSection hr
    have hconfirmed := hok call hn
    cases heffect with
    | quiet same hsending _ hchecked => exact h.quiet hn same hchecked hsending
    | suppress hit => exact h.suppress hn hit (hconfirmed.2 _ rfl)
    | @pass m miss =>
      have hchecked : ∀ m', MessageCall.store m ≠ .check m' := fun m' hm' => by cases hm'
      refine ⟨h.started_set hn hchecked, h.past, h.entries,
        h.entered_set hn hchecked fun _ _ => Or.inr ⟨m, rfl⟩, ?_, h.deliveredCreated, h.keys,
        h.sound⟩
      refine h.created_set hchecked fun m' hm' => ?_
      cases hm'
      exact h.created _ (mem_of_getElem? hn) _ (Or.inl rfl)
    | @hand m name names =>
      have hchecked : ∀ m', MessageCall.send m names ≠ .check m' := fun m' hm' => by cases hm'
      refine ⟨h.started_set hn hchecked, h.past, h.entries, fun y hy => ?_, ?_,
        h.deliveredCreated, h.keys, h.sound⟩
      · obtain ⟨hpast, hsent, hdelivered⟩ := h.entered_set hn hchecked (fun _ => Or.inl) y hy
        exact ⟨hpast, hsent, hdelivered⟩
      refine h.created_set hchecked fun m' hm' => ?_
      exact h.created _ (mem_of_getElem? hn) m' (Or.inr hm')
    | deliver => exact h.deliver hn rfl (fun _ hm => by cases hm) rfl
    | update => exact h.update hn (fun _ hm => by cases hm) rfl (hconfirmed.1 _ rfl)
  | setChannel name channel | removeChannel name =>
    cases hs
    refine ⟨h.started, h.past, h.entries, fun y hy => ?_, h.created, h.deliveredCreated, h.keys,
      h.sound⟩
    exact ⟨(h.entered y hy).past, (h.entered y hy).sent, (h.entered y hy).delivered⟩
  | elapse d =>
    cases hs
    have hlater : ∀ t : ℤ, t ≤ s.now → t ≤ s.now + d := fun t ht => by omega
    refine ⟨h.started, fun x hx => hlater _ (h.past x hx), h.entries, fun y hy => ?_, h.created,
      h.deliveredCreated, h.keys, h.sound⟩
    exact ⟨hlater _ (h.entered y hy).past, (h.entered y hy).sent, (h.entered y hy).delivered⟩

end Known

/-! ## Runs -/

/-- In every run, messages of one alert are handed to channels at least a minute apart, if no two
calls send messages of one alert at a time; and a message is suppressed only if another one of its
alert was delivered within a minute, if messages are entered into the cache after a channel has
delivered them, under keys that tell their alerts apart, and none is looked up while the entry is
less than a minute old and the delivery is not. -/
theorem dedup_of_run (lower : Lowercase) (rows : Option (MessageStore Json))
    (channels : HashMap String Channel) (eventBus : Bool) (now : ℤ)
    (tr : List (MessageManager Json × ManagerLabel Json)) (s : MessageManager Json)
    (hr : Run step (opened lower rows channels eventBus now) tr s) :
    (Within Alone tr → HandedApart s.handed) ∧
      (Within Confirmed tr → SuppressedAfterDelivery s) := by
  constructor
  · intro hok
    have hapart : Apart s := by
      refine hr.invariant hok ?_ fun _ _ _ h hok hs => h.step hok hs
      refine ⟨?_, ?_, ?_, ?_, ?_⟩
      · intro x hx
        cases hx
      · intro x hx
        cases hx
      · intro i j c c' m m' hi
        cases hi
      · intro i c m hi
        cases hi
      · intro x hx
        cases hx
    exact hapart.apart
  · intro hok
    have hknown : Known s := by
      refine hr.invariant hok ?_ fun _ _ _ h hok hs => h.step hok hs
      refine ⟨?_, ?_, ?_, ?_, ?_, ?_, ?_, ?_⟩
      · intro x hx
        cases hx
      · intro x hx
        cases hx
      · intro key lastSent hlookup
        cases hlookup
      · intro y hy
        cases hy
      · intro c hc
        cases hc
      · intro x hx
        cases hx
      · intro m hm
        cases hm
      · intro x hx
        cases hx
    exact hknown.sound

end MessageManager

end

namespace Sample

/-- A channel that takes every message. -/
def everything : Channel := ⟨true, ⟨[], [], none⟩⟩

def withChannels (names : List String) : MessageManager Unit :=
  MessageManager.opened lower none
    (names.foldl (fun channels name => channels.insert name everything) ∅) true 0

/-- An alert is sent, entered into the cache a second later, suppressed after 30 seconds, and sent
again after 70 seconds. -/
def thrice : List (ManagerLabel Unit) :=
  .call (.createMessage (alert "1" "hot" "s")) :: sections 0 6 ++ seconds 1 :: sections 0 3 ++
    [seconds 30, .call (.createMessage (alert "2" "hot" "s"))] ++ sections 1 3 ++
    [seconds 40, .call (.createMessage (alert "3" "hot" "s"))] ++ sections 2 6 ++
    seconds 1 :: sections 2 3

/-- Two calls look into the cache before either of them enters its message. -/
def atOnce : List (ManagerLabel Unit) :=
  [.call (.createMessage (alert "1" "hot" "s")), .call (.createMessage (alert "2" "hot" "s"))] ++
    sections 0 1 ++ sections 1 1 ++ sections 0 8 ++ sections 1 8

/-- Two messages of an alert, and no channel. -/
def unsent : List (ManagerLabel Unit) :=
  .call (.createMessage (alert "1" "hot" "s")) :: sections 0 7 ++
    [.call (.createMessage (alert "2" "hot" "s"))] ++ sections 1 3

/-- The titles and sources of two alerts are joined to the same key. -/
def sameKey : List (ManagerLabel Unit) :=
  .call (.createMessage (alert "1" "a|b" "c")) :: sections 0 9 ++
    [.call (.createMessage (alert "2" "a" "b|c"))] ++ sections 1 3

/-- The second channel takes 30 seconds, and the next message comes 50 seconds later. -/
def slow : List (ManagerLabel Unit) :=
  .call (.createMessage (alert "1" "hot" "s")) :: sections 0 7 ++
    [seconds 30, .run 0 (.error "timeout")] ++ sections 0 3 ++
    [seconds 50, .call (.createMessage (alert "2" "hot" "s"))] ++ sections 1 3

end Sample

namespace MessageManager

/-- The second message of three is suppressed. -/
theorem dedup_of_run_thrice : ∃ tr s,
    Run step (Sample.withChannels ["hook"]) tr s ∧ Within Alone tr ∧ Within Confirmed tr ∧
      s.handed.length = 2 ∧ s.suppressed.length = 1 ∧ HandedApart s.handed ∧
      SuppressedAfterDelivery s := by
  obtain ⟨tr, s, hrun, halone, hconfirmed, hhanded, hsuppressed⟩ := exists_run step
    (Sample.withChannels ["hook"]) Sample.thrice
    (fun tr s => Within Alone tr ∧ Within Confirmed tr ∧ s.handed.length = 2 ∧
      s.suppressed.length = 1)
    (by decide)
  have hdedup := dedup_of_run Sample.lower none _ true 0 tr s hrun
  exact ⟨tr, s, hrun, halone, hconfirmed, hhanded, hsuppressed, hdedup.1 halone,
    hdedup.2 hconfirmed⟩

/-- Two messages of an alert are handed to a channel at once; and messages are suppressed after one
that no channel was given, after one of another alert, and 80 seconds after a delivery. -/
theorem alerts_twice_or_lost :
    (∃ tr s, Run step (Sample.withChannels ["hook"]) tr s ∧ ¬ HandedApart s.handed) ∧
    (∃ tr s, Run step (Sample.withChannels []) tr s ∧ s.delivered = [] ∧
      ¬ SuppressedAfterDelivery s) ∧
    (∃ tr s, Run step (Sample.withChannels ["hook"]) tr s ∧ s.delivered ≠ [] ∧
      ¬ SuppressedAfterDelivery s) ∧
    ∃ tr s, Run step (Sample.withChannels ["hook", "mail"]) tr s ∧ Within Alone tr ∧
      ¬ SuppressedAfterDelivery s := by
  refine ⟨?_, ?_, ?_, ?_⟩
  · exact exists_run _ _ Sample.atOnce _ (by decide)
  · obtain ⟨tr, s, hrun, hempty, hsuppressed⟩ := exists_run step (Sample.withChannels [])
      Sample.unsent (fun _ s => s.delivered.isEmpty = true ∧ ¬ SuppressedAfterDelivery s)
      (by decide)
    exact ⟨tr, s, hrun, List.isEmpty_iff.mp hempty, hsuppressed⟩
  · obtain ⟨tr, s, hrun, hsome, hsuppressed⟩ := exists_run step (Sample.withChannels ["hook"])
      Sample.sameKey (fun _ s => s.delivered.isEmpty = false ∧ ¬ SuppressedAfterDelivery s)
      (by decide)
    refine ⟨tr, s, hrun, ?_, hsuppressed⟩
    intro hempty
    rw [hempty] at hsome
    cases hsome
  · exact exists_run _ _ Sample.slow _ (by decide)

end MessageManager

end HeraMind.Messages
