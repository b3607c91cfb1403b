/-
# Messages in memory and in the store

An operation changes the messages in memory in one section and the rows of the store in a later
one.  So a row may be behind its message as long as a call is still to write it; it stays behind
when calls write their rows in another order than they changed the messages, when `update` inserts
the row of a message that was deleted meanwhile, and when the store keeps the row of a message
that `cleanup_old` removed, its timestamp cut to seconds.
-/
import HeraMind.Lib.Run
import HeraMind.Lib.Calls
import HeraMind.Messages.Manager

namespace HeraMind.Messages

open List Option
open Transition

section

variable {Json : Type} (lower : Lowercase)

/-- The status that the row of a message is read with. -/
def rowStatus (rows : MessageStore Json) (id : String) : Option MessageStatus :=
  (rows.lookup id).map fun row => (row.toMessage lower).status

namespace MessageCall

/-- The call makes a storage call. -/
def isPersisting : MessageCall Json → Bool
  | .insertDuplicate _ | .insert _ | .update _ _ | .deleteRow _ | .deleteRows _ _
  | .updateRows _ _ | .cleanupRows _ _ | .clearRows => true
  | _ => false

/-- The status that the call is to leave in the store at an id, if it is to write there. -/
def pending : MessageCall Json → String → Option (Option MessageStatus)
  | .insertDuplicate m, id | .insert m, id => if id = m.id then some (some m.status) else none
  | .update _ row, id => if id = row.id then some (some (row.toMessage lower).status) else none
  | .deleteRow id', id => if id = id' then some none else none
  | .deleteRows ids _, id => if id ∈ ids then some none else none
  | .updateRows rows _, id =>
    (rows.filter fun row => row.id = id).getLast?.map fun row => some (row.toMessage lower).status
  | .cleanupRows _ removed, id => if id ∈ removed then some none else none
  | .clearRows, _ => some none
  | _, _ => none

/-- The ids that the next section of the call is concerned with, each with the status that the
section leaves there. -/
def leaves (rows : MessageStore Json) (now : ℤ) :
    MessageCall Json → List (String × Option MessageStatus)
  | .insertDuplicate m | .insert m => [(m.id, some m.status)]
  | .update _ row => [(row.id, some (row.toMessage lower).status)]
  | .deleteRow id | .deleteRows (id :: _) _ => [(id, none)]
  | .updateRows (row :: _) _ => [(row.id, some (row.toMessage lower).status)]
  | .cleanupRows olderThanDays removed =>
    let old := oldRows rows olderThanDays now
    old.map (fun id => (id, none)) ++
      (removed.filter fun id => id ∉ old).map fun id => (id, rowStatus lower rows id)
  | .clearRows => rows.values.map fun row => (row.id, none)
  | _ => []

/-- The message that the call is to insert. -/
def inserting : MessageCall Json → Option (Message Json)
  | .insertDuplicate m | .insert m => some m
  | _ => none

def isReturned : MessageCall Json → Bool
  | .returned _ => true
  | _ => false

end MessageCall

namespace MessageManager

section

variable (s : MessageManager Json)

def memoryStatus (id : String) : Option MessageStatus :=
  (s.messages.lookup id).map Message.status

/-- The store holds the ids that the memory holds, with the status of their messages. -/
def Durable : Prop :=
  ∀ rows ∈ s.storage, ∀ id, rowStatus lower rows id = s.memoryStatus id

/-- A message is in neither. -/
def Absent (id : String) : Prop :=
  s.messages.lookup id = none ∧ ∀ rows ∈ s.storage, rows.lookup id = none

/-- Another call than the `n`-th takes a message out of the memory. -/
def RemovesBeside (n : ℕ) (id : String) (a : ManagerLabel Json) : Prop :=
  (∀ outcome, a ≠ .run n outcome) ∧ s.memoryStatus id ≠ none ∧
    ∃ s', s.step a = some s' ∧ s'.memoryStatus id = none

/-! ## The conditions -/

/-- Storage calls succeed. -/
def Stored : ManagerLabel Json → Prop
  | .run n outcome => ∀ call ∈ s.calls[n]?, call.isPersisting = true → outcome = .ok ()
  | .call _ | .setChannel _ _ | .removeChannel _ | .elapse _ => True

/-- What a section leaves in the store is what the memory holds, or another call is still to write
that. -/
def InOrder : ManagerLabel Json → Prop
  | .run n _ => ∀ call ∈ s.calls[n]?, ∀ rows ∈ s.storage,
    ∀ left ∈ call.leaves lower rows s.now,
      left.2 = s.memoryStatus left.1 ∨
        ∃ other ∈ s.calls.eraseIdx n, other.pending lower left.1 = some (s.memoryStatus left.1)
  | .call _ | .setChannel _ _ | .removeChannel _ | .elapse _ => True

instance : DecidablePred s.Stored
  | .run n outcome => inferInstanceAs (Decidable
      (∀ call ∈ s.calls[n]?, call.isPersisting = true → outcome = .ok ()))
  | .call _ | .setChannel _ _ | .removeChannel _ | .elapse _ => isTrue trivial

instance : DecidablePred (s.InOrder lower)
  | .run n _ => inferInstanceAs (Decidable (∀ call ∈ s.calls[n]?, ∀ rows ∈ s.storage,
      ∀ left ∈ call.leaves lower rows s.now, _ ∨ ∃ other ∈ s.calls.eraseIdx n, _))
  | .call _ | .setChannel _ _ | .removeChannel _ | .elapse _ => isTrue trivial

/-! ## Rows that are behind their messages -/

/-- A row holds what the memory holds, or a call is still to write that. -/
def Settled : Prop :=
  ∀ rows ∈ s.storage, ∀ id, rowStatus lower rows id = s.memoryStatus id ∨
    ∃ call ∈ s.calls, call.pending lower id = some (s.memoryStatus id)

end

variable {lower} {s s' : MessageManager Json} {n : ℕ} {call call' : MessageCall Json}

/-- Once all calls have returned, nothing is left to write. -/
theorem durable_of_settled (h : s.Settled lower)
    (hreturned : ∀ call ∈ s.calls, call.isReturned = true) : s.Durable lower := by
  intro rows hrows id
  rcases h rows hrows id with heq | ⟨call, hcall, hpending⟩
  · exact heq
  · have hret := hreturned call hcall
    cases call with
    | returned result => cases hpending
    | _ => cases hret

/-! ## What a section does to memory and store -/

theorem status_toStored (lower : Lowercase) (m : Message Json) :
    (m.toStored.toMessage lower).status = m.status := by
  show (MessageStatus.fromString lower.toLowercase m.status.asStr).getD .active = m.status
  rw [MessageStatus.fromString_asStr, getD_some]

theorem rowStatus_put (lower : Lowercase) (rows : MessageStore Json) (row : StoredMessage Json)
    (id : String) :
    rowStatus lower (rows.put row) id =
      if id = row.id then some (row.toMessage lower).status else rowStatus lower rows id := by
  unfold rowStatus
  rw [KeyedMap.lookup_put]
  split
  · rfl
  · rfl

theorem rowStatus_erase (lower : Lowercase) (rows : MessageStore Json) (id' id : String) :
    rowStatus lower (rows.erase id') id = if id = id' then none else rowStatus lower rows id := by
  unfold rowStatus
  rw [KeyedMap.lookup_erase]
  split
  · rfl
  · rfl

theorem lookup_removeAll {β : Type} {key : β → String} (ids : List String) (id : String) :
    ∀ map : KeyedMap String β key,
      (removeAll map ids).lookup id = if id ∈ ids then none else map.lookup id := by
  induction ids with
  | nil =>
    intro map
    rw [if_neg not_mem_nil]
    rfl
  | cons id' ids ih =>
    intro map
    show (removeAll (map.erase id') ids).lookup id = _
    rw [ih, KeyedMap.lookup_erase]
    by_cases hid : id = id'
    · rw [if_pos hid, ite_self, if_pos (mem_cons.mpr (Or.inl hid))]
    · rw [if_neg hid]
      by_cases hmem : id ∈ ids
      · rw [if_pos hmem, if_pos (mem_cons_of_mem _ hmem)]
      · rw [if_neg hmem, if_neg fun h => (mem_cons.mp h).elim hid hmem]

/-- Rows are collected for the messages that are changed, and for no others. -/
theorem changeAll_spec (lower : Lowercase) (c : Change) (ids : List String) :
    ∀ messages : MessageMap Json,
      (∀ row ∈ (changeAll c messages ids).2, (row.toMessage lower).status = c.status) ∧
        ∀ id, (((changeAll c messages ids).1.lookup id).map Message.status = some c.status ∧
            ∃ row ∈ (changeAll c messages ids).2, row.id = id) ∨
          (((changeAll c messages ids).1.lookup id).map Message.status =
            (messages.lookup id).map Message.status) := by
  induction ids with
  | nil =>
    intro messages
    exact ⟨(fun row hrow => by cases hrow), fun id => Or.inr rfl⟩
  | cons id' ids ih =>
    intro messages
    cases hm : messages.lookup id' with
    | none =>
      have hnext : changeAll c messages (id' :: ids) = changeAll c messages ids := by
        rw [changeAll, hm]
      rw [hnext]
      exact ih messages
    | some m =>
      obtain ⟨hrows, hids⟩ := ih (messages.put { m with status := c.status })
      have hnext : changeAll c messages (id' :: ids) =
          ((changeAll c (messages.put { m with status := c.status }) ids).1,
            Message.toStored { m with status := c.status } ::
              (changeAll c (messages.put { m with status := c.status }) ids).2) := by
        rw [changeAll, hm]
      rw [hnext]
      constructor
      · intro row hrow
        rcases mem_cons.mp hrow with rfl | hrow
        · exact status_toStored lower _
        · exact hrows row hrow
      · intro id
        rcases hids id with ⟨hstatus, row, hrow, hid⟩ | hstatus
        · exact Or.inl ⟨hstatus, row, mem_cons_of_mem _ hrow, hid⟩
        · rw [KeyedMap.lookup_put] at hstatus
          by_cases hid : id = m.id
          · left
            rw [if_pos hid] at hstatus
            exact ⟨hstatus, _, mem_cons_self, hid.symm⟩
          · right
            rw [if_neg hid] at hstatus
            exact hstatus

/-- A call is not to write anything. -/
theorem pending_eq_none (hcall : call.isPersisting = false) (id : String) :
    call.pending lower id = none := by
  cases call <;> first | rfl | cases hcall

theorem isPersisting_of_storageSection {outcome : Except String Unit}
    (h : s.storageSection outcome call = some (s', call')) : call.isPersisting = true := by
  cases call <;> first | rfl | cases h

/-- The message of an id, after one is put. -/
theorem memoryStatus_put (m : Message Json) (id : String) :
    ({ s with messages := s.messages.put m } : MessageManager Json).memoryStatus id =
      if id = m.id then some m.status else s.memoryStatus id := by
  unfold memoryStatus
  dsimp only
  rw [KeyedMap.lookup_put]
  split
  · rfl
  · rfl

/-- A section that changes the messages leaves it to the call to write what it has changed. -/
theorem memorySection_spec (lower : Lowercase)
    (h : s.memorySection call = some (s', call')) :
    call.isPersisting = false ∧ s'.storage = s.storage ∧
      ∀ id, s'.memoryStatus id = s.memoryStatus id ∨
        call'.pending lower id = some (s'.memoryStatus id) := by
  cases call with
  | storeDuplicate m | store m =>
    cases h
    refine ⟨rfl, rfl, fun id => ?_⟩
    rw [memoryStatus_put]
    by_cases hid : id = m.id
    · right
      rw [if_pos hid]
      exact if_pos hid
    · exact Or.inl (if_neg hid)
  | change c id' =>
    cases hm : s.messages.lookup id' with
    | none =>
      simp only [memorySection, hm] at h
      cases h
      exact ⟨rfl, rfl, fun id => Or.inl rfl⟩
    | some m =>
      simp only [memorySection, hm] at h
      cases h
      refine ⟨rfl, rfl, fun id => ?_⟩
      rw [memoryStatus_put]
      by_cases hid : id = m.id
      · right
        rw [if_pos hid]
        show (if id = m.id then some (some _) else none) = _
        rw [if_pos hid, status_toStored]
      · exact Or.inl (if_neg hid)
  | remove id' =>
    cases hm : s.messages.lookup id' with
    | none =>
      simp only [memorySection, hm] at h
      cases h
      exact ⟨rfl, rfl, fun id => Or.inl rfl⟩
    | some m =>
      simp only [memorySection, hm] at h
      cases h
      refine ⟨rfl, rfl, fun id => ?_⟩
      unfold memoryStatus
      dsimp only
      rw [KeyedMap.lookup_erase]
      by_cases hid : id = id'
      · right
        rw [if_pos hid]
        exact if_pos hid
      · left
        rw [if_neg hid]
  | removeMany ids =>
    cases h
    refine ⟨rfl, rfl, fun id => ?_⟩
    unfold memoryStatus
    dsimp only
    rw [lookup_removeAll]
    by_cases hid : id ∈ ids
    · right
      rw [if_pos hid]
      exact if_pos hid
    · left
      rw [if_neg hid]
  | changeMany c ids =>
    cases h
    refine ⟨rfl, rfl, fun id => ?_⟩
    obtain ⟨hrows, hids⟩ := changeAll_spec lower c ids s.messages
    rcases hids id with ⟨hstatus, row, hrow, hid⟩ | hstatus
    · right
      show ((_ : List (StoredMessage Json)).getLast?.map fun row => some _) = some (_ : Option _)
      cases hlast : ((changeAll c s.messages ids).2.filter fun row => row.id = id).getLast? with
      | none =>
        have hempty := getLast?_eq_none_iff.mp hlast
        have hmem : row ∈ (changeAll c s.messages ids).2.filter fun row => row.id = id :=
          mem_filter.mpr ⟨hrow, decide_eq_true hid⟩
        rw [hempty] at hmem
        cases hmem
      | some last =>
        have hmem := mem_of_getLast? hlast
        rw [map_some, hrows last (mem_filter.mp hmem).1]
        exact congrArg some hstatus.symm
    · exact Or.inl hstatus
  | retain olderThanDays cutoff =>
    cases h
    refine ⟨rfl, rfl, fun id => ?_⟩
    unfold memoryStatus
    dsimp only
    rw [lookup_removeAll]
    by_cases hid : id ∈ olderThan s.messages cutoff
    · right
      rw [if_pos hid]
      exact if_pos hid
    · left
      rw [if_neg hid]
  | clearMemory =>
    cases h
    refine ⟨rfl, rfl, fun id => Or.inr ?_⟩
    unfold memoryStatus
    dsimp only
    rw [KeyedMap.lookup_empty]
    rfl
  | _ => cases h

/-- What is said of a section that makes a storage call, or that is the end of a list of them: at
each id it leaves the row alone, or what it was to leave. -/
def Persists (lower : Lowercase) (s : MessageManager Json) (call : MessageCall Json)
    (s' : MessageManager Json) (call' : MessageCall Json) : Prop :=
  s'.messages = s.messages ∧ ∀ rows' ∈ s'.storage, ∃ rows ∈ s.storage,
    ∀ id, (∃ left ∈ call.leaves lower rows s.now, left.1 = id ∧
        rowStatus lower rows' id = left.2) ∨
      (rowStatus lower rows' id = rowStatus lower rows id ∧ ∀ status,
        call.pending lower id = some status →
          call'.pending lower id = some status ∨ status = rowStatus lower rows' id)

/-- A storage call changes one row. -/
theorem persists_one {f : MessageStore Json → MessageStore Json} {id' : String}
    {left : Option MessageStatus}
    (hleaves : ∀ rows, (id', left) ∈ call.leaves lower rows s.now)
    (hself : ∀ rows, rowStatus lower (f rows) id' = left)
    (hne : ∀ rows id, id ≠ id' → rowStatus lower (f rows) id = rowStatus lower rows id)
    (hpending : ∀ id, id ≠ id' → ∀ status, call.pending lower id = some status →
      call'.pending lower id = some status) :
    Persists lower s call (s.persist f) call' := by
  refine ⟨rfl, fun rows' hrows' => ?_⟩
  obtain ⟨rows, hrows, rfl⟩ := map_eq_some_iff.mp hrows'
  refine ⟨rows, hrows, fun id => ?_⟩
  by_cases hid : id = id'
  · left
    refine ⟨_, hleaves rows, hid.symm, ?_⟩
    rw [hid]
    exact hself rows
  · right
    exact ⟨hne rows id hid, fun status hstatus => Or.inl (hpending id hid status hstatus)⟩

/-- A row is inserted or updated. -/
theorem persists_put {row : StoredMessage Json}
    (hleaves : ∀ rows, (row.id, some (row.toMessage lower).status) ∈ call.leaves lower rows s.now)
    (hpending : ∀ id, id ≠ row.id → ∀ status, call.pending lower id = some status →
      call'.pending lower id = some status) :
    Persists lower s call (s.putRow row (.ok ())) call' := by
  refine persists_one hleaves ?_ ?_ hpending
  · intro rows
    rw [rowStatus_put, if_pos rfl]
  · intro rows id hid
    rw [rowStatus_put, if_neg hid]

/-- A row is deleted. -/
theorem persists_erase {id' : String}
    (hleaves : ∀ rows, (id', none) ∈ call.leaves lower rows s.now)
    (hpending : ∀ id, id ≠ id' → ∀ status, call.pending lower id = some status →
      call'.pending lower id = some status) :
    Persists lower s call (s.eraseRow id' (.ok ())) call' := by
  refine persists_one hleaves ?_ ?_ hpending
  · intro rows
    rw [rowStatus_erase, if_pos rfl]
  · intro rows id hid
    rw [rowStatus_erase, if_neg hid]

theorem storageSection_spec (lower : Lowercase)
    (h : s.storageSection (.ok ()) call = some (s', call')) :
    Persists lower s call s' call' := by
  cases call with
  | insertDuplicate m | insert m =>
    cases h
    refine persists_put ?_ ?_
    · intro rows
      rw [status_toStored]
      exact mem_singleton.mpr rfl
    · intro id hid status hstatus
      rw [MessageCall.pending, if_neg (show ¬ id = m.id from hid)] at hstatus
      cases hstatus
  | update c row =>
    cases h
    refine persists_put (fun rows => mem_singleton.mpr rfl) ?_
    intro id hid status hstatus
    rw [MessageCall.pending, if_neg hid] at hstatus
    cases hstatus
  | deleteRow id' =>
    cases h
    refine persists_erase (fun rows => mem_singleton.mpr rfl) ?_
    intro id hid status hstatus
    rw [MessageCall.pending, if_neg hid] at hstatus
    cases hstatus
  | deleteRows ids count =>
    cases ids with
    | nil =>
      cases h
      refine ⟨rfl, fun rows hrows => ⟨rows, hrows, fun id => Or.inr ⟨rfl, ?_⟩⟩⟩
      intro status hstatus
      rw [MessageCall.pending, if_neg not_mem_nil] at hstatus
      cases hstatus
    | cons id' ids =>
      cases h
      refine persists_erase (fun rows => mem_singleton.mpr rfl) ?_
      intro id hid status hstatus
      rw [MessageCall.pending] at hstatus ⊢
      rw [← hstatus]
      congr 1
      rw [mem_cons, or_iff_right hid]
  | updateRows rows count =>
    cases rows with
    | nil =>
      cases h
      refine ⟨rfl, fun rows hrows => ⟨rows, hrows, fun id => Or.inr ⟨rfl, ?_⟩⟩⟩
      intro status hstatus
      cases hstatus
    | cons row rows =>
      cases h
      refine persists_put (fun rows => mem_singleton.mpr rfl) ?_
      intro id hid status hstatus
      rw [MessageCall.pending, filter_cons, if_neg] at hstatus
      · exact hstatus
      · rw [decide_eq_true_eq]
        exact Ne.symm hid
  | cleanupRows olderThanDays removed =>
    cases h
    refine ⟨rfl, fun rows' hrows' => ?_⟩
    obtain ⟨rows, hrows, rfl⟩ := map_eq_some_iff.mp hrows'
    refine ⟨rows, hrows, fun id => ?_⟩
    have hlookup : rowStatus lower (removeAll rows (oldRows rows olderThanDays s.now)) id =
        if id ∈ oldRows rows olderThanDays s.now then none else rowStatus lower rows id := by
      unfold rowStatus
      rw [lookup_removeAll]
      split
      · rfl
      · rfl
    by_cases hold : id ∈ oldRows rows olderThanDays s.now
    · left
      refine ⟨(id, none), mem_append_left _ (mem_map_of_mem hold), rfl, ?_⟩
      rw [hlookup, if_pos hold]
    · rw [if_neg hold] at hlookup
      by_cases hremoved : id ∈ removed
      · left
        refine ⟨(id, rowStatus lower rows id), mem_append_right _ ?_, rfl, hlookup⟩
        refine mem_map.mpr ⟨id, mem_filter.mpr ⟨hremoved, decide_eq_true hold⟩, rfl⟩
      · right
        refine ⟨hlookup, fun status hstatus => ?_⟩
        rw [MessageCall.pending, if_neg hremoved] at hstatus
        cases hstatus
  | clearRows =>
    cases h
    refine ⟨rfl, fun rows' hrows' => ?_⟩
    obtain ⟨rows, hrows, rfl⟩ := map_eq_some_iff.mp hrows'
    refine ⟨rows, hrows, fun id => ?_⟩
    cases hrow : rows.lookup id with
    | some row =>
      left
      have hid := KeyedMap.key_of_lookup hrow
      have hmem : row ∈ rows.values := by
        rw [KeyedMap.mem_values, hid, hrow]
      exact ⟨(row.id, none), mem_map.mpr ⟨row, hmem, rfl⟩, hid, rfl⟩
    | none =>
      right
      refine ⟨?_, fun status hstatus => ?_⟩
      · unfold rowStatus
        rw [hrow, KeyedMap.lookup_empty]
      · cases hstatus
        exact Or.inr rfl
  | _ => cases h

/-- The other sections change neither memory nor store. -/
theorem sendSection_spec {outcome : Except String Unit}
    (h : s.sendSection n outcome call = some (s', call')) :
    call.isPersisting = false ∧ s'.messages = s.messages ∧ s'.storage = s.storage := by
  cases call with
  | check m =>
    simp only [sendSection] at h
    split at h
    · cases h
      exact ⟨rfl, rfl, rfl⟩
    · cases h
      exact ⟨rfl, rfl, rfl⟩
  | listChannels m =>
    cases h
    exact ⟨rfl, rfl, rfl⟩
  | sendAll m names =>
    cases names with
    | nil =>
      cases h
      exact ⟨rfl, rfl, rfl⟩
    | cons name names =>
      simp only [sendSection] at h
      split at h
      · cases h
        exact ⟨rfl, rfl, rfl⟩
      · cases h
        exact ⟨rfl, rfl, rfl⟩
  | send m names =>
    cases outcome with
    | ok _ | error e =>
      cases h
      exact ⟨rfl, rfl, rfl⟩
  | publish m =>
    cases h
    exact ⟨rfl, rfl, rfl⟩
  | updateCache m =>
    simp only [sendSection] at h
    split at h
    · cases h
    · cases h
      exact ⟨rfl, rfl, rfl⟩
  | publishChange c id | cleanup olderThanDays =>
    cases h
    exact ⟨rfl, rfl, rfl⟩
  | _ => cases h

/-- A section leaves the other calls alone, and a call that goes on to the insert of its message has
put it into the memory. -/
theorem runSection_spec {outcome : Except String Unit}
    (h : s.runSection n outcome call = some (s', call')) :
    s'.calls = s.calls ∧ ∀ m, call'.inserting = some m → s'.memoryStatus m.id ≠ none := by
  unfold runSection at h
  split at h
  · rename_i r hmemory
    split at h
    · cases h
    · cases h
      cases call with
      | storeDuplicate m' | store m' =>
        cases hmemory
        refine ⟨rfl, fun m hin => ?_⟩
        cases hin
        rw [memoryStatus_put, if_pos rfl]
        exact some_ne_none _
      | change c id | remove id =>
        simp only [memorySection] at hmemory
        split at hmemory <;> cases hmemory <;> exact ⟨rfl, fun m hin => by cases hin⟩
      | _ => cases hmemory <;> exact ⟨rfl, fun m hin => by cases hin⟩
  · have hafter : ∀ failure next, next.inserting = none →
        (s.afterStorage outcome failure next).inserting = none := by
      intro failure next hnext
      unfold afterStorage
      split
      · rfl
      · exact hnext
    rcases or_eq_some_iff.mp h with hstorage | ⟨-, hsend⟩
    · unfold storageSection at hstorage
      split at hstorage <;> cases hstorage
      all_goals
        refine ⟨by cases outcome <;> rfl, fun m hin => ?_⟩
        first | cases hin | cases (hafter _ _ rfl).symm.trans hin
    · unfold sendSection at hsend
      split at hsend <;> (try split at hsend) <;> cases hsend <;>
        exact ⟨rfl, fun m hin => by cases hin⟩

/-! ## Steps -/

namespace Settled

/-- The messages were changed. -/
theorem memory (h : s.Settled lower) (hn : s.calls[n]? = some call)
    (hsection : s.memorySection call = some (s', call')) :
    ({ s' with calls := s.calls.set n call' } : MessageManager Json).Settled lower := by
  obtain ⟨hcall, hstorage, hids⟩ := memorySection_spec lower hsection
  intro rows hrows id
  dsimp only at hrows ⊢
  rw [hstorage] at hrows
  show rowStatus lower rows id = s'.memoryStatus id ∨
    ∃ c ∈ s.calls.set n call', c.pending lower id = some (s'.memoryStatus id)
  rcases hids id with hsame | hpending
  · rw [hsame]
    refine (h rows hrows id).imp_right (Calls.exists_mem_set hn fun hp => ?_)
    rw [pending_eq_none hcall] at hp
    cases hp
  · exact Or.inr ⟨call', Calls.mem_set_self hn call', hpending⟩

/-- Rows were changed. -/
theorem storage (h : s.Settled lower) (hn : s.calls[n]? = some call)
    (horder : ∀ rows ∈ s.storage, ∀ left ∈ call.leaves lower rows s.now,
      left.2 = s.memoryStatus left.1 ∨
        ∃ other ∈ s.calls.eraseIdx n, other.pending lower left.1 = some (s.memoryStatus left.1))
    (hsection : Persists lower s call s' call') :
    ({ s' with calls := s.calls.set n call' } : MessageManager Json).Settled lower := by
  obtain ⟨hmessages, hrows⟩ := hsection
  intro rows' hrows' id
  have hstatus : s'.memoryStatus id = s.memoryStatus id := by
    unfold memoryStatus
    rw [hmessages]
  dsimp only at hrows' ⊢
  show rowStatus lower rows' id = s'.memoryStatus id ∨
    ∃ c ∈ s.calls.set n call', c.pending lower id = some (s'.memoryStatus id)
  rw [hstatus]
  obtain ⟨rows, hrows, hids⟩ := hrows rows' hrows'
  rcases hids id with ⟨left, hleft, rfl, hleave⟩ | ⟨hsame, hnext⟩
  · rcases horder rows hrows left hleft with heq | ⟨other, hother, hp⟩
    · exact Or.inl (hleave.trans heq)
    · exact Or.inr ⟨other, Calls.mem_set_of_mem_eraseIdx hother call', hp⟩
  · rcases h rows hrows id with heq | ⟨c, hc, hp⟩
    · exact Or.inl (hsame.trans heq)
    · rcases Calls.mem_set_or_eq hn hc call' with rfl | hc
      · rcases hnext _ hp with hp | heq
        · exact Or.inr ⟨call', Calls.mem_set_self hn call', hp⟩
        · exact Or.inl heq.symm
      · exact Or.inr ⟨c, hc, hp⟩

/-- Neither was changed, by a call that is not to write anything. -/
theorem other (h : s.Settled lower) (hn : s.calls[n]? = some call)
    (hcall : call.isPersisting = false) (hmessages : s'.messages = s.messages)
    (hstorage : s'.storage = s.storage) :
    ({ s' with calls := s.calls.set n call' } : MessageManager Json).Settled lower := by
  intro rows hrows id
  have hstatus : s'.memoryStatus id = s.memoryStatus id := by
    unfold memoryStatus
    rw [hmessages]
  dsimp only at hrows ⊢
  rw [hstorage] at hrows
  show rowStatus lower rows id = s'.memoryStatus id ∨
    ∃ c ∈ s.calls.set n call', c.pending lower id = some (s'.memoryStatus id)
  rw [hstatus]
  rcases h rows hrows id with heq | ⟨c, hc, hp⟩
  · exact Or.inl heq
  · right
    rcases Calls.mem_set_or_eq hn hc call' with rfl | hc
    · rw [pending_eq_none hcall] at hp
      cases hp
    · exact ⟨c, hc, hp⟩

/-- A step in its turn, whose storage call succeeds. -/
theorem step {a : ManagerLabel Json} (h : s.Settled lower) (hstored : s.Stored a)
    (horder : s.InOrder lower a) (hs : s.step a = some s') : s'.Settled lower := by
  cases a with
  | call op =>
    cases hs
    intro rows hrows id
    rcases h rows hrows id with heq | ⟨c, hc, hp⟩
    · exact Or.inl heq
    · exact Or.inr ⟨c, mem_append_left _ hc, hp⟩
  | run n outcome =>
    obtain ⟨call, s₁, call', hn, hr, rfl⟩ := step_run hs
    rw [(runSection_spec hr).1]
    unfold runSection at hr
    split at hr
    · rename_i r hmemory
      split at hr
      · cases hr
      · cases hr
        exact h.memory hn hmemory
    · rcases or_eq_some_iff.mp hr with hstorage | ⟨-, hsend⟩
      · rw [hstored call hn (isPersisting_of_storageSection hstorage)] at hstorage
        exact h.storage hn (horder call hn) (storageSection_spec lower hstorage)
      · obtain ⟨hcall, hmessages, hrows⟩ := sendSection_spec hsend
        exact h.other hn hcall hmessages hrows
  | setChannel name channel | removeChannel name | elapse d =>
    cases hs
    exact h

end Settled

/-- The manager holds a message for each row of its store, with the status that is read. -/
theorem memoryStatus_opened (rows : MessageStore Json) (channels : HashMap String Channel)
    (eventBus : Bool) (now : ℤ) (id : String) :
    (opened lower (some rows) channels eventBus now).memoryStatus id = rowStatus lower rows id := by
  show (KeyedMap.lookup _ id).map Message.status = _
  unfold rowStatus
  dsimp only [opened]
  rw [KeyedMap.lookup_foldl_put_values (f := StoredMessage.toMessage lower) rows (fun row => rfl),
    Option.map_map]
  rfl

theorem settled_opened (rows : Option (MessageStore Json)) (channels : HashMap String Channel)
    (eventBus : Bool) (now : ℤ) : (opened lower rows channels eventBus now).Settled lower := by
  intro rows' hrows id
  cases hrows
  left
  rw [memoryStatus_opened]

/-! ## Runs -/

/-- A call is to insert its message: it is there, unless another call removed it. -/
theorem inserting_of_step {a : ManagerLabel Json} {m : Message Json} (hs : s.step a = some s')
    (hn : s'.calls[n]? = some call) (hin : call.inserting = some m) :
    s'.memoryStatus m.id ≠ none ∨
      s.calls[n]? = some call ∧ ∀ outcome, a ≠ .run n outcome := by
  cases a with
  | call op =>
    cases hs
    rcases Calls.getElem?_append_cases hn with ⟨-, rfl⟩ | hn
    · cases op <;> cases hin
    · exact Or.inr ⟨hn, fun outcome heq => by cases heq⟩
  | run k outcome =>
    obtain ⟨c, s₁, call', hk, hsection, rfl⟩ := step_run hs
    obtain ⟨hcalls, hput⟩ := runSection_spec hsection
    dsimp only at hn
    rw [hcalls] at hn
    rcases Calls.getElem?_set_cases hn with ⟨rfl, rfl⟩ | ⟨hne, hn⟩
    · exact Or.inl (hput m hin)
    · exact Or.inr ⟨hn, fun outcome heq => by cases heq; exact hne rfl⟩
  | setChannel name channel | removeChannel name | elapse d =>
    cases hs
    exact Or.inr ⟨hn, fun outcome heq => by cases heq⟩

/-- A message that is to be inserted, and is not in memory, was removed by another call. -/
theorem removed_of_inserting {rows : Option (MessageStore Json)}
    {channels : HashMap String Channel} {eventBus : Bool} {now : ℤ}
    {tr : List (MessageManager Json × ManagerLabel Json)} {m : Message Json}
    (hr : Run step (opened lower rows channels eventBus now) tr s)
    (hn : s.calls[n]? = some call) (hin : call.inserting = some m)
    (hnone : s.memoryStatus m.id = none) : ∃ e ∈ tr, e.1.RemovesBeside n m.id e.2 := by
  induction hr with
  | nil => cases hn
  | @snoc tr s s' a hrun hs ih =>
    rcases inserting_of_step hs hn hin with hsome | ⟨hn, hother⟩
    · exact absurd hnone hsome
    · by_cases hbefore : s.memoryStatus m.id = none
      · obtain ⟨e, he, hremoves⟩ := ih hn hbefore
        exact ⟨e, mem_cons_of_mem _ he, hremoves⟩
      · exact ⟨(s, a), mem_cons_self, hother, hbefore, s', hs, hnone⟩

/-- In every run in which storage calls succeed and the store is written in order, the store holds
the ids and statuses of the memory once all calls have returned, and so does the memory after a
restart.  When the insert of a new message fails, the message is in neither only if it was in
neither already, and then another call has removed it. -/
theorem durable_of_run (lower : Lowercase) (rows : Option (MessageStore Json))
    (channels : HashMap String Channel) (eventBus : Bool) (now : ℤ)
    (tr : List (MessageManager Json × ManagerLabel Json)) (s : MessageManager Json)
    (hr : Run step (opened lower rows channels eventBus now) tr s) :
    (Within Stored tr → Within (InOrder lower) tr →
      (∀ call ∈ s.calls, call.isReturned = true) →
        s.Durable lower ∧
          ∀ rows ∈ s.storage, ∀ channels eventBus now id,
            (opened lower (some rows) channels eventBus now).memoryStatus id = s.memoryStatus id) ∧
      ∀ post s₁ n e pre m, tr = post ++ (s₁, ManagerLabel.run n (.error e)) :: pre →
        (s₁.calls[n]? = some (.insert m) ∨ s₁.calls[n]? = some (.insertDuplicate m)) →
        ∃ s₂, s₁.step (.run n (.error e)) = some s₂ ∧ (s₂.Absent m.id ↔ s₁.Absent m.id) ∧
          (s₂.Absent m.id → ∃ r ∈ pre, r.1.RemovesBeside n m.id r.2) := by
  constructor
  · intro hstored horder hreturned
    have hboth : Within (fun s a => s.Stored a ∧ s.InOrder lower a) tr := fun e he =>
      ⟨hstored e he, horder e he⟩
    have hsettled : s.Settled lower :=
      hr.invariant hboth (settled_opened rows channels eventBus now)
        fun _ _ _ h hok hs => h.step hok.1 hok.2 hs
    have hdurable := durable_of_settled hsettled hreturned
    refine ⟨hdurable, fun rows hrows channels eventBus now id => ?_⟩
    rw [memoryStatus_opened]
    exact hdurable rows hrows id
  · intro post s₁ n e pre m htr hcall
    subst htr
    have hsection : ∃ call call', s₁.calls[n]? = some call ∧ call.inserting = some m ∧
        s₁.runSection n (.error e) call = some (s₁, call') := by
      rcases hcall with hcall | hcall
      · exact ⟨_, _, hcall, rfl, rfl⟩
      · exact ⟨_, _, hcall, rfl, rfl⟩
    obtain ⟨call, call', hcall, hin, hrun⟩ := hsection
    refine ⟨{ s₁ with calls := s₁.calls.set n call' }, ?_, Iff.rfl, fun habsent => ?_⟩
    · simp only [MessageManager.step, hcall, hrun, map_some]
    · refine removed_of_inserting hr.split.1 hcall hin ?_
      exact map_eq_none_iff.mpr habsent.1

/-- A store that holds another status than the memory. -/
theorem not_durable {id : String} {status : Option MessageStatus}
    (h : (s.storage.map fun rows => rowStatus lower rows id) = some status)
    (hne : status ≠ s.memoryStatus id) : ¬ s.Durable lower := by
  intro hdurable
  obtain ⟨rows, hrows, rfl⟩ := map_eq_some_iff.mp h
  exact hne (hdurable rows hrows id)

end MessageManager

end

namespace Sample

/-- The manager with one message in its store. -/
def reopened : MessageManager Unit :=
  MessageManager.opened lower
    (some (KeyedMap.empty.put (Message.toStored (alert "0" "hot" "s")))) ∅ true 0

/-- Every operation runs alone, and two days pass. -/
def oneByOne : List (ManagerLabel Unit) :=
  .call (.createMessage (alert "1" "cold" "s")) :: sections 0 7 ++
    .call (.acknowledge "1") :: sections 1 3 ++ .call (.resolve "1") :: sections 2 3 ++
    .call (.delete "0") :: sections 3 2 ++
    [seconds 172800,
      .call (.createMessage { alert "2" "hot" "s" with timestamp := 172800 * second })] ++
    sections 4 7 ++ .call (.cleanupOld 1) :: sections 5 3 ++
    .call (.resolveMultiple ["1", "2"]) :: sections 6 3

/-- A message is acknowledged and then resolved, and the rows are written the other way round. -/
def resolvedFirst : List (ManagerLabel Unit) :=
  [.call (.acknowledge "0"), .call (.resolve "0")] ++ sections 0 1 ++ sections 1 3 ++ sections 0 2

/-- A message is deleted before its row is updated. -/
def updatedLast : List (ManagerLabel Unit) :=
  .call (.acknowledge "0") :: sections 0 1 ++ .call (.delete "0") :: sections 1 2 ++ sections 0 2

/-- A message is half a second too old. -/
def halfSecond : List (ManagerLabel Unit) :=
  [seconds 86400, .elapse 500000000, .call (.cleanupOld 1)] ++ sections 0 3

/-- The row of a new message is not inserted. -/
def insertFails : List (ManagerLabel Unit) :=
  .call (.createMessage (alert "1" "cold" "s")) :: sections 0 2 ++ [.run 0 (.error "disk full")]

end Sample

namespace MessageManager

/-- One message is left, which is resolved. -/
theorem durable_of_run_oneByOne : ∃ tr s,
    Run step Sample.reopened tr s ∧ Within Stored tr ∧ Within (InOrder Sample.lower) tr ∧
      s.messages.values.map Message.id = ["2"] ∧ s.memoryStatus "2" = some .resolved ∧
      s.Durable Sample.lower := by
  obtain ⟨tr, s, hrun, hstored, horder, hreturned, hids, hstatus⟩ := exists_run step Sample.reopened
    Sample.oneByOne
    (fun tr s => Within Stored tr ∧ Within (InOrder Sample.lower) tr ∧
      (∀ call ∈ s.calls, call.isReturned = true) ∧
      s.messages.values.map Message.id = ["2"] ∧ s.memoryStatus "2" = some .resolved)
    (by decide)
  have hdurable := (durable_of_run Sample.lower _ _ _ _ tr s hrun).1 hstored horder hreturned
  exact ⟨tr, s, hrun, hstored, horder, hids, hstatus, hdurable.1⟩

/-- All storage calls succeed and all operations have returned, but a resolved message is stored as
acknowledged, a deleted one is still stored, and so is one that was too old; and a message whose
insert failed is in memory. -/
theorem store_disagrees :
    (∃ tr s, Run step Sample.reopened tr s ∧ Within Stored tr ∧
      (∀ call ∈ s.calls, call.isReturned = true) ∧ s.memoryStatus "0" = some .resolved ∧
      ¬ s.Durable Sample.lower) ∧
    (∃ tr s, Run step Sample.reopened tr s ∧ Within Stored tr ∧
      (∀ call ∈ s.calls, call.isReturned = true) ∧ s.memoryStatus "0" = none ∧
      ¬ s.Durable Sample.lower) ∧
    (∃ tr s, Run step Sample.reopened tr s ∧ Within Stored tr ∧
      (∀ call ∈ s.calls, call.isReturned = true) ∧ s.calls.length = 1 ∧
      ¬ s.Durable Sample.lower) ∧
    ∃ tr s, Run step Sample.reopened tr s ∧
      (∀ call ∈ s.calls, call.isReturned = true) ∧ s.memoryStatus "1" = some .active ∧
      ¬ s.Absent "1" := by
  refine ⟨?_, ?_, ?_, ?_⟩
  · obtain ⟨tr, s, hrun, hstored, hreturned, hstatus, hrow⟩ := exists_run step Sample.reopened
      Sample.resolvedFirst
      (fun tr s => Within Stored tr ∧ (∀ call ∈ s.calls, call.isReturned = true) ∧
        s.memoryStatus "0" = some .resolved ∧
        (s.storage.map fun rows => rowStatus Sample.lower rows "0") = some (some .acknowledged))
      (by decide)
    refine ⟨tr, s, hrun, hstored, hreturned, hstatus, not_durable hrow ?_⟩
    rw [hstatus]
    decide
  · obtain ⟨tr, s, hrun, hstored, hreturned, hstatus, hrow⟩ := exists_run step Sample.reopened
      Sample.updatedLast
      (fun tr s => Within Stored tr ∧ (∀ call ∈ s.calls, call.isReturned = true) ∧
        s.memoryStatus "0" = none ∧
        (s.storage.map fun rows => rowStatus Sample.lower rows "0") = some (some .acknowledged))
      (by decide)
    refine ⟨tr, s, hrun, hstored, hreturned, hstatus, not_durable hrow ?_⟩
    rw [hstatus]
    decide
  · obtain ⟨tr, s, hrun, hstored, hreturned, hcalls, hstatus, hrow⟩ := exists_run step
      Sample.reopened Sample.halfSecond
      (fun tr s => Within Stored tr ∧ (∀ call ∈ s.calls, call.isReturned = true) ∧
        s.calls.length = 1 ∧ s.memoryStatus "0" = none ∧
        (s.storage.map fun rows => rowStatus Sample.lower rows "0") = some (some .active))
      (by decide)
    refine ⟨tr, s, hrun, hstored, hreturned, hcalls, not_durable hrow ?_⟩
    rw [hstatus]
    decide
  · obtain ⟨tr, s, hrun, hreturned, hstatus⟩ := exists_run step Sample.reopened Sample.insertFails
      (fun tr s => (∀ call ∈ s.calls, call.isReturned = true) ∧ s.memoryStatus "1" = some .active)
      (by decide)
    refine ⟨tr, s, hrun, hreturned, hstatus, fun habsent => ?_⟩
    rw [memoryStatus, habsent.1] at hstatus
    cases hstatus

end MessageManager

end HeraMind.Messages
