/-
# The history of commands is faithful

An id is given out once, no record is overwritten by another command, and a command that has
returned is stored with the status it returned.

This is so if the greatest number of a stored id is among the rows that are listed at the start, no
command gets an id before the history is loaded, every command that was recorded is concluded with a
status, and the history in memory still holds a command when its status is recorded.
-/
import HeraMind.Devices.CommandHistory

namespace HeraMind.Devices

open List Option AList

variable {F : Type} {text : ParametersText F}

/-! ## Ids -/

theorem commandId_injective {m n : ℕ} (h : commandId m = commandId n) : m = n := by
  have hdigits : Nat.toDigits 10 m = Nat.toDigits 10 n := by
    have hlist := congrArg String.toList h
    unfold commandId at hlist
    rw [String.toList_append, String.toList_append, append_cancel_left_eq] at hlist
    exact Nat.toList_repr.symm.trans (hlist.trans Nat.toList_repr)
  rw [← Nat.ofDigitChars_ten_toDigits (n := m), hdigits, Nat.ofDigitChars_ten_toDigits]

/-! ## What is claimed -/

/-- The record is one of the command. -/
structure CommandRecord.IsOf {S : Type} (record : CommandRecord S F) (command : Command F)
    (id : String) : Prop where
  commandId : record.commandId = id
  deviceId : record.deviceId = command.deviceId
  commandName : record.commandName = command.commandName
  parameters : record.parameters = command.params

/-- The status of a command with that answer. -/
def finalStatus (reply : Except DeviceError Unit) : CommandStatus :=
  if reply.isOk then .success else .failed

/-- The device and id of a call that has drawn its id. -/
def CommandPc.key : CommandPc F → Option (String × String)
  | .record command id => some (command.deviceId, id)
  | .savePending command saved => some (command.deviceId, saved.commandId)
  | .route command id | .update command id _ _ => some (command.deviceId, id)
  | .saveUpdated command saved _ => some (command.deviceId, saved.commandId)
  | _ => none

/-- The device and id of a command that was answered. -/
def CommandAnswer.key (a : CommandAnswer F) : String × String :=
  (a.command.deviceId, a.commandId)

namespace CommandService

/-- A command is stored, in memory or in progress under the key. -/
def Uses (s : CommandService F) (key : String × String) : Prop :=
  s.table.lookup key ≠ none ∨ (∃ record ∈ s.records key.1, record.commandId = key.2) ∨
    ∃ pc ∈ s.calls, CommandPc.key pc = some key

/-- The answered command is stored with the status that agrees with its answer. -/
def IsRecorded (s : CommandService F) (a : CommandAnswer F) : Prop :=
  ∃ record, s.table.lookup a.key = some record ∧ record.IsOf a.command a.commandId ∧
    record.status = (finalStatus a.reply).toStorage

/-- An id that is drawn is not used yet, and a record is saved under a key that is free or that of
its own command. -/
def IsFaithfulStep (s : CommandService F) : CommandLabel F → Prop
  | .advance n _ =>
    (∀ command, s.calls[n]? = some (.drawId command) →
      ¬s.Uses (command.deviceId, commandId s.commandIdCounter)) ∧
    (∀ command record, s.calls[n]? = some (.savePending command record) →
      s.table.lookup record.key = none) ∧
    ∀ command record reply, s.calls[n]? = some (.saveUpdated command record reply) →
      ∃ stored, s.table.lookup record.key = some stored ∧ stored.IsOf command record.commandId
  | _ => True

/-- The history is loaded. -/
def isLoaded (s : CommandService F) : Bool :=
  match s.load with
  | .loaded => true
  | _ => false

/-- The rows that were listed include one with the greatest number among those of the table. -/
structure Covers (table : CommandTable F) (rows : List (Storage.CommandHistoryRecord F)) :
    Prop where
  greatest : ∀ key n, table.lookup key ≠ none → key.2 = commandId n →
    ∃ row ∈ rows, ∃ m, commandNumber row.commandId = some m ∧ n ≤ m
  small : ∀ row ∈ rows, ∀ m, commandNumber row.commandId = some m → m + 1 < 2 ^ 64

/-- The condition on a call that goes on. -/
def Careful (s : CommandService F) (env : CommandEnv) : CommandPc F → Prop
  | .drawId _ => s.isLoaded = true ∧ s.commandIdCounter + 1 < 2 ^ 64
  | .route command _ => (env.outcome.conclude command.deviceId).1.isSome = true
  | .update command id _ _ => (s.findRecord command.deviceId id).isSome = true
  | _ => True

/-- The condition on a step. -/
def Orderly (text : ParametersText F) (s : CommandService F) : CommandLabel F → Prop
  | .advance n env => ∀ pc, s.calls[n]? = some pc → s.Careful env pc
  | .list => Covers s.table (s.table.listAllCommands text 1000)
  | _ => True

/-! ## The invariant -/

/-- The records in memory with the id are of the command. -/
def Own (s : CommandService F) (command : Command F) (id : String) : Prop :=
  ∀ record ∈ s.records command.deviceId, record.commandId = id → record.IsOf command id

/-- The stored record with the id is of the command. -/
def Stored (s : CommandService F) (command : Command F) (id : String) : Prop :=
  ∃ record, s.table.lookup (command.deviceId, id) = some record ∧ record.IsOf command id

/-- What a call knows. -/
def Holds (s : CommandService F) : CommandPc F → Prop
  | .record command id =>
    s.table.lookup (command.deviceId, id) = none ∧
      ∀ record ∈ s.records command.deviceId, record.commandId ≠ id
  | .savePending command record =>
    s.table.lookup (command.deviceId, record.commandId) = none ∧
      s.Own command record.commandId ∧ record.IsOf command record.commandId
  | .route command id => s.Stored command id ∧ s.Own command id
  | .update command id update reply =>
    s.Stored command id ∧ s.Own command id ∧ update.status = finalStatus reply
  | .saveUpdated command record reply =>
    s.Stored command record.commandId ∧ s.Own command record.commandId ∧
      record.IsOf command record.commandId ∧ record.status = finalStatus reply
  | _ => True

/-- The invariant of orderly runs. -/
structure Inv (s : CommandService F) : Prop where
  early : s.isLoaded = false → (∀ pc ∈ s.calls, pc.key = none) ∧ ∀ d, s.records d = []
  listed : ∀ rows, s.load = .listed rows → Covers s.table rows ∧
    ∀ row ∈ rows, s.table.lookup row.key ≠ none
  below : s.isLoaded = true → ∀ key n, key.2 = commandId n → s.Uses key →
    n < s.commandIdCounter
  apart : ∀ (i j : ℕ) (p q : CommandPc F) (key : String × String), i ≠ j → s.calls[i]? = some p →
    s.calls[j]? = some q → p.key = some key → q.key ≠ some key
  holds : ∀ pc ∈ s.calls, s.Holds pc
  done : ∀ a ∈ s.answers, ∀ pc ∈ s.calls, pc.key ≠ some a.key
  recorded : ∀ a ∈ s.answers, s.IsRecorded a

/-! ## What a section leaves alone -/

/-- Only what is held under the key may have changed. -/
structure Frame (key : String × String) (s s' : CommandService F) : Prop where
  table : ∀ k, k ≠ key → s'.table.lookup k = s.table.lookup k
  records : ∀ k, k ≠ key → ∀ record ∈ s'.records k.1, record.commandId = k.2 →
    record ∈ s.records k.1

variable {s s' : CommandService F} {key : String × String} {command : Command F}

theorem Frame.own (h : Frame key s s') {id : String} (hkey : (command.deviceId, id) ≠ key)
    (hown : s.Own command id) : s'.Own command id := by
  intro record hrecord hid
  exact hown record (h.records _ hkey record hrecord hid) hid

theorem Frame.stored (h : Frame key s s') {id : String} (hkey : (command.deviceId, id) ≠ key)
    (hstored : s.Stored command id) : s'.Stored command id := by
  unfold Stored
  rw [h.table _ hkey]
  exact hstored

variable {pc : CommandPc F}

/-- What a call knows is still so after a section of another one. -/
theorem Frame.holds (h : Frame key s s')
    (hkey : pc.key ≠ some key) (hholds : s.Holds pc) : s'.Holds pc := by
  have hne {k : String × String} (hk : pc.key = some k) : k ≠ key := by
    rintro rfl
    exact hkey hk
  cases pc with
  | record command id =>
    refine ⟨(h.table _ (hne rfl)).trans hholds.1, ?_⟩
    intro record hrecord hid
    exact hholds.2 record (h.records _ (hne rfl) record hrecord hid) hid
  | savePending command record =>
    exact ⟨(h.table _ (hne rfl)).trans hholds.1, h.own (hne rfl) hholds.2.1, hholds.2.2⟩
  | route command id => exact ⟨h.stored (hne rfl) hholds.1, h.own (hne rfl) hholds.2⟩
  | update command id update reply | saveUpdated command record reply =>
    exact ⟨h.stored (hne rfl) hholds.1, h.own (hne rfl) hholds.2.1, hholds.2.2⟩
  | _ => trivial

theorem frame_of_eq (key : String × String)
    (htable : s'.table = s.table) (hhistory : s'.history = s.history) : Frame key s s' where
  table _ _ := by rw [htable]
  records _ _ record hrecord _ := by
    unfold records at hrecord ⊢
    rw [hhistory] at hrecord
    exact hrecord

/-! ## Memory -/

variable {s : CommandService F} {d : String}

theorem mem_records_push {record r : CommandHistoryRecord F} (h : r ∈ (s.push record).records d) :
    r ∈ s.records d ∨ d = record.deviceId ∧ r = record := by
  have hhistory : (s.push record).records d =
      ((s.history.insert record.deviceId
        (if maxHistoryEntries < (s.records record.deviceId ++ [record]).length then
          (s.records record.deviceId ++ [record]).drop 1
        else s.records record.deviceId ++ [record])).lookup d).getD [] := rfl
  rw [hhistory] at h
  by_cases hd : d = record.deviceId
  · rw [hd, lookup_insert] at h
    have hmem : r ∈ s.records record.deviceId ++ [record] := by
      rw [getD_some] at h
      split at h
      · exact mem_of_mem_drop h
      · exact h
    rcases mem_append.mp hmem with hmem | hmem
    · left
      rw [hd]
      exact hmem
    · exact Or.inr ⟨hd, mem_singleton.mp hmem⟩
  · rw [lookup_insert_ne hd] at h
    exact Or.inl h

theorem frame_push (s : CommandService F) (record : CommandHistoryRecord F) :
    Frame record.key s (s.push record) where
  table _ _ := rfl
  records k hk r hr hid := by
    rcases mem_records_push hr with hr | ⟨hd, rfl⟩
    · exact hr
    · exact absurd (Prod.ext hd hid.symm) hk

theorem frame_save (s : CommandService F) (record : CommandHistoryRecord F) :
    Frame record.key s (s.save record) where
  table _ hk := KeyedMap.lookup_put_ne s.table hk
  records _ _ _ hr _ := hr

theorem lookup_save (s : CommandService F) (record : CommandHistoryRecord F) :
    (s.save record).table.lookup record.key = some record.toStorage :=
  KeyedMap.lookup_put_self s.table record.toStorage

variable {r : CommandHistoryRecord F}

/-- A record of the changed list is one of the list, or the changed one. -/
theorem mem_updateFirst {id : String} {f : CommandHistoryRecord F → CommandHistoryRecord F}
    {l : List (CommandHistoryRecord F)}
    (h : r ∈ updateFirst id f l) : r ∈ l ∨ ∃ r₀ ∈ l, r₀.commandId = id ∧ r = f r₀ := by
  induction l with
  | nil => cases h
  | cons r' l ih =>
    unfold updateFirst at h
    split at h
    · rename_i hid
      rcases mem_cons.mp h with rfl | h
      · exact Or.inr ⟨r', mem_cons_self, hid, rfl⟩
      · exact Or.inl (mem_cons_of_mem _ h)
    · rcases mem_cons.mp h with rfl | h
      · exact Or.inl mem_cons_self
      · rcases ih h with h | ⟨r₀, hr₀, hid, rfl⟩
        · exact Or.inl (mem_cons_of_mem _ h)
        · exact Or.inr ⟨r₀, mem_cons_of_mem _ hr₀, hid, rfl⟩

/-- The records in memory after a status was recorded. -/
def withStatus (s : CommandService F) (d id : String) (update : StatusUpdate) (now : ℤ) :
    CommandService F :=
  { s with
    history := s.history.insert d
      (updateFirst id (fun record => updated record update now) (s.records d)) }

theorem mem_records_withStatus {d id d' : String} {update : StatusUpdate}
    {now : ℤ} (h : r ∈ (s.withStatus d id update now).records d') :
    r ∈ s.records d' ∨ d' = d ∧ ∃ r₀ ∈ s.records d, r₀.commandId = id ∧
      r = updated r₀ update now := by
  have hhistory : (s.withStatus d id update now).records d' =
      ((s.history.insert d (updateFirst id (fun record => updated record update now)
        (s.records d))).lookup d').getD [] := rfl
  rw [hhistory] at h
  by_cases hd : d' = d
  · rw [hd, lookup_insert, getD_some] at h
    rcases mem_updateFirst h with h | h
    · left
      rw [hd]
      exact h
    · exact Or.inr ⟨hd, h⟩
  · rw [lookup_insert_ne hd] at h
    exact Or.inl h

theorem frame_withStatus (s : CommandService F) (d id : String) (update : StatusUpdate) (now : ℤ) :
    Frame (d, id) s (s.withStatus d id update now) where
  table _ _ := rfl
  records k hk r hr hid := by
    rcases mem_records_withStatus hr with hr | ⟨hd, r₀, -, hr₀, rfl⟩
    · exact hr
    · have hid' : r₀.commandId = k.2 := hid
      exact absurd (Prod.ext hd (hid'.symm.trans hr₀)) hk

/-! ## Sections -/

theorem Inv.isLoaded_of_key (h : s.Inv) (hpc : pc ∈ s.calls) (hkey : pc.key = some key) :
    s.isLoaded = true := by
  by_contra hload
  rw [(h.early (Bool.eq_false_of_not_eq_true hload)).1 pc hpc] at hkey
  cases hkey

theorem ne_listed_of_isLoaded (h : s.isLoaded = true)
    (rows : List (Storage.CommandHistoryRecord F)) : s.load ≠ .listed rows := by
  intro hlisted
  unfold isLoaded at h
  rw [hlisted] at h
  cases h

theorem holds_of_key_none (h : pc.key = none) :
    s.Holds pc := by
  cases pc with
  | validate | drawId | answered => trivial
  | record | savePending | route | update | saveUpdated => cases h

/-- A call that has no id yet, or that has its answer, has come in or gone on. -/
theorem Inv.of_calls (h : s.Inv) {calls : List (CommandPc F)}
    (hcalls : ∀ (i : ℕ) (pc : CommandPc F),
      calls[i]? = some pc → s.calls[i]? = some pc ∨ pc.key = none) :
    { s with calls := calls }.Inv := by
  have hmem : ∀ pc ∈ calls, pc ∈ s.calls ∨ pc.key = none := by
    intro pc hpc
    obtain ⟨i, hi⟩ := getElem?_of_mem hpc
    exact (hcalls i pc hi).imp mem_of_getElem? id
  constructor
  case early =>
    intro hload
    refine ⟨fun pc hpc => ?_, (h.early hload).2⟩
    rcases hmem pc hpc with hpc | hpc
    · exact (h.early hload).1 pc hpc
    · exact hpc
  case listed => exact h.listed
  case below =>
    intro hload key n hkey huses
    refine h.below hload key n hkey ?_
    rcases huses with huses | huses | ⟨pc, hpc, hpckey⟩
    · exact Or.inl huses
    · exact Or.inr (Or.inl huses)
    · rcases hmem pc hpc with hpc | hpc
      · exact Or.inr (Or.inr ⟨pc, hpc, hpckey⟩)
      · rw [hpc] at hpckey
        cases hpckey
  case apart =>
    intro i j p q key hij hi hj hp hq
    rcases hcalls i p hi with hi | hnone
    · rcases hcalls j q hj with hj | hnone
      · exact h.apart i j p q key hij hi hj hp hq
      · rw [hnone] at hq
        cases hq
    · rw [hnone] at hp
      cases hp
  case holds =>
    intro pc hpc
    rcases hmem pc hpc with hpc | hpc
    · exact h.holds pc hpc
    · exact holds_of_key_none hpc
  case done =>
    intro a ha pc hpc
    rcases hmem pc hpc with hpc | hpc
    · exact h.done a ha pc hpc
    · rw [hpc]
      exact fun hsome => nomatch hsome
  case recorded => exact h.recorded

/-- A call under a key changes only what is held under its key, and answers at its end. -/
theorem Inv.of_section (h : s.Inv) {n : ℕ} {pc pc' : CommandPc F}
    (hn : s.calls[n]? = some pc) (hkey : pc.key = some key)
    (hframe : Frame key s s') (hload : s'.load = s.load)
    (hcounter : s'.commandIdCounter = s.commandIdCounter)
    (hkey' : pc'.key = some key ∨ pc'.key = none) (hholds : s'.Holds pc')
    (hanswers : ∀ a ∈ s'.answers, a ∈ s.answers ∨ a.key = key ∧ s'.IsRecorded a ∧ pc'.key = none) :
    { s' with calls := s.calls.set n pc' }.Inv := by
  have hpc := mem_of_getElem? hn
  have hloaded : s.isLoaded = true := h.isLoaded_of_key hpc hkey
  have hloaded' : s'.isLoaded = true := by
    unfold isLoaded
    rw [hload]
    exact hloaded
  -- the key of the call that has gone on was its key before
  have hold : ∀ k, pc'.key = some k → k = key := by
    intro k hk
    rcases hkey' with hkey' | hkey'
    · rw [hkey'] at hk
      exact (some.inj hk).symm
    · rw [hkey'] at hk
      cases hk
  have hother : ∀ i q, i ≠ n → s.calls[i]? = some q → q.key ≠ some key := by
    intro i q hi hq
    exact h.apart n i pc q key (Ne.symm hi) hn hq hkey
  constructor
  case early =>
    intro hload'
    have hload' : s'.isLoaded = false := hload'
    rw [hloaded'] at hload'
    cases hload'
  case listed =>
    intro rows hrows
    exact absurd hrows (ne_listed_of_isLoaded hloaded' rows)
  case below =>
    intro _ k m hkm huses
    show m < s'.commandIdCounter
    rw [hcounter]
    by_cases hk : k = key
    · subst hk
      exact h.below hloaded _ m hkm (Or.inr (Or.inr ⟨pc, hpc, hkey⟩))
    · apply h.below hloaded k m hkm
      rcases huses with huses | ⟨record, hrecord, hid⟩ | ⟨q, hq, hqk⟩
      · exact Or.inl (hframe.table k hk ▸ huses)
      · exact Or.inr (Or.inl ⟨record, hframe.records k hk record hrecord hid, hid⟩)
      · obtain ⟨i, hi⟩ := getElem?_of_mem hq
        rcases Calls.getElem?_set_cases hi with ⟨-, rfl⟩ | ⟨-, hi⟩
        · exact absurd (hold k hqk) hk
        · exact Or.inr (Or.inr ⟨q, mem_of_getElem? hi, hqk⟩)
  case apart =>
    intro i j p q k hij (hi : (s.calls.set n pc')[i]? = some p)
      (hj : (s.calls.set n pc')[j]? = some q) hp hq
    rcases Calls.getElem?_set_cases hi with ⟨rfl, rfl⟩ | ⟨hin, hi'⟩
    · obtain rfl := hold k hp
      rcases Calls.getElem?_set_cases hj with ⟨rfl, -⟩ | ⟨hjn, hj'⟩
      · exact hij rfl
      · exact hother j q hjn hj' hq
    · rcases Calls.getElem?_set_cases hj with ⟨rfl, rfl⟩ | ⟨-, hj'⟩
      · obtain rfl := hold k hq
        exact hother i p hin hi' hp
      · exact h.apart i j p q k hij hi' hj' hp hq
  case holds =>
    intro q hq
    obtain ⟨i, hi⟩ := getElem?_of_mem hq
    rcases Calls.getElem?_set_cases hi with ⟨-, rfl⟩ | ⟨hin, hi⟩
    · exact hholds
    · exact hframe.holds (hother i q hin hi) (h.holds q (mem_of_getElem? hi))
  case done =>
    intro a ha q hq hqk
    obtain ⟨i, hi⟩ := getElem?_of_mem hq
    rcases hanswers a ha with ha' | ⟨hak, -, hnone⟩
    · rcases Calls.getElem?_set_cases hi with ⟨-, rfl⟩ | ⟨-, hi'⟩
      · rw [← hold _ hqk] at hkey
        exact h.done a ha' pc hpc hkey
      · exact h.done a ha' q (mem_of_getElem? hi') hqk
    · rcases Calls.getElem?_set_cases hi with ⟨-, rfl⟩ | ⟨hin, hi⟩
      · rw [hnone] at hqk
        cases hqk
      · rw [hak] at hqk
        exact hother i q hin hi hqk
  case recorded =>
    intro a ha
    rcases hanswers a ha with ha | ⟨-, hrecorded, -⟩
    · have hne : a.key ≠ key := by
        rintro rfl
        exact h.done a ha pc hpc hkey
      obtain ⟨record, hlookup, hrecord⟩ := h.recorded a ha
      exact ⟨record, (hframe.table _ hne).trans hlookup, hrecord⟩
    · exact hrecorded

/-- The status that is recorded is the one of the answer. -/
theorem status_of_conclude {outcome : CommandOutcome} {update : StatusUpdate}
    {reply : Except DeviceError Unit} (h : outcome.conclude d = (some update, reply)) :
    update.status = finalStatus reply := by
  cases outcome with
  | noAdapterId | notRendered => cases h
  | noRouter =>
    cases h
    rfl
  | routed result =>
    cases result with
    | ok | error =>
      cases h
      rfl
  | noAdapter =>
    cases h
    rfl
  | sent results =>
    rw [CommandOutcome.conclude] at h
    split at h
    · cases h
      rfl
    · cases h
      rfl

/-- What a call that has drawn its id does is allowed. -/
theorem Inv.advance_key (h : s.Inv) {env : CommandEnv} {n : ℕ}
    {pc pc' : CommandPc F} (hn : s.calls[n]? = some pc)
    (hkey : pc.key = some key) (hcareful : s.Careful env pc)
    (hadvance : s.advance env pc = (s', pc')) : { s' with calls := s.calls.set n pc' }.Inv := by
  have hholds : s.Holds pc := h.holds pc (mem_of_getElem? hn)
  cases pc with
  | validate | drawId | answered => cases hkey
  | record command id =>
    cases hkey
    obtain ⟨rfl, rfl⟩ := Prod.mk.inj hadvance
    refine h.of_section hn rfl (frame_push s (pendingRecord command id env.now)) rfl rfl
      (Or.inl rfl) ?_ (fun a ha => Or.inl ha)
    have hof : (pendingRecord command id env.now).IsOf command id := ⟨rfl, rfl, rfl, rfl⟩
    refine ⟨hholds.1, ?_, hof⟩
    intro record hrecord hid
    rcases mem_records_push hrecord with hrecord | ⟨-, rfl⟩
    · exact absurd hid (hholds.2 record hrecord)
    · exact hof
  | savePending command saved =>
    obtain ⟨-, hown, hof⟩ := hholds
    have hsaved : saved.key = (command.deviceId, saved.commandId) := by
      rw [CommandRecord.key, hof.deviceId]
    cases hkey
    obtain ⟨rfl, rfl⟩ := Prod.mk.inj hadvance
    refine h.of_section hn rfl (hsaved ▸ frame_save s saved) rfl rfl (Or.inl rfl) ?_
      (fun a ha => Or.inl ha)
    exact ⟨⟨saved.toStorage, hsaved ▸ lookup_save s saved,
      ⟨rfl, hof.deviceId, hof.commandName, hof.parameters⟩⟩, hown⟩
  | route command id =>
    cases hkey
    cases hconclude : env.outcome.conclude command.deviceId with
    | mk update reply =>
      rw [Careful, hconclude] at hcareful
      rw [advance, hconclude] at hadvance
      cases update with
      | none => cases hcareful
      | some update =>
        obtain ⟨rfl, rfl⟩ := Prod.mk.inj hadvance
        refine h.of_section hn rfl (frame_of_eq _ rfl rfl) rfl rfl (Or.inl rfl) ?_
          (fun a ha => Or.inl ha)
        exact ⟨hholds.1, hholds.2, status_of_conclude hconclude⟩
  | update command id update reply =>
    cases hkey
    obtain ⟨hstored, hown, hstatus⟩ := hholds
    cases hfind : s.findRecord command.deviceId id with
    | none =>
      rw [Careful, hfind] at hcareful
      cases hcareful
    | some record =>
      have hrecord : record ∈ s.records command.deviceId := mem_of_find?_eq_some hfind
      have hid : record.commandId = id := by
        have hfound := find?_some hfind
        exact of_decide_eq_true hfound
      have hof := hown record hrecord hid
      rw [advance, hfind] at hadvance
      obtain ⟨rfl, rfl⟩ := Prod.mk.inj hadvance
      refine h.of_section hn rfl (frame_withStatus s command.deviceId id update env.now) rfl rfl
        (Or.inl (congrArg (fun i => some (command.deviceId, i)) hid)) ?_ (fun a ha => Or.inl ha)
      have hof' : (updated record update env.now).IsOf command id :=
        ⟨hid, hof.deviceId, hof.commandName, hof.parameters⟩
      have hown' : (s.withStatus command.deviceId id update env.now).Own command id := by
        intro r hr hrid
        rcases mem_records_withStatus hr with hr | ⟨-, r₀, hr₀, hid₀, rfl⟩
        · exact hown r hr hrid
        · have hof₀ := hown r₀ hr₀ hid₀
          exact ⟨hid₀, hof₀.deviceId, hof₀.commandName, hof₀.parameters⟩
      have hid' : (updated record update env.now).commandId = id := hid
      refine ⟨?_, ?_, ?_, hstatus⟩
      · rw [hid']
        exact hstored
      · rw [hid']
        exact hown'
      · rw [hid']
        exact hof'
  | saveUpdated command saved reply =>
    obtain ⟨-, hown, hof, hstatus⟩ := hholds
    have hsaved : saved.key = (command.deviceId, saved.commandId) := by
      rw [CommandRecord.key, hof.deviceId]
    cases hkey
    obtain ⟨rfl, rfl⟩ := Prod.mk.inj hadvance
    have hframe : Frame (command.deviceId, saved.commandId) s
        ((s.save saved).answer command saved.commandId reply) := by
      have hsave := hsaved ▸ frame_save s saved
      exact ⟨hsave.table, hsave.records⟩
    have hlookup := lookup_save s saved
    rw [hsaved] at hlookup
    refine h.of_section hn rfl hframe rfl rfl (Or.inr rfl) trivial ?_
    intro a ha
    rcases mem_cons.mp ha with rfl | ha
    · refine Or.inr ⟨rfl, ⟨saved.toStorage, hlookup, ?_, ?_⟩, rfl⟩
      · exact ⟨rfl, hof.deviceId, hof.commandName, hof.parameters⟩
      · exact congrArg CommandStatus.toStorage hstatus
    · exact Or.inl ha

/-! ## Ids -/

/-- The id that is drawn next is new. -/
theorem Inv.not_uses (h : s.Inv) (hload : s.isLoaded = true) (d : String) :
    ¬s.Uses (d, commandId s.commandIdCounter) := by
  intro huses
  have hlt := h.below hload _ _ rfl huses
  omega

/-- A call draws a new id. -/
theorem Inv.drawId (h : s.Inv) {n : ℕ}
    (hn : s.calls[n]? = some (.drawId command)) (hload : s.isLoaded = true)
    (hsmall : s.commandIdCounter + 1 < 2 ^ 64) :
    { s with
      commandIdCounter := (s.commandIdCounter + 1) % 2 ^ 64
      calls := s.calls.set n (.record command (commandId s.commandIdCounter)) }.Inv := by
  have hnew := h.not_uses hload command.deviceId
  have hmod : (s.commandIdCounter + 1) % 2 ^ 64 = s.commandIdCounter + 1 := Nat.mod_eq_of_lt hsmall
  rw [hmod]
  have hother : ∀ pc ∈ s.calls,
      CommandPc.key pc ≠ some (command.deviceId, commandId s.commandIdCounter) :=
    fun pc hpc hkey => hnew (Or.inr (Or.inr ⟨pc, hpc, hkey⟩))
  constructor
  case early =>
    intro hearly
    have hearly : s.isLoaded = false := hearly
    rw [hload] at hearly
    cases hearly
  case listed =>
    intro rows hrows
    exact absurd hrows (ne_listed_of_isLoaded hload rows)
  case below =>
    intro _ k m hkm huses
    show m < s.commandIdCounter + 1
    have hold : s.Uses k → m < s.commandIdCounter + 1 :=
      fun huses => Nat.lt_succ_of_lt (h.below hload k m hkm huses)
    rcases huses with huses | huses | ⟨q, hq, hqk⟩
    · exact hold (Or.inl huses)
    · exact hold (Or.inr (Or.inl huses))
    · obtain ⟨i, hi⟩ := getElem?_of_mem hq
      rcases Calls.getElem?_set_cases hi with ⟨-, rfl⟩ | ⟨-, hi'⟩
      · cases hqk
        have hm := commandId_injective hkm
        omega
      · exact hold (Or.inr (Or.inr ⟨q, mem_of_getElem? hi', hqk⟩))
  case apart =>
    intro i j p q k hij hi hj hp hq
    rcases Calls.getElem?_set_cases hi with ⟨rfl, rfl⟩ | ⟨-, hi'⟩
    · cases hp
      rcases Calls.getElem?_set_cases hj with ⟨rfl, -⟩ | ⟨-, hj'⟩
      · exact hij rfl
      · exact hother q (mem_of_getElem? hj') hq
    · rcases Calls.getElem?_set_cases hj with ⟨rfl, rfl⟩ | ⟨-, hj'⟩
      · cases hq
        exact hother p (mem_of_getElem? hi') hp
      · exact h.apart i j p q k hij hi' hj' hp hq
  case holds =>
    intro q hq
    obtain ⟨i, hi⟩ := getElem?_of_mem hq
    rcases Calls.getElem?_set_cases hi with ⟨-, rfl⟩ | ⟨-, hi'⟩
    · constructor
      · by_contra hstored
        exact hnew (Or.inl hstored)
      · intro record hrecord hid
        exact hnew (Or.inr (Or.inl ⟨record, hrecord, hid⟩))
    · exact h.holds q (mem_of_getElem? hi')
  case done =>
    intro a ha q hq hqk
    obtain ⟨i, hi⟩ := getElem?_of_mem hq
    rcases Calls.getElem?_set_cases hi with ⟨-, rfl⟩ | ⟨-, hi'⟩
    · obtain ⟨record, hrecord, -⟩ := h.recorded a ha
      rw [← some.inj hqk] at hrecord
      refine hnew (Or.inl ?_)
      rw [hrecord]
      exact fun hnone => nomatch hnone
    · exact h.done a ha q (mem_of_getElem? hi') hqk
  case recorded => exact h.recorded

theorem calls_advance (s : CommandService F) (env : CommandEnv) (pc : CommandPc F) :
    (s.advance env pc).1.calls = s.calls := by
  cases pc with
  | validate command | route command id | update command id update reply =>
    rw [advance]
    split
    · rfl
    · rfl
  | drawId | record | savePending | saveUpdated | answered => rfl

/-- What a call does keeps the invariant. -/
theorem Inv.advance (h : s.Inv) {env : CommandEnv} {n : ℕ}
    (hn : s.calls[n]? = some pc) (hcareful : s.Careful env pc) :
    { (s.advance env pc).1 with
      calls := (s.advance env pc).1.calls.set n (s.advance env pc).2 }.Inv := by
  rw [calls_advance]
  cases hkey : pc.key with
  | some key => exact h.advance_key hn hkey hcareful rfl
  | none =>
    have hquiet (pc' : CommandPc F) (hpc' : pc'.key = none) :
        { s with calls := s.calls.set n pc' }.Inv := by
      apply h.of_calls
      intro i q hi
      rcases Calls.getElem?_set_cases hi with ⟨-, rfl⟩ | ⟨-, hi⟩
      · exact Or.inr hpc'
      · exact Or.inl hi
    cases pc with
    | validate command =>
      rw [CommandService.advance]
      split
      · exact hquiet _ rfl
      · exact hquiet _ rfl
    | drawId command => exact h.drawId hn hcareful.1 hcareful.2
    | answered => exact hquiet _ rfl
    | record | savePending | route | update | saveUpdated => cases hkey

/-! ## The load -/

variable {rows : List (Storage.CommandHistoryRecord F)}

/-- What is in memory after some rows were added was there, or is one of the rows. -/
theorem mem_foldl_addLoaded {history : HashMap String (List (CommandHistoryRecord F))}
    (h : r ∈ ((rows.foldl addLoaded history).lookup d).getD []) :
    r ∈ (history.lookup d).getD [] ∨
      ∃ row ∈ rows, row.deviceId = d ∧ row.commandId = r.commandId := by
  induction rows generalizing history with
  | nil => exact Or.inl h
  | cons row rows ih =>
    rcases ih h with h | ⟨row', hrow', heq⟩
    · by_cases hd : d = row.deviceId
      · unfold addLoaded at h
        rw [hd, lookup_insert, getD_some] at h
        rcases mem_append.mp h with h | h
        · left
          rw [hd]
          exact h
        · right
          rw [mem_singleton] at h
          exact ⟨row, mem_cons_self, hd.symm, h ▸ rfl⟩
      · unfold addLoaded at h
        rw [lookup_insert_ne hd] at h
        exact Or.inl h
    · exact Or.inr ⟨row', mem_cons_of_mem _ hrow', heq⟩

theorem mem_records_merge (h : r ∈ (s.merge rows).records d) :
    r ∈ s.records d ∨ ∃ row ∈ rows, row.deviceId = d ∧ row.commandId = r.commandId := by
  unfold CommandService.merge at h
  split at h
  · exact Or.inl h
  · exact mem_foldl_addLoaded h

theorem le_maxCounter {row : Storage.CommandHistoryRecord F} {m : ℕ} (hrow : row ∈ rows)
    (hm : commandNumber row.commandId = some m) : m ≤ maxCounter rows := by
  have hfold : ∀ (l : List (Storage.CommandHistoryRecord F)) (a : ℕ),
      a ≤ l.foldl (fun m row => max m ((commandNumber row.commandId).getD 0)) a ∧
        (row ∈ l → m ≤ l.foldl (fun m row => max m ((commandNumber row.commandId).getD 0)) a) := by
    intro l
    induction l with
    | nil => exact fun a => ⟨Nat.le_refl a, fun h => nomatch h⟩
    | cons row' l ih =>
      intro a
      obtain ⟨hle, hmem⟩ := ih (max a ((commandNumber row'.commandId).getD 0))
      refine ⟨Nat.le_trans (Nat.le_max_left _ _) hle, ?_⟩
      intro hrow'
      rcases mem_cons.mp hrow' with rfl | hrow'
      · refine Nat.le_trans ?_ hle
        rw [hm, getD_some]
        exact Nat.le_max_right _ _
      · exact hmem hrow'
  exact (hfold rows 0).2 hrow

/-- The counter behind the rows fits. -/
theorem maxCounter_lt {bound : ℕ} (hbound : 0 < bound)
    (h : ∀ row ∈ rows, ∀ m, commandNumber row.commandId = some m → m < bound) :
    maxCounter rows < bound := by
  have hfold : ∀ (l : List (Storage.CommandHistoryRecord F)) (a : ℕ), a < bound →
      (∀ row ∈ l, ∀ m, commandNumber row.commandId = some m → m < bound) →
      l.foldl (fun m row => max m ((commandNumber row.commandId).getD 0)) a < bound := by
    intro l
    induction l with
    | nil => exact fun a ha _ => ha
    | cons row l ih =>
      intro a ha hl
      refine ih _ ?_ (fun row' hrow' => hl row' (mem_cons_of_mem _ hrow'))
      rw [Nat.max_lt]
      refine ⟨ha, ?_⟩
      cases hm : commandNumber row.commandId with
      | none => exact hbound
      | some m => exact hl row mem_cons_self m hm
  exact hfold rows 0 hbound h

/-- The rows that are listed are of the table. -/
theorem lookup_of_mem_listAllCommands {table : CommandTable F} {limit : ℕ}
    {row : Storage.CommandHistoryRecord F} (h : row ∈ table.listAllCommands text limit) :
    table.lookup row.key ≠ none := by
  have hsome : ∃ stored, table.lookup row.key = some stored := by
    unfold CommandTable.listAllCommands at h
    rw [mem_insertionSort, mem_filterMap] at h
    obtain ⟨stored, hstored, hrow⟩ := h
    obtain ⟨parameters, -, rfl⟩ := map_eq_some_iff.mp hrow
    have hmem := mem_of_mem_take hstored
    unfold CommandTable.rows at hmem
    rw [mem_insertionSort] at hmem
    exact ⟨stored, KeyedMap.mem_values.mp hmem⟩
  obtain ⟨stored, hstored⟩ := hsome
  rw [hstored]
  exact fun hnone => nomatch hnone

/-- The history that is listed is put in memory, and the counter is behind every stored id. -/
theorem Inv.merge (h : s.Inv) (hrows : s.load = .listed rows) :
    (s.merge rows).Inv := by
  obtain ⟨hcovers, hstored⟩ := h.listed rows hrows
  have hload : s.isLoaded = false := by
    unfold isLoaded
    rw [hrows]
  obtain ⟨hcalls, hrecords⟩ := h.early hload
  have hmerge : (s.merge rows).table = s.table ∧ (s.merge rows).calls = s.calls ∧
      (s.merge rows).answers = s.answers ∧ (s.merge rows).load = .loaded := by
    unfold CommandService.merge
    split
    · exact ⟨rfl, rfl, rfl, rfl⟩
    · exact ⟨rfl, rfl, rfl, rfl⟩
  obtain ⟨htable, hcalls', hanswers', hload'⟩ := hmerge
  constructor
  case early =>
    intro hearly
    unfold isLoaded at hearly
    rw [hload'] at hearly
    cases hearly
  case listed =>
    intro rows' hrows'
    rw [hload'] at hrows'
    cases hrows'
  case below =>
    intro _ k n hk huses
    have hlookup : s.table.lookup k ≠ none := by
      rcases huses with huses | ⟨record, hrecord, hid⟩ | ⟨pc, hpc, hkey⟩
      · rw [htable] at huses
        exact huses
      · rcases mem_records_merge hrecord with hrecord | ⟨row, hrow, hd, hrowid⟩
        · rw [hrecords] at hrecord
          cases hrecord
        · have hkey : row.key = k := Prod.ext hd (hrowid.trans hid)
          rw [← hkey]
          exact hstored row hrow
      · rw [hcalls'] at hpc
        rw [hcalls pc hpc] at hkey
        cases hkey
    obtain ⟨row, hrow, m, hm, hnm⟩ := hcovers.greatest k n hlookup hk
    have hle := le_maxCounter hrow hm
    have hlt : maxCounter rows + 1 < 2 ^ 64 := by
      have hsmall : maxCounter rows < 2 ^ 64 - 1 := by
        refine maxCounter_lt (by decide) ?_
        intro row' hrow' m' hm'
        have hm'' := hcovers.small row' hrow' m' hm'
        omega
      omega
    have hne : rows ≠ [] := ne_nil_of_mem hrow
    have hcounter : (s.merge rows).commandIdCounter =
        max s.commandIdCounter ((maxCounter rows + 1) % 2 ^ 64) := by
      unfold CommandService.merge
      rw [if_neg hne]
    rw [hcounter, Nat.mod_eq_of_lt hlt]
    exact Nat.lt_of_lt_of_le (Nat.lt_succ_of_le (Nat.le_trans hnm hle)) (Nat.le_max_right _ _)
  case apart =>
    intro i j p q k _ hi _ hp _
    rw [hcalls'] at hi
    rw [hcalls p (mem_of_getElem? hi)] at hp
    cases hp
  case holds =>
    intro pc hpc
    rw [hcalls'] at hpc
    exact holds_of_key_none (hcalls pc hpc)
  case done =>
    intro a _ pc hpc hkey
    rw [hcalls'] at hpc
    rw [hcalls pc hpc] at hkey
    cases hkey
  case recorded =>
    intro a ha
    rw [hanswers'] at ha
    unfold IsRecorded
    rw [htable]
    exact h.recorded a ha

/-! ## Runs -/

theorem inv_new {table : CommandTable F} : (new table).Inv where
  early _ := ⟨(fun _ h => nomatch h), fun _ => rfl⟩
  listed _ h := nomatch h
  below h := nomatch h
  apart _ _ _ _ _ _ h := nomatch h
  holds _ h := nomatch h
  done _ h := nomatch h
  recorded _ h := nomatch h

theorem Inv.restarted (h : s.Inv) : s.restarted.Inv where
  early _ := ⟨(fun _ hpc => nomatch hpc), fun _ => rfl⟩
  listed _ hrows := nomatch hrows
  below hload := nomatch hload
  apart _ _ _ _ _ _ hi := nomatch hi
  holds _ hpc := nomatch hpc
  done _ _ _ hpc := nomatch hpc
  recorded := h.recorded

theorem Inv.list (h : s.Inv) (hload : s.load = .notLoaded)
    (hcovers : Covers s.table (s.table.listAllCommands text 1000)) :
    { s with load := .listed (s.table.listAllCommands text 1000) }.Inv where
  early _ := by
    apply h.early
    unfold isLoaded
    rw [hload]
  listed rows hrows := by
    cases hrows
    exact ⟨hcovers, fun row hrow => lookup_of_mem_listAllCommands hrow⟩
  below hloaded := nomatch hloaded
  apart := h.apart
  holds := h.holds
  done := h.done
  recorded := h.recorded

variable {a : CommandLabel F}

/-- A step that meets the condition keeps the invariant. -/
theorem Inv.step (h : s.Inv) (ha : Orderly text s a) (hs : s.step text a = some s') : s'.Inv := by
  cases a with
  | send command =>
    cases hs
    apply h.of_calls
    intro i pc hi
    rcases Calls.getElem?_append_cases hi with ⟨-, rfl⟩ | hi
    · exact Or.inr rfl
    · exact Or.inl hi
  | advance n env =>
    rw [CommandService.step] at hs
    cases hn : s.calls[n]? with
    | none =>
      rw [hn] at hs
      cases hs
    | some pc =>
      have hkeep := h.advance hn (ha pc hn)
      rw [hn] at hs
      cases pc with
      | answered => cases hs
      | _ =>
        cases hs
        exact hkeep
  | restart =>
    cases hs
    exact h.restarted
  | list =>
    rw [CommandService.step] at hs
    split at hs
    · rename_i hload
      cases hs
      exact h.list hload ha
    · cases hs
  | merge =>
    rw [CommandService.step] at hs
    split at hs
    · rename_i rows hload
      cases hs
      exact h.merge hload
    · cases hs

/-- A step that meets the condition is faithful. -/
theorem Inv.isFaithfulStep (h : s.Inv) (ha : Orderly text s a) : s.IsFaithfulStep a := by
  cases a with
  | advance n env =>
    refine ⟨?_, ?_, ?_⟩
    · intro command hn
      exact h.not_uses (ha _ hn).1 command.deviceId
    · intro command record hn
      obtain ⟨hfree, -, hof⟩ := h.holds _ (mem_of_getElem? hn)
      rw [CommandRecord.key, hof.deviceId]
      exact hfree
    · intro command record reply hn
      obtain ⟨hstored, -, hof, -⟩ := h.holds _ (mem_of_getElem? hn)
      rw [CommandRecord.key, hof.deviceId]
      exact hstored
  | send | restart | list | merge => trivial

/-- In a run whose steps meet the condition, every id that is drawn is new, no record is overwritten
by another command, and every command that has returned is stored with the status of its answer. -/
theorem faithful_of_orderly (text : ParametersText F) (table : CommandTable F)
    {tr : List (CommandService F × CommandLabel F)} {s : CommandService F}
    (hrun : Transition.Run (step text) (new table) tr s)
    (horderly : Transition.Within (Orderly text) tr) :
    (∀ e ∈ tr, e.1.IsFaithfulStep e.2) ∧ ∀ a ∈ s.answers, s.IsRecorded a := by
  have hinv {tr : List (CommandService F × CommandLabel F)} {s : CommandService F}
      (hrun : Transition.Run (step text) (new table) tr s)
      (horderly : Transition.Within (Orderly text) tr) : s.Inv :=
    hrun.invariant horderly inv_new (fun s a s' hI ha hs => hI.step ha hs)
  refine ⟨?_, (hinv hrun horderly).recorded⟩
  intro e he
  obtain ⟨post, pre, rfl, hpre⟩ := hrun.upTo he
  have hwithin := Transition.within_cons.mp (Transition.within_append.mp horderly).2
  exact (hinv hpre hwithin.2).isFaithfulStep hwithin.1

/-- A test that a step meets the condition; it lists the history of an empty table only. -/
def isOrderly (s : CommandService F) : CommandLabel F → Bool
  | .advance n env =>
    match s.calls[n]? with
    | some (.drawId _) => s.isLoaded && decide (s.commandIdCounter + 1 < 2 ^ 64)
    | some (.route command _) => (env.outcome.conclude command.deviceId).1.isSome
    | some (.update command id _ _) => (s.findRecord command.deviceId id).isSome
    | _ => true
  | .list => s.table.values.isEmpty
  | _ => true

theorem orderly_of_isOrderly (h : s.isOrderly a = true) : Orderly text s a := by
  cases a with
  | send | restart | merge => trivial
  | list =>
    have hvalues : s.table.values = [] := List.isEmpty_iff.mp h
    constructor
    · intro key n hkey _
      obtain ⟨record, hrecord⟩ := ne_none_iff_exists'.mp hkey
      have hmem : record ∈ s.table.values := by
        rw [KeyedMap.mem_values, KeyedMap.key_of_lookup hrecord, hrecord]
      rw [hvalues] at hmem
      cases hmem
    · intro row hrow
      unfold CommandTable.listAllCommands CommandTable.rows at hrow
      rw [hvalues] at hrow
      cases hrow
  | advance n env =>
    intro pc hn
    rw [isOrderly, hn] at h
    cases pc with
    | drawId =>
      obtain ⟨hload, hsmall⟩ := Bool.and_eq_true_iff.mp h
      exact ⟨hload, of_decide_eq_true hsmall⟩
    | route | update => exact h
    | _ => trivial

end CommandService

namespace CommandService.Sample

/-- A valve is opened. -/
def opening : Command ℤ :=
  ⟨"valve", "open", []⟩

/-- A service with no command. -/
def fresh : CommandService ℤ := .new .empty

/-- Parameters that can all be read. -/
def readable : ParametersText ℤ := some

/-- The history of a new service is loaded, and a command is sent that takes some sections and goes
as given. -/
def sending (sections : ℕ) (outcome : CommandOutcome) : List (CommandLabel ℤ) :=
  [.list, .merge, .send opening] ++ List.replicate sections (.advance 0 ⟨100, .ok (), outcome⟩)

/-- A payload that cannot be built. -/
def missing : DeviceError :=
  .invalidParameter "payload render: missing parameter: angle"

end CommandService.Sample

open CommandService CommandService.Sample

theorem faithful_of_orderly_sending :
    ∃ tr s, Transition.Run (CommandService.step readable) fresh tr s ∧
      s.answers.map CommandAnswer.commandId = ["cmd_1"] ∧ ∀ a ∈ s.answers, s.IsRecorded a := by
  obtain ⟨tr, s, hrun, horderly, hanswers⟩ := Transition.exists_run (CommandService.step readable)
    fresh (sending 7 (.sent [.ok ()]))
    (fun tr s => (tr.all fun e => e.1.isOrderly e.2) = true ∧
      s.answers.map CommandAnswer.commandId = ["cmd_1"])
    (by decide)
  refine ⟨tr, s, hrun, hanswers, (faithful_of_orderly readable .empty hrun ?_).2⟩
  exact fun e he => orderly_of_isOrderly (all_eq_true.mp horderly e he)

/-- A command whose payload cannot be built is stored as pending. -/
theorem failed_command_pending :
    ∃ tr s, Transition.Run (CommandService.step readable) fresh tr s ∧
      ∃ a ∈ s.answers, ¬s.IsRecorded a := by
  obtain ⟨tr, s, hrun, a, ha, hpending⟩ := Transition.exists_run (CommandService.step readable)
    fresh (sending 5 (.notRendered missing))
    (fun _ s => ∃ a ∈ s.answers, (s.table.lookup a.key).map CommandRecord.status = some .pending)
    (by decide)
  refine ⟨tr, s, hrun, a, ha, ?_⟩
  rintro ⟨record, hrecord, -, hstatus⟩
  rw [hrecord] at hpending
  have hstored : record.status = .pending := some.inj hpending
  rw [hstored] at hstatus
  unfold finalStatus at hstatus
  split at hstatus
  · cases hstatus
  · cases hstatus

end HeraMind.Devices
