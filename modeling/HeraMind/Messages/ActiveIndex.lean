/-
# The index of active messages

`MessageStore` (`crates/heramind-storage/src/messages.rs`) keeps the messages as JSON texts under
their ids, a history of all that was inserted, and a table of the ids of the active messages.
Each call is one transaction of the database.  A call that fails commits nothing.
-/
import HeraMind.Lib.Ordering
import HeraMind.Lib.Run
import HeraMind.Messages.Message
import Mathlib.Data.String.Basic

namespace HeraMind.Messages

open List Option AList
open Transition

variable {Json Text : Type}

/-- `is_active`. -/
def StoredMessage.isActive (m : StoredMessage Json) : Bool := decide (m.status = "active")

/-- A message as JSON text, and back.  What can be read back has the status that was written. -/
structure RowText (Json Text : Type) where
  toText : StoredMessage Json → Text
  fromText : Text → Option (StoredMessage Json)
  status_eq : ∀ m m', fromText (toText m) = some m' → m'.status = m.status

/-- The three tables.  Every value of the index is `"1"`. -/
structure Tables (Text : Type) where
  messages : HashMap String Text
  history : HashMap String Text
  active : HashMap String Unit

inductive StoreCall (Json : Type) : Type where
  | insert (m : StoredMessage Json)
  | update (m : StoredMessage Json)
  | delete (id : String)
  | cleanupOld (olderThanDays now : ℤ)
  | clear
  deriving DecidableEq

namespace Tables

def new : Tables Text := ⟨∅, ∅, ∅⟩

variable (serde : RowText Json Text) (t : Tables Text)

/-- The message of a row, when there is one that can be read. -/
def row (id : String) : Option (StoredMessage Json) := (t.messages.lookup id).bind serde.fromText

/-! ## The calls -/

def insert (m : StoredMessage Json) : Tables Text where
  messages := t.messages.insert m.id (serde.toText m)
  active := if m.isActive then t.active.insert m.id () else t.active
  history := t.history.insert (toString m.timestamp ++ "_" ++ m.id) (serde.toText m)

def update (m : StoredMessage Json) : Tables Text :=
  let wasActive := (t.row serde m.id).any StoredMessage.isActive
  { t with
    messages := t.messages.insert m.id (serde.toText m)
    active :=
      if m.isActive then t.active.insert m.id ()
      else if wasActive then t.active.erase m.id
      else t.active }

def delete (id : String) : Bool × Tables Text :=
  if id ∈ t.messages then
    (true, { t with messages := t.messages.erase id, active := t.active.erase id })
  else (false, t)

/-- The ids of a table, in the order of the table. -/
def inOrder {β : Type} (table : HashMap String β) : List String :=
  table.keys.insertionSort (· ≤ ·)

/-- The messages with these ids; an id that is not in the table is passed over, and a row that
cannot be read is an error. -/
def readAll (ids : List String) : Option (List (StoredMessage Json)) :=
  (ids.filterMap t.messages.lookup).mapM serde.fromText

/-- `sort_by_key` of the reversed timestamp. -/
def newestFirst (messages : List (StoredMessage Json)) : List (StoredMessage Json) :=
  messages.insertionSort fun m m' => m'.timestamp ≤ m.timestamp

def list : Option (List (StoredMessage Json)) :=
  (t.readAll serde (inOrder t.messages)).map newestFirst

def listActive : Option (List (StoredMessage Json)) :=
  (t.readAll serde (inOrder t.active)).map newestFirst

/-- `i64` arithmetic. -/
def wrap64 (n : ℤ) : ℤ := n.bmod (2 ^ 64)

/-- `cleanup_old`, at a time in seconds: the number of removed messages. -/
def cleanupOld (olderThanDays now : ℤ) : Option (ℕ × Tables Text) :=
  let cutoff := wrap64 (now - wrap64 (olderThanDays * 86400))
  (t.readAll serde (inOrder t.messages)).map fun _ =>
    let toRemove := (inOrder t.messages).filter fun id =>
      (t.row serde id).any fun m => decide (m.timestamp < cutoff)
    (toRemove.length,
      { t with
        messages := HashMap.removeAll t.messages toRemove
        active := HashMap.removeAll t.active toRemove })

def clear : Tables Text :=
  { t with
    messages := HashMap.removeAll t.messages (inOrder t.messages)
    active := HashMap.removeAll t.active (inOrder t.active) }

/-- The number of messages for each value of a field. -/
def countBy (field : StoredMessage Json → String) (messages : List (StoredMessage Json)) :
    HashMap String ℕ :=
  messages.foldl (fun counts m =>
    counts.insert (field m) ((counts.lookup (field m)).getD 0 + 1)) ∅

/-- `MessageStats`. -/
structure MessageStats where
  total : ℕ
  active : ℕ
  byCategory : HashMap String ℕ
  bySeverity : HashMap String ℕ
  byStatus : HashMap String ℕ

def getStats : Option MessageStats :=
  (t.list serde).bind fun all =>
    (t.listActive serde).map fun active =>
      { total := all.length
        active := active.length
        byCategory := countBy StoredMessage.category all
        bySeverity := countBy StoredMessage.severity all
        byStatus := countBy StoredMessage.status all }

/-- A call that fails leaves the tables as they are. -/
def step (t : Tables Text) : StoreCall Json → Option (Tables Text)
  | .insert m => some (t.insert serde m)
  | .update m => some (t.update serde m)
  | .delete id => some (t.delete id).2
  | .cleanupOld days now => some (((t.cleanupOld serde days now).map Prod.snd).getD t)
  | .clear => some t.clear

/-! ## The law -/

/-- The index shows the active messages of the list, and the statistics count them. -/
def ShowsActive : Prop :=
  ∃ messages stats, t.list serde = some messages ∧
    t.listActive serde = some (messages.filter StoredMessage.isActive) ∧
    t.getStats serde = some stats ∧ stats.active = messages.countP StoredMessage.isActive

/-- What is written can be read back, and a message that is not active is not inserted over an
active one. -/
def Clean (t : Tables Text) : StoreCall Json → Prop
  | .insert m => (serde.fromText (serde.toText m)).isSome ∧
      (m.isActive = false → (t.row serde m.id).any StoredMessage.isActive = false)
  | .update m => (serde.fromText (serde.toText m)).isSome
  | _ => True

/-- Every row can be read, and the index has the ids of the active ones. -/
structure Indexed : Prop where
  readable : ∀ id, (t.messages.lookup id).isSome → (t.row serde id).isSome
  active_iff : ∀ id, id ∈ t.active ↔ (t.row serde id).any StoredMessage.isActive

variable {serde t}

/-! ## The index is kept -/

theorem isActive_of_fromText {m m' : StoredMessage Json}
    (h : serde.fromText (serde.toText m) = some m') : m'.isActive = m.isActive := by
  unfold StoredMessage.isActive
  rw [serde.status_eq m m' h]

variable {t' : Tables Text}

/-- A row that is written, with its id in the index when it is active and out of it when not. -/
theorem Indexed.put (h : t.Indexed serde) {m : StoredMessage Json}
    (hread : (serde.fromText (serde.toText m)).isSome)
    (hmessages : t'.messages = t.messages.insert m.id (serde.toText m))
    (hself : m.id ∈ t'.active ↔ m.isActive)
    (hother : ∀ id, id ≠ m.id → (id ∈ t'.active ↔ id ∈ t.active)) : t'.Indexed serde := by
  obtain ⟨m', hm'⟩ := isSome_iff_exists.mp hread
  have hrow : t'.row serde m.id = some m' := by
    unfold row
    rw [hmessages, lookup_insert, bind_some, hm']
  have hrest : ∀ id, id ≠ m.id → t'.messages.lookup id = t.messages.lookup id := by
    intro id hid
    rw [hmessages, lookup_insert_ne hid]
  constructor
  · intro id hsome
    by_cases hid : id = m.id
    · rw [hid, hrow]
      rfl
    · rw [hrest id hid] at hsome
      have hreadable := h.readable id hsome
      unfold row at hreadable ⊢
      rwa [hrest id hid]
  · intro id
    by_cases hid : id = m.id
    · rw [hid, hself, hrow, any_some, isActive_of_fromText hm']
    · rw [hother id hid, h.active_iff id]
      unfold row
      rw [hrest id hid]

/-- Rows that are removed together with their ids in the index. -/
theorem Indexed.remove (h : t.Indexed serde) (gone : String → Prop) [DecidablePred gone]
    (hmessages : ∀ id, t'.messages.lookup id = if gone id then none else t.messages.lookup id)
    (hactive : ∀ id, id ∈ t'.active ↔ ¬gone id ∧ id ∈ t.active) : t'.Indexed serde := by
  constructor
  · intro id hsome
    unfold row
    rw [hmessages] at hsome ⊢
    split at hsome
    · cases hsome
    · rename_i hgone
      rw [if_neg hgone]
      exact h.readable id hsome
  · intro id
    rw [hactive, h.active_iff]
    unfold row
    rw [hmessages]
    split
    · rename_i hgone
      simp [hgone]
    · rename_i hgone
      simp [hgone]

theorem mem_removeAll {β : Type} {table : HashMap String β} {ids : List String} {id : String} :
    id ∈ HashMap.removeAll table ids ↔ ¬id ∈ ids ∧ id ∈ table := by
  rw [← lookup_isSome, ← lookup_isSome, HashMap.lookup_removeAll]
  split
  · rename_i hmem
    simp [hmem]
  · rename_i hmem
    simp [hmem]

theorem mem_inOrder {β : Type} {table : HashMap String β} {id : String} :
    id ∈ inOrder table ↔ id ∈ table := by
  unfold inOrder
  rw [mem_insertionSort, ← AList.mem_keys]

/-- A clean call keeps the index. -/
theorem Indexed.step (h : t.Indexed serde) {call : StoreCall Json}
    (hclean : Clean serde t call) (hs : t.step serde call = some t') : t'.Indexed serde := by
  cases call with
  | insert m =>
    cases hs
    obtain ⟨hread, hover⟩ := hclean
    refine h.put hread rfl ?_ ?_
    · cases hactive : m.isActive with
      | true => simp [insert, hactive]
      | false => simp [insert, hactive, h.active_iff, hover hactive]
    · intro id hid
      unfold insert
      dsimp only
      split
      · simp [hid]
      · rfl
  | update m =>
    cases hs
    refine h.put hclean rfl ?_ ?_
    · cases hactive : m.isActive with
      | true => simp [update, hactive]
      | false =>
        -- the id was in the index exactly when the row before was active
        cases hwas : (t.row serde m.id).any StoredMessage.isActive with
        | true => simp [update, hactive, hwas, mem_erase]
        | false => simp [update, hactive, hwas, h.active_iff]
    · intro id hid
      unfold update
      dsimp only
      split
      · simp [hid]
      · split
        · simp [mem_erase, hid]
        · rfl
  | delete id =>
    cases hs
    unfold delete
    split
    · refine h.remove (fun id' => id' = id) ?_ ?_
      · intro id'
        dsimp only
        split
        · rename_i heq
          rw [heq, AList.lookup_erase]
        · rename_i hne
          rw [AList.lookup_erase_ne hne]
      · intro id'
        exact mem_erase
    · exact h
  | cleanupOld days now =>
    cases hs
    unfold cleanupOld
    cases hall : t.readAll serde (inOrder t.messages) with
    | none => exact h
    | some messages =>
      dsimp only [map_some, getD_some]
      exact h.remove (fun id => id ∈ (inOrder t.messages).filter fun id =>
          (t.row serde id).any fun m =>
            decide (m.timestamp < wrap64 (now - wrap64 (days * 86400))))
        (fun id => HashMap.lookup_removeAll _ _ id) (fun id => mem_removeAll)
  | clear =>
    cases hs
    unfold clear
    constructor
    · intro id hsome
      dsimp only at hsome
      rw [lookup_isSome, mem_removeAll, mem_inOrder] at hsome
      exact absurd hsome.2 hsome.1
    · intro id
      unfold row
      dsimp only
      rw [mem_removeAll, mem_inOrder, HashMap.lookup_removeAll]
      split
      · simp
      · rename_i hmem
        rw [mem_inOrder] at hmem
        rw [AList.lookup_eq_none.mpr hmem]
        simp

/-! ## What the lists show -/

/-- Every row is read, and the ids without a row are passed over. -/
theorem readAll_eq (h : t.Indexed serde) (ids : List String) :
    t.readAll serde ids = some (ids.filterMap (t.row serde)) := by
  unfold readAll
  induction ids with
  | nil => rfl
  | cons id ids ih =>
    cases htext : t.messages.lookup id with
    | none =>
      have hrow : t.row serde id = none := by
        unfold row
        rw [htext, bind_none]
      simp only [filterMap_cons, htext, hrow]
      exact ih
    | some text =>
      obtain ⟨m, hm⟩ := isSome_iff_exists.mp (h.readable id (by rw [htext]; rfl))
      have hread : serde.fromText text = some m := by
        unfold row at hm
        rwa [htext, bind_some] at hm
      simp only [filterMap_cons, htext, hm, mapM_cons, hread]
      rw [ih]
      rfl

/-- The index is in the order of the messages. -/
theorem Indexed.inOrder_active (h : t.Indexed serde) :
    inOrder t.active =
      (inOrder t.messages).filter fun id => (t.row serde id).any StoredMessage.isActive := by
  unfold inOrder
  rw [Ordering.filter_insertionSort]
  apply Ordering.insertionSort_eq_of_perm
  refine (perm_ext_iff_of_nodup t.active.keys_nodup (t.messages.keys_nodup.filter _)).mpr ?_
  intro id
  rw [mem_filter]
  constructor
  · intro hid
    have hactive := (h.active_iff id).mp (AList.mem_keys.mpr hid)
    refine ⟨?_, hactive⟩
    cases htext : t.messages.lookup id with
    | none => simp [row, htext] at hactive
    | some text =>
      rw [← AList.mem_keys, ← lookup_isSome, htext]
      rfl
  · rintro ⟨-, hactive⟩
    exact AList.mem_keys.mp ((h.active_iff id).mpr hactive)

theorem filterMap_row_filter (ids : List String) :
    (ids.filter fun id => (t.row serde id).any StoredMessage.isActive).filterMap (t.row serde) =
      (ids.filterMap (t.row serde)).filter StoredMessage.isActive := by
  induction ids with
  | nil => rfl
  | cons id ids ih =>
    cases hrow : t.row serde id with
    | none => rw [filter_cons_of_neg (by simp [hrow]), filterMap_cons_none hrow, ih]
    | some m =>
      cases hactive : m.isActive with
      | true =>
        rw [filter_cons_of_pos (by simp [hrow, hactive]), filterMap_cons_some hrow,
          filterMap_cons_some hrow, filter_cons_of_pos hactive, ih]
      | false =>
        rw [filter_cons_of_neg (by simp [hrow, hactive]), filterMap_cons_some hrow,
          filter_cons_of_neg (by simp [hactive]), ih]

theorem newestFirst_filter (messages : List (StoredMessage Json)) :
    newestFirst (messages.filter StoredMessage.isActive) =
      (newestFirst messages).filter StoredMessage.isActive := by
  have htotal : Std.Total fun m m' : StoredMessage Json => m'.timestamp ≤ m.timestamp :=
    ⟨fun m m' => Int.le_total m'.timestamp m.timestamp⟩
  have htrans : IsTrans (StoredMessage Json) fun m m' => m'.timestamp ≤ m.timestamp :=
    ⟨fun _ _ _ h h' => Int.le_trans h' h⟩
  exact (Ordering.filter_insertionSort _ _).symm

theorem Indexed.showsActive (h : t.Indexed serde) : t.ShowsActive serde := by
  have hlist : t.list serde = some (newestFirst ((inOrder t.messages).filterMap (t.row serde))) := by
    unfold list
    rw [readAll_eq h, map_some]
  have hactive : t.listActive serde =
      some ((newestFirst ((inOrder t.messages).filterMap (t.row serde))).filter
        StoredMessage.isActive) := by
    unfold listActive
    rw [readAll_eq h, h.inOrder_active, filterMap_row_filter, map_some, newestFirst_filter]
  have hstats : ∃ stats, t.getStats serde = some stats ∧ stats.active =
      ((newestFirst ((inOrder t.messages).filterMap (t.row serde))).filter
        StoredMessage.isActive).length := by
    unfold getStats
    rw [hlist, hactive]
    exact ⟨_, rfl, rfl⟩
  obtain ⟨stats, hstats, hcount⟩ := hstats
  exact ⟨_, stats, hlist, hactive, hstats, hcount.trans countP_eq_length_filter.symm⟩

theorem indexed_new : (new : Tables Text).Indexed serde := by
  constructor
  · intro id hsome
    cases hsome
  · intro id
    simp [new, row]

/-- In every run of clean calls the index shows exactly the active messages. -/
theorem showsActive_of_clean {tr : List (Tables Text × StoreCall Json)}
    (hrun : Run (step serde) new tr t) (hclean : Within (Clean serde) tr) :
    t.ShowsActive serde := by
  have hindexed : t.Indexed serde := by
    apply hrun.invariant hclean indexed_new
    intro t call t' h hG hs
    exact h.step hG hs
  exact hindexed.showsActive

end Tables

namespace Tables

namespace Sample

/-- Texts that keep the whole message. -/
def serde : RowText Unit (StoredMessage Unit) where
  toText := id
  fromText := some
  status_eq := by
    rintro m m' h
    cases h
    rfl

def message (id status : String) (timestamp : ℤ) : StoredMessage Unit where
  id := id
  category := "system"
  severity := "info"
  title := "Title"
  message := "Text"
  source := "test"
  sourceType := none
  status := status
  tags := none
  metadata := none
  timestamp := timestamp
  acknowledgedAt := none
  resolvedAt := none
  acknowledgedBy := none

end Sample

open Sample

/-- A message is resolved, another one is removed, and a third one stays active. -/
theorem showsActive_of_clean_resolved :
    ∃ tr t, Run (step serde) new tr t ∧
      (t.list serde).map (List.map StoredMessage.id) = some ["c", "a"] ∧ t.ShowsActive serde := by
  have hreads : ∀ m : StoredMessage Unit, (serde.fromText (serde.toText m)).isSome := fun _ => rfl
  obtain ⟨tr, t, hrun, hcalls, hids⟩ := exists_run (step serde) new
    [.insert (message "a" "active" 1), .insert (message "b" "active" 2),
      .update (message "a" "resolved" 1), .delete "b", .insert (message "c" "active" 3)]
    (fun tr t => tr.map Prod.snd = [.insert (message "c" "active" 3), .delete "b",
        .update (message "a" "resolved" 1), .insert (message "b" "active" 2),
        .insert (message "a" "active" 1)] ∧
      (t.list serde).map (List.map StoredMessage.id) = some ["c", "a"])
    (by decide)
  refine ⟨tr, t, hrun, hids, showsActive_of_clean hrun ?_⟩
  intro e he
  have hcall := mem_map_of_mem (f := Prod.snd) he
  rw [hcalls] at hcall
  simp only [mem_cons, not_mem_nil, or_false] at hcall
  rcases hcall with h | h | h | h | h <;> rw [h]
  · exact ⟨hreads _, fun hactive => absurd hactive (by decide)⟩
  · trivial
  · exact hreads _
  · exact ⟨hreads _, fun hactive => absurd hactive (by decide)⟩
  · exact ⟨hreads _, fun hactive => absurd hactive (by decide)⟩

/-- A resolved message that is inserted over the active one stays in the index. -/
theorem resolved_message_shown :
    ∃ tr t, Run (step serde) new tr t ∧ ¬t.ShowsActive serde := by
  obtain ⟨tr, t, hrun, hend⟩ := exists_run (step serde) new
    [.insert (message "a" "active" 1), .insert (message "a" "resolved" 1)]
    (fun tr t => t.listActive serde = some [message "a" "resolved" 1])
    (by decide)
  refine ⟨tr, t, hrun, ?_⟩
  rintro ⟨messages, -, -, hactive, -⟩
  rw [hend, some.injEq] at hactive
  have hmem : message "a" "resolved" 1 ∈ messages.filter StoredMessage.isActive := by
    rw [← hactive]
    exact mem_singleton_self _
  exact absurd (mem_filter.mp hmem).2 (by decide)

end Tables

end HeraMind.Messages
