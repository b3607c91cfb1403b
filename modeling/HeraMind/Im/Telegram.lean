/-
# Polling for Telegram updates

`TelegramBridge::start` (`crates/heramind-messages/src/im_bridge/telegram.rs`) asks for updates from
an offset on, publishes the text messages among them, and moves the offset past every message that
was published and past every other update.  The server repeats an update until it is asked for
later ones.

So an update that moves the offset after a message whose publish failed gives the message up.  That
this does not happen in a batch is exactly what the acknowledgement of messages needs.
-/
import Mathlib.Algebra.Group.Int.Defs
import Mathlib.Algebra.Group.Nat.Defs
import HeraMind.Lib.Run
import HeraMind.Rules.Models

namespace HeraMind.Im

open List
open Transition
open HeraMind.Rules (Json)

/-! ## Updates -/

/-- `serde_json::Number`. -/
inductive Number : Type where
  | int (n : ℤ)
  | float (digits : String)

/-- `Value::as_i64`. -/
def asI64 : Json Number → Option ℤ
  | .number (.int n) => if -2 ^ 63 ≤ n ∧ n < 2 ^ 63 then some n else none
  | _ => none

/-- The next `i64`. -/
def i64Succ (n : ℤ) : ℤ := (n + 1).bmod (2 ^ 64)

/-- The chat, the sender, the text and the message id of an update with a text message. -/
def parseMessage (update : Json Number) : Option (String × String × String × String) := do
  let message ← update.get "message"
  let chatId ← (((message.get "chat").bind fun c => c.get "id").bind asI64).map toString
  let senderId ← (((message.get "from").bind fun f => f.get "id").bind asI64).map toString
  let text ← (message.get "text").bind Json.asStr
  let msgId ← ((update.get "update_id").bind asI64).map toString
  return (chatId, senderId, text, msgId)

def updateId (update : Json Number) : Option ℤ :=
  (update.get "update_id").bind asI64

/-- The updates in the body of an answer. -/
def updates (body : Json Number) : List (Json Number) :=
  ((body.get "result").bind Json.asArray).getD []

/-- `HeraMindEvent::ImMessageReceived`. -/
structure ImMessageReceived where
  platform : String
  imChatId : String
  senderId : String
  text : String
  msgId : String
  timestamp : ℤ
  deriving DecidableEq

/-! ## The loop -/

/-- The offset and the published events, with the update ids of the text messages that were
received and of those that were published. -/
structure Polling where
  offset : ℤ
  events : List ImMessageReceived
  received : List ℤ
  delivered : List ℤ
  deriving DecidableEq

/-- How a poll ends: with an answer, for each update of which the event bus would take its message
or not, or with a failure. -/
inductive PollLabel : Type where
  | batch (body : Json Number) (published : List Bool)
  | failed

namespace Polling

/-- The offset is moved past an update. -/
def advance (s : Polling) : Option ℤ → Polling
  | some uid => { s with offset := i64Succ uid }
  | none => s

def handleUpdate (s : Polling) (u : Json Number) (published : Bool) : Polling :=
  match parseMessage u with
  | some (chatId, senderId, text, msgId) =>
    let s := { s with received := (updateId u).toList ++ s.received }
    if published then
      advance { s with
        events := ⟨"telegram", chatId, senderId, text, msgId, 0⟩ :: s.events
        delivered := (updateId u).toList ++ s.delivered } (updateId u)
    else s
  | none => s.advance (updateId u)

def handleBatch (s : Polling) (es : List (Json Number × Bool)) : Polling :=
  es.foldl (fun s e => s.handleUpdate e.1 e.2) s

/-- One poll. -/
def step (s : Polling) : PollLabel → Option Polling
  | .batch body published =>
    if published.length = (updates body).length then
      some (s.handleBatch ((updates body).zip published))
    else none
  | .failed => some s

/-- The loop before the first poll. -/
def start : Polling where
  offset := 0
  events := []
  received := []
  delivered := []

/-! ## The updates of a batch -/

/-- The update has a text message. -/
def isText (e : Json Number × Bool) : Bool := (parseMessage e.1).isSome

def isPublished (e : Json Number × Bool) : Bool := isText e && e.2

def isFailed (e : Json Number × Bool) : Bool := isText e && !e.2

/-- The offset is moved past the update. -/
def moves (e : Json Number × Bool) : Bool := !isText e || e.2

/-- The ids of the updates of a kind. -/
def idsOf (p : Json Number × Bool → Bool) (es : List (Json Number × Bool)) : List ℤ :=
  (es.filter p).filterMap fun e => updateId e.1

/-- The ids of all updates. -/
def ids (es : List (Json Number × Bool)) : List ℤ := idsOf (fun _ => true) es

theorem mem_idsOf {p : Json Number × Bool → Bool} {es : List (Json Number × Bool)} {i : ℤ} :
    i ∈ idsOf p es ↔ ∃ e ∈ es, p e = true ∧ updateId e.1 = some i := by
  unfold idsOf
  rw [mem_filterMap]
  constructor
  · rintro ⟨e, he, hi⟩
    obtain ⟨hmem, hp⟩ := mem_filter.mp he
    exact ⟨e, hmem, hp, hi⟩
  · rintro ⟨e, hmem, hp, hi⟩
    exact ⟨e, mem_filter.mpr ⟨hmem, hp⟩, hi⟩

theorem idsOf_cons (p : Json Number × Bool → Bool) (e : Json Number × Bool)
    (es : List (Json Number × Bool)) :
    idsOf p (e :: es) = (if p e then (updateId e.1).toList else []) ++ idsOf p es := by
  unfold idsOf
  by_cases hp : p e = true
  · rw [filter_cons_of_pos hp, if_pos hp, filterMap_cons]
    cases updateId e.1 <;> rfl
  · rw [filter_cons_of_neg hp, if_neg hp]
    rfl

/-- An update that is of one kind or of another is the same one. -/
theorem exists_of_mem_idsOf {p q : Json Number × Bool → Bool} {es : List (Json Number × Bool)}
    {i : ℤ} (hids : (ids es).Pairwise (· < ·)) (hp : i ∈ idsOf p es) (hq : i ∈ idsOf q es) :
    ∃ e ∈ es, p e = true ∧ q e = true := by
  induction es with
  | nil => cases hp
  | cons e es ih =>
    unfold ids at hids ih
    rw [idsOf_cons, if_pos rfl, pairwise_append] at hids
    obtain ⟨-, htail, hbefore⟩ := hids
    -- The id of the first update is not that of a later one.
    have hfirst : ∀ r, i ∈ idsOf r (e :: es) →
        (r e = true ∧ updateId e.1 = some i) ∨ i ∈ idsOf r es := by
      intro r hr
      rw [idsOf_cons, mem_append] at hr
      refine hr.imp_left fun hr => ?_
      by_cases hre : r e = true
      · rw [if_pos hre, Option.mem_toList] at hr
        exact ⟨hre, hr⟩
      · rw [if_neg hre] at hr
        cases hr
    have hlater : ∀ r, updateId e.1 = some i → i ∉ idsOf r es := by
      intro r he hr
      obtain ⟨e', he', -, hi⟩ := mem_idsOf.mp hr
      exact Int.lt_irrefl i (hbefore i (Option.mem_toList.mpr he) i
        (mem_idsOf.mpr ⟨e', he', rfl, hi⟩))
    rcases hfirst p hp with ⟨hpe, he⟩ | hp'
    · rcases hfirst q hq with ⟨hqe, -⟩ | hq'
      · exact ⟨e, mem_cons_self, hpe, hqe⟩
      · exact absurd hq' (hlater q he)
    · rcases hfirst q hq with ⟨-, he⟩ | hq'
      · exact absurd hp' (hlater p he)
      · obtain ⟨e', he', hpq⟩ := ih htail hp' hq'
        exact ⟨e', mem_cons_of_mem _ he', hpq⟩

/-! ## What an update and a batch do -/

variable {s s' : Polling} {u : Json Number} {b : Bool} {es : List (Json Number × Bool)} {i : ℤ}

theorem advance_lists (s : Polling) (uid : Option ℤ) :
    (s.advance uid).received = s.received ∧ (s.advance uid).delivered = s.delivered := by
  cases uid <;> exact ⟨rfl, rfl⟩

theorem handleUpdate_received (s : Polling) (u : Json Number) (b : Bool) :
    (s.handleUpdate u b).received =
      (if isText (u, b) then (updateId u).toList else []) ++ s.received := by
  unfold handleUpdate isText
  cases parseMessage u with
  | none => exact (advance_lists s _).1
  | some m =>
    cases b with
    | true => exact (advance_lists _ _).1
    | false => rfl

theorem handleUpdate_delivered (s : Polling) (u : Json Number) (b : Bool) :
    (s.handleUpdate u b).delivered =
      (if isPublished (u, b) then (updateId u).toList else []) ++ s.delivered := by
  unfold handleUpdate isPublished isText
  cases parseMessage u with
  | none => exact (advance_lists s _).2
  | some m =>
    cases b with
    | true => exact (advance_lists _ _).2
    | false => rfl

theorem handleUpdate_offset (s : Polling) (u : Json Number) (b : Bool) :
    (s.handleUpdate u b).offset =
      (if moves (u, b) then (updateId u).map i64Succ else none).getD s.offset := by
  have hadvance : ∀ (s : Polling) (uid : Option ℤ),
      (s.advance uid).offset = (uid.map i64Succ).getD s.offset := by
    intro s uid
    cases uid <;> rfl
  unfold handleUpdate moves isText
  cases parseMessage u with
  | none => exact hadvance s _
  | some m =>
    cases b with
    | true => exact hadvance _ _
    | false => rfl

theorem mem_handleBatch_received : i ∈ (s.handleBatch es).received ↔
    i ∈ idsOf isText es ∨ i ∈ s.received := by
  induction es generalizing s with
  | nil => exact (or_iff_right (fun h => by cases h)).symm
  | cons e es ih =>
    show i ∈ ((s.handleUpdate e.1 e.2).handleBatch es).received ↔ _
    rw [ih, handleUpdate_received, idsOf_cons, mem_append, mem_append]
    exact or_left_comm.trans or_assoc.symm

theorem mem_handleBatch_delivered : i ∈ (s.handleBatch es).delivered ↔
    i ∈ idsOf isPublished es ∨ i ∈ s.delivered := by
  induction es generalizing s with
  | nil => exact (or_iff_right (fun h => by cases h)).symm
  | cons e es ih =>
    show i ∈ ((s.handleUpdate e.1 e.2).handleBatch es).delivered ↔ _
    rw [ih, handleUpdate_delivered, idsOf_cons, mem_append, mem_append]
    exact or_left_comm.trans or_assoc.symm

/-- The offset is moved past the last of the updates that move it. -/
theorem handleBatch_offset (hids : (ids es).Pairwise (· < ·)) :
    (idsOf moves es = [] ∧ (s.handleBatch es).offset = s.offset) ∨
      ∃ i ∈ idsOf moves es, (s.handleBatch es).offset = i64Succ i ∧ ∀ j ∈ idsOf moves es, j ≤ i := by
  induction es generalizing s with
  | nil => exact Or.inl ⟨rfl, rfl⟩
  | cons e es ih =>
    unfold ids at hids ih
    rw [idsOf_cons, if_pos rfl, pairwise_append] at hids
    obtain ⟨-, htail, hbefore⟩ := hids
    show (_ ∧ ((s.handleUpdate e.1 e.2).handleBatch es).offset = _) ∨
      ∃ i ∈ _, ((s.handleUpdate e.1 e.2).handleBatch es).offset = _ ∧ _
    have hoffset := handleUpdate_offset s e.1 e.2
    rw [idsOf_cons]
    rcases ih htail (s := s.handleUpdate e.1 e.2) with ⟨hnone, hsame⟩ | ⟨i, hi, hmoved, hlast⟩
    · rw [hnone, hsame, hoffset, append_nil]
      by_cases hmoves : moves e = true
      · rw [if_pos hmoves, if_pos hmoves]
        cases hid : updateId e.1 with
        | none => exact Or.inl ⟨rfl, rfl⟩
        | some uid =>
          right
          refine ⟨uid, mem_singleton_self uid, rfl, fun j hj => ?_⟩
          exact Int.le_of_eq (mem_singleton.mp hj)
      · rw [if_neg hmoves, if_neg hmoves]
        exact Or.inl ⟨rfl, rfl⟩
    · right
      refine ⟨i, mem_append_right _ hi, hmoved, fun j hj => ?_⟩
      rcases mem_append.mp hj with hj | hj
      · by_cases hmoves : moves e = true
        · rw [if_pos hmoves] at hj
          obtain ⟨e', he', -, hi'⟩ := mem_idsOf.mp hi
          exact Int.le_of_lt (hbefore j hj i (mem_idsOf.mpr ⟨e', he', rfl, hi'⟩))
        · rw [if_neg hmoves] at hj
          cases hj
      · exact hlast j hj

/-! ## The property -/

/-- Every text message that was received was published, or the next poll asks for it again. -/
def Acknowledged (s : Polling) : Prop :=
  ∀ uid ∈ s.received, uid ∈ s.delivered ∨ s.offset ≤ uid

instance (s : Polling) : Decidable s.Acknowledged :=
  inferInstanceAs (Decidable (∀ uid ∈ s.received, uid ∈ s.delivered ∨ s.offset ≤ uid))

/-- The server answers with updates from the offset on, in the order of their ids, and repeats the
messages that were received and are not confirmed before it sends later updates. -/
def ServesBatch (s : Polling) (es : List (Json Number × Bool)) : Prop :=
  (ids es).Pairwise (· < ·) ∧ (∀ i ∈ ids es, s.offset ≤ i ∧ i + 1 < 2 ^ 63) ∧
    ∀ uid ∈ s.received, s.offset ≤ uid → (∃ i ∈ ids es, uid ≤ i) → uid ∈ idsOf isText es

instance (s : Polling) (es : List (Json Number × Bool)) : Decidable (s.ServesBatch es) :=
  inferInstanceAs (Decidable (_ ∧ _ ∧ _))

def Serves (s : Polling) : PollLabel → Prop
  | .batch body published => s.ServesBatch ((updates body).zip published)
  | .failed => True

instance (s : Polling) : DecidablePred s.Serves
  | .batch body published =>
    inferInstanceAs (Decidable (s.ServesBatch ((updates body).zip published)))
  | .failed => isTrue trivial

/-- No update moves the offset after a message whose publish fails. -/
def KeepsBatch (es : List (Json Number × Bool)) : Prop :=
  ∀ uid ∈ idsOf isFailed es, ∀ i ∈ idsOf moves es, i < uid

instance (es : List (Json Number × Bool)) : Decidable (KeepsBatch es) :=
  inferInstanceAs (Decidable (∀ uid ∈ idsOf isFailed es, ∀ i ∈ idsOf moves es, i < uid))

def KeepsFailed (_ : Polling) : PollLabel → Prop
  | .batch body published => KeepsBatch ((updates body).zip published)
  | .failed => True

instance (s : Polling) : DecidablePred s.KeepsFailed
  | .batch body published => inferInstanceAs (Decidable (KeepsBatch ((updates body).zip published)))
  | .failed => isTrue trivial

/-- The event bus takes every message, and while the message `uid` is not confirmed the server
answers with some update, and with no later one before the message. -/
def SucceedsBatch (uid : ℤ) (s : Polling) (es : List (Json Number × Bool)) : Prop :=
  (∀ e ∈ es, e.2 = true) ∧
    (s.offset ≤ uid → ids es ≠ [] ∧ ((∃ i ∈ ids es, uid ≤ i) → uid ∈ idsOf isText es))

instance (uid : ℤ) (s : Polling) (es : List (Json Number × Bool)) :
    Decidable (SucceedsBatch uid s es) :=
  inferInstanceAs (Decidable (_ ∧ (_ → _ ∧ (_ → _))))

def Succeeds (uid : ℤ) (s : Polling) : PollLabel → Prop
  | .batch body published => SucceedsBatch uid s ((updates body).zip published)
  | .failed => True

instance (uid : ℤ) (s : Polling) : DecidablePred (Succeeds uid s)
  | .batch body published =>
    inferInstanceAs (Decidable (SucceedsBatch uid s ((updates body).zip published)))
  | .failed => isTrue trivial

/-- A poll that is answered. -/
def isBatch : Polling × PollLabel → Bool
  | (_, .batch _ _) => true
  | (_, .failed) => false

/-! ## A batch -/

/-- The messages that were published are behind the offset. -/
def Confirmed (s : Polling) : Prop :=
  0 ≤ s.offset ∧ ∀ uid ∈ s.delivered, uid < s.offset

theorem i64Succ_eq (h₀ : 0 ≤ i) (h : i + 1 < 2 ^ 63) : i64Succ i = i + 1 := by
  unfold i64Succ
  exact Int.bmod_eq_of_le (by omega) (by omega)

theorem mem_ids_of_idsOf {p : Json Number × Bool → Bool} (h : i ∈ idsOf p es) : i ∈ ids es := by
  obtain ⟨e, he, -, hi⟩ := mem_idsOf.mp h
  exact mem_idsOf.mpr ⟨e, he, rfl, hi⟩

/-- A text message whose publish does not fail moves the offset. -/
theorem moves_or_isFailed (e : Json Number × Bool) : moves e = !isFailed e := by
  unfold moves isFailed
  cases isText e <;> cases e.2 <;> rfl

theorem mem_idsOf_isText : i ∈ idsOf isText es ↔
    i ∈ idsOf isPublished es ∨ i ∈ idsOf isFailed es := by
  simp only [mem_idsOf]
  constructor
  · rintro ⟨e, he, htext, hi⟩
    cases hb : e.2 with
    | true =>
      refine Or.inl ⟨e, he, ?_, hi⟩
      unfold isPublished
      rw [htext, hb]
      rfl
    | false =>
      refine Or.inr ⟨e, he, ?_, hi⟩
      unfold isFailed
      rw [htext, hb]
      rfl
  · rintro (⟨e, he, hp, hi⟩ | ⟨e, he, hp, hi⟩)
    · exact ⟨e, he, (Bool.and_eq_true_iff.mp hp).1, hi⟩
    · exact ⟨e, he, (Bool.and_eq_true_iff.mp hp).1, hi⟩

theorem mem_moves_of_isPublished (h : i ∈ idsOf isPublished es) : i ∈ idsOf moves es := by
  obtain ⟨e, he, hp, hi⟩ := mem_idsOf.mp h
  refine mem_idsOf.mpr ⟨e, he, ?_, hi⟩
  unfold moves
  rw [(Bool.and_eq_true_iff.mp hp).2, Bool.or_true]

/-- The ids to which the offset moves are those of no message that fails. -/
theorem not_isFailed_of_moves (hids : (ids es).Pairwise (· < ·)) (h : i ∈ idsOf moves es) :
    i ∉ idsOf isFailed es := by
  intro hfailed
  obtain ⟨e, -, hmoves, hfails⟩ := exists_of_mem_idsOf hids h hfailed
  rw [moves_or_isFailed, hfails] at hmoves
  cases hmoves

section Batch

variable (hconf : Confirmed s) (hserves : s.ServesBatch es)

include hconf hserves

/-- The offset after a batch. -/
theorem offset_cases :
    (idsOf moves es = [] ∧ (s.handleBatch es).offset = s.offset) ∨
      ∃ i ∈ idsOf moves es, (s.handleBatch es).offset = i + 1 ∧ ∀ j ∈ idsOf moves es, j ≤ i := by
  refine (handleBatch_offset hserves.1).imp_right ?_
  rintro ⟨i, hi, hmoved, hlast⟩
  obtain ⟨hle, hfits⟩ := hserves.2.1 i (mem_ids_of_idsOf hi)
  have h₀ := hconf.1
  exact ⟨i, hi, hmoved.trans (i64Succ_eq (by omega) hfits), hlast⟩

theorem offset_le : s.offset ≤ (s.handleBatch es).offset := by
  rcases offset_cases hconf hserves with ⟨-, hsame⟩ | ⟨i, hi, hmoved, -⟩
  · omega
  · have hle := (hserves.2.1 i (mem_ids_of_idsOf hi)).1
    omega

theorem lt_offset (h : i ∈ idsOf moves es) : i < (s.handleBatch es).offset := by
  rcases offset_cases hconf hserves with ⟨hnone, -⟩ | ⟨j, -, hmoved, hlast⟩
  · rw [hnone] at h
    cases h
  · have hle := hlast i h
    omega

theorem Confirmed.handleBatch : Confirmed (s.handleBatch es) := by
  have hle := offset_le hconf hserves
  obtain ⟨h₀, hdelivered⟩ := hconf
  refine ⟨by omega, fun uid huid => ?_⟩
  rcases mem_handleBatch_delivered.mp huid with hnew | hold
  · exact lt_offset ⟨h₀, hdelivered⟩ hserves (mem_moves_of_isPublished hnew)
  · have hlt := hdelivered uid hold
    omega

/-- After a batch every message is acknowledged only if it was published, exactly if no update
moves the offset after a message whose publish fails. -/
theorem acknowledged_handleBatch (hack : s.Acknowledged) :
    (s.handleBatch es).Acknowledged ↔ KeepsBatch es := by
  constructor
  · intro hack' uid hfailed i hmoves
    have hle := (hserves.2.1 uid (mem_ids_of_idsOf hfailed)).1
    have hlt := lt_offset hconf hserves hmoves
    have hreceived : uid ∈ (s.handleBatch es).received :=
      mem_handleBatch_received.mpr (Or.inl (mem_idsOf_isText.mpr (Or.inr hfailed)))
    rcases hack' uid hreceived with hdelivered | hahead
    · exfalso
      rcases mem_handleBatch_delivered.mp hdelivered with hnew | hold
      · exact not_isFailed_of_moves hserves.1 (mem_moves_of_isPublished hnew) hfailed
      · have hold' := hconf.2 uid hold
        omega
    · omega
  · intro hkeeps uid huid
    rw [mem_handleBatch_delivered]
    have htexts : uid ∈ idsOf isText es → (uid ∈ idsOf isPublished es ∨ uid ∈ s.delivered) ∨
        (s.handleBatch es).offset ≤ uid := by
      intro htext
      rcases mem_idsOf_isText.mp htext with hpublished | hfailed
      · exact Or.inl (Or.inl hpublished)
      · right
        rcases offset_cases hconf hserves with ⟨-, hsame⟩ | ⟨i, hi, hmoved, -⟩
        · rw [hsame]
          exact (hserves.2.1 uid (mem_ids_of_idsOf hfailed)).1
        · have hlt := hkeeps uid hfailed i hi
          omega
    rcases mem_handleBatch_received.mp huid with htext | hreceived
    · exact htexts htext
    · rcases hack uid hreceived with hold | hahead
      · exact Or.inl (Or.inr hold)
      · rcases offset_cases hconf hserves with ⟨-, hsame⟩ | ⟨i, hi, hmoved, -⟩
        · right
          rwa [hsame]
        · by_cases hlt : i < uid
          · right
            omega
          · exact htexts (hserves.2.2 uid hreceived hahead ⟨i, mem_ids_of_idsOf hi, by omega⟩)

/-- When all are published, a message that is not confirmed is published, or the offset moves and
does not pass it. -/
theorem delivered_or_moves {uid : ℤ} (hahead : s.offset ≤ uid) (hok : SucceedsBatch uid s es) :
    uid ∈ (s.handleBatch es).delivered ∨
      (s.offset < (s.handleBatch es).offset ∧ (s.handleBatch es).offset ≤ uid) := by
  obtain ⟨hall, hholds⟩ := hok
  obtain ⟨hne, hheld⟩ := hholds hahead
  have hmoves : ∀ i ∈ ids es, i ∈ idsOf moves es := by
    intro i hi
    obtain ⟨e, he, -, hid⟩ := mem_idsOf.mp hi
    refine mem_idsOf.mpr ⟨e, he, ?_, hid⟩
    unfold moves
    rw [hall e he, Bool.or_true]
  by_cases hlater : ∃ i ∈ ids es, uid ≤ i
  · left
    rw [mem_handleBatch_delivered]
    left
    rcases mem_idsOf_isText.mp (hheld hlater) with hnew | hfailed
    · exact hnew
    · exact absurd hfailed
        (not_isFailed_of_moves hserves.1 (hmoves uid (mem_ids_of_idsOf hfailed)))
  · right
    rcases offset_cases hconf hserves with ⟨hnone, -⟩ | ⟨i, hi, hmoved, -⟩
    · obtain ⟨i, hi⟩ := exists_mem_of_ne_nil _ hne
      have hi' := hmoves i hi
      rw [hnone] at hi'
      cases hi'
    · have hle := (hserves.2.1 i (mem_ids_of_idsOf hi)).1
      have hlt : i < uid := by
        by_contra hge
        exact hlater ⟨i, mem_ids_of_idsOf hi, by omega⟩
      omega

end Batch

/-! ## Runs -/

theorem step_cases {a : PollLabel} (hs : s.step a = some s') :
    (∃ body published, a = .batch body published ∧
      s' = s.handleBatch ((updates body).zip published)) ∨ (a = .failed ∧ s' = s) := by
  cases a with
  | batch body published =>
    left
    have hstep : (if published.length = (updates body).length then
        some (s.handleBatch ((updates body).zip published)) else none) = some s' := hs
    split at hstep
    · exact ⟨body, published, rfl, (Option.some.inj hstep).symm⟩
    · cases hstep
  | failed => exact Or.inr ⟨rfl, (Option.some.inj hs).symm⟩

theorem Confirmed.step {a : PollLabel} (h : Confirmed s) (hserves : s.Serves a)
    (hs : s.step a = some s') : Confirmed s' ∧ s.offset ≤ s'.offset := by
  rcases step_cases hs with ⟨body, published, rfl, rfl⟩ | ⟨rfl, rfl⟩
  · exact ⟨h.handleBatch hserves, offset_le h hserves⟩
  · exact ⟨h, Int.le_refl _⟩

theorem acknowledged_step {a : PollLabel} (h : Confirmed s) (hserves : s.Serves a)
    (hack : s.Acknowledged) (hs : s.step a = some s') :
    s'.Acknowledged ↔ s.KeepsFailed a := by
  rcases step_cases hs with ⟨body, published, rfl, rfl⟩ | ⟨rfl, rfl⟩
  · exact acknowledged_handleBatch h hserves hack
  · exact iff_of_true hack trivial

/-- What holds after a run. -/
theorem confirmed_of_run {tr : List (Polling × PollLabel)} (hr : Run step start tr s)
    (hserves : Within Serves tr) : Confirmed s ∧ (∀ e ∈ tr, e.1.offset ≤ s.offset) ∧
      (Within KeepsFailed tr ↔ s.Acknowledged ∧ ∀ e ∈ tr, e.1.Acknowledged) := by
  refine hr.traceInvariant (I := fun tr s => Confirmed s ∧ (∀ e ∈ tr, e.1.offset ≤ s.offset) ∧
    (Within KeepsFailed tr ↔ s.Acknowledged ∧ ∀ e ∈ tr, e.1.Acknowledged)) hserves ?_ ?_
  · refine ⟨⟨Int.le_refl _, ?_⟩, ?_, iff_of_true (within_nil _) ⟨?_, ?_⟩⟩
    · intro uid huid
      cases huid
    · intro e he
      cases he
    · intro uid huid
      cases huid
    · intro e he
      cases he
  · rintro tr s a s' - ⟨hconf, hoffset, hiff⟩ hserves hs
    obtain ⟨hconf', hle⟩ := hconf.step hserves hs
    refine ⟨hconf', fun e he => ?_, ?_⟩
    · rcases mem_cons.mp he with rfl | he
      · exact hle
      · exact Int.le_trans (hoffset e he) hle
    · rw [within_cons, hiff, forall_mem_cons]
      constructor
      · rintro ⟨hkeeps, hack, hall⟩
        exact ⟨(acknowledged_step hconf hserves hack hs).mpr hkeeps, hack, hall⟩
      · rintro ⟨hack', hack, hall⟩
        exact ⟨(acknowledged_step hconf hserves hack hs).mp hack', hack, hall⟩

/-- A message that is not confirmed is published, or the offset moves with every answer. -/
theorem delivered_or_offset {tr : List (Polling × PollLabel)} {uid : ℤ} (hr : Run step s tr s')
    (hconf : Confirmed s) (hahead : uid ∈ s.delivered ∨ s.offset ≤ uid)
    (hok : Within (fun s a => s.Serves a ∧ Succeeds uid s a) tr) :
    Confirmed s' ∧ (uid ∈ s'.delivered ∨
      (s.offset + tr.countP isBatch ≤ s'.offset ∧ s'.offset ≤ uid)) := by
  refine hr.traceInvariant (I := fun tr s' => Confirmed s' ∧ (uid ∈ s'.delivered ∨
    (s.offset + tr.countP isBatch ≤ s'.offset ∧ s'.offset ≤ uid))) hok ?_ ?_
  · exact ⟨hconf, hahead.imp_right fun hle => ⟨Int.le_of_eq (Int.add_zero _), hle⟩⟩
  · rintro tr t a t' - ⟨hconf, hcases⟩ ⟨hserves, hsucceeds⟩ hs
    refine ⟨(hconf.step hserves hs).1, ?_⟩
    rcases step_cases hs with ⟨body, published, rfl, rfl⟩ | ⟨rfl, rfl⟩
    · rcases hcases with hdelivered | ⟨hcount, hle⟩
      · exact Or.inl (mem_handleBatch_delivered.mpr (Or.inr hdelivered))
      · refine (delivered_or_moves hconf hserves hle hsucceeds).imp_right ?_
        rintro ⟨hlt, hle'⟩
        refine ⟨?_, hle'⟩
        rw [countP_cons_of_pos rfl]
        omega
    · rw [countP_cons_of_neg Bool.false_ne_true]
      exact hcases

/-- In every run with a server that repeats what is not confirmed, the offset never decreases, and
every message is published before it is acknowledged, exactly if in no batch an update moves the
offset after a message whose publish fails.  And then every message that the server holds is
published, as soon as publishing has succeeded for long enough. -/
theorem acknowledged_of_run (tr : List (Polling × PollLabel)) (s : Polling)
    (hr : Run step start tr s) (hserves : Within Serves tr) :
    (∀ e ∈ tr, e.1.offset ≤ s.offset) ∧
    (Within KeepsFailed tr ↔ s.Acknowledged ∧ ∀ e ∈ tr, e.1.Acknowledged) ∧
    (Within KeepsFailed tr → ∀ uid : ℤ, uid ∈ s.received ∨ s.offset ≤ uid →
      ∀ tr' s', Run step s tr' s' → Within (fun s a => s.Serves a ∧ Succeeds uid s a) tr' →
        uid - s.offset < tr'.countP isBatch → uid ∈ s'.delivered) := by
  obtain ⟨hconf, hoffset, hiff⟩ := confirmed_of_run hr hserves
  refine ⟨hoffset, hiff, ?_⟩
  intro hkeeps uid hheld tr' s' hr' hok hlong
  have hahead : uid ∈ s.delivered ∨ s.offset ≤ uid := by
    rcases hheld with hreceived | hle
    · exact (hiff.mp hkeeps).1 uid hreceived
    · exact Or.inr hle
  rcases (delivered_or_offset hr' hconf hahead hok).2 with hdelivered | ⟨hcount, hle⟩
  · exact hdelivered
  · omega

end Polling

namespace Sample

/-- An update with a text message. -/
def textUpdate (uid : ℤ) : Json Number :=
  .object [("update_id", .number (.int uid)), ("message", .object
    [("chat", .object [("id", .number (.int 7))]), ("from", .object [("id", .number (.int 8))]),
      ("text", .string "hello")])]

def batchOf (us : List (Json Number)) (published : List Bool) : PollLabel :=
  .batch (.object [("ok", .bool true), ("result", .array us)]) published

/-- The last message of a batch is not published. -/
def lastFails : List PollLabel :=
  [batchOf [textUpdate 1, textUpdate 2] [true, false], .failed]

/-- The loop after that. -/
def halfPublished : Polling where
  offset := 2
  events := [⟨"telegram", "7", "8", "hello", "1", 0⟩]
  received := [2, 1]
  delivered := [1]

/-- The message is received again, and published. -/
def lastSucceeds : List PollLabel :=
  [batchOf [textUpdate 2] [true]]

/-- The first message of a batch is not published, the second one is. -/
def firstFails : List PollLabel :=
  [batchOf [textUpdate 1, textUpdate 2] [false, true]]

end Sample

namespace Polling

theorem acknowledged_of_run_lastFails : ∃ tr tr' s', Run step start tr Sample.halfPublished ∧
    Within KeepsFailed tr ∧ Run step Sample.halfPublished tr' s' ∧ 2 ∈ s'.delivered := by
  obtain ⟨tr, s, hrun, hserves, hkeeps, rfl⟩ := exists_run step start Sample.lastFails
    (fun tr s => Within Serves tr ∧ Within KeepsFailed tr ∧ s = Sample.halfPublished)
    (by decide)
  obtain ⟨tr', s', hrun', hok, hcount⟩ := exists_run step Sample.halfPublished
    Sample.lastSucceeds
    (fun tr' s' => Within (fun s a => Serves s a ∧ Succeeds 2 s a) tr' ∧ tr'.countP isBatch = 1)
    (by decide)
  refine ⟨tr, tr', s', hrun, hkeeps, hrun', ?_⟩
  refine (acknowledged_of_run tr Sample.halfPublished hrun hserves).2.2 hkeeps 2
    (Or.inl (by decide)) tr' s' hrun' hok ?_
  rw [hcount]
  decide

/-- A message is acknowledged although it was not published. -/
theorem acknowledged_unpublished : ∃ tr s, Run step start tr s ∧ Within Serves tr ∧
    s.received = [2, 1] ∧ s.delivered = [2] ∧ s.offset = 3 ∧ ¬ s.Acknowledged := by
  exact exists_run _ _ Sample.firstFails _ (by decide)

end Polling

end HeraMind.Im
