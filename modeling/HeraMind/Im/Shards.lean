/-
# Events in shards

The Feishu client (`crates/heramind-messages/src/im_bridge/feishu/ws.rs`) gets the shards of an
event in data frames, in any order.  It acknowledges every shard, keeps the shards of an event until
there are as many as the frames say, and gives the event to the event handler.  What it keeps
belongs to a connection, and is dropped when the event is complete.

So on each connection an event of which every shard was acknowledged was given, each time as its
shards one after the other, and no more often than each of its shards was received.  A shard from an
earlier connection is lost, and an event whose shards all come again is given again.
-/
import Mathlib.Data.List.Perm.Subperm
import HeraMind.Lib.Run
import HeraMind.Lib.KeyedMap
import HeraMind.Lib.SortedMap
import HeraMind.Im.FrameCodec

namespace HeraMind.Im

open List Option AList
open Transition
open Pbbp2 (Frame)

/-! ## Frames -/

/-- `header_value`. -/
def headerValue (f : Frame) (key : String) : Option String :=
  (f.headers.find? fun h => h.key = key).map Pbbp2.Header.value

/-- The number that digits stand for. -/
def digitsValue : List Char → Option ℕ
  | [] => none
  | cs =>
    if cs.all Char.isDigit then some (cs.foldl (fun n c => n * 10 + (c.toNat - '0'.toNat)) 0)
    else none

/-- `parse::<u64>`. -/
def parseU64 (s : String) : Option ℕ :=
  let digits := match s.toList with
    | '+' :: cs | cs => cs
  (digitsValue digits).filter fun n => n < 2 ^ 64

/-- The number in a header, or one. -/
def headerNumber (f : Frame) (key : String) : ℕ :=
  ((headerValue f key).bind parseU64).getD 1

/-! ## The cache -/

structure DataCache where
  shards : HashMap String (List (ℕ × List UInt8))
  sums : HashMap String ℕ

namespace DataCache

/-- The shards that are kept for a message. -/
def entry (c : DataCache) (messageId : String) : List (ℕ × List UInt8) :=
  (c.shards.lookup messageId).getD []

def insert (c : DataCache) (messageId : String) (seq sum : ℕ) (payload : List UInt8) :
    DataCache × Option (List UInt8) :=
  let sums := c.sums.insert messageId sum
  let entry := SortedMap.insert seq payload (c.entry messageId)
  let expected := (sums.lookup messageId).getD 0
  if 0 < expected ∧ expected ≤ entry.length then
    (⟨(c.shards.insert messageId entry).erase messageId, sums.erase messageId⟩,
      some (entry.map Prod.snd).flatten)
  else (⟨c.shards.insert messageId entry, sums⟩, none)

end DataCache

/-! ## The client -/

/-- A connection: the shards that were received and those that were acknowledged, by message id and
number, and the events that were given to the event handler. -/
structure Connection where
  received : List (String × ℕ)
  acked : List (String × ℕ)
  given : List (String × List UInt8)

/-- The client, with the cache of its connection. -/
structure FeishuWsClient where
  cache : DataCache
  connection : Connection
  past : List Connection

/-- What happens next. -/
inductive WsLabel : Type where
  /-- A binary message comes in; the acknowledgement can be sent or not. -/
  | binary (bytes : List UInt8) (sent : Bool)
  | reconnect

namespace FeishuWsClient

/-- A new connection. -/
def connect (past : List Connection) : FeishuWsClient where
  cache := ⟨∅, ∅⟩
  connection := ⟨[], [], []⟩
  past := past

/-- A shard of an event is kept, or completes it. -/
def handleShard (s : FeishuWsClient) (messageId : String) (seq sum : ℕ) (payload : List UInt8)
    (sent : Bool) : FeishuWsClient :=
  let r := s.cache.insert messageId seq sum payload
  { s with
    cache := r.1
    connection := {
      received := (messageId, seq) :: s.connection.received
      acked := if sent then (messageId, seq) :: s.connection.acked else s.connection.acked
      given := (r.2.map fun merged => (messageId, merged)).toList ++ s.connection.given } }

/-- `handle_data`: a frame that has no shard of an event is acknowledged only. -/
def handleData (s : FeishuWsClient) (f : Frame) (sent : Bool) : FeishuWsClient :=
  if (headerValue f "type").getD "" = "event" then
    match headerValue f "message_id" with
    | some messageId =>
      s.handleShard messageId (headerNumber f "seq") (headerNumber f "sum") (f.payload.getD []) sent
    | none => s
  else s

/-- A frame that could be decoded. -/
def dispatch (s : FeishuWsClient) (f : Frame) (sent : Bool) : FeishuWsClient :=
  match f.frameType with
  | .control => s
  | .data => s.handleData f sent

def handleFrame (s : FeishuWsClient) (bytes : List UInt8) (sent : Bool) : FeishuWsClient :=
  match (Frame.decode bytes).result with
  | .ok f => s.dispatch f sent
  | .error _ => s

/-- One step. -/
def step (s : FeishuWsClient) : WsLabel → Option FeishuWsClient
  | .binary bytes sent => some (s.handleFrame bytes sent)
  | .reconnect => some (connect (s.connection :: s.past))

/-! ## The property -/

/-- An event, in shards. -/
structure Event where
  shards : List (List UInt8)
  nonempty : shards ≠ []

variable (events : String → Option Event)

/-- The shard of an event that a frame has. -/
structure HasShard (f : Frame) (messageId : String) (e : Event) : Prop where
  sum : headerNumber f "sum" = e.shards.length
  seq : 1 ≤ headerNumber f "seq"
  payload : e.shards[headerNumber f "seq" - 1]? = some (f.payload.getD [])

/-- The data frames that come in for an event have its shards. -/
def Sharded (_ : FeishuWsClient) : WsLabel → Prop
  | .binary bytes _ => ∀ f, (Frame.decode bytes).result = .ok f → f.frameType = .data →
      headerValue f "type" = some "event" → ∀ messageId, headerValue f "message_id" = some messageId →
        ∃ e, events messageId = some e ∧ HasShard f messageId e
  | .reconnect => True

/-- What is right about a connection: every event that was given is the shards of the event one
after the other; it was given no more often than each of its shards was received; and it was given
if all of its shards were acknowledged. -/
structure Assembled (c : Connection) : Prop where
  complete : ∀ g ∈ c.given, ∃ e, events g.1 = some e ∧ g.2 = e.shards.flatten
  once : ∀ messageId e, events messageId = some e → ∀ k, 1 ≤ k → k ≤ e.shards.length →
    c.given.countP (fun g => g.1 = messageId) ≤ c.received.count (messageId, k)
  given : ∀ messageId e, events messageId = some e →
    (∀ k, 1 ≤ k → k ≤ e.shards.length → (messageId, k) ∈ c.acked) → ∃ g ∈ c.given, g.1 = messageId

/-! ## The cache and the connection -/

/-- What is kept for an event on a connection. -/
structure Buffers (s : FeishuWsClient) (messageId : String) (e : Event) : Prop where
  sorted : SortedMap.Sorted (s.cache.entry messageId)
  shards : ∀ x ∈ s.cache.entry messageId, 1 ≤ x.1 ∧ e.shards[x.1 - 1]? = some x.2
  incomplete : (s.cache.entry messageId).length < e.shards.length
  balance : ∀ k, 1 ≤ k → k ≤ e.shards.length →
    s.connection.given.countP (fun g => g.1 = messageId) +
      (if k ∈ (s.cache.entry messageId).map Prod.fst then 1 else 0) ≤
        s.connection.received.count (messageId, k)
  kept : (∀ g ∈ s.connection.given, g.1 ≠ messageId) → ∀ k, (messageId, k) ∈ s.connection.received →
    k ∈ (s.cache.entry messageId).map Prod.fst

/-- What holds on a connection. -/
structure Assembling (s : FeishuWsClient) : Prop where
  buffers : ∀ messageId e, events messageId = some e → Buffers s messageId e
  complete : ∀ g ∈ s.connection.given, ∃ e, events g.1 = some e ∧ g.2 = e.shards.flatten
  acked : ∀ x ∈ s.connection.acked, x ∈ s.connection.received

variable {events} {s s' : FeishuWsClient} {messageId : String} {e : Event}

/-- What a shard does to the cache: it completes the event, which is dropped, or it is kept. -/
theorem insert_cases (c : DataCache) (messageId : String) (seq sum : ℕ) (payload : List UInt8) :
    (∀ other, other ≠ messageId →
      (c.insert messageId seq sum payload).1.entry other = c.entry other) ∧
    ((0 < sum ∧ sum ≤ (SortedMap.insert seq payload (c.entry messageId)).length ∧
        (c.insert messageId seq sum payload).2 =
          some ((SortedMap.insert seq payload (c.entry messageId)).map Prod.snd).flatten ∧
        (c.insert messageId seq sum payload).1.entry messageId = []) ∨
      (¬ (0 < sum ∧ sum ≤ (SortedMap.insert seq payload (c.entry messageId)).length) ∧
        (c.insert messageId seq sum payload).2 = none ∧
        (c.insert messageId seq sum payload).1.entry messageId =
          SortedMap.insert seq payload (c.entry messageId))) := by
  unfold DataCache.insert
  simp only [lookup_insert, getD_some]
  by_cases hfull : 0 < sum ∧ sum ≤ (SortedMap.insert seq payload (c.entry messageId)).length
  · rw [if_pos hfull]
    refine ⟨fun other hne => ?_, Or.inl ⟨hfull.1, hfull.2, rfl, ?_⟩⟩
    · unfold DataCache.entry
      rw [AList.lookup_erase_ne hne, lookup_insert_ne hne]
    · unfold DataCache.entry
      rw [AList.lookup_erase]
      rfl
  · rw [if_neg hfull]
    refine ⟨fun other hne => ?_, Or.inr ⟨hfull, rfl, ?_⟩⟩
    · unfold DataCache.entry
      rw [lookup_insert_ne hne]
    · show ((c.shards.insert messageId _).lookup messageId).getD [] = _
      rw [lookup_insert]
      rfl

/-- As many shards of an event as it has are all of them. -/
theorem keys_of_full {m : List (ℕ × List UInt8)} (hsorted : SortedMap.Sorted m)
    (hshards : ∀ x ∈ m, 1 ≤ x.1 ∧ e.shards[x.1 - 1]? = some x.2)
    (hfull : e.shards.length ≤ m.length) : m.map Prod.fst = List.range' 1 e.shards.length := by
  refine SortedMap.eq_range' hsorted (fun i hi => ?_) (by rwa [length_map])
  obtain ⟨x, hx, rfl⟩ := mem_map.mp hi
  obtain ⟨hle, hget⟩ := hshards x hx
  have hlt := (List.getElem?_eq_some_iff.mp hget).1
  omega

theorem values_of_full {m : List (ℕ × List UInt8)} (hsorted : SortedMap.Sorted m)
    (hshards : ∀ x ∈ m, 1 ≤ x.1 ∧ e.shards[x.1 - 1]? = some x.2)
    (hfull : e.shards.length ≤ m.length) : m.map Prod.snd = e.shards := by
  have hkeys := keys_of_full hsorted hshards hfull
  have hlen : m.length = e.shards.length := by
    rw [← length_map (f := Prod.fst), hkeys, length_range']
  apply ext_getElem
  · rw [length_map, hlen]
  · intro i hi hi'
    rw [length_map] at hi
    have hkey : m[i].1 = 1 + i := by
      have hget : (m.map Prod.fst)[i]? = some m[i].1 := by
        rw [getElem?_map, getElem?_eq_getElem hi]
        rfl
      rw [hkeys, getElem?_range' (by omega), Nat.one_mul] at hget
      exact (some.inj hget).symm
    obtain ⟨-, hget⟩ := hshards m[i] (getElem_mem hi)
    rw [hkey, Nat.add_sub_cancel_left, getElem?_eq_getElem hi'] at hget
    rw [getElem_map]
    exact (some.inj hget).symm

section Shard

variable {seq sum : ℕ} {payload : List UInt8}

/-- A shard of another event. -/
theorem Buffers.other (h : Buffers s messageId e) {id : String} (hne : messageId ≠ id) (sent : Bool) :
    Buffers (s.handleShard id seq sum payload sent) messageId e := by
  obtain ⟨hentry, -⟩ := insert_cases s.cache id seq sum payload
  have hentry' : (s.handleShard id seq sum payload sent).cache.entry messageId =
      s.cache.entry messageId := hentry messageId hne
  have hgiven : (s.handleShard id seq sum payload sent).connection.given.countP
      (fun g => g.1 = messageId) = s.connection.given.countP fun g => g.1 = messageId := by
    show (((s.cache.insert id seq sum payload).2.map fun m => (id, m)).toList ++
      s.connection.given).countP (fun g => g.1 = messageId) = _
    cases (s.cache.insert id seq sum payload).2 with
    | none => rfl
    | some m => exact countP_cons_of_neg (by rw [decide_eq_true_eq]; exact Ne.symm hne)
  refine ⟨?_, ?_, ?_, fun k hk hk' => ?_, fun hnone k hk => ?_⟩
  · rw [hentry']
    exact h.sorted
  · rw [hentry']
    exact h.shards
  · rw [hentry']
    exact h.incomplete
  · rw [hentry', hgiven]
    show _ ≤ ((id, seq) :: s.connection.received).count (messageId, k)
    rw [count_cons_of_ne (fun heq => hne (Prod.mk.inj heq).1.symm)]
    exact h.balance k hk hk'
  · rw [hentry']
    refine h.kept (fun g hg => hnone g (mem_append_right _ hg)) k ?_
    rcases mem_cons.mp hk with heq | hk
    · exact absurd (Prod.mk.inj heq).1 hne
    · exact hk

/-- A shard of the event. -/
theorem Buffers.shard (h : Buffers s messageId e) (hsum : sum = e.shards.length) (hseq : 1 ≤ seq)
    (hpayload : e.shards[seq - 1]? = some payload) (sent : Bool) :
    Buffers (s.handleShard messageId seq sum payload sent) messageId e ∧
      ∀ g ∈ (s.handleShard messageId seq sum payload sent).connection.given,
        g ∈ s.connection.given ∨ g = (messageId, e.shards.flatten) := by
  have hlt : 0 < e.shards.length := length_pos_iff.mpr e.nonempty
  have hsorted := h.sorted.insert seq payload
  have hshards : ∀ x ∈ SortedMap.insert seq payload (s.cache.entry messageId),
      1 ≤ x.1 ∧ e.shards[x.1 - 1]? = some x.2 := by
    intro x hx
    rcases SortedMap.mem_of_mem_insert hx with rfl | hx
    · exact ⟨hseq, hpayload⟩
    · exact h.shards x hx
  -- The shard is one more of its number that was received.
  have hreceived : ∀ k, s.connection.received.count (messageId, k) + (if k = seq then 1 else 0) =
      ((messageId, seq) :: s.connection.received).count (messageId, k) := by
    intro k
    by_cases hk : k = seq
    · rw [if_pos hk, hk, count_cons_self]
    · rw [if_neg hk, count_cons_of_ne fun heq => hk (Prod.mk.inj heq).2.symm]
      rfl
  obtain ⟨-, hcases⟩ := insert_cases s.cache messageId seq sum payload
  rcases hcases with ⟨-, hfull, hmerged, hempty⟩ | ⟨hnot, hmerged, hkept⟩
  · rw [hsum] at hfull
    have hall := values_of_full hsorted hshards hfull
    have hcache : (s.handleShard messageId seq sum payload sent).cache.entry messageId = [] := hempty
    have hgiven : (s.handleShard messageId seq sum payload sent).connection.given =
        (messageId, e.shards.flatten) :: s.connection.given := by
      show ((s.cache.insert messageId seq sum payload).2.map fun m => (messageId, m)).toList ++ _ = _
      rw [hmerged, hall]
      rfl
    constructor
    · refine ⟨?_, ?_, ?_, fun k hk hk' => ?_, fun hnone k hk => ?_⟩
      · rw [hcache]
        exact List.Pairwise.nil
      · rw [hcache]
        intro x hx
        cases hx
      · rw [hcache]
        exact hlt
      · have hcount : (s.handleShard messageId seq sum payload sent).connection.given.countP
            (fun g => g.1 = messageId) =
          s.connection.given.countP (fun g => g.1 = messageId) + 1 := by
          rw [hgiven]
          exact countP_cons_of_pos (decide_eq_true rfl)
        rw [hcache, hcount]
        show _ + 0 ≤ ((messageId, seq) :: s.connection.received).count (messageId, k)
        rw [← hreceived]
        have hbalance := h.balance k hk hk'
        have hmem : k = seq ∨ k ∈ (s.cache.entry messageId).map Prod.fst := by
          rw [← SortedMap.mem_keys_insert (b := payload), keys_of_full hsorted hshards hfull,
            mem_range'_1]
          omega
        rcases hmem with rfl | hmem
        · rw [if_pos rfl]
          omega
        · rw [if_pos hmem] at hbalance
          omega
      · exact absurd rfl (hnone _ (hgiven ▸ mem_cons_self))
    · intro g hg
      rw [hgiven] at hg
      exact (mem_cons.mp hg).symm
  · have hcache : (s.handleShard messageId seq sum payload sent).cache.entry messageId =
        SortedMap.insert seq payload (s.cache.entry messageId) := hkept
    have hgiven : (s.handleShard messageId seq sum payload sent).connection.given =
        s.connection.given := by
      show ((s.cache.insert messageId seq sum payload).2.map fun m => (messageId, m)).toList ++ _ = _
      rw [hmerged]
      rfl
    constructor
    · refine ⟨?_, ?_, ?_, fun k hk hk' => ?_, fun hnone k hk => ?_⟩
      · rw [hcache]
        exact hsorted
      · rw [hcache]
        exact hshards
      · rw [hcache]
        omega
      · rw [hcache, hgiven]
        show _ ≤ ((messageId, seq) :: s.connection.received).count (messageId, k)
        rw [← hreceived]
        have hbalance := h.balance k hk hk'
        by_cases hkseq : k = seq
        · rw [if_pos (SortedMap.mem_keys_insert.mpr (Or.inl hkseq)), if_pos hkseq]
          omega
        · by_cases hold : k ∈ (s.cache.entry messageId).map Prod.fst
          · rw [if_pos hold] at hbalance
            rw [if_pos (SortedMap.mem_keys_insert.mpr (Or.inr hold))]
            omega
          · have hnew : k ∉ (SortedMap.insert seq payload (s.cache.entry messageId)).map Prod.fst :=
              fun hmem => (SortedMap.mem_keys_insert.mp hmem).elim hkseq hold
            rw [if_neg hnew]
            omega
      · rw [hcache, SortedMap.mem_keys_insert]
        rcases mem_cons.mp hk with heq | hk
        · exact Or.inl (Prod.mk.inj heq).2
        · exact Or.inr (h.kept (fun g hg => hnone g (hgiven ▸ hg)) k hk)
    · intro g hg
      exact Or.inl (hgiven ▸ hg)

end Shard

/-! ## Runs -/

theorem Assembling.connect (past : List Connection) :
    Assembling events (FeishuWsClient.connect past) where
  buffers messageId e he := by
    have hentry : (FeishuWsClient.connect past).cache.entry messageId = [] := by
      unfold DataCache.entry FeishuWsClient.connect
      rw [AList.lookup_empty]
      rfl
    refine ⟨?_, ?_, ?_, fun k _ _ => ?_, fun _ k hk => ?_⟩
    · rw [hentry]
      exact List.Pairwise.nil
    · rw [hentry]
      intro x hx
      cases hx
    · rw [hentry]
      exact length_pos_iff.mpr e.nonempty
    · rw [hentry]
      exact Nat.zero_le _
    · cases hk
  complete g hg := by cases hg
  acked x hx := by cases hx

/-- A shard of an event. -/
theorem Assembling.handleShard (h : Assembling events s) {id : String} (he : events id = some e)
    {seq sum : ℕ} {payload : List UInt8} (hsum : sum = e.shards.length) (hseq : 1 ≤ seq)
    (hpayload : e.shards[seq - 1]? = some payload) (sent : Bool) :
    Assembling events (s.handleShard id seq sum payload sent) := by
  obtain ⟨hbuffers, hgiven⟩ := (h.buffers id e he).shard hsum hseq hpayload sent
  refine ⟨fun messageId e' he' => ?_, fun g hg => ?_, fun x hx => ?_⟩
  · by_cases hne : messageId = id
    · rw [hne, he] at he'
      cases he'
      rw [hne]
      exact hbuffers
    · exact (h.buffers messageId e' he').other hne sent
  · rcases hgiven g hg with hg | rfl
    · exact h.complete g hg
    · exact ⟨e, he, rfl⟩
  · show x ∈ (id, seq) :: s.connection.received
    have hx' : x ∈ (if sent then (id, seq) :: s.connection.acked else s.connection.acked) := hx
    cases sent with
    | false => exact mem_cons_of_mem _ (h.acked x hx')
    | true =>
      rcases mem_cons.mp hx' with rfl | hx'
      · exact mem_cons_self
      · exact mem_cons_of_mem _ (h.acked x hx')

/-- A data frame. -/
theorem Assembling.handleData (h : Assembling events s) {f : Frame} (sent : Bool)
    (hsharded : headerValue f "type" = some "event" →
      ∀ messageId, headerValue f "message_id" = some messageId →
        ∃ e, events messageId = some e ∧ HasShard f messageId e) :
    Assembling events (s.handleData f sent) ∧ (s.handleData f sent).past = s.past := by
  unfold FeishuWsClient.handleData
  by_cases hevent : (headerValue f "type").getD "" = "event"
  · rw [if_pos hevent]
    have hevent' : headerValue f "type" = some "event" := by
      cases hheader : headerValue f "type" with
      | none =>
        rw [hheader] at hevent
        exact absurd hevent (by decide)
      | some v =>
        rw [hheader] at hevent
        exact congrArg some hevent
    cases hid : headerValue f "message_id" with
    | none => exact ⟨h, rfl⟩
    | some id =>
      obtain ⟨e, he, hsum, hseq, hpayload⟩ := hsharded hevent' id hid
      exact ⟨h.handleShard he hsum hseq hpayload sent, rfl⟩
  · rw [if_neg hevent]
    exact ⟨h, rfl⟩

theorem Assembling.handleFrame (h : Assembling events s) {bytes : List UInt8} {sent : Bool}
    (hsharded : Sharded events s (.binary bytes sent)) :
    Assembling events (s.handleFrame bytes sent) ∧ (s.handleFrame bytes sent).past = s.past := by
  unfold FeishuWsClient.handleFrame
  cases hdecode : (Frame.decode bytes).result with
  | error err => exact ⟨h, rfl⟩
  | ok f =>
    show Assembling events (s.dispatch f sent) ∧ (s.dispatch f sent).past = s.past
    unfold FeishuWsClient.dispatch
    cases htype : f.frameType with
    | control => exact ⟨h, rfl⟩
    | data => exact h.handleData sent (hsharded f hdecode htype)

theorem Assembling.assembled (h : Assembling events s) : Assembled events s.connection where
  complete := h.complete
  once messageId e he k hk hk' := by
    have hbalance := (h.buffers messageId e he).balance k hk hk'
    omega
  given messageId e he hacked := by
    have hbuffers := h.buffers messageId e he
    by_contra hnone
    have hkeys : ∀ k ∈ List.range' 1 e.shards.length,
        k ∈ (s.cache.entry messageId).map Prod.fst := by
      intro k hk
      rw [mem_range'_1] at hk
      refine hbuffers.kept (fun g hg hid => hnone ⟨g, hg, hid⟩) k ?_
      exact h.acked _ (hacked k hk.1 (by omega))
    have hnodup : (List.range' 1 e.shards.length).Nodup := nodup_range'
    have hlen := (subperm_of_subset hnodup hkeys).length_le
    rw [length_range', length_map] at hlen
    have hincomplete := hbuffers.incomplete
    omega

/-- In every run in which the data frames of events have their shards, every connection is right. -/
theorem assembled_of_run (events : String → Option Event)
    (tr : List (FeishuWsClient × WsLabel)) (s : FeishuWsClient) (hr : Run step (connect []) tr s)
    (hsharded : Within (Sharded events) tr) :
    ∀ c ∈ s.connection :: s.past, Assembled events c := by
  have h : Assembling events s ∧ ∀ c ∈ s.past, Assembled events c := by
    refine hr.invariant (I := fun s => Assembling events s ∧ ∀ c ∈ s.past, Assembled events c)
      hsharded ⟨.connect [], fun c hc => ?_⟩ ?_
    · cases hc
    rintro s a s' ⟨h, hpast⟩ hsharded hs
    cases a with
    | binary bytes sent =>
      cases hs
      obtain ⟨h', hsame⟩ := h.handleFrame hsharded
      exact ⟨h', hsame ▸ hpast⟩
    | reconnect =>
      cases hs
      refine ⟨.connect _, fun c hc => ?_⟩
      rcases mem_cons.mp hc with rfl | hc
      · exact h.assembled
      · exact hpast c hc
  intro c hc
  rcases mem_cons.mp hc with rfl | hc
  · exact h.1.assembled
  · exact h.2 c hc

end FeishuWsClient

namespace Sample

/-- An event in two shards, and one in a single shard. -/
def twoShards : FeishuWsClient.Event := ⟨[[1], [2]], by decide⟩

def oneShard : FeishuWsClient.Event := ⟨[[7]], by decide⟩

def events (messageId : String) : Option FeishuWsClient.Event :=
  if messageId = "m" then some twoShards else if messageId = "n" then some oneShard else none

def firstShard : Frame := .event 1 1 1 "m" 2 1 [1]

def secondShard : Frame := .event 2 2 1 "m" 2 2 [2]

def onlyShard : Frame := .event 3 3 1 "n" 1 1 [7]

end Sample

namespace FeishuWsClient

/-- A frame with a shard of an event comes in. -/
theorem sharded_encode (events : String → Option Event) {f : Frame} {id : String} {e : Event}
    (s : FeishuWsClient) (sent : Bool) (hlen : f.encode.length < 2 ^ 63)
    (hid : headerValue f "message_id" = some id) (he : events id = some e)
    (hshard : HasShard f id e) : Sharded events s (.binary f.encode sent) := by
  intro f' hf' _ _ messageId hmessage
  rw [Pbbp2.decode_encode hlen] at hf'
  cases hf'
  rw [hid] at hmessage
  cases hmessage
  exact ⟨e, he, hshard⟩

theorem length_encode_shards : Sample.firstShard.encode.length < 2 ^ 63 ∧
    Sample.secondShard.encode.length < 2 ^ 63 ∧ Sample.onlyShard.encode.length < 2 ^ 63 := by
  decide +kernel

theorem sharded_first (s : FeishuWsClient) (sent : Bool) :
    Sharded Sample.events s (.binary Sample.firstShard.encode sent) :=
  sharded_encode Sample.events s sent length_encode_shards.1 (by decide : _ = some "m") rfl
    ⟨by decide, by decide, by decide⟩

theorem sharded_second (s : FeishuWsClient) (sent : Bool) :
    Sharded Sample.events s (.binary Sample.secondShard.encode sent) :=
  sharded_encode Sample.events s sent length_encode_shards.2.1 (by decide : _ = some "m") rfl
    ⟨by decide, by decide, by decide⟩

theorem sharded_only (s : FeishuWsClient) (sent : Bool) :
    Sharded Sample.events s (.binary Sample.onlyShard.encode sent) :=
  sharded_encode Sample.events s sent length_encode_shards.2.2 (by decide : _ = some "n") rfl
    ⟨by decide, by decide, by decide⟩

/-- The second shard comes in before the first one, and the event was given. -/
theorem assembled_of_run_second : ∃ tr s, Run step (connect []) tr s ∧
    Within (Sharded Sample.events) tr ∧ s.connection.acked = [("m", 1), ("m", 2)] ∧
    ∃ g ∈ s.connection.given, g.1 = "m" := by
  have hrun : Run step (connect [])
      [((connect []).handleFrame Sample.secondShard.encode true,
        .binary Sample.firstShard.encode true),
        (connect [], .binary Sample.secondShard.encode true)]
      (((connect []).handleFrame Sample.secondShard.encode true).handleFrame
        Sample.firstShard.encode true) :=
    (Run.nil.snoc rfl).snoc rfl
  have hsharded : Within (Sharded Sample.events)
      [((connect []).handleFrame Sample.secondShard.encode true,
        .binary Sample.firstShard.encode true),
        (connect [], .binary Sample.secondShard.encode true)] :=
    within_cons.mpr ⟨sharded_first _ _, within_cons.mpr ⟨sharded_second _ _, within_nil _⟩⟩
  have hacked : (((connect []).handleFrame Sample.secondShard.encode true).handleFrame
      Sample.firstShard.encode true).connection.acked = [("m", 1), ("m", 2)] := by
    decide +kernel
  refine ⟨_, _, hrun, hsharded, hacked, ?_⟩
  refine (assembled_of_run Sample.events _ _ hrun hsharded _ mem_cons_self).given "m"
    Sample.twoShards rfl ?_
  intro k hk hk'
  rw [hacked]
  have hle : k ≤ 2 := hk'
  obtain rfl | rfl : k = 1 ∨ k = 2 := by omega
  · exact mem_cons_self
  · exact mem_cons_of_mem _ mem_cons_self

/-- An event whose shards come on two connections is never given, and one whose shard comes twice is
given twice. -/
theorem given_never_or_twice :
    (∃ tr s, Run step (connect []) tr s ∧ Within (Sharded Sample.events) tr ∧
      (s.connection :: s.past).flatMap Connection.acked = [("m", 2), ("m", 1)] ∧
      (s.connection :: s.past).flatMap Connection.given = []) ∧
    ∃ tr s, Run step (connect []) tr s ∧ Within (Sharded Sample.events) tr ∧
      s.connection.given = [("n", [7]), ("n", [7])] := by
  constructor
  · refine ⟨[(_, .binary Sample.secondShard.encode true), (_, .reconnect),
      (connect [], .binary Sample.firstShard.encode true)], _,
      ((Run.nil.snoc rfl).snoc rfl).snoc rfl, ?_, by decide +kernel, by decide +kernel⟩
    exact within_cons.mpr ⟨sharded_second _ _, within_cons.mpr ⟨trivial,
      within_cons.mpr ⟨sharded_first _ _, within_nil _⟩⟩⟩
  · refine ⟨[(_, .binary Sample.onlyShard.encode true),
      (connect [], .binary Sample.onlyShard.encode false)], _, (Run.nil.snoc rfl).snoc rfl, ?_,
      by decide +kernel⟩
    exact within_cons.mpr ⟨sharded_only _ _, within_cons.mpr ⟨sharded_only _ _, within_nil _⟩⟩

end FeishuWsClient

end HeraMind.Im
