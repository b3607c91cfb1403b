/-
# Events for the extensions that subscribe to them

`EventDispatcher` (`crates/heramind-core/src/extension/event_dispatcher.rs`) keeps the event types
of each extension and the ways to reach it.  A registration without event types leaves the types of
an earlier one in place.  The runner of a WASM extension has subscriptions of its own
(`GlobalEventState`, `crates/heramind-extension-runner/src/event_handler.rs`), which match fewer
events than the same types do in the dispatcher.
-/
import HeraMind.Lib.ByteText
import HeraMind.Lib.KeyedMap

namespace HeraMind.Extension.Events

open Option hiding any_eq_true or_assoc
open AList
open List
open ByteText

variable {Ext Sender Json : Type}

/-! ## The dispatcher -/

structure EventDispatcher (Ext Sender : Type) where
  subscriptions : HashMap String (List String)
  inProcessExtensions : HashMap String Ext
  isolatedEventSenders : HashMap String Sender

/-- What is registered, with the event types of the extension. -/
inductive Registration (Ext Sender : Type) : Type where
  | inProcess (id : String) (extension : Ext) (eventTypes : List String)
  | isolated (id : String) (eventTypes : List String) (sender : Sender)
  | unregister (id : String)

/-- An event is handed to an extension. -/
inductive Offer (Ext Sender : Type) : Type where
  | isolated (id : String) (sender : Sender)
  | inProcess (id : String) (extension : Ext)

def Offer.id : Offer Ext Sender → String
  | .isolated id _ | .inProcess id _ => id

namespace EventDispatcher

/-- `EventDispatcher::new`. -/
def new : EventDispatcher Ext Sender := ⟨∅, ∅, ∅⟩

/-- Event types are stored unless there are none. -/
def storeSubscriptions (subscriptions : HashMap String (List String)) (id : String)
    (eventTypes : List String) : HashMap String (List String) :=
  if eventTypes.isEmpty then subscriptions else subscriptions.insert id eventTypes

/-- `register_in_process_extension`, `register_isolated_extension` and `unregister_extension`. -/
def register (d : EventDispatcher Ext Sender) : Registration Ext Sender → EventDispatcher Ext Sender
  | .inProcess id extension eventTypes =>
    { d with
      inProcessExtensions := d.inProcessExtensions.insert id extension
      subscriptions := storeSubscriptions d.subscriptions id eventTypes }
  | .isolated id eventTypes sender =>
    { d with
      isolatedEventSenders := d.isolatedEventSenders.insert id sender
      subscriptions := storeSubscriptions d.subscriptions id eventTypes }
  | .unregister id =>
    { inProcessExtensions := d.inProcessExtensions.erase id
      isolatedEventSenders := d.isolatedEventSenders.erase id
      subscriptions := d.subscriptions.erase id }

end EventDispatcher

/-- Whether the dispatcher takes an event for one of the type. -/
def isReceived (eventType et : String) : Bool :=
  et = "all" || et = eventType || (et ++ "::").toList.isPrefixOf eventType.toList ||
    (len et.toList < len eventType.toList && et.toList.isPrefixOf eventType.toList)

namespace EventDispatcher

/-- An isolated extension is reached before one in the process. -/
def reach (d : EventDispatcher Ext Sender) (id : String) : Option (Offer Ext Sender) :=
  match d.isolatedEventSenders.lookup id with
  | some sender => some (.isolated id sender)
  | none => (d.inProcessExtensions.lookup id).map (.inProcess id)

/-- `dispatch_event`. -/
def dispatchEvent (d : EventDispatcher Ext Sender) (eventType : String) :
    List (Offer Ext Sender) :=
  d.subscriptions.entries.filterMap fun row =>
    if row.2.any (isReceived eventType) then d.reach row.1 else none

/-- `dispatch_event_excluding`. -/
def dispatchEventExcluding (d : EventDispatcher Ext Sender) (eventType exclude : String) :
    List (Offer Ext Sender) :=
  d.subscriptions.entries.filterMap fun row =>
    if row.1 = exclude then none
    else if row.2.any (isReceived eventType) then d.reach row.1 else none

end EventDispatcher

/-! ## The runner -/

/-- `MAX_QUEUE_SIZE`. -/
def maxQueueSize : ℕ := 1000

structure GlobalEventState (Json : Type) where
  subscriptions : HashMap ℤ String
  queues : HashMap ℤ (List (String × Json))

/-- Whether the runner takes an event for one of the type. -/
def isQueued (eventType subType : String) : Bool :=
  subType = "all" || subType = eventType || (subType ++ "::").toList.isPrefixOf eventType.toList

/-- The oldest event goes when the queue is full. -/
def enqueue (queue : List (String × Json)) (event : String × Json) : List (String × Json) :=
  (if maxQueueSize ≤ queue.length then queue.drop 1 else queue) ++ [event]

/-- `push_event`. -/
def GlobalEventState.pushEvent (g : GlobalEventState Json) (eventType : String) (payload : Json) :
    GlobalEventState Json :=
  { g with
    queues := g.subscriptions.entries.foldl (fun queues row =>
      if isQueued eventType row.2 then
        queues.insert row.1 (enqueue ((queues.lookup row.1).getD []) (eventType, payload))
      else queues) g.queues }

/-! ## The law -/

/-- The types say "all", or one of them is a prefix. -/
def Wants (eventTypes : List String) (eventType : String) : Prop :=
  "all" ∈ eventTypes ∨ ∃ et ∈ eventTypes, et.toList <+: eventType.toList

instance (eventTypes : List String) (eventType : String) : Decidable (Wants eventTypes eventType) :=
  inferInstanceAs (Decidable (_ ∨ _))

/-- The event types of an extension's registrations since it was unregistered, the latest first. -/
def registrations (id : String) : List (Registration Ext Sender) → List (List String)
  | [] => []
  | .inProcess id' _ eventTypes :: earlier | .isolated id' eventTypes _ :: earlier =>
    if id' = id then eventTypes :: registrations id earlier else registrations id earlier
  | .unregister id' :: earlier => if id' = id then [] else registrations id earlier

/-- The dispatcher after registrations, the latest of which is first. -/
def dispatcherOf : List (Registration Ext Sender) → EventDispatcher Ext Sender
  | [] => .new
  | r :: earlier => (dispatcherOf earlier).register r

/-- An event is offered once to the extensions whose latest registration wants it. -/
def Exact (rs : List (Registration Ext Sender)) : Prop :=
  ∀ eventType id,
    (((dispatcherOf rs).dispatchEvent eventType).filter fun o => decide (o.id = id)).length =
      (if Wants ((registrations id rs).head?.getD []) eventType then 1 else 0) ∧
    ∀ exclude,
      (((dispatcherOf rs).dispatchEventExcluding eventType exclude).filter
        fun o => decide (o.id = id)).length =
      if id ≠ exclude ∧ Wants ((registrations id rs).head?.getD []) eventType then 1 else 0

/-- No extension has lost its event types by a registration without any. -/
def NoneStale (rs : List (Registration Ext Sender)) : Prop :=
  ∀ id, (registrations id rs).head? = some [] → ∀ eventTypes ∈ registrations id rs, eventTypes = []

/-- What the host forwards for a type, the runner puts into the queues of its subscribers. -/
def Queues (Json : Type) (subType eventType : String) : Prop :=
  Wants [subType] eventType → ∀ (g : GlobalEventState Json) (id : ℤ) (payload : Json),
    g.subscriptions.lookup id = some subType →
      (g.pushEvent eventType payload).queues.lookup id =
        some (enqueue ((g.queues.lookup id).getD []) (eventType, payload))

/-- If the type is only the beginning of the event's type, a separator follows. -/
def Separated (subType eventType : String) : Prop :=
  subType ≠ "all" → subType.toList <+: eventType.toList → subType ≠ eventType →
    (subType ++ "::").toList <+: eventType.toList

/-! ## Matching -/

theorem isReceived_iff {eventType et : String} :
    isReceived eventType et = true ↔ et = "all" ∨ et.toList <+: eventType.toList := by
  unfold isReceived
  simp only [Bool.or_eq_true, Bool.and_eq_true, decide_eq_true_eq, isPrefixOf_iff_prefix]
  constructor
  · rintro (((rfl | rfl) | h) | ⟨-, h⟩)
    · exact Or.inl rfl
    · exact Or.inr (prefix_refl _)
    · rw [String.toList_append] at h
      exact Or.inr ((prefix_append _ _).trans h)
    · exact Or.inr h
  · rintro (rfl | h)
    · exact Or.inl (Or.inl (Or.inl rfl))
    · obtain ⟨rest, hrest⟩ := h
      cases rest with
      | nil =>
        rw [append_nil] at hrest
        exact Or.inl (Or.inl (Or.inr (String.toList_injective hrest)))
      | cons c rest =>
        -- what is longer has more bytes
        refine Or.inr ⟨?_, c :: rest, hrest⟩
        have hpos := c.utf8Size_pos
        rw [← hrest, len_append, len_cons]
        omega

theorem any_isReceived_iff {eventTypes : List String} {eventType : String} :
    eventTypes.any (isReceived eventType) = true ↔ Wants eventTypes eventType := by
  rw [any_eq_true]
  constructor
  · rintro ⟨et, het, h⟩
    rcases isReceived_iff.mp h with rfl | h
    · exact Or.inl het
    · exact Or.inr ⟨et, het, h⟩
  · rintro (hall | ⟨et, het, h⟩)
    · exact ⟨_, hall, isReceived_iff.mpr (Or.inl rfl)⟩
    · exact ⟨et, het, isReceived_iff.mpr (Or.inr h)⟩

theorem not_wants_nil (eventType : String) : ¬ Wants [] eventType := by
  rintro (h | ⟨et, h, -⟩)
  · cases h
  · cases h

/-! ## Registrations -/

section

variable {rs : List (Registration Ext Sender)} {id eventType : String}

theorem lookup_storeSubscriptions {subscriptions : HashMap String (List String)} {id' : String}
    {eventTypes : List String} :
    (EventDispatcher.storeSubscriptions subscriptions id' eventTypes).lookup id =
      if id' = id ∧ eventTypes ≠ [] then some eventTypes else subscriptions.lookup id := by
  unfold EventDispatcher.storeSubscriptions
  cases eventTypes with
  | nil => simp
  | cons et eventTypes =>
    by_cases hid : id' = id
    · subst hid
      simp
    · simp [hid, lookup_insert_ne (Ne.symm hid)]

/-- The event types of an extension are those of its latest registration that has any. -/
theorem lookup_subscriptions (rs : List (Registration Ext Sender)) (id : String) :
    (dispatcherOf rs).subscriptions.lookup id =
      (registrations id rs).find? fun eventTypes => decide (eventTypes ≠ []) := by
  induction rs with
  | nil => rfl
  | cons r rs ih =>
    have hcons : ∀ (id' : String) (eventTypes : List String),
        (if id' = id ∧ eventTypes ≠ [] then some eventTypes
          else (dispatcherOf rs).subscriptions.lookup id) =
        (if id' = id then eventTypes :: registrations id rs else registrations id rs).find?
          fun eventTypes => decide (eventTypes ≠ []) := by
      intro id' eventTypes
      rw [ih]
      by_cases hid : id' = id
      · by_cases hne : eventTypes = []
        · rw [if_neg (fun h => h.2 hne), if_pos hid, find?_cons_of_neg (by simp [hne])]
        · rw [if_pos ⟨hid, hne⟩, if_pos hid, find?_cons_of_pos (by simp [hne])]
      · rw [if_neg (fun h => hid h.1), if_neg hid]
    cases r with
    | unregister id' =>
      show ((dispatcherOf rs).subscriptions.erase id').lookup id = _
      by_cases hid : id' = id
      · subst hid
        rw [AList.lookup_erase, registrations, if_pos rfl]
        rfl
      · rw [AList.lookup_erase_ne (Ne.symm hid), ih, registrations, if_neg hid]
    | inProcess id' extension eventTypes | isolated id' eventTypes sender =>
      exact lookup_storeSubscriptions.trans (hcons id' eventTypes)

/-- The extensions that are registered can be reached. -/
theorem isSome_reach (rs : List (Registration Ext Sender)) (id : String) :
    ((dispatcherOf rs).reach id).isSome = decide (registrations id rs ≠ []) := by
  have hreach : ∀ d : EventDispatcher Ext Sender, (d.reach id).isSome =
      ((d.isolatedEventSenders.lookup id).isSome || (d.inProcessExtensions.lookup id).isSome) := by
    intro d
    unfold EventDispatcher.reach
    cases d.isolatedEventSenders.lookup id with
    | some sender => rfl
    | none => rw [isSome_map, isSome_none, Bool.false_or]
  rw [hreach]
  induction rs with
  | nil => rfl
  | cons r rs ih =>
    cases r with
    | inProcess id' extension eventTypes =>
      show (((dispatcherOf rs).isolatedEventSenders.lookup id).isSome ||
        (((dispatcherOf rs).inProcessExtensions.insert id' extension).lookup id).isSome) = _
      rw [registrations]
      by_cases hid : id' = id
      · subst hid
        rw [lookup_insert, if_pos rfl]
        simp
      · rw [lookup_insert_ne (Ne.symm hid), if_neg hid, ih]
    | isolated id' eventTypes sender =>
      show ((((dispatcherOf rs).isolatedEventSenders.insert id' sender).lookup id).isSome ||
        ((dispatcherOf rs).inProcessExtensions.lookup id).isSome) = _
      rw [registrations]
      by_cases hid : id' = id
      · subst hid
        rw [lookup_insert, if_pos rfl]
        simp
      · rw [lookup_insert_ne (Ne.symm hid), if_neg hid, ih]
    | unregister id' =>
      show ((((dispatcherOf rs).isolatedEventSenders.erase id').lookup id).isSome ||
        (((dispatcherOf rs).inProcessExtensions.erase id').lookup id).isSome) = _
      rw [registrations]
      by_cases hid : id' = id
      · subst hid
        rw [AList.lookup_erase, AList.lookup_erase, if_pos rfl]
        rfl
      · rw [AList.lookup_erase_ne (Ne.symm hid), AList.lookup_erase_ne (Ne.symm hid), if_neg hid,
          ih]

theorem id_of_reach {d : EventDispatcher Ext Sender} {o : Offer Ext Sender}
    (h : d.reach id = some o) : o.id = id := by
  unfold EventDispatcher.reach at h
  split at h
  · cases h
    rfl
  · obtain ⟨extension, -, rfl⟩ := map_eq_some_iff.mp h
    rfl

/-- How often an event is offered to an extension. -/
theorem length_dispatchEvent (rs : List (Registration Ext Sender)) (id eventType : String) :
    (((dispatcherOf rs).dispatchEvent eventType).filter fun o => decide (o.id = id)).length =
      if Wants (((dispatcherOf rs).subscriptions.lookup id).getD []) eventType then 1 else 0 := by
  have hid : ∀ (id' : String) (eventTypes : List String),
      ∀ o ∈ (if eventTypes.any (isReceived eventType) then (dispatcherOf rs).reach id' else none),
        o.id = id' := by
    intro id' eventTypes o ho
    split at ho
    · exact id_of_reach ho
    · cases ho
  unfold EventDispatcher.dispatchEvent
  rw [HashMap.filter_filterMap_entries _ hid id]
  cases hlookup : (dispatcherOf rs).subscriptions.lookup id with
  | none =>
    rw [getD_none, if_neg (not_wants_nil eventType)]
    rfl
  | some eventTypes =>
    rw [bind_some, getD_some]
    by_cases hwants : Wants eventTypes eventType
    · rw [if_pos hwants, if_pos (any_isReceived_iff.mpr hwants)]
      have hne : registrations id rs ≠ [] := by
        intro hnil
        rw [lookup_subscriptions, hnil] at hlookup
        cases hlookup
      obtain ⟨o, ho⟩ := isSome_iff_exists.mp ((isSome_reach rs id).trans (decide_eq_true hne))
      rw [ho]
      rfl
    · rw [if_neg hwants, if_neg (fun h => hwants (any_isReceived_iff.mp h))]
      rfl

/-- The excluded extension is passed over, and nothing else changes. -/
theorem filter_dispatchEventExcluding (d : EventDispatcher Ext Sender)
    (eventType exclude id : String) :
    ((d.dispatchEventExcluding eventType exclude).filter fun o => decide (o.id = id)) =
      if id = exclude then [] else
        (d.dispatchEvent eventType).filter fun o => decide (o.id = id) := by
  have hid : ∀ (id' : String) (eventTypes : List String),
      ∀ o ∈ (if eventTypes.any (isReceived eventType) then d.reach id' else none), o.id = id' := by
    intro id' eventTypes o ho
    split at ho
    · exact id_of_reach ho
    · cases ho
  have hid' : ∀ (id' : String) (eventTypes : List String),
      ∀ o ∈ (if id' = exclude then none else
        if eventTypes.any (isReceived eventType) then d.reach id' else none), o.id = id' := by
    intro id' eventTypes o ho
    split at ho
    · cases ho
    · exact hid id' eventTypes o ho
  unfold EventDispatcher.dispatchEventExcluding EventDispatcher.dispatchEvent
  rw [HashMap.filter_filterMap_entries _ hid' id, HashMap.filter_filterMap_entries _ hid id]
  by_cases hexclude : id = exclude
  · rw [if_pos hexclude]
    cases d.subscriptions.lookup id with
    | none => rfl
    | some eventTypes => rw [bind_some, if_pos hexclude, toList_none]
  · rw [if_neg hexclude]
    cases d.subscriptions.lookup id with
    | none => rfl
    | some eventTypes => rw [bind_some, if_neg hexclude, bind_some]

/-- The dispatch is exact when the types that are stored are those of the latest registrations. -/
theorem exact_iff (rs : List (Registration Ext Sender)) : Exact rs ↔ NoneStale rs := by
  constructor
  · intro hexact id hhead eventTypes hmem
    by_contra hne
    -- an old type is still in place, and the event of this type is offered
    have hfound : ((registrations id rs).find? fun ts => decide (ts ≠ [])).isSome = true := by
      rw [find?_isSome]
      exact ⟨eventTypes, hmem, decide_eq_true hne⟩
    obtain ⟨stale, hstale⟩ := isSome_iff_exists.mp hfound
    have hsome : stale ≠ [] := by
      have hdecide := find?_some hstale
      exact of_decide_eq_true hdecide
    obtain ⟨et, rest, rfl⟩ := exists_cons_of_ne_nil hsome
    have hcount := (hexact et id).1
    have hwants : Wants (et :: rest) et := Or.inr ⟨et, mem_cons_self, prefix_refl _⟩
    rw [length_dispatchEvent, lookup_subscriptions, hstale, hhead, getD_some,
      getD_some, if_pos hwants, if_neg (not_wants_nil et)] at hcount
    cases hcount
  · intro hstale eventType id
    have hlookup : ((dispatcherOf rs).subscriptions.lookup id).getD [] =
        (registrations id rs).head?.getD [] := by
      rw [lookup_subscriptions]
      have hid := hstale id
      cases hrs : registrations id rs with
      | nil => rfl
      | cons latest earlier =>
        rw [hrs] at hid
        cases latest with
        | cons et rest => rfl
        | nil =>
          have hnone : (([] :: earlier).find? fun ts : List String => decide (ts ≠ [])) = none := by
            rw [find?_eq_none]
            intro ts hts hne
            exact of_decide_eq_true hne (hid rfl ts hts)
          rw [hnone]
          rfl
    have hcount := length_dispatchEvent rs id eventType
    rw [hlookup] at hcount
    refine ⟨hcount, ?_⟩
    intro exclude
    rw [filter_dispatchEventExcluding]
    by_cases hexclude : id = exclude
    · rw [if_pos hexclude, if_neg (fun h => h.1 hexclude)]
      rfl
    · rw [if_neg hexclude, hcount]
      exact if_congr ⟨fun h => ⟨hexclude, h⟩, fun h => h.2⟩ rfl rfl

end

/-! ## Queues -/

/-- The queue of a subscriber after an event. -/
theorem lookup_pushEvent (g : GlobalEventState Json) (eventType : String) (payload : Json)
    (id : ℤ) :
    (g.pushEvent eventType payload).queues.lookup id =
      if (g.subscriptions.lookup id).any (isQueued eventType) then
        some (enqueue ((g.queues.lookup id).getD []) (eventType, payload))
      else g.queues.lookup id :=
  HashMap.lookup_foldl_entries g.subscriptions (isQueued eventType)
    (fun queue => enqueue (queue.getD []) (eventType, payload)) g.queues id

theorem queues_iff [Inhabited Json] (subType eventType : String) :
    Queues Json subType eventType ↔ Separated subType eventType := by
  have hwants : Wants [subType] eventType ↔
      subType = "all" ∨ subType.toList <+: eventType.toList := by
    unfold Wants
    simp [eq_comm]
  have hqueued : isQueued eventType subType = true ↔
      subType = "all" ∨ subType = eventType ∨ (subType ++ "::").toList <+: eventType.toList := by
    unfold isQueued
    rw [Bool.or_eq_true, Bool.or_eq_true, decide_eq_true_eq, decide_eq_true_eq,
      isPrefixOf_iff_prefix, or_assoc]
  constructor
  · intro hqueues hall hbegins hne
    by_contra hsep
    -- a subscriber with an empty queue gets nothing
    have hlookup : (AList.singleton 1 subType : HashMap ℤ String).lookup 1 = some subType := by
      unfold AList.lookup
      rfl
    have hempty := hqueues (hwants.mpr (Or.inr hbegins)) ⟨AList.singleton 1 subType, ∅⟩ 1 default
      hlookup
    rw [lookup_pushEvent, hlookup, any_some, if_neg] at hempty
    · cases hempty
    · intro h
      rcases hqueued.mp h with h | h | h
      · exact hall h
      · exact hne h
      · exact hsep h
  · intro hsep h g id payload hlookup
    rw [lookup_pushEvent, hlookup, any_some, if_pos]
    rw [hqueued]
    by_cases hall : subType = "all"
    · exact Or.inl hall
    · by_cases hne : subType = eventType
      · exact Or.inr (Or.inl hne)
      · exact Or.inr (Or.inr (hsep hall ((hwants.mp h).resolve_left hall) hne))

/-- After any registrations the dispatch is exact if and only if none of them has left old event
types in place, and the runner queues what the host forwards if and only if a separator follows. -/
theorem dispatch_iff [Inhabited Json] :
    (∀ rs : List (Registration Ext Sender), Exact rs ↔ NoneStale rs) ∧
      ∀ subType eventType, Queues Json subType eventType ↔ Separated subType eventType :=
  ⟨exact_iff, queues_iff⟩

/-- An extension that lists no event types after a restart still gets the events it had asked for,
and one that asks its runner for "Device" gets no "DeviceMetric". -/
theorem stale_and_unqueued :
    (∃ rs : List (Registration Unit ℕ), registrations "yolo" rs = [[], ["DeviceMetric"]] ∧
      ((dispatcherOf rs).dispatchEvent "DeviceMetric").map Offer.id = ["yolo"] ∧ ¬ Exact rs) ∧
    Wants ["Device"] "DeviceMetric" ∧ ¬ Queues Unit "Device" "DeviceMetric" := by
  refine ⟨⟨[.isolated "yolo" [] 2, .isolated "yolo" ["DeviceMetric"] 1], by decide, by decide, ?_⟩,
    by decide, ?_⟩
  · intro hexact
    have hstale := exact_iff _ |>.mp hexact "yolo" (by decide) ["DeviceMetric"] (by decide)
    cases hstale
  · intro hqueues
    have hsep := (queues_iff "Device" "DeviceMetric").mp hqueues (by decide) (by decide) (by decide)
    revert hsep
    decide

end HeraMind.Extension.Events
