/-
# Pushing changes only

A target that is pushed for changes only should leave out an event only if its value is the one
that was delivered last, or is about to be.  The matcher remembers another value: that of the last
event that passed it, before it is known whether there is a permit for the event, whether it is a
copy, and whether its delivery goes through.  Where the event went is not told to the matcher.
-/
import HeraMind.Push.Task
import HeraMind.Push.DeliveryLog

namespace HeraMind.Push

open List
open Transition

variable {Json : Type}

/-! ## The claim -/

namespace PushTask

section Fates

variable (s : PushTask Json) (i : ℕ)

/-- The event is buffered, or in a delivery that is not over. -/
def isPending : Bool :=
  decide (i ∈ s.buffer.map Prod.fst) ||
    s.deliveries.any fun d => decide (i ∈ d.ids) && !d.isOver && !d.isDelivered

/-- A send of a payload with the event went through. -/
def isDelivered : Bool :=
  s.deliveries.any fun d => decide (i ∈ d.ids) && d.isDelivered

/-- The event was dropped for lack of a permit, taken for a copy, left out of a batch, or its
delivery has failed. -/
def isLost : Bool :=
  decide (i ∈ s.dropped) || decide (i ∈ s.deduplicated) || decide (i ∈ s.leftOut) ||
    s.deliveries.any fun d => decide (i ∈ d.ids) && d.isOver && !d.isDelivered

/-- The event of the source that passed the matcher last. -/
def latest (sourceId : String) : Option Accepted :=
  s.accepted.find? fun r => decide (r.sourceId = sourceId)

/-- Where the numbers of events are. -/
def places : List ℕ :=
  s.buffer.map Prod.fst ++ s.deliveries.flatMap Delivery.ids ++ s.dropped ++ s.deduplicated ++
    s.leftOut

end Fates

/-- The source and the value of an event that is left out as unchanged. -/
def unchanged (env : Env Json) (target : PushTarget Json) (s : PushTask Json) :
    TaskLabel Json → Option (String × String)
  | .event e _ _ _ =>
    if s.pc = .listening ∧ reads target e = true then
      match e.extract with
      | some (entry, _) =>
        if s.matcher.filter.matches entry.sourceId &&
            s.matcher.isUnchanged entry.sourceId (env.text entry.value) then
          some (entry.sourceId, env.text entry.value)
        else none
      | none => none
    else none
  | _ => none

/-- An event is left out only if it has the value that is delivered or pending. -/
def LosesNoChange (env : Env Json) (target : PushTarget Json) (s : PushTask Json)
    (a : TaskLabel Json) : Prop :=
  ∀ x, s.unchanged env target a = some x → ∃ r ∈ s.accepted, r.sourceId = x.1 ∧ r.value = x.2 ∧
    (s.isPending r.index = true ∨ s.isDelivered r.index = true)

/-- An event is left out only if it has the value of the event of the source that passed the
matcher last, wherever that one has gone. -/
def RepeatsLatest (env : Env Json) (target : PushTarget Json) (s : PushTask Json)
    (a : TaskLabel Json) : Prop :=
  ∀ x, s.unchanged env target a = some x → ∃ r, s.latest x.1 = some r ∧ r.value = x.2 ∧
    (s.isPending r.index = true ∨ s.isDelivered r.index = true ∨ s.isLost r.index = true)

/-! ## The matcher -/

/-- The matcher knows values of events that passed it last. -/
def KnowsLatest (s : PushTask Json) : Prop :=
  ∀ sourceId value, s.matcher.lastValues.lookup sourceId = some value →
    ∃ r, s.latest sourceId = some r ∧ r.value = value

theorem lookup_keep {m : DataSourceMatcher} {kept : List String} {sourceId value : String}
    (h : (m.keep kept).lastValues.lookup sourceId = some value) :
    m.lastValues.lookup sourceId = some value := by
  unfold DataSourceMatcher.keep at h
  rw [HashMap.lookup_removeAll] at h
  split at h
  · cases h
  · exact h

/-- What the matcher knows after an event that passed it. -/
theorem lookup_shouldPush {m m' : DataSourceMatcher} {sourceId value : String}
    {kept : List String} (h : m.shouldPush sourceId value kept = some m') {source' value' : String}
    (hlookup : m'.lastValues.lookup source' = some value') :
    (source' = sourceId ∧ value' = value) ∨
      (source' ≠ sourceId ∧ m.lastValues.lookup source' = some value') := by
  unfold DataSourceMatcher.shouldPush at h
  split at h
  · cases h
    unfold DataSourceMatcher.record at hlookup
    by_cases hsource : source' = sourceId
    · subst hsource
      rw [AList.lookup_insert] at hlookup
      cases hlookup
      exact Or.inl ⟨rfl, rfl⟩
    · rw [AList.lookup_insert_ne hsource] at hlookup
      refine Or.inr ⟨hsource, ?_⟩
      split at hlookup
      · exact lookup_keep hlookup
      · exact hlookup
  · cases h

/-! ## Where events go -/

section Places

variable {env : Env Json} {target : PushTarget Json} {s s' : PushTask Json}

/-- Numbers are put in a place, and no other one is moved. -/
structure Puts (s s' : PushTask Json) (new : List ℕ) : Prop where
  accepted : s'.accepted = s.accepted
  matcher : s'.matcher = s.matcher
  places : s'.places.Perm (new ++ s.places)

theorem puts_flush (env : Env Json) (target : PushTarget Json) (s : PushTask Json)
    (kind : DeliveryKind) (awaiting : ℕ → TaskPc) (done : TaskPc) (logId : String) (time : ℤ) :
    Puts s (s.flush env target kind awaiting done logId time) [] := by
  have hsplit : ((s.buffer.filter fun e => isRawMetric e.2.sourceId).map Prod.fst ++
      (s.buffer.filter fun e => !isRawMetric e.2.sourceId).map Prod.fst).Perm
        (s.buffer.map Prod.fst) := by
    rw [← map_append]
    exact (filter_append_perm _ _).map _
  have hcount := perm_iff_count.mp hsplit
  unfold flush
  dsimp only
  split
  · refine ⟨rfl, rfl, perm_iff_count.mpr fun i => ?_⟩
    have hi := hcount i
    simp only [places, count_append, nil_append, map_nil] at hi ⊢
    omega
  · refine ⟨rfl, rfl, perm_iff_count.mpr fun i => ?_⟩
    have hi := hcount i
    simp only [places, count_append, nil_append, map_nil, count_nil,
      flatMap_append, flatMap_cons, flatMap_nil] at hi ⊢
    omega

theorem puts_push (target : PushTarget Json) (s : PushTask Json) (i : ℕ) (entry : Entry Json) :
    Puts s (s.push target i entry) [i] := by
  refine ⟨rfl, rfl, perm_iff_count.mpr fun j => ?_⟩
  simp only [places, push, count_append, map_append, map_cons, map_nil]
  omega

theorem puts_spawnDelivery (s : PushTask Json) (i : ℕ) (entry : Entry Json) :
    Puts s (s.spawnDelivery i entry) [i] := by
  unfold spawnDelivery
  split
  · refine ⟨rfl, rfl, perm_iff_count.mpr fun j => ?_⟩
    simp only [places, count_append, flatMap_append, flatMap_cons, flatMap_nil, append_nil]
    omega
  · refine ⟨rfl, rfl, perm_iff_count.mpr fun j => ?_⟩
    simp only [places, count_append, count_cons, count_nil]
    omega

theorem Puts.trans {t : PushTask Json} {new : List ℕ} (h : Puts s s' new) (h' : Puts s' t []) :
    Puts s t new :=
  ⟨h'.accepted.trans h.accepted, h'.matcher.trans h.matcher, h'.places.trans h.places⟩

theorem puts_handOn (env : Env Json) (target : PushTarget Json) (s : PushTask Json) (i : ℕ)
    (entry : Entry Json) (logId : String) (time : ℤ) :
    Puts s (s.handOn env target i entry logId time) [i] := by
  unfold handOn
  split
  · split
    · have hpush := puts_push target s i entry
      simp only
      split
      · have hflush := puts_flush env target
          { s.push target i entry with
            flushTimer := (s.push target i entry).nextFlush target }
          .flush .flushing .listening logId time
        exact hpush.trans ⟨hflush.accepted, hflush.matcher, hflush.places⟩
      · exact hpush
    · exact puts_spawnDelivery s i entry
  · exact puts_push target s i entry

theorem puts_tearDown (s : PushTask Json) (logId : String) (time : ℤ) :
    Puts s (s.tearDown env target logId time) [] := by
  unfold tearDown
  split
  · exact ⟨rfl, rfl, List.Perm.refl _⟩
  · exact puts_flush env target s .lastFlush .lastFlush .stopped logId time

variable {d d' : Delivery Json}

/-- Deliveries that go on keep their events. -/
theorem places_set {i : ℕ} (hd : s.deliveries[i]? = some d) (hids : d'.ids = d.ids) :
    ({ s with deliveries := s.deliveries.set i d' } : PushTask Json).places = s.places := by
  have hmap : (s.deliveries.set i d').map Delivery.ids = s.deliveries.map Delivery.ids := by
    rw [map_set, hids]
    apply ext_getElem?
    intro j
    by_cases hj : i = j
    · subst hj
      have hlt := (List.getElem?_eq_some_iff.mp hd).1
      rw [getElem?_set_self (by rwa [length_map]), getElem?_map, hd]
      rfl
    · rw [getElem?_set_ne hj]
  unfold places
  rw [flatMap_def, flatMap_def, hmap]

theorem ids_render {logId : String} {time : ℤ}
    (h : render env target d logId time = some d') : d'.ids = d.ids := by
  unfold render at h
  split at h
  · split at h
    · cases h
      rfl
    · cases h
      rfl
  · cases h

theorem ids_deliver {stopSent : Bool} {a : LoopLabel}
    (h : deliver target d stopSent a = some d') : d'.ids = d.ids := by
  unfold deliver at h
  split at h
  · cases h
  · split at h
    · obtain ⟨l, -, rfl⟩ := Option.map_eq_some_iff.mp h
      rfl
    · cases h
  · obtain ⟨l, -, rfl⟩ := Option.map_eq_some_iff.mp h
    rfl
  · cases h

theorem ids_elapse (d : Delivery Json) (ms : ℕ) : (elapse d ms).ids = d.ids := by
  unfold elapse
  split <;> rfl

theorem puts_refl (s : PushTask Json) : Puts s s [] := ⟨rfl, rfl, List.Perm.refl _⟩

/-- An event is read and numbered, or nothing is. -/
theorem step_cases {a : TaskLabel Json} (h : s.step env target a = some s') :
    Puts s s' [] ∨ ∃ e kept logId time entry isVirtual matcher, a = .event e kept logId time ∧
      e.extract = some (entry, isVirtual) ∧
      s.matcher.shouldPush entry.sourceId (env.text entry.value) kept = some matcher ∧
      s' = s.accept env target entry isVirtual matcher logId time := by
  cases a with
  | event e kept logId time =>
    simp only [step] at h
    split at h
    · split at h
      · unfold onEvent at h
        split at h
        · cases h
          exact Or.inl (puts_refl s)
        · rename_i entry isVirtual hextract
          split at h
          · cases h
          · split at h
            · cases h
              exact Or.inl (puts_refl s)
            · rename_i matcher hmatcher
              cases h
              exact Or.inr ⟨e, kept, logId, time, entry, isVirtual, matcher, rfl, hextract, hmatcher,
                rfl⟩
      · cases h
        exact Or.inl (puts_refl s)
    · cases h
  | timer logId time =>
    left
    simp only [step] at h
    split at h
    · split at h
      · cases h
      · cases h
        exact ⟨rfl, rfl, List.Perm.refl _⟩
      · cases h
        have hflush := puts_flush env target
          { s with flushTimer := s.nextFlush target } .flush .flushing .listening logId time
        exact ⟨hflush.accepted, hflush.matcher, hflush.places⟩
    · cases h
  | sendStop =>
    cases h
    exact Or.inl ⟨rfl, rfl, List.Perm.refl _⟩
  | stop logId time =>
    left
    simp only [step] at h
    split at h
    · cases h
      exact puts_tearDown s logId time
    · cases h
  | close logId time =>
    left
    simp only [step] at h
    split at h
    · split at h
      · cases h
        exact puts_tearDown s logId time
      · cases h
    · cases h
  | render i logId time =>
    left
    simp only [step] at h
    split at h
    · cases h
    · rename_i d hd
      obtain ⟨d', hd', rfl⟩ := Option.map_eq_some_iff.mp h
      exact ⟨rfl, rfl, by rw [places_set hd (ids_render hd')]; exact List.Perm.refl _⟩
  | deliver i a =>
    left
    simp only [step] at h
    split at h
    · cases h
    · rename_i d hd
      obtain ⟨d', hd', rfl⟩ := Option.map_eq_some_iff.mp h
      exact ⟨rfl, rfl, by rw [places_set hd (ids_deliver hd')]; exact List.Perm.refl _⟩
  | resume =>
    left
    simp only [step] at h
    split at h
    · split at h
      · cases h
        exact ⟨rfl, rfl, List.Perm.refl _⟩
      · cases h
    · split at h
      · cases h
        exact ⟨rfl, rfl, List.Perm.refl _⟩
      · cases h
    · cases h
  | elapse d =>
    cases h
    refine Or.inl ⟨rfl, rfl, ?_⟩
    unfold places
    simp only [flatMap_map, ids_elapse]
    exact List.Perm.refl _

/-- What an event that passed the matcher changes. -/
theorem puts_accept (env : Env Json) (target : PushTarget Json) (s : PushTask Json)
    (entry : Entry Json) (isVirtual : Bool) (matcher : DataSourceMatcher) (logId : String)
    (time : ℤ) :
    Puts { s with
        matcher := matcher
        accepted := ⟨s.accepted.length, entry.sourceId, env.text entry.value⟩ :: s.accepted }
      (s.accept env target entry isVirtual matcher logId time) [s.accepted.length] := by
  unfold accept
  dsimp only
  split
  · refine ⟨rfl, rfl, perm_iff_count.mpr fun j => ?_⟩
    simp only [places, count_append, count_cons, count_nil]
    omega
  · cases isVirtual with
    | false => exact puts_handOn env target _ _ _ _ _
    | true =>
      have hhand := puts_handOn env target { s with
          matcher := matcher
          recentVirtual := s.recentVirtual.record
            (entry.sourceId, env.text entry.value, entry.timestamp) s.now
          accepted := ⟨s.accepted.length, entry.sourceId, env.text entry.value⟩ :: s.accepted }
        s.accepted.length { entry with value := env.resolveImageUrls entry.value } logId time
      exact ⟨hhand.accepted, hhand.matcher, hhand.places⟩

/-! ## Runs -/

/-- Every event that passed the matcher is in one place, and the matcher knows the last ones. -/
structure Accounted (s : PushTask Json) : Prop where
  places : s.places.Perm (s.accepted.map Accepted.index)
  indexes : s.accepted.map Accepted.index = (List.range s.accepted.length).reverse
  latest : s.KnowsLatest

theorem accounted_start {now : ℕ} (h : start target now = some s) : Accounted s := by
  have hnone : ∀ sourceId value, (⟨target.dataFilter, ∅⟩ : DataSourceMatcher).lastValues.lookup
      sourceId ≠ some value := by
    intro sourceId value hlookup
    have hempty : AList.lookup sourceId (∅ : HashMap String String) = none :=
      AList.lookup_empty sourceId
    rw [hempty] at hlookup
    cases hlookup
  unfold start at h
  dsimp only at h
  split at h
  · cases h
    exact ⟨List.Perm.refl _, rfl, fun sourceId value hlookup => absurd hlookup (hnone _ _)⟩
  · split at h
    · cases h
    · cases h
      exact ⟨List.Perm.refl _, rfl, fun sourceId value hlookup => absurd hlookup (hnone _ _)⟩

/-- The step lemma. -/
theorem Accounted.step {a : TaskLabel Json} (h : Accounted s) (hs : s.step env target a = some s') :
    Accounted s' := by
  rcases step_cases hs with hputs | ⟨e, kept, logId, time, entry, isVirtual, matcher, -, -, hmatcher,
    rfl⟩
  · refine ⟨?_, ?_, ?_⟩
    · rw [hputs.accepted]
      exact hputs.places.trans h.places
    · rw [hputs.accepted]
      exact h.indexes
    · unfold KnowsLatest PushTask.latest
      rw [hputs.matcher, hputs.accepted]
      exact h.latest
  · have hputs := puts_accept env target s entry isVirtual matcher logId time
    refine ⟨?_, ?_, ?_⟩
    · rw [hputs.accepted]
      exact hputs.places.trans (List.Perm.cons _ h.places)
    · rw [hputs.accepted, map_cons, h.indexes, length_cons, range_succ,
        reverse_append]
      rfl
    · intro sourceId value hlookup
      rw [hputs.matcher] at hlookup
      unfold PushTask.latest
      rw [hputs.accepted]
      rcases lookup_shouldPush hmatcher hlookup with ⟨rfl, rfl⟩ | ⟨hsource, hlookup⟩
      · exact ⟨_, find?_cons_of_pos (decide_eq_true rfl), rfl⟩
      · obtain ⟨r, hr, hvalue⟩ := h.latest sourceId value hlookup
        refine ⟨r, ?_, hvalue⟩
        rw [find?_cons_of_neg]
        · exact hr
        · intro heq
          exact hsource (of_decide_eq_true heq).symm

theorem accounted_of_run {now : ℕ} {s₀ : PushTask Json} (hstart : start target now = some s₀)
    {tr : List (PushTask Json × TaskLabel Json)} (hrun : Run (PushTask.step env target) s₀ tr s) :
    Accounted s :=
  hrun.invariant' (accounted_start hstart) fun _ _ _ h hs => h.step hs

/-- An event that passed the matcher has a fate. -/
theorem Accounted.fate (h : Accounted s) {r : Accepted} (hr : r ∈ s.accepted) :
    s.isPending r.index = true ∨ s.isDelivered r.index = true ∨ s.isLost r.index = true := by
  have hplace : r.index ∈ s.places := h.places.mem_iff.mpr (mem_map_of_mem hr)
  simp only [PushTask.places, mem_append, mem_flatMap] at hplace
  rcases hplace with (((hbuffer | ⟨d, hd, hi⟩) | hdropped) | hdeduplicated) | hleftOut
  · left
    simp [isPending, hbuffer]
  · cases hover : d.isDelivered with
    | true =>
      right
      left
      exact any_eq_true.mpr ⟨d, hd, by simp [hi, hover]⟩
    | false =>
      cases hover' : d.isOver with
      | true =>
        have hany : (s.deliveries.any fun d => decide (r.index ∈ d.ids) && d.isOver &&
            !d.isDelivered) = true :=
          any_eq_true.mpr ⟨d, hd, by simp [hi, hover, hover']⟩
        right
        right
        simp [isLost, hany]
      | false =>
        have hany : (s.deliveries.any fun d => decide (r.index ∈ d.ids) && !d.isOver &&
            !d.isDelivered) = true :=
          any_eq_true.mpr ⟨d, hd, by simp [hi, hover, hover']⟩
        left
        simp [isPending, hany]
  · right
    right
    simp [isLost, hdropped]
  · right
    right
    simp [isLost, hdeduplicated]
  · right
    right
    simp [isLost, hleftOut]

/-- What an event that is left out repeats. -/
theorem Accounted.repeatsLatest (h : Accounted s) (a : TaskLabel Json) :
    s.RepeatsLatest env target a := by
  intro x hx
  unfold unchanged at hx
  split at hx
  · split at hx
    · split at hx
      · rename_i entry _ _ hunchanged
        split at hx
        · rename_i hmatches
          cases hx
          rw [Bool.and_eq_true] at hmatches
          unfold DataSourceMatcher.isUnchanged at hmatches
          rw [Bool.and_eq_true, decide_eq_true_eq] at hmatches
          obtain ⟨r, hr, hvalue⟩ := h.latest _ _ hmatches.2.2
          exact ⟨r, hr, hvalue, h.fate (mem_of_find?_eq_some hr)⟩
        · cases hx
      · cases hx
    · cases hx
  · cases hx

end Places

end PushTask

/-! ## Events that are left out -/

namespace Sample

def env : Env String where
  text value := value
  resolveImageUrls value := value
  renderer := renderer

/-- All changes are pushed at once. -/
def target : PushTarget String where
  id := "cloud"
  name := "Cloud"
  enabled := true
  targetType := .webhook
  config := "\x7b\"url\":\"https://cloud.example\"\x7d"
  schedule := .eventDriven []
  dataFilter := ⟨[], true⟩
  template := none
  retryConfig := retryConfig
  batchConfig := ⟨1, 2000, .flat⟩
  createdAt := 0
  updatedAt := 0

/-- The first state of the task. -/
def listening : PushTask String where
  matcher := ⟨⟨[], true⟩, ∅⟩
  recentVirtual := ∅
  buffer := []
  flushTimer := 2000
  deliveries := []
  pc := .listening
  now := 0
  stopSent := false
  accepted := []
  dropped := []
  deduplicated := []
  leftOut := []

theorem start_target : PushTask.start target 0 = some listening := rfl

/-- A temperature of a device. -/
def temperature (deviceId value : String) : TaskLabel String :=
  .event (.deviceMetric deviceId "temp" value 0 none) [] "log" 0

/-- A value that is delivered, another one whose delivery waits, and the first one again. -/
def repeated : List (TaskLabel String) :=
  [temperature "s1" "25", .render 0 "log" 0, .deliver 0 (.answer (.ok ()) 0 true),
    temperature "s2" "40", temperature "s1" "25", temperature "s2" "40"]

/-- Four devices whose deliveries wait, and a fifth one that reports twice. -/
def overloaded : List (TaskLabel String) :=
  [temperature "s1" "25", temperature "s2" "25", temperature "s3" "25", temperature "s4" "25",
    temperature "s5" "25", temperature "s5" "25"]

/-- A delivery that fails until its target is stopped, and the same value meanwhile. -/
def failed : List (TaskLabel String) :=
  [temperature "s1" "25", .render 0 "log" 0, .deliver 0 (.answer (.error unavailable) 0 true),
    .elapse 20000, .deliver 0 .wake, .deliver 0 (.answer (.error unavailable) 20 true),
    .elapse 40000, .deliver 0 .wake, .deliver 0 (.answer (.error unavailable) 60 true),
    .elapse 80000, .deliver 0 .wake, .deliver 0 (.answer (.error unavailable) 140 true),
    temperature "s1" "25"]

/-- The event is left out, and no event with its source and value is delivered or pending. -/
def losesChange (s : PushTask String) (a : TaskLabel String) : Bool :=
  (s.unchanged env target a).any fun x => s.accepted.all fun r =>
    !(decide (r.sourceId = x.1 ∧ r.value = x.2) && (s.isPending r.index || s.isDelivered r.index))

theorem not_losesNoChange {s : PushTask String} {a : TaskLabel String}
    (h : losesChange s a = true) : ¬ s.LosesNoChange env target a := by
  intro hclaim
  obtain ⟨x, hx, hall⟩ := (Option.any_eq_true _ _).mp h
  obtain ⟨r, hr, hsource, hvalue, hfate⟩ := hclaim x hx
  have hnone := all_eq_true.mp hall r hr
  rcases hfate with hfate | hfate
  · simp [hsource, hvalue, hfate] at hnone
  · simp [hsource, hvalue, hfate] at hnone

end Sample

namespace PushTask

end PushTask

end HeraMind.Push
