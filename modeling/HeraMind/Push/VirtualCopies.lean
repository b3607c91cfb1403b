/-
# The two copies of a transform's output

A transform publishes each output twice, under its own name and under the name of the device
(`crates/heramind-api/src/event_services.rs`).  A push task remembers the virtual metrics that it
has handed on for some seconds (`is_duplicate_virtual`, `crates/heramind-data-push/src/scheduler.rs`)
by source, value and timestamp.  The source tells the two copies apart, so a filter that matches
both gets both; and the copies under the name of the transform that two devices have in common are
taken for one.
-/
import HeraMind.Push.Task

namespace HeraMind.Push.Virtual

open List
open Transition

variable {Json : Type}

/-! ## Outputs and their copies -/

/-- `TransformedMetric`. -/
structure Output (Json : Type) where
  deviceId : String
  transformId : Option String
  metric : String
  value : Json
  timestamp : ℤ
  deriving DecidableEq

namespace Output

/-- `storage_device_id`. -/
def storageDeviceId (o : Output Json) : String := "transform:" ++ o.transformId.getD "unknown"

/-- The copy that is published first. -/
def transformCopy (o : Output Json) : Event Json :=
  .deviceMetric o.storageDeviceId o.metric o.value o.timestamp (some true)

def deviceCopy (o : Output Json) : Event Json :=
  .deviceMetric o.deviceId o.metric o.value o.timestamp (some true)

end Output

/-! ## The receiver -/

/-- What a task keeps to decide which events it hands on. -/
structure Receiver where
  matcher : DataSourceMatcher
  recent : RecentVirtual
  /-- Milliseconds. -/
  now : ℕ

variable (env : Env Json)

def keyOf (entry : Entry Json) : String × String × ℤ :=
  (entry.sourceId, env.text entry.value, entry.timestamp)

/-- The key of a copy under a device's name. -/
def Output.key (o : Output Json) (deviceId : String) : String × String × ℤ :=
  ("device:" ++ deviceId ++ ":" ++ o.metric, env.text o.value, o.timestamp)

namespace Receiver

/-- An event is read: the receiver after it, and whether the event is handed on. -/
def receive (r : Receiver) (e : Event Json) (kept : List String) : Receiver × Bool :=
  match e.extract with
  | none => (r, false)
  | some (entry, isVirtual) =>
    match r.matcher.shouldPush entry.sourceId (env.text entry.value) kept with
    | none => (r, false)
    | some matcher =>
      if isVirtual && r.recent.isDuplicate (keyOf env entry) r.now then
        ({ r with matcher := matcher }, false)
      else
        ({ r with
            matcher := matcher
            recent := if isVirtual then r.recent.record (keyOf env entry) r.now else r.recent },
          true)

/-- The matcher lets the event through. -/
def passes (r : Receiver) (e : Event Json) (kept : List String) : Bool :=
  e.extract.any fun p =>
    (r.matcher.shouldPush p.1.sourceId (env.text p.1.value) kept).isSome

def elapse (r : Receiver) (d : ℕ) : Receiver := { r with now := r.now + d }

/-- The receiver of a task. -/
def ofTask (s : PushTask Json) : Receiver := ⟨s.matcher, s.recentVirtual, s.now⟩

end Receiver

/-- A virtual metric that was handed on: a copy of an output, or one that an extension has published
(`crates/heramind-api/src/capability_providers.rs`). -/
structure Handed (Json : Type) where
  time : ℕ
  key : String × String × ℤ
  output : Option (Output Json)

/-- The window since then is not over. -/
def Handed.isRecent (h : Handed Json) (time : ℕ) : Bool :=
  decide (time - h.time < virtualDedupWindow)

/-- A receiver, with what it has handed on. -/
structure Observed (Json : Type) where
  receiver : Receiver
  handed : List (Handed Json)

/-- What is published next, with the keys that a full matcher keeps. -/
inductive Publication (Json : Type) : Type where
  /-- Both copies of an output, with the time between them. -/
  | output (o : Output Json) (gap : ℕ) (kept kept' : List String)
  | other (e : Event Json) (kept : List String)
  | elapse (d : ℕ)

namespace Observed

/-- A target has just started. -/
def start (filter : DataSourceFilter) : Observed Json := ⟨⟨⟨filter, ∅⟩, ∅, 0⟩, []⟩

/-- The receiver before the second copy. -/
def between (s : Observed Json) (o : Output Json) (gap : ℕ) (kept : List String) : Receiver :=
  (s.receiver.receive env o.transformCopy kept).1.elapse gap

/-- The copies that are handed on. -/
def copies (s : Observed Json) (o : Output Json) (gap : ℕ) (kept kept' : List String) :
    List (Handed Json) :=
  (if ((s.between env o gap kept).receive env o.deviceCopy kept').2 then
    [⟨s.receiver.now + gap, o.key env o.deviceId, some o⟩] else []) ++
  if (s.receiver.receive env o.transformCopy kept).2 then
    [⟨s.receiver.now, o.key env o.storageDeviceId, some o⟩] else []

/-- What is handed on of an event that is no copy of an output. -/
def others (s : Observed Json) (e : Event Json) (kept : List String) : List (Handed Json) :=
  match e.extract with
  | some (entry, true) =>
    if (s.receiver.receive env e kept).2 then [⟨s.receiver.now, keyOf env entry, none⟩] else []
  | _ => []

def step (s : Observed Json) : Publication Json → Option (Observed Json)
  | .output o gap kept kept' =>
    some ⟨((s.between env o gap kept).receive env o.deviceCopy kept').1,
      s.copies env o gap kept kept' ++ s.handed⟩
  | .other e kept =>
    some ⟨(s.receiver.receive env e kept).1, s.others env e kept ++ s.handed⟩
  | .elapse d => some { s with receiver := s.receiver.elapse d }

/-! ## The law and the condition -/

section

variable (s : Observed Json) (o : Output Json) (gap : ℕ) (kept kept' : List String)

/-- The filter lets the copy of the transform through. -/
def passesFirst : Bool := s.receiver.passes env o.transformCopy kept

/-- The filter lets the copy of the device through. -/
def passesSecond : Bool := (s.between env o gap kept).passes env o.deviceCopy kept'

/-- The key was used within the window, for a virtual metric with the property. -/
def Used (P : Option (Output Json) → Prop) (key : String × String × ℤ) (time : ℕ) : Prop :=
  ∃ h ∈ s.handed, P h.output ∧ h.key = key ∧ h.isRecent time = true

/-- An output that was not handed on within the window is handed on once, if its filter lets it
through. -/
def Once : Prop :=
  s.passesFirst env o kept = true ∨ s.passesSecond env o gap kept kept' = true →
  (∀ h ∈ s.handed, h.output = some o → h.isRecent s.receiver.now = false) →
  (s.copies env o gap kept kept').length = 1

/-- The filter tells the two copies apart, or they are of one name; and no copy that it lets through
has the key of another virtual metric within the window. -/
structure ApartFrom : Prop where
  prompt : gap < virtualDedupWindow
  apart : s.passesFirst env o kept = true → s.passesSecond env o gap kept kept' = true →
    o.storageDeviceId = o.deviceId
  first : s.passesFirst env o kept = true →
    ¬ s.Used (fun o' => o' ≠ some o) (o.key env o.storageDeviceId) s.receiver.now
  second : s.passesSecond env o gap kept kept' = true →
    ¬ s.Used (fun o' => o' ≠ some o) (o.key env o.deviceId) (s.receiver.now + gap)

/-- The filter lets both copies through, which have different names, and neither key was used within
the window. -/
structure Both : Prop where
  first : s.passesFirst env o kept = true
  second : s.passesSecond env o gap kept kept' = true
  names : o.storageDeviceId ≠ o.deviceId
  fresh : ¬ s.Used (fun _ => True) (o.key env o.storageDeviceId) s.receiver.now
  fresh' : ¬ s.Used (fun _ => True) (o.key env o.deviceId) (s.receiver.now + gap)

end

instance [DecidableEq Json] (s : Observed Json) (o : Output Json) (key : String × String × ℤ)
    (time : ℕ) : Decidable (s.Used (fun o' => o' ≠ some o) key time) :=
  inferInstanceAs (Decidable
    (∃ h ∈ s.handed, h.output ≠ some o ∧ h.key = key ∧ h.isRecent time = true))

instance [DecidableEq Json] (s : Observed Json) (o : Output Json) (gap : ℕ)
    (kept kept' : List String) : Decidable (s.ApartFrom env o gap kept kept') :=
  decidable_of_iff
    (gap < virtualDedupWindow ∧
      (s.passesFirst env o kept = true → s.passesSecond env o gap kept kept' = true →
        o.storageDeviceId = o.deviceId) ∧
      (s.passesFirst env o kept = true →
        ¬ s.Used (fun o' => o' ≠ some o) (o.key env o.storageDeviceId) s.receiver.now) ∧
      (s.passesSecond env o gap kept kept' = true →
        ¬ s.Used (fun o' => o' ≠ some o) (o.key env o.deviceId) (s.receiver.now + gap)))
    ⟨fun h => ⟨h.1, h.2.1, h.2.2.1, h.2.2.2⟩, fun h => ⟨h.1, h.2, h.3, h.4⟩⟩

/-- The law for the output that is published next. -/
def Exact (s : Observed Json) : Publication Json → Prop
  | .output o gap kept kept' => s.Once env o gap kept kept'
  | _ => True

/-- The condition on the output that is published next. -/
def Apart (s : Observed Json) : Publication Json → Prop
  | .output o gap kept kept' => s.ApartFrom env o gap kept kept'
  | _ => True

instance [DecidableEq Json] (s : Observed Json) : ∀ p, Decidable (s.Apart env p)
  | .output o gap kept kept' => inferInstanceAs (Decidable (s.ApartFrom env o gap kept kept'))
  | .other _ _ | .elapse _ => isTrue trivial

end Observed

/-! ## What the receiver remembers -/

theorem isDuplicate_insert (recent : RecentVirtual) (key k : String × String × ℤ) (now t : ℕ) :
    RecentVirtual.isDuplicate (recent.insert key now) k t =
      if k = key then decide (t - now < virtualDedupWindow) else recent.isDuplicate k t := by
  unfold RecentVirtual.isDuplicate
  by_cases hk : k = key
  · rw [hk, AList.lookup_insert, if_pos rfl, Option.any_some]
  · rw [AList.lookup_insert_ne hk, if_neg hk]

/-- Pruning the map changes no answer from now on. -/
theorem isDuplicate_record (recent : RecentVirtual) (key k : String × String × ℤ) {now t : ℕ}
    (hle : now ≤ t) :
    (recent.record key now).isDuplicate k t =
      if k = key then decide (t - now < virtualDedupWindow) else recent.isDuplicate k t := by
  rw [← isDuplicate_insert]
  unfold RecentVirtual.record
  dsimp only
  split
  · generalize (recent.insert key now : RecentVirtual) = inserted
    have hold : inserted.keys.filter (fun key => !RecentVirtual.isDuplicate inserted key now) =
        inserted.keys.filter fun key => (inserted.lookup key).any fun seen =>
          !decide (now - seen < virtualDedupWindow) := by
      refine filter_congr fun key hkey => ?_
      obtain ⟨seen, hseen⟩ := Option.isSome_iff_exists.mp
        (AList.lookup_isSome.mpr (AList.mem_keys.mpr hkey))
      unfold RecentVirtual.isDuplicate
      rw [hseen]
      rfl
    unfold RecentVirtual.isDuplicate at *
    rw [hold, HashMap.lookup_removeAll_filter]
    cases hlookup : inserted.lookup k with
    | none => rfl
    | some seen =>
      rw [Option.filter_some, Bool.not_not, Option.any_some]
      split
      · rfl
      · rename_i hnot
        rw [decide_eq_true_eq] at hnot
        exact (decide_eq_false (by omega)).symm
  · rfl

/-- The receiver remembers the events that were handed on. -/
structure Remembers (r : Receiver) (handed : List (Handed Json)) : Prop where
  past : ∀ h ∈ handed, h.time ≤ r.now
  recent : ∀ k t, r.now ≤ t →
    (r.recent.isDuplicate k t = true ↔ ∃ h ∈ handed, h.key = k ∧ h.isRecent t = true)

namespace Remembers

variable {env} {r : Receiver} {handed : List (Handed Json)} {e : Event Json} {kept : List String}

theorem elapse (h : Remembers r handed) (d : ℕ) : Remembers (r.elapse d) handed where
  past x hx := Nat.le_add_right_of_le (h.past x hx)
  recent k t ht := h.recent k t (Nat.le_of_add_right_le ht)

theorem of_recent {r' : Receiver} (h : Remembers r handed) (hrecent : r'.recent = r.recent)
    (hnow : r'.now = r.now) : Remembers r' handed where
  past x hx := hnow ▸ h.past x hx
  recent k t ht := by
    rw [hrecent]
    exact h.recent k t (hnow ▸ ht)

/-- The receiver after an event that is not virtual. -/
theorem receive_other (h : Remembers r handed) (hother : ∀ entry, e.extract ≠ some (entry, true)) :
    Remembers (r.receive env e kept).1 handed := by
  unfold Receiver.receive
  cases hextract : e.extract with
  | none => exact h
  | some p =>
    obtain ⟨entry, isVirtual⟩ := p
    cases isVirtual with
    | true => exact absurd hextract (hother entry)
    | false =>
      dsimp only
      split
      · exact h
      · exact h.of_recent rfl rfl

/-- A virtual event is handed on when it passes the filter and its key was not used within the
window, and is remembered. -/
theorem receive_virtual (h : Remembers r handed) (env : Env Json) (kept : List String)
    {entry : Entry Json} (hextract : e.extract = some (entry, true))
    {key : String × String × ℤ} (hkeyOf : keyOf env entry = key) (o : Option (Output Json)) :
    ((r.receive env e kept).2 = true ↔ r.passes env e kept = true ∧
      ¬ ∃ h ∈ handed, h.key = key ∧ h.isRecent r.now = true) ∧
    (r.receive env e kept).1.now = r.now ∧
    Remembers (r.receive env e kept).1
      ((if (r.receive env e kept).2 then [⟨r.now, key, o⟩] else []) ++ handed) := by
  subst hkeyOf
  have hdup := h.recent (keyOf env entry) r.now (Nat.le_refl _)
  have hpasses : r.passes env e kept =
      (r.matcher.shouldPush entry.sourceId (env.text entry.value) kept).isSome := by
    unfold Receiver.passes
    rw [hextract]
    rfl
  rw [hpasses]
  cases hpush : r.matcher.shouldPush entry.sourceId (env.text entry.value) kept with
  | none =>
    have hreceive : r.receive env e kept = (r, false) := by
      unfold Receiver.receive
      rw [hextract]
      dsimp only
      rw [hpush]
    rw [hreceive]
    exact ⟨by simp, rfl, h⟩
  | some matcher =>
    have hreceive : r.receive env e kept =
        if r.recent.isDuplicate (keyOf env entry) r.now then
          ({ r with matcher := matcher }, false)
        else ({ r with
          matcher := matcher, recent := r.recent.record (keyOf env entry) r.now }, true) := by
      unfold Receiver.receive
      rw [hextract]
      dsimp only
      rw [hpush]
      rfl
    rw [hreceive]
    by_cases hseen : r.recent.isDuplicate (keyOf env entry) r.now = true
    · rw [if_pos hseen]
      exact ⟨by simp [hdup.mp hseen], rfl, h.of_recent rfl rfl⟩
    · rw [if_neg hseen]
      refine ⟨by simp [mt hdup.mpr hseen], rfl, ?_, ?_⟩
      · intro x hx
        rcases mem_cons.mp hx with rfl | hx
        · exact Nat.le_refl _
        · exact h.past x hx
      · intro k t ht
        have ht : r.now ≤ t := ht
        have hrest := h.recent k t ht
        show RecentVirtual.isDuplicate (r.recent.record _ r.now) k t = true ↔ _
        rw [isDuplicate_record _ _ _ ht]
        by_cases hk : k = keyOf env entry
        · rw [if_pos hk, hk]
          constructor
          · intro hwindow
            exact ⟨_, mem_cons_self, rfl, hwindow⟩
          · rintro ⟨x, hx, hkey, hrecent⟩
            rcases mem_cons.mp hx with rfl | hx
            · exact hrecent
            · -- an older use of the key would still be seen
              have hpast := h.past x hx
              have hlt := of_decide_eq_true hrecent
              exact absurd (hdup.mpr ⟨x, hx, hkey, decide_eq_true (by omega)⟩) hseen
        · rw [if_neg hk, hrest]
          constructor
          · rintro ⟨x, hx, hkey, hrecent⟩
            exact ⟨x, mem_cons_of_mem _ hx, hkey, hrecent⟩
          · rintro ⟨x, hx, hkey, hrecent⟩
            rcases mem_cons.mp hx with rfl | hx
            · exact absurd hkey.symm hk
            · exact ⟨x, hx, hkey, hrecent⟩

end Remembers

/-! ## Both copies -/

namespace Observed

variable {env} {s s' : Observed Json} {o : Output Json} {gap : ℕ} {kept kept' : List String}

/-- Which copies of an output are handed on. -/
structure CopiesSpec (env : Env Json) (s : Observed Json) (o : Output Json) (gap : ℕ)
    (kept kept' : List String) (isFirst isSecond : Bool) : Prop where
  copies : s.copies env o gap kept kept' =
    (if isSecond then [⟨s.receiver.now + gap, o.key env o.deviceId, some o⟩] else []) ++
    if isFirst then [⟨s.receiver.now, o.key env o.storageDeviceId, some o⟩] else []
  first : isFirst = true ↔ s.passesFirst env o kept = true ∧
    ¬ s.Used (fun _ => True) (o.key env o.storageDeviceId) s.receiver.now
  second : isSecond = true ↔ s.passesSecond env o gap kept kept' = true ∧
    ¬ (s.Used (fun _ => True) (o.key env o.deviceId) (s.receiver.now + gap) ∨
      (isFirst = true ∧ o.key env o.storageDeviceId = o.key env o.deviceId ∧
        gap < virtualDedupWindow))

theorem used_iff {key : String × String × ℤ} {t : ℕ} :
    s.Used (fun _ => True) key t ↔ ∃ h ∈ s.handed, h.key = key ∧ h.isRecent t = true := by
  unfold Used
  simp only [true_and]

theorem copies_spec (h : Remembers s.receiver s.handed) (env : Env Json) (o : Output Json)
    (gap : ℕ) (kept kept' : List String) :
    (∃ isFirst isSecond, CopiesSpec env s o gap kept kept' isFirst isSecond) ∧
      Remembers ((s.between env o gap kept).receive env o.deviceCopy kept').1
        (s.copies env o gap kept kept' ++ s.handed) := by
  obtain ⟨hfirst, hnow, hafter⟩ :=
    h.receive_virtual (e := o.transformCopy) env kept rfl (rfl : _ = o.key env o.storageDeviceId)
      (some o)
  obtain ⟨hsecond, -, hlast⟩ :=
    (hafter.elapse gap).receive_virtual (e := o.deviceCopy) env kept' rfl
      (rfl : _ = o.key env o.deviceId) (some o)
  have htime : ((s.receiver.receive env o.transformCopy kept).1.elapse gap).now =
      s.receiver.now + gap := by
    show (s.receiver.receive env o.transformCopy kept).1.now + gap = _
    rw [hnow]
  rw [htime] at hsecond hlast
  constructor
  · refine ⟨_, _, rfl, ?_, ?_⟩
    · exact hfirst.trans (and_congr_right fun _ => not_congr used_iff.symm)
    · refine hsecond.trans (and_congr_right fun _ => not_congr ?_)
      rw [used_iff]
      constructor
      · rintro ⟨x, hx, hkey, hrecent⟩
        rcases mem_append.mp hx with hx | hx
        · -- the first copy
          split at hx
          · rename_i hhanded
            rw [mem_singleton.mp hx] at hkey hrecent
            have hlt := of_decide_eq_true hrecent
            dsimp only at hlt
            exact Or.inr ⟨hhanded, hkey, by omega⟩
          · cases hx
        · exact Or.inl ⟨x, hx, hkey, hrecent⟩
      · rintro (⟨x, hx, hkey, hrecent⟩ | ⟨hhanded, hkey, hgap⟩)
        · exact ⟨x, mem_append_right _ hx, hkey, hrecent⟩
        · refine ⟨⟨s.receiver.now, o.key env o.storageDeviceId, some o⟩, ?_, hkey, ?_⟩
          · rw [if_pos hhanded]
            exact mem_append_left _ mem_cons_self
          · exact decide_eq_true (by dsimp only; omega)
  · unfold copies
    rw [append_assoc]
    exact hlast

theorem remembers_step (h : Remembers s.receiver s.handed) {p : Publication Json}
    (hs : s.step env p = some s') : Remembers s'.receiver s'.handed := by
  cases p with
  | output o gap kept kept' =>
    cases hs
    exact (copies_spec h env o gap kept kept').2
  | other e kept =>
    cases hs
    dsimp only
    unfold others
    split
    · rename_i entry hextract
      exact (h.receive_virtual env kept hextract rfl none).2.2
    · rename_i hother
      exact h.receive_other hother
  | elapse d =>
    cases hs
    exact h.elapse d

theorem remembers_start (filter : DataSourceFilter) :
    Remembers (start filter : Observed Json).receiver (start filter : Observed Json).handed where
  past x hx := by cases hx
  recent k t _ := by
    constructor
    · intro hdup
      cases hdup
    · rintro ⟨x, hx, -⟩
      cases hx

theorem key_eq_iff {a b : String} : o.key env a = o.key env b ↔ a = b := by
  constructor
  · intro heq
    have hsource := congrArg String.toList (congrArg Prod.fst heq)
    simp only [Output.key, String.toList_append, append_assoc] at hsource
    exact String.toList_injective (append_cancel_right (append_cancel_left hsource))
  · rintro rfl
    rfl

theorem once_of_apartFrom (h : Remembers s.receiver s.handed)
    (hapart : s.ApartFrom env o gap kept kept') : s.Once env o gap kept kept' := by
  intro hpasses hfresh
  obtain ⟨⟨isFirst, isSecond, hspec⟩, -⟩ := copies_spec h env o gap kept kept'
  rw [hspec.copies]
  have hunused : ∀ key t, s.receiver.now ≤ t → ¬ s.Used (fun o' => o' ≠ some o) key t →
      ¬ s.Used (fun _ => True) key t := by
    rintro key t ht hothers ⟨x, hx, -, hkey, hrecent⟩
    by_cases hsame : x.output = some o
    · have hold := of_decide_eq_false (hfresh x hx hsame)
      have hlt := of_decide_eq_true hrecent
      omega
    · exact hothers ⟨x, hx, hsame, hkey, hrecent⟩
  have hfirst : isFirst = true ↔ s.passesFirst env o kept = true := by
    rw [hspec.first]
    exact and_iff_left_of_imp fun hp => hunused _ _ (Nat.le_refl _) (hapart.first hp)
  cases hf : s.passesFirst env o kept with
  | true =>
    rw [if_pos (hfirst.mpr hf)]
    have hsecond : isSecond = false := by
      rw [Bool.eq_false_iff]
      intro hsecond
      obtain ⟨hp, hnot⟩ := hspec.second.mp hsecond
      have hnames := hapart.apart hf hp
      exact hnot (Or.inr ⟨hfirst.mpr hf, key_eq_iff.mpr hnames, hapart.prompt⟩)
    rw [hsecond]
    rfl
  | false =>
    have hf' : isFirst = false := by
      rw [Bool.eq_false_iff]
      intro hp
      rw [hfirst.mp hp] at hf
      cases hf
    have hp : s.passesSecond env o gap kept kept' = true := by
      rcases hpasses with hp | hp
      · rw [hf] at hp
        cases hp
      · exact hp
    have hsecond : isSecond = true := by
      rw [hspec.second]
      refine ⟨hp, ?_⟩
      rintro (hused | ⟨hp', -⟩)
      · exact hunused _ _ (Nat.le_add_right _ _) (hapart.second hp) hused
      · rw [hf'] at hp'
        cases hp'
    rw [hsecond, hf']
    rfl

theorem length_of_both (h : Remembers s.receiver s.handed)
    (hboth : s.Both env o gap kept kept') : (s.copies env o gap kept kept').length = 2 := by
  obtain ⟨⟨isFirst, isSecond, hspec⟩, -⟩ := copies_spec h env o gap kept kept'
  have hfirst : isFirst = true := hspec.first.mpr ⟨hboth.first, hboth.fresh⟩
  have hsecond : isSecond = true := by
    rw [hspec.second]
    refine ⟨hboth.second, ?_⟩
    rintro (hused | ⟨-, hkey, -⟩)
    · exact hboth.fresh' hused
    · exact hboth.names (key_eq_iff.mp hkey)
  rw [hspec.copies, hfirst, hsecond]
  rfl

end Observed

/-! ## The receiver of a task -/

section

variable {env} {target : PushTarget Json} {s s' : PushTask Json} {logId : String} {time : ℤ}

theorem ofTask_flush (kind : DeliveryKind) (awaiting : ℕ → TaskPc) (done : TaskPc) :
    Receiver.ofTask (s.flush env target kind awaiting done logId time) = Receiver.ofTask s := by
  unfold PushTask.flush
  dsimp only
  split
  · rfl
  · rfl

theorem ofTask_handOn (i : ℕ) (entry : Entry Json) :
    Receiver.ofTask (s.handOn env target i entry logId time) = Receiver.ofTask s := by
  unfold PushTask.handOn
  split
  · split
    · dsimp only
      split
      · rw [ofTask_flush]
        rfl
      · rfl
    · unfold PushTask.spawnDelivery
      split
      · rfl
      · rfl
  · rfl

/-- A task decides as its receiver does: an event that is not handed on leaves the buffer and the
deliveries as they are. -/
theorem ofTask_onEvent {e : Event Json} {kept : List String}
    (hs : s.onEvent env target e kept logId time = some s') :
    Receiver.ofTask s' = ((Receiver.ofTask s).receive env e kept).1 ∧
      (((Receiver.ofTask s).receive env e kept).2 = false →
        s'.buffer = s.buffer ∧ s'.deliveries = s.deliveries) := by
  unfold PushTask.onEvent at hs
  unfold Receiver.receive
  rcases hextract : e.extract with _ | ⟨entry, isVirtual⟩
  · rw [hextract] at hs
    cases hs
    exact ⟨rfl, fun _ => ⟨rfl, rfl⟩⟩
  · rw [hextract] at hs
    dsimp only at hs ⊢
    split at hs
    · cases hs
    · split at hs
      · rename_i hpush
        cases hs
        rw [show (Receiver.ofTask s).matcher = s.matcher from rfl, hpush]
        exact ⟨rfl, fun _ => ⟨rfl, rfl⟩⟩
      · rename_i matcher hpush
        cases hs
        rw [show (Receiver.ofTask s).matcher = s.matcher from rfl, hpush]
        dsimp only
        unfold PushTask.accept
        dsimp only
        by_cases hdup : (isVirtual && s.recentVirtual.isDuplicate
            (entry.sourceId, env.text entry.value, entry.timestamp) s.now) = true
        · have hdup' : (isVirtual && (Receiver.ofTask s).recent.isDuplicate (keyOf env entry)
              (Receiver.ofTask s).now) = true := hdup
          rw [if_pos hdup, if_pos hdup']
          exact ⟨rfl, fun _ => ⟨rfl, rfl⟩⟩
        · have hdup' : ¬ (isVirtual && (Receiver.ofTask s).recent.isDuplicate (keyOf env entry)
              (Receiver.ofTask s).now) = true := hdup
          rw [if_neg hdup, if_neg hdup', ofTask_handOn]
          constructor
          · cases isVirtual with
            | true | false => rfl
          · intro hnot
            cases hnot

end

/-- In every run, an output that does not collide with another virtual metric, and the copies of
which the filter tells apart, is handed on once.  But both copies are handed on whenever the filter
lets both through under different names. -/
theorem once_of_apart (env : Env Json) (filter : DataSourceFilter)
    (tr : List (Observed Json × Publication Json)) (s : Observed Json)
    (hr : Run (Observed.step env) (Observed.start filter) tr s) :
    (∀ e ∈ tr, Observed.Apart env e.1 e.2 → Observed.Exact env e.1 e.2) ∧
      ∀ s' o gap kept kept', (s', Publication.output o gap kept kept') ∈ tr →
        s'.Both env o gap kept kept' → (s'.copies env o gap kept kept').length = 2 := by
  have hremembers : ∀ e ∈ tr, Remembers e.1.receiver e.1.handed := by
    intro e he
    obtain ⟨post, pre, -, hpre⟩ := hr.upTo he
    exact hpre.invariant' (I := fun s => Remembers s.receiver s.handed)
      (Observed.remembers_start filter) fun s a s' h hs => Observed.remembers_step h hs
  constructor
  · rintro ⟨s', p⟩ he hapart
    cases p with
    | output o gap kept kept' => exact Observed.once_of_apartFrom (hremembers _ he) hapart
    | other e kept | elapse d => exact trivial
  · intro s' o gap kept kept' he hboth
    exact Observed.length_of_both (hremembers _ he) hboth

namespace Sample

def numbers : Env ℤ where
  text := toString
  resolveImageUrls := id
  renderer := ⟨fun _ _ => .ok "", fun _ _ _ => ""⟩

/-- The temperature of a device in Fahrenheit. -/
def fahrenheit (deviceId : String) (value timestamp : ℤ) : Output ℤ where
  deviceId := deviceId
  transformId := some "f"
  metric := "temp"
  value := value
  timestamp := timestamp

end Sample

/-- A filter for the devices hands both outputs on once, and a metric of an extension between them. -/
theorem once_of_apart_devices : ∃ tr s,
    Run (Observed.step Sample.numbers) (Observed.start ⟨["device:a:", "device:b:"], false⟩) tr s ∧
      s.handed.map Handed.output =
        [some (Sample.fahrenheit "b" 70 9), none, some (Sample.fahrenheit "a" 70 9)] ∧
      ∀ e ∈ tr, Observed.Exact Sample.numbers e.1 e.2 := by
  obtain ⟨tr, s, hrun, hok, hhanded⟩ := exists_run (Observed.step Sample.numbers)
    (Observed.start ⟨["device:a:", "device:b:"], false⟩)
    [.output (Sample.fahrenheit "a" 70 9) 1 [] [],
      .other (.deviceMetric "b" "forecast" 71 9 (some true)) [],
      .output (Sample.fahrenheit "b" 70 9) 1 [] []]
    (fun tr s => Within (Observed.Apart Sample.numbers) tr ∧ s.handed.map Handed.output =
      [some (Sample.fahrenheit "b" 70 9), none, some (Sample.fahrenheit "a" 70 9)])
    (by decide)
  exact ⟨tr, s, hrun, hhanded, fun e he =>
    (once_of_apart Sample.numbers _ tr s hrun).1 e he (hok e he)⟩

/-- A filter for everything hands each output on twice, and one for the transform takes the output
of a second device for that of the first. -/
theorem delivered_twice_and_merged :
    ¬ (Observed.start ⟨["*"], false⟩).Once Sample.numbers (Sample.fahrenheit "a" 70 9) 0 [] [] ∧
      ∃ tr s, Run (Observed.step Sample.numbers)
        (Observed.start ⟨["device:transform:"], false⟩) tr s ∧
        ¬ s.Once Sample.numbers (Sample.fahrenheit "b" 70 9) 0 [] [] := by
  constructor
  · intro honce
    have hlength := honce (Or.inl (by decide +kernel)) (fun h hh => by cases hh)
    revert hlength
    decide +kernel
  · obtain ⟨tr, s, hrun, hpasses, hother, hlength⟩ := exists_run (Observed.step Sample.numbers)
      (Observed.start ⟨["device:transform:"], false⟩)
      [.output (Sample.fahrenheit "a" 70 9) 1 [] []]
      (fun _ s => s.passesFirst Sample.numbers (Sample.fahrenheit "b" 70 9) [] = true ∧
        (∀ h ∈ s.handed, h.output ≠ some (Sample.fahrenheit "b" 70 9)) ∧
          (s.copies Sample.numbers (Sample.fahrenheit "b" 70 9) 0 [] []).length = 0)
      (by decide)
    refine ⟨tr, s, hrun, fun honce => ?_⟩
    have hone := honce (Or.inl hpasses) fun h hh heq => absurd heq (hother h hh)
    rw [hlength] at hone
    cases hone

end HeraMind.Push.Virtual
