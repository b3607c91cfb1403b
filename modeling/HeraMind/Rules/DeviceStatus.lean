/-
# The emitter of the offline time

`crates/heramind-rules/src/device_status_emitter.rs`: on every tick the emitter computes the virtual
metric `__last_seen_age_secs` of the subscribed devices, and gives it to the value provider unless
it is the value that was given last.  What was given last is remembered by the emitter; whether the
provider still has it is up to the updates in between, which may run between any two sections of a
tick.

The times are whole seconds of a chrono time, below `2 ^ 53`, so they and their comparison are
exact in `f64`.
-/
import HeraMind.Lib.Run
import HeraMind.Rules.UnifiedProvider

namespace HeraMind.Rules

open AList
open List

/-! ## The subscribed devices -/

/-- `VIRTUAL_METRIC_NAME`. -/
def virtualMetricName : String := "__last_seen_age_secs"

/-- The virtual metric of a device. -/
def virtualSource (deviceId : String) : DataSourceId := .ofDevice deviceId virtualMetricName

/-- The device of a storage key, if it is one of a device's metric with this name. -/
def deviceOfKey (metricName key : String) : Option String :=
  let suffix := (":" ++ metricName).toList
  let rest := key.toList.drop "device:".toList.length
  if "device:".toList <+: key.toList ∧ suffix <:+ rest then
    some (String.ofList (rest.take (rest.length - suffix.length)))
  else none

/-- `subscribed_virtual_metric_devices`. -/
def subscribedVirtualMetricDevices (index : HashMap String (List RuleId)) (metricName : String) :
    List String :=
  index.keys.filterMap (deviceOfKey metricName)

theorem deviceOfKey_eq_some {metricName key deviceId : String} :
    deviceOfKey metricName key = some deviceId ↔
      key = (DataSourceId.ofDevice deviceId metricName).storageKey := by
  have hchars : key = (DataSourceId.ofDevice deviceId metricName).storageKey ↔
      key.toList = "device:".toList ++ (deviceId.toList ++ (":" ++ metricName).toList) := by
    rw [← String.toList_append, ← String.toList_append, String.toList_inj]
    unfold DataSourceId.storageKey DataSourceId.ofDevice
    dsimp only
    rw [String.append_assoc, String.append_assoc]
  rw [hchars]
  unfold deviceOfKey
  dsimp only
  constructor
  · intro h
    split at h
    · rename_i hfix
      obtain ⟨⟨rest, hrest⟩, device, hdevice⟩ := hfix
      rw [← hrest, drop_left] at hdevice h
      rw [← hdevice, length_append, Nat.add_sub_cancel, take_left] at h
      cases h
      have hlist : (String.ofList device).toList = device := String.toList_ofList
      rw [← hrest, ← hdevice, hlist]
    · cases h
  · intro h
    rw [h, drop_left, if_pos ⟨prefix_append _ _, suffix_append _ _⟩,
      length_append, Nat.add_sub_cancel, take_left, String.ofList_toList]

theorem nodup_subscribedVirtualMetricDevices (index : HashMap String (List RuleId))
    (metricName : String) : (subscribedVirtualMetricDevices index metricName).Nodup := by
  refine List.Nodup.filterMap ?_ index.nodupKeys
  intro key key' deviceId hkey hkey'
  rw [Option.mem_def, deviceOfKey_eq_some] at hkey hkey'
  rw [hkey, hkey']

namespace Status

variable {F : Type} [F64 F]

/-! ## Ticks -/

/-- What the device service said of a device: when it was last seen, and after how many seconds it
is offline. -/
structure Reading where
  deviceId : String
  lastSeen : ℤ
  offlineTimeout : ℕ

/-- The value of the metric: 0 for a device that is online, and its age otherwise. -/
def Reading.metricValue (r : Reading) (now : ℤ) : ℤ :=
  let age := max (now - r.lastSeen) 0
  if (r.offlineTimeout : ℤ) ≤ age then age else 0

/-- A tick in progress, with what it has read so far. -/
structure Tick where
  now : ℤ
  deviceIds : List String
  /-- The devices to come. -/
  left : List String
  /-- The value that is remembered and not yet given to the provider. -/
  pushing : Option (String × ℤ)
  readings : List Reading

/-- The tick has returned. -/
def Tick.Ended (t : Tick) : Prop := t.left = [] ∧ t.pushing = none

/-- The provider and the emitter. -/
structure State (F : Type) where
  provider : UnifiedValueProvider F
  lastPushed : HashMap String ℤ
  tick : Option Tick

/-- A section of `emit_once`, or an update of the provider by somebody else.  An update names the
key that it evicts if there is no room. -/
inductive Action (F : Type) where
  /-- `emit_once` finds the subscribed devices and reads the clock. -/
  | emit (index : HashMap String (List RuleId)) (now : ℤ)
  /-- The next device is looked at, up to the value remembered for it. -/
  | visit (lastSeen : ℤ) (offlineTimeout : ℕ)
  /-- The value is given to the provider. -/
  | push (now : ℤ) (oldestKey : CacheKey)
  /-- Another update of the provider. -/
  | update (key : CacheKey) (value : RuleValue F) (ttlMs : UInt64) (now : ℤ) (oldestKey : CacheKey)

/-- The section of `emit_once` for one device: nothing is done for a device that was never seen, and
nothing is pushed if the value is the last one. -/
def visit (s : State F) (t : Tick) (r : Reading) (left : List String) : State F :=
  let t' := { t with left := left, readings := r :: t.readings }
  if r.lastSeen ≤ 0 then { s with tick := some t' }
  else if s.lastPushed.lookup r.deviceId = some (r.metricValue t.now) then
    { s with tick := some t' }
  else
    { s with
      lastPushed := s.lastPushed.insert r.deviceId (r.metricValue t.now)
      tick := some { t' with pushing := some (r.deviceId, r.metricValue t.now) } }

def step (s : State F) : Action F → Option (State F)
  | .emit index now =>
    if (∀ t ∈ s.tick, t.left = [] ∧ t.pushing = none) then
      let deviceIds := subscribedVirtualMetricDevices index virtualMetricName
      some { s with tick := some ⟨now, deviceIds, deviceIds, none, []⟩ }
    else none
  | .visit lastSeen offlineTimeout =>
    match s.tick with
    | some t =>
      match t.left, t.pushing with
      | deviceId :: left, none => some (visit s t ⟨deviceId, lastSeen, offlineTimeout⟩ left)
      | _, _ => none
    | none => none
  | .push now oldestKey =>
    match s.tick with
    | some t =>
      match t.pushing with
      | some (deviceId, v) =>
        (s.provider.updateDeviceValue deviceId virtualMetricName (F64.ofInt v) now oldestKey).map
          fun provider => { s with provider, tick := some { t with pushing := none } }
      | none => none
    | none => none
  | .update key value ttlMs now oldestKey =>
    (s.provider.updateRuleValueWithTtl key value ttlMs now oldestKey).map
      fun provider => { s with provider }

/-- An emitter that has not emitted anything. -/
def State.new (provider : UnifiedValueProvider F) : State F := ⟨provider, ∅, none⟩

/-! ## What the provider should have -/

/-- A value that was remembered for a device and has been given to the provider. -/
def State.Given (s : State F) (deviceId : String) (v : ℤ) : Prop :=
  s.lastPushed.lookup deviceId = some v ∧ ∀ t ∈ s.tick, ∀ v', t.pushing ≠ some (deviceId, v')

/-- The provider has the value of a device's metric. -/
def State.Has (s : State F) (deviceId : String) (v : ℤ) : Prop :=
  s.provider.Keeps (virtualSource deviceId).cacheKey (.number (F64.ofInt v))

/-- What a tick has found is what the provider returns: every subscribed device was looked at, and
for each that was ever seen the provider has 0 if its age is below the timeout, and the age if it
is not. -/
def Tick.Reported (t : Tick) (p : UnifiedValueProvider F) : Prop :=
  (∀ deviceId ∈ t.deviceIds, ∃ r ∈ t.readings, r.deviceId = deviceId) ∧
  ∀ r ∈ t.readings, 0 < r.lastSeen → ∀ now, p.getBySource now (virtualSource r.deviceId)
    = some (.number (F64.ofInt (if max (t.now - r.lastSeen) 0 < r.offlineTimeout then 0
        else max (t.now - r.lastSeen) 0)))

/-- An update spares the metrics of the devices: nobody else writes one that was given, unless it
is the same value for ever, and no update evicts one. -/
def Spares (s : State F) : Action F → Prop
  | .emit _ _ | .visit _ _ => True
  | .push now oldestKey => s.provider.defaultTtlMs = 0 ∧
      ∀ t ∈ s.tick, ∀ deviceId v, t.pushing = some (deviceId, v) →
        s.provider.Evicts (virtualSource deviceId).cacheKey ⟨.number (F64.ofInt v), now, 0⟩ →
        ∀ d w, s.lastPushed.lookup d = some w → oldestKey ≠ (virtualSource d).cacheKey
  | .update key value ttlMs now oldestKey => ∀ d w, s.Given d w →
      (key = (virtualSource d).cacheKey → value = .number (F64.ofInt w) ∧ ttlMs = 0) ∧
      (s.provider.Evicts key ⟨value, now, ttlMs⟩ → oldestKey ≠ (virtualSource d).cacheKey)

/-- What is remembered is what the provider has, and what the tick has read so far. -/
structure Sound (s : State F) : Prop where
  has : ∀ d v, s.Given d v → s.Has d v
  pushing : ∀ t ∈ s.tick, ∀ d v, t.pushing = some (d, v) → s.lastPushed.lookup d = some v
  pushed : ∀ t ∈ s.tick, ∀ r ∈ t.readings, 0 < r.lastSeen →
    s.lastPushed.lookup r.deviceId = some (r.metricValue t.now)
  visited : ∀ t ∈ s.tick, (t.readings.map Reading.deviceId).reverse ++ t.left = t.deviceIds
  nodup : ∀ t ∈ s.tick, t.deviceIds.Nodup

theorem sound_new (provider : UnifiedValueProvider F) : Sound (State.new provider) where
  has := fun _ _ h => nomatch h.1
  pushing := fun _ h => nomatch h
  pushed := fun _ h => nomatch h
  visited := fun _ h => nomatch h
  nodup := fun _ h => nomatch h

theorem cacheKey_virtualSource_inj {d d' : String}
    (h : (virtualSource d).cacheKey = (virtualSource d').cacheKey) : d = d' :=
  (Prod.mk.inj (Prod.mk.inj h).2).1

variable {s s' : State F}

omit [F64 F] in
/-- The device that is looked at was not looked at before. -/
theorem not_mem_readings {t : Tick} {deviceId : String} {left : List String}
    (hvisited : (t.readings.map Reading.deviceId).reverse ++ t.left = t.deviceIds)
    (hnodup : t.deviceIds.Nodup) (hleft : t.left = deviceId :: left) :
    ∀ r ∈ t.readings, r.deviceId ≠ deviceId := by
  rintro r hr rfl
  rw [← hvisited, hleft, nodup_append] at hnodup
  have hmem : r.deviceId ∈ (t.readings.map Reading.deviceId).reverse :=
    mem_reverse.mpr (mem_map_of_mem hr)
  exact hnodup.2.2 r.deviceId hmem r.deviceId mem_cons_self rfl

/-- Looking at a device keeps the invariant. -/
theorem Sound.visit {t : Tick} {r : Reading} {left : List String} (h : Sound s)
    (ht : s.tick = some t) (hleft : t.left = r.deviceId :: left) (hpushing : t.pushing = none) :
    Sound (visit s t r left) := by
  have hvisited := h.visited t ht
  have hnodup := h.nodup t ht
  have hnew := not_mem_readings hvisited hnodup hleft
  have hvisited' : ((r :: t.readings).map Reading.deviceId).reverse ++ left = t.deviceIds := by
    rw [← hvisited, hleft, map_cons, reverse_cons, append_assoc]
    rfl
  have hgiven : ∀ d v, s.lastPushed.lookup d = some v → s.Given d v := by
    refine fun d v hv => ⟨hv, fun t' ht' v' => ?_⟩
    rw [ht] at ht'
    cases ht'
    rw [hpushing]
    exact fun h => nomatch h
  unfold Status.visit
  dsimp only
  by_cases hseen : r.lastSeen ≤ 0
  · rw [if_pos hseen]
    refine ⟨fun d v hd => h.has d v (hgiven d v hd.1), ?_, ?_, ?_, ?_⟩
    · rintro t' ⟨⟩ d v hd
      rw [hpushing] at hd
      cases hd
    · rintro t' ⟨⟩ r' hr' hpos
      rcases mem_cons.mp hr' with rfl | hr'
      · omega
      · exact h.pushed t ht r' hr' hpos
    · rintro t' ⟨⟩
      exact hvisited'
    · rintro t' ⟨⟩
      exact hnodup
  · rw [if_neg hseen]
    by_cases hlast : s.lastPushed.lookup r.deviceId = some (r.metricValue t.now)
    · rw [if_pos hlast]
      refine ⟨fun d v hd => h.has d v (hgiven d v hd.1), ?_, ?_, ?_, ?_⟩
      · rintro t' ⟨⟩ d v hd
        rw [hpushing] at hd
        cases hd
      · rintro t' ⟨⟩ r' hr' hpos
        rcases mem_cons.mp hr' with rfl | hr'
        · exact hlast
        · exact h.pushed t ht r' hr' hpos
      · rintro t' ⟨⟩
        exact hvisited'
      · rintro t' ⟨⟩
        exact hnodup
    · rw [if_neg hlast]
      refine ⟨?_, ?_, ?_, ?_, ?_⟩
      · -- what is remembered for another device was remembered before
        rintro d v ⟨hd, hnot⟩
        have hne : d ≠ r.deviceId := by
          rintro rfl
          exact hnot _ rfl _ rfl
        rw [lookup_insert_ne hne] at hd
        exact h.has d v (hgiven d v hd)
      · rintro t' ⟨⟩ d v hd
        cases hd
        exact lookup_insert _
      · rintro t' ⟨⟩ r' hr' hpos
        rcases mem_cons.mp hr' with rfl | hr'
        · exact lookup_insert _
        · show (s.lastPushed.insert r.deviceId (r.metricValue t.now)).lookup r'.deviceId = _
          rw [lookup_insert_ne (hnew r' hr')]
          exact h.pushed t ht r' hr' hpos
      · rintro t' ⟨⟩
        exact hvisited'
      · rintro t' ⟨⟩
        exact hnodup

/-- Every section keeps the invariant, and so does every update that spares the metrics. -/
theorem Sound.step {a : Action F} (h : Sound s) (hspares : Spares s a)
    (hstep : Status.step s a = some s') : Sound s' := by
  cases a with
  | emit index now =>
    rw [Status.step] at hstep
    split at hstep
    · rename_i hended
      cases hstep
      refine ⟨fun d v hd => h.has d v ⟨hd.1, fun t ht v' => ?_⟩, ?_, ?_, ?_, ?_⟩
      · rw [(hended t ht).2]
        exact fun heq => nomatch heq
      · rintro t ⟨⟩ d v hd
        cases hd
      · rintro t ⟨⟩ r hr
        cases hr
      · rintro t ⟨⟩
        rfl
      · rintro t ⟨⟩
        exact nodup_subscribedVirtualMetricDevices index virtualMetricName
    · cases hstep
  | visit lastSeen offlineTimeout =>
    rw [Status.step] at hstep
    cases ht : s.tick with
    | none =>
      rw [ht] at hstep
      cases hstep
    | some t =>
      rw [ht] at hstep
      dsimp only at hstep
      split at hstep
      · rename_i deviceId left hleft hpushing
        cases hstep
        exact h.visit ht hleft hpushing
      · cases hstep
  | push now oldestKey =>
    obtain ⟨httl, hspares⟩ := hspares
    rw [Status.step] at hstep
    cases ht : s.tick with
    | none =>
      rw [ht] at hstep
      cases hstep
    | some t =>
      rw [ht] at hstep
      dsimp only at hstep
      cases hpushing : t.pushing with
      | none =>
        rw [hpushing] at hstep
        cases hstep
      | some e =>
        obtain ⟨deviceId, v⟩ := e
        rw [hpushing] at hstep
        dsimp only at hstep
        obtain ⟨provider, hupdate, rfl⟩ := Option.map_eq_some_iff.mp hstep
        have hevicts := hspares t ht deviceId v hpushing
        unfold UnifiedValueProvider.updateDeviceValue UnifiedValueProvider.updateRuleValue at hupdate
        rw [httl] at hupdate
        have hremembered := h.pushing t ht deviceId v hpushing
        refine ⟨?_, ?_, ?_, ?_, ?_⟩
        · rintro d w ⟨hd, -⟩
          by_cases hne : d = deviceId
          · subst hne
            rw [hremembered] at hd
            cases hd
            exact UnifiedValueProvider.keeps_update hupdate fun hev => hevicts hev d v hremembered
          · refine (h.has d w ⟨hd, fun t' ht' v' => ?_⟩).update hupdate ?_ fun hev =>
              hevicts hev d w hd
            · rw [ht] at ht'
              cases ht'
              rw [hpushing]
              intro heq
              cases heq
              exact hne rfl
            · exact fun heq => hne (cacheKey_virtualSource_inj heq)
        · rintro t' ⟨⟩ d w hd
          cases hd
        · rintro t' ⟨⟩
          exact h.pushed t ht
        · rintro t' ⟨⟩
          exact h.visited t ht
        · rintro t' ⟨⟩
          exact h.nodup t ht
  | update key value ttlMs now oldestKey =>
    rw [Status.step] at hstep
    obtain ⟨provider, hupdate, rfl⟩ := Option.map_eq_some_iff.mp hstep
    refine ⟨fun d w hd => ?_, h.pushing, h.pushed, h.visited, h.nodup⟩
    obtain ⟨hwrites, hevicts⟩ := hspares d w hd
    by_cases hkey : key = (virtualSource d).cacheKey
    · obtain ⟨rfl, rfl⟩ := hwrites hkey
      subst hkey
      exact UnifiedValueProvider.keeps_update hupdate hevicts
    · exact (h.has d w hd).update hupdate (fun heq => hkey heq.symm) hevicts

theorem sound_of_run {provider : UnifiedValueProvider F} {tr : List (State F × Action F)}
    (hrun : Transition.Run Status.step (State.new provider) tr s)
    (hspares : Transition.Within Spares tr) : Sound s :=
  hrun.invariant hspares (sound_new provider) fun _ _ _ h ha hs => h.step ha hs

/-- What a tick that has returned reported. -/
theorem Sound.reported (h : Sound s) {t : Tick} (ht : s.tick = some t) (hended : t.Ended) :
    t.Reported s.provider := by
  constructor
  · intro deviceId hmem
    rw [← h.visited t ht, hended.1, append_nil, mem_reverse] at hmem
    exact mem_map.mp hmem
  · intro r hr hpos now
    have hgiven : s.Given r.deviceId (r.metricValue t.now) := by
      refine ⟨h.pushed t ht r hr hpos, fun t' ht' v' => ?_⟩
      rw [ht] at ht'
      cases ht'
      rw [hended.2]
      exact fun heq => nomatch heq
    have hvalue := (h.has _ _ hgiven).getBySource now
    rw [hvalue]
    unfold Reading.metricValue
    dsimp only
    by_cases hage : (r.offlineTimeout : ℤ) ≤ max (t.now - r.lastSeen) 0
    · rw [if_pos hage, if_neg (by omega)]
    · rw [if_neg hage, if_pos (by omega)]

/-- In every run whose updates spare the metrics of the devices, the provider has what the emitter
remembers, and a tick that has returned has reported every subscribed device. -/
theorem reported_of_run {provider : UnifiedValueProvider F} {tr : List (State F × Action F)}
    (hrun : Transition.Run Status.step (State.new provider) tr s)
    (hspares : Transition.Within Spares tr) :
    (∀ d v, s.Given d v → s.Has d v) ∧ ∀ t, s.tick = some t → t.Ended → t.Reported s.provider := by
  have h := sound_of_run hrun hspares
  exact ⟨h.has, fun t ht hended => h.reported ht hended⟩

/-! ## A thermometer that is offline for ten minutes -/

/-- A rule reads the metric of the thermometer. -/
def watched : HashMap String (List RuleId) :=
  AList.insert (virtualSource "t1").storageKey [⟨1⟩] ∅

/-- The tick that finds the thermometer online. -/
def onlineTick : Tick := ⟨1000, ["t1"], [], none, [⟨"t1", 990, 300⟩]⟩

/-- The provider and the emitter after that tick. -/
def online : State ℤ where
  provider := ⟨AList.insert (virtualSource "t1").cacheKey ⟨.number 0, 0, 0⟩ ∅, 0⟩
  lastPushed := AList.insert "t1" 0 ∅
  tick := some onlineTick

theorem run_online : ∃ tr, Transition.Run Status.step (State.new .new) tr online ∧
    Transition.Within Spares tr := by
  have hemit : Status.step (State.new .new : State ℤ) (.emit watched 1000)
      = some ⟨.new, ∅, some ⟨1000, ["t1"], ["t1"], none, []⟩⟩ := by rfl
  have hvisit : Status.step (⟨.new, ∅, some ⟨1000, ["t1"], ["t1"], none, []⟩⟩ : State ℤ)
      (.visit 990 300) = some ⟨.new, AList.insert "t1" 0 ∅,
        some { onlineTick with pushing := some ("t1", 0) }⟩ := by rfl
  have hpush : Status.step (⟨.new, AList.insert "t1" 0 ∅,
      some { onlineTick with pushing := some ("t1", 0) }⟩ : State ℤ)
      (.push 0 ("device", "", "")) = some online := by rfl
  refine ⟨_, ((Transition.Run.nil.snoc hemit).snoc hvisit).snoc hpush, ?_⟩
  rw [Transition.within_cons, Transition.within_cons, Transition.within_cons]
  refine ⟨⟨rfl, ?_⟩, trivial, trivial, Transition.within_nil _⟩
  rintro t ⟨⟩ d v ⟨⟩ hevicts
  exact absurd hevicts (by decide)

theorem reported_of_run_online : onlineTick.Reported online.provider := by
  obtain ⟨tr, hrun, hspares⟩ := run_online
  exact (reported_of_run hrun hspares).2 onlineTick rfl ⟨rfl, rfl⟩

/-- The keys of the values that a meter sends. -/
def meterKey (n : ℕ) : CacheKey := ("device", "meter", String.ofList (List.replicate n 'x'))

theorem meterKey_inj {m n : ℕ} (h : meterKey m = meterKey n) : m = n := by
  have hname := (Prod.mk.inj (Prod.mk.inj h).2).2
  have hlength := congrArg List.length (String.ofList_injective hname)
  rwa [length_replicate, length_replicate] at hlength

theorem virtualSource_ne_meterKey (n : ℕ) : (virtualSource "t1").cacheKey ≠ meterKey n := by
  intro h
  have hid := (Prod.mk.inj (Prod.mk.inj h).2).1
  exact absurd hid (by decide)

/-- Some values of a meter are in the cache, and the metric of the thermometer is the oldest
entry. -/
structure Crowded (n : ℕ) (s : State ℤ) : Prop where
  lastPushed : s.lastPushed = online.lastPushed
  tick : s.tick = online.tick
  size : s.provider.cache.keys.length = n + 1
  oldest : s.provider.cache.lookup (virtualSource "t1").cacheKey = some ⟨.number 0, 0, 0⟩
  later : ∀ key e, s.provider.cache.lookup key = some e → 0 ≤ e.timestamp
  room : ∀ m, n ≤ m → meterKey m ∉ s.provider.cache.keys

/-- The meter sends values one after the other, as long as there is room. -/
theorem exists_crowded {n : ℕ} (hn : n < maxCacheEntries) :
    ∃ tr s, Transition.Run Status.step (State.new .new) tr s ∧ Crowded n s := by
  induction n with
  | zero =>
    obtain ⟨tr, hrun, -⟩ := run_online
    refine ⟨tr, online, hrun, rfl, rfl, rfl, rfl, ?_, ?_⟩
    · intro key e he
      by_cases hkey : key = (virtualSource "t1").cacheKey
      · rw [hkey] at he
        cases he
        exact Int.le_refl 0
      · have hnone : online.provider.cache.lookup key = none := lookup_insert_ne hkey
        rw [hnone] at he
        cases he
    · intro m _ hmem
      have hone : online.provider.cache.keys = [(virtualSource "t1").cacheKey] := rfl
      rw [hone] at hmem
      exact virtualSource_ne_meterKey m (mem_singleton.mp hmem).symm
  | succ n ih =>
    obtain ⟨tr, s, hrun, h⟩ := ih (by omega)
    have hfresh : meterKey n ∉ s.provider.cache.keys := h.room n (Nat.le_refl n)
    have hkeys : (s.provider.cache.insert (meterKey n) ⟨.number 0, n, 0⟩).keys
        = meterKey n :: s.provider.cache.keys :=
      HashMap.keys_insert_of_not_mem hfresh _
    have hroom : ¬ s.provider.Evicts (meterKey n) ⟨.number 0, n, 0⟩ := by
      unfold UnifiedValueProvider.Evicts
      rw [hkeys, length_cons, h.size]
      omega
    have hstep : Status.step s (.update (meterKey n) (.number 0) 0 n (meterKey n))
        = some { s with provider := { s.provider with
            cache := s.provider.cache.insert (meterKey n) ⟨.number 0, n, 0⟩ } } := by
      rw [Status.step]
      unfold UnifiedValueProvider.updateRuleValueWithTtl
      dsimp only
      rw [if_neg hroom]
      rfl
    refine ⟨_, _, hrun.snoc hstep, h.lastPushed, h.tick, ?_, ?_, ?_, ?_⟩
    · show (s.provider.cache.insert (meterKey n) _).keys.length = n + 1 + 1
      rw [hkeys, length_cons, h.size]
    · show (s.provider.cache.insert (meterKey n) _).lookup _ = _
      rw [lookup_insert_ne (virtualSource_ne_meterKey n)]
      exact h.oldest
    · intro key e he
      by_cases hkey : key = meterKey n
      · rw [hkey, lookup_insert] at he
        cases he
        exact Int.natCast_nonneg n
      · rw [lookup_insert_ne hkey] at he
        exact h.later key e he
    · intro m hm hmem
      have hmem' : meterKey m ∈ meterKey n :: s.provider.cache.keys := hkeys ▸ hmem
      rcases mem_cons.mp hmem' with heq | hmem'
      · have := meterKey_inj heq
        omega
      · exact h.room m (by omega) hmem'

/-- The thermometer is online, and a meter sends 4096 values, which evict the metric.  At the next
tick the thermometer is online still: nothing is pushed, and the provider has no value. -/
theorem evicted_metric_stays_away :
    ∃ tr s t, Transition.Run Status.step (State.new .new : State ℤ) tr s ∧ s.tick = some t ∧
      t.Ended ∧ ¬ t.Reported s.provider := by
  obtain ⟨tr, s, hrun, h⟩ := exists_crowded (n := 4095) (by decide)
  have hfresh : meterKey 4095 ∉ s.provider.cache.keys := h.room 4095 (Nat.le_refl _)
  have hevicts : s.provider.Evicts (meterKey 4095) ⟨.number 0, 4095, 0⟩ := by
    unfold UnifiedValueProvider.Evicts
    rw [HashMap.keys_insert_of_not_mem hfresh, length_cons, h.size]
    decide
  have holdest : UnifiedValueProvider.isOldest
      (s.provider.cache.insert (meterKey 4095) ⟨.number 0, 4095, 0⟩)
      (virtualSource "t1").cacheKey = true := by
    unfold UnifiedValueProvider.isOldest
    rw [lookup_insert_ne (virtualSource_ne_meterKey 4095), h.oldest]
    dsimp only
    rw [all_eq_true]
    rintro ⟨key, e⟩ he
    have hlookup := mem_lookup_iff.mpr he
    rw [decide_eq_true_iff]
    by_cases hkey : key = meterKey 4095
    · rw [hkey, lookup_insert] at hlookup
      cases hlookup
      exact Int.natCast_nonneg 4095
    · rw [lookup_insert_ne hkey] at hlookup
      exact h.later key e hlookup
  let evicted : State ℤ := { s with provider := { s.provider with
    cache := (s.provider.cache.insert (meterKey 4095) ⟨.number 0, 4095, 0⟩).erase
      (virtualSource "t1").cacheKey } }
  have hupdate : Status.step s (.update (meterKey 4095) (.number 0) 0 4095
      (virtualSource "t1").cacheKey) = some evicted := by
    rw [Status.step]
    unfold UnifiedValueProvider.updateRuleValueWithTtl
    dsimp only
    rw [if_pos hevicts, if_pos holdest]
    rfl
  have hemit : Status.step evicted (.emit watched 1060)
      = some { evicted with tick := some ⟨1060, ["t1"], ["t1"], none, []⟩ } := by
    rw [Status.step, if_pos]
    · rfl
    · intro t ht
      have heq : some onlineTick = some t := h.tick.symm.trans ht
      cases heq
      exact ⟨rfl, rfl⟩
  have hvisit : Status.step { evicted with tick := some ⟨1060, ["t1"], ["t1"], none, []⟩ }
      (.visit 1055 300)
      = some { evicted with tick := some ⟨1060, ["t1"], [], none, [⟨"t1", 1055, 300⟩]⟩ } := by
    rw [Status.step]
    dsimp only
    unfold Status.visit
    dsimp only
    rw [if_neg (by decide), if_pos]
    rw [show evicted.lastPushed = online.lastPushed from h.lastPushed]
    rfl
  refine ⟨_, _, _, ((hrun.snoc hupdate).snoc hemit).snoc hvisit, rfl, ⟨rfl, rfl⟩, ?_⟩
  rintro ⟨-, hreported⟩
  have hvalue := hreported ⟨"t1", 1055, 300⟩ (mem_singleton_self _) (by decide) 0
  have hnone : evicted.provider.cache.lookup (virtualSource "t1").cacheKey = none :=
    AList.lookup_erase _ _
  unfold UnifiedValueProvider.getBySource at hvalue
  rw [hnone] at hvalue
  cases hvalue

end Status

end HeraMind.Rules
