/-
# Coherence of the device registry

When every call has answered, the devices of a type are listed under it once, every device has the
template of its type, and the store holds the devices in memory.

This is so if the calls keep apart, the devices are sound, `update_device` is called for devices
there are, the store is loaded into a registry without devices, and no time of a last activity that
is not written to the store is 15 seconds or more off the one there.
-/
import HeraMind.Lib.Calls
import HeraMind.Devices.RegistryLoading

namespace HeraMind.Devices

open Option hiding all_eq_true mem_map
open List

variable {F : Type} {sj : SerdeJson F} {isAlphanumeric : Char → Bool}

open RegistryPc DeviceRegistry DeviceView

/-! ## Coherence -/

/-- A store that a registry has left. -/
structure DeviceRegistryStore.IsOrderly (sj : SerdeJson F) (s : DeviceRegistryStore F) : Prop where
  device : ∀ id row, s.devices.lookup id = some row →
    row.toLocal.IsAt sj id ∧ row.IsRowOf row.toLocal
  index : ∀ id t, (s.idsOf t).count id =
    if (s.devices.lookup id).map Storage.DeviceConfig.deviceType = some t then 1 else 0
  template : ∀ id row, s.devices.lookup id = some row →
    ∃ x ∈ s.listTemplates sj, x.deviceType = row.deviceType

/-- The tables in memory and in the store agree. -/
structure DeviceRegistry.Coherent (sj : SerdeJson F) (r : DeviceRegistry F) : Prop where
  byType : ∀ t, (r.listDevicesByType t).Perm (r.listDevices.filter fun c => c.deviceType = t)
  template : ∀ c ∈ r.listDevices, (r.getTemplate c.deviceType).isSome
  stored : ∀ id, Option.Rel (fun row c => row.Keeps c) (r.storage.devices.lookup id)
    (r.getDevice id)
  readable : r.storage.listDevices sj = r.storage.devices.values
  indexed : ∀ t, (r.storage.idsOf t).Perm
    ((r.storage.devices.values.filter fun row => row.deviceType = t).map
      Storage.DeviceConfig.deviceId)

/-! ## Careful steps -/

/-- The next section of the call keeps the store and the type index in step with the devices. -/
def RegistryPc.isCareful (r : DeviceRegistry F) : RegistryPc F → Bool
  | .insertUpdated _ oldDeviceType => oldDeviceType.isSome
  | .start .loadFromStorage => r.listDevices.isEmpty
  | .start (.updateLastSeen deviceId lastSeen) =>
    (r.getDevice deviceId).all fun c => persistsLastSeen c.lastSeen lastSeen ||
      (r.storage.devices.lookup deviceId).all fun row =>
        lastSeen - row.lastSeen < 15 && row.lastSeen - lastSeen < 15
  | _ => true

/-- The calls keep apart, and the step is careful. -/
def RegistryServer.Orderly (sj : SerdeJson F) (s : RegistryServer F) : RegistryLabel F → Prop
  | .call call => Apart s.calls ∧ call.IsSound sj
  | .advance n => Apart s.calls ∧ ∀ p, s.calls[n]? = some p →
    Apart (s.calls.set n p.held) ∧ p.isCareful s.registry = true

/-! ## First sections -/

section Start

variable {r : DeviceRegistry F}

theorem goesOn_registerTemplate (template : DeviceTypeTemplate F)
    (h : (advanceStart sj isAlphanumeric r (.registerTemplate template)).2.isIdle = false) :
    GoesOn sj r (.start (.registerTemplate template))
      (advanceStart sj isAlphanumeric r (.registerTemplate template)) := by
  cases hvalid : validateTemplate isAlphanumeric template with
  | error e =>
    rw [advanceStart, hvalid] at h
    cases h
  | ok valid =>
    rw [advanceStart, hvalid]
    exact
      { effect := .insertTemplate template
        holds :=
          { call _ h := nomatch h
            adds := nofun
            drops := nofun
            erases := nofun
            here := nofun
            loading := trivial }
        loads := rfl
        settled := nofun }

theorem goesOn_unregisterTemplate {deviceType : String}
    (h : (advanceStart sj isAlphanumeric r (.unregisterTemplate deviceType)).2.isIdle = false)
    (hunused : r.idsOf deviceType = [] →
      ∀ id c, r.getDevice id = some c → c.deviceType ≠ deviceType) :
    GoesOn sj r (.start (.unregisterTemplate deviceType))
      (advanceStart sj isAlphanumeric r (.unregisterTemplate deviceType)) := by
  rw [advanceStart] at h ⊢
  by_cases hids : r.idsOf deviceType = []
  · rw [if_pos hids]
    exact
      { effect := .refl
        holds :=
          { call _ h := nomatch h
            adds := nofun
            drops := by
              intro t ht
              obtain rfl : deviceType = t := some.inj ht
              exact hunused hids
            erases := nofun
            here := nofun
            loading := trivial }
        loads := rfl
        settled := nofun }
  · rw [if_neg hids] at h
    cases h

/-- A call about a device that nothing has been done for yet. -/
theorem GoesOn.begin {call : RegistryCall F} {p : RegistryPc F} {id : String}
    (hheld : (RegistryPc.start call).held = .start call)
    (hnext : p.device = some id ∧ p.isIdle = false ∧ p.loads = false ∧ p.drops = none ∧
      p.erases = none)
    (hadds : ∀ t, p.adds = some t → (r.getTemplate t).isSome)
    (hhere : (r.view id).Here sj id p) : GoesOn sj r (.start call) (r, p) where
  effect := .refl
  holds :=
    { call := by
        rintro call rfl
        cases hnext.2.1
      adds := hadds
      drops := by
        intro t ht
        rw [hnext.2.2.2.1] at ht
        cases ht
      erases := by
        intro t ht
        rw [hnext.2.2.2.2] at ht
        cases ht
      here := by
        intro id' hid'
        obtain rfl : id = id' := some.inj (hnext.1.symm.trans hid')
        exact hhere
      loading := GoesOn.loading_of_loads hnext.2.2.1 }
  loads := hnext.2.2.1
  settled id' hid' := by
    rw [hheld] at hid'
    cases hid'

theorem goesOn_registerDevice {config : DeviceConfig F} (hsound : config.IsSound sj)
    (h : (advanceStart sj isAlphanumeric r (.registerDevice config)).2.isIdle = false)
    (hsettled : (r.view config.deviceId).Settled sj config.deviceId) :
    GoesOn sj r (.start (.registerDevice config))
      (advanceStart sj isAlphanumeric r (.registerDevice config)) := by
  cases htemplate : r.getTemplate config.deviceType with
  | none =>
    rw [advanceStart, htemplate] at h
    cases h
  | some template =>
    rw [advanceStart, htemplate] at h ⊢
    by_cases hempty : config.deviceId = ""
    · simp only [if_pos hempty] at h
      cases h
    · simp only [if_neg hempty]
      refine .begin rfl ⟨rfl, rfl, rfl, rfl, rfl⟩ ?_
        ⟨hsettled, rfl, ⟨hempty, hsound.comma⟩, hsound.carried⟩
      intro t ht
      obtain rfl : config.deviceType = t := some.inj ht
      rw [htemplate]
      rfl

variable {deviceId : String}

theorem goesOn_updateDevice {config : DeviceConfig F} (hsound : config.IsSound sj)
    (h : (advanceStart sj isAlphanumeric r (.updateDevice deviceId config)).2.isIdle = false)
    (hsettled : (r.view config.deviceId).Settled sj config.deviceId) :
    GoesOn sj r (.start (.updateDevice deviceId config))
      (advanceStart sj isAlphanumeric r (.updateDevice deviceId config)) := by
  rw [advanceStart] at h ⊢
  by_cases hid : config.deviceId = deviceId
  · simp only [if_pos hid] at h ⊢
    cases htemplate : r.getTemplate config.deviceType with
    | none =>
      rw [htemplate] at h
      cases h
    | some template =>
      refine .begin rfl ⟨rfl, rfl, rfl, rfl, rfl⟩ ?_ ⟨hsettled, rfl, hsound.carried⟩
      intro t ht
      obtain rfl : config.deviceType = t := some.inj ht
      rw [htemplate]
      rfl
  · simp only [if_neg hid] at h
    cases h

theorem goesOn_unregisterDevice
    (h : (advanceStart sj isAlphanumeric r (.unregisterDevice deviceId)).2.isIdle = false)
    (hsettled : (r.view deviceId).Settled sj deviceId) :
    GoesOn sj r (.start (.unregisterDevice deviceId))
      (advanceStart sj isAlphanumeric r (.unregisterDevice deviceId)) := by
  cases hdevice : r.getDevice deviceId with
  | none =>
    rw [advanceStart, hdevice] at h
    cases h
  | some c =>
    obtain ⟨row, hview, hat, hkeeps⟩ := hsettled.of_device hdevice
    rw [advanceStart, hdevice]
    exact .begin rfl ⟨rfl, rfl, rfl, rfl, rfl⟩ nofun ⟨c, row, hview, hat, hkeeps, rfl⟩

theorem goesOn_updateLastSeen {lastSeen : ℤ} (hsettled : (r.view deviceId).Settled sj deviceId)
    (hcareful : (RegistryPc.start (.updateLastSeen deviceId lastSeen)).isCareful r = true) :
    GoesOn sj r (.start (.updateLastSeen deviceId lastSeen))
      (advanceStart sj isAlphanumeric r (.updateLastSeen deviceId lastSeen)) := by
  cases hdevice : r.getDevice deviceId with
  | none =>
    have hadvance : advanceStart sj isAlphanumeric r (.updateLastSeen deviceId lastSeen) =
        (r, .done) := by
      rw [advanceStart, hdevice]
    rw [hadvance]
    refine .answered _ .refl ?_
    intro id hid
    obtain rfl : deviceId = id := some.inj hid
    exact hsettled
  | some c =>
    obtain ⟨row, hview, hat, hkeeps⟩ := hsettled.of_device hdevice
    have hid : c.deviceId = deviceId := hat.deviceId
    have hat' : DeviceConfig.IsAt sj deviceId { c with lastSeen := lastSeen } :=
      ⟨hid, hat.plain, hat.carried⟩
    have hisRow : row.IsRowOf { c with lastSeen := lastSeen } := hkeeps.isRowOf
    have hadvance : advanceStart sj isAlphanumeric r (.updateLastSeen deviceId lastSeen) =
        (r.insertDevice { c with lastSeen := lastSeen },
          if persistsLastSeen c.lastSeen lastSeen then .loadSeen deviceId lastSeen else .done) := by
      rw [advanceStart, hdevice]
    have hself : (r.insertDevice { c with lastSeen := lastSeen }).view deviceId =
        .kept { c with lastSeen := lastSeen } row := by
      subst hid
      refine (view_insertDevice_self _).trans ?_
      rw [show r.view _ = _ from hview]
      rfl
    have heffect : Effect (loadSeen deviceId lastSeen) r
        (r.insertDevice { c with lastSeen := lastSeen }) := by
      subst hid
      exact .insertDevice rfl (Or.inl ⟨c, hdevice, rfl⟩)
    rw [hadvance]
    by_cases hpersists : persistsLastSeen c.lastSeen lastSeen = true
    · rw [if_pos hpersists]
      exact
        { effect := heffect
          holds :=
            { call _ h := nomatch h
              adds := nofun
              drops := nofun
              erases := nofun
              here := by
                intro id hid
                obtain rfl : deviceId = id := some.inj hid
                exact ⟨_, row, hself, hat', hisRow, rfl⟩
              loading := trivial }
          loads := rfl
          settled := fun _ h => Or.inl h }
    · rw [if_neg hpersists]
      have hrow : r.storage.devices.lookup deviceId = some row := congrArg DeviceView.row hview
      have hclose : lastSeen - row.lastSeen < 15 ∧ row.lastSeen - lastSeen < 15 := by
        have hall := hcareful
        rw [isCareful, hdevice, hrow] at hall
        simpa [hpersists] using hall
      refine .answered _ heffect ?_
      intro id hid'
      obtain rfl : deviceId = id := some.inj hid'
      exact Or.inr ⟨_, row, hself, hat', hisRow, hclose.1, hclose.2⟩

/-- A first section that is not followed by another one changes nothing. -/
theorem advanceStart_of_isIdle {call : RegistryCall F}
    (hcall : (RegistryPc.start call).held = .start call)
    (h : (advanceStart sj isAlphanumeric r call).2.isIdle = true) :
    ∃ reply, advanceStart sj isAlphanumeric r call = (r, .answered reply) := by
  cases call with
  | registerTemplate template =>
    rw [advanceStart] at h ⊢
    split at h
    · exact ⟨_, rfl⟩
    · cases h
  | unregisterTemplate deviceType =>
    rw [advanceStart] at h ⊢
    split at h
    · cases h
    · rename_i hids
      exact ⟨_, if_neg hids⟩
  | registerDevice config =>
    rw [advanceStart] at h ⊢
    split at h
    · exact ⟨_, rfl⟩
    · split at h
      · rename_i hempty
        exact ⟨_, if_pos hempty⟩
      · cases h
  | updateDevice deviceId config =>
    rw [advanceStart] at h ⊢
    split at h
    · rename_i hid
      simp only [if_pos hid]
      split at h
      · exact ⟨_, rfl⟩
      · cases h
    · rename_i hid
      exact ⟨_, if_neg hid⟩
  | updateLastSeen deviceId lastSeen => cases hcall
  | unregisterDevice deviceId =>
    rw [advanceStart] at h ⊢
    split at h
    · exact ⟨_, rfl⟩
    · cases h
  | loadFromStorage => cases h

end Start

/-! ## Other calls -/

theorem drops_held (p : RegistryPc F) : p.held.drops = p.drops := by
  unfold held
  split
  · rfl
  · rfl

theorem adds_held (p : RegistryPc F) : p.held.adds = p.adds := by
  unfold held
  split
  · rfl
  · rfl

variable {p : RegistryPc F}

/-- A call that is about a device keeps to it. -/
theorem device_held {id : String} (h : p.device = some id) :
    p.held.device = some id := by
  unfold held
  split
  · cases h
  · exact h

/-- What a call takes away it does not add. -/
theorem adds_eq_none_of_drops {t : String} (h : p.drops = some t) :
    p.adds = none := by
  cases p with
  | removeTemplate deviceType => rfl
  | _ => cases h

/-- What another call knows is still so. -/
theorem RegistryPc.Holds.of_effect {r r' : DeviceRegistry F} {p q : RegistryPc F}
    (h : q.Holds sj r) (heffect : Effect p r r') (hcompatible : p.Compatible q)
    (hloads : q.loads = false) : q.Holds sj r' where
  call := h.call
  adds t ht := heffect.template t (hcompatible.symm.adds.ne ht) (h.adds t ht)
  drops t ht id c' hc' := by
    rcases heffect.type id c' hc' with ⟨c, hc, hsame⟩ | hadds
    · rw [← hsame]
      exact h.drops t ht id c hc
    · rintro rfl
      exact hcompatible.adds.ne hadds ht
  erases t ht := by
    rw [idsOf_eq_nil_iff]
    intro id
    exact heffect.listed id t (hcompatible.symm.erases.ne ht)
      (idsOf_eq_nil_iff.mp (h.erases t ht) id)
  here id hid := by
    rw [heffect.view id (hcompatible.symm.device.ne hid)]
    exact h.here id hid
  loading := GoesOn.loading_of_loads hloads

variable {q : RegistryPc F}

/-- A call that has not begun only knows its own argument. -/
theorem RegistryPc.Holds.start {r : DeviceRegistry F} {call : RegistryCall F}
    (h : call.IsSound sj) : (RegistryPc.start call).Holds sj r where
  call call' hcall := by
    cases hcall
    exact h
  adds := nofun
  drops := nofun
  erases := nofun
  here := nofun
  loading := trivial

/-- It knows no more when it has answered. -/
theorem RegistryPc.Holds.of_isIdle {r r' : DeviceRegistry F}
    (h : q.Holds sj r) (hidle : q.isIdle = true) : q.Holds sj r' := by
  cases q with
  | start call => exact .start (h.call call rfl)
  | answered reply => exact GoesOn.holds_answered reply
  | _ => cases hidle

theorem device_of_isIdle (h : q.isIdle = true) : q.device = none := by
  cases q with
  | start call | answered reply => rfl
  | _ => cases h

theorem loads_of_isIdle (h : q.isIdle = true) : q.loads = false := by
  cases q with
  | start call | answered reply => rfl
  | _ => cases h

/-- A device in memory is listed, or a call is about to list it. -/
theorem DeviceView.Here.listed_or_adds {id : String} {v : DeviceView F}
    {c : DeviceConfig F} (h : v.Here sj id q) (hq : q.device = some id)
    (hc : v.device = some c) : 0 < v.listed c.deviceType ∨ q.adds = some c.deviceType := by
  have hkept (c' : DeviceConfig F) (row : Storage.DeviceConfig F) (hv : v = .kept c' row) :
      0 < v.listed c.deviceType := by
    rw [hv] at hc ⊢
    obtain rfl : c' = c := some.inj hc
    exact Nat.lt_of_lt_of_eq Nat.zero_lt_one (onceIn_self c'.deviceType).symm
  have hsettled (hv : v.Settled sj id) : 0 < v.listed c.deviceType := by
    obtain ⟨row, hview, -, -⟩ := hv.of_device hc
    exact hkept c row hview
  have hadds (config : DeviceConfig F) (listed : String → ℕ) (row : Storage.DeviceConfig F)
      (indexed : String → ℕ) (hv : v = ⟨some config, listed, some row, indexed⟩) :
      some config.deviceType = some c.deviceType := by
    rw [hv] at hc
    rw [some.inj hc]
  cases q with
  | checkDevice config => exact Or.inl (hsettled h.1)
  | modifyDevice config =>
    obtain ⟨c', row, hv, -, -⟩ := h
    exact Or.inl (hkept c' row hv)
  | saveModified deviceId =>
    obtain ⟨c', row, rfl, -⟩ := h
    left
    obtain rfl : c' = c := some.inj hc
    exact Nat.lt_of_lt_of_eq Nat.zero_lt_one (onceIn_self c'.deviceType).symm
  | saveNew config | insertNew config =>
    obtain ⟨rfl, -⟩ := h
    cases hc
  | pushNew config => exact Or.inr (hadds _ _ _ _ h.1)
  | readType config | insertUpdated config oldDeviceType => exact Or.inl (hsettled h.1)
  | retainOld config oldType | checkOld config oldType | removeOld config oldType
  | pushUpdated config =>
    obtain ⟨-, row, -, hv⟩ := h
    exact Or.inr (hadds _ _ _ _ hv)
  | loadStored config | writeStored config oldDeviceType =>
    obtain ⟨-, row, -, rfl⟩ := h
    left
    obtain rfl : config = c := some.inj hc
    exact Nat.lt_of_lt_of_eq Nat.zero_lt_one (onceIn_self config.deviceType).symm
  | loadSeen deviceId lastSeen | writeSeen row' | removeDevice deviceId deviceType =>
    obtain ⟨c', row, hv, -, -⟩ := h
    exact Or.inl (hkept c' row hv)
  | retain deviceId deviceType | checkEntry deviceId deviceType | removeEntry deviceId deviceType
  | deleteStored deviceId =>
    obtain ⟨row, -, rfl⟩ := h
    cases hc
  | _ => cases hq

/-! ## Steps -/

namespace RegistryServer.Inv

variable {s : RegistryServer F} {n : ℕ} {p : RegistryPc F}

/-- A section of a call that is not a load. -/
theorem of_goesOn (h : s.Inv sj) (hn : s.calls[n]? = some p)
    (hloads : ∀ q ∈ s.calls, q.loads = false) (hheld : Apart (s.calls.set n p.held))
    {after : DeviceRegistry F × RegistryPc F} (hgo : GoesOn sj s.registry p after) :
    RegistryServer.Inv sj ⟨after.1, s.calls.set n after.2⟩ where
  calls q hq := by
    obtain ⟨i, hi⟩ := getElem?_of_mem hq
    rcases Calls.getElem?_set_cases hi with ⟨-, rfl⟩ | ⟨hin, hi⟩
    · exact hgo.holds
    · have hmem : q ∈ s.calls := mem_of_getElem? hi
      have hcompatible : p.held.Compatible q :=
        hheld.compatible (Ne.symm hin) (Calls.getElem?_set_self hn _)
          (Calls.getElem?_set_of_ne hi hin _)
      exact (h.calls q hmem).of_effect hgo.effect hcompatible (hloads q hmem)
  template _ id c' hc' := by
    have hmem : p ∈ s.calls := mem_of_getElem? hn
    have hdrops : p.held.drops = some c'.deviceType → False := by
      intro hdrops
      rcases hgo.effect.type id c' hc' with ⟨c, hc, hsame⟩ | hadds
      · rw [drops_held] at hdrops
        exact (h.calls p hmem).drops _ hdrops id c hc hsame
      · rw [adds_eq_none_of_drops hdrops] at hadds
        cases hadds
    have hbefore : (s.registry.getTemplate c'.deviceType).isSome := by
      rcases hgo.effect.type id c' hc' with ⟨c, hc, hsame⟩ | hadds
      · rw [← hsame]
        exact h.template hloads id c hc
      · rw [adds_held] at hadds
        exact (h.calls p hmem).adds _ hadds
    exact hgo.effect.template _ hdrops hbefore
  settled _ id hid := by
    have hnext : after.2.device ≠ some id := hid _ (Calls.mem_set_self hn after.2)
    by_cases hdevice : p.held.device = some id
    · rcases hgo.settled id hdevice with hsame | hsettled
      · exact absurd hsame hnext
      · exact hsettled
    · rw [hgo.effect.view id hdevice]
      refine h.settled hloads id ?_
      intro q hq
      rcases Calls.mem_set_or_eq hn hq after.2 with rfl | hq
      · intro hq
        exact hdevice (device_held hq)
      · exact hid q hq

/-- A call that answers at once. -/
theorem of_answered (h : s.Inv sj) (hn : s.calls[n]? = some p) (hp : p.isIdle = true)
    (reply : Except DeviceError Unit) :
    RegistryServer.Inv sj ⟨s.registry, s.calls.set n (.answered reply)⟩ := by
  have hloads (hnext : ∀ q ∈ s.calls.set n (.answered reply), q.loads = false) :
      ∀ q ∈ s.calls, q.loads = false := by
    intro q hq
    rcases Calls.mem_set_or_eq hn hq (.answered reply) with rfl | hq
    · exact loads_of_isIdle hp
    · exact hnext q hq
  refine ⟨Calls.forall_mem_set h.calls (GoesOn.holds_answered reply), ?_, ?_⟩
  · intro hnext
    exact h.template (hloads hnext)
  · intro hnext id hid
    refine h.settled (hloads hnext) id ?_
    intro q hq
    rcases Calls.mem_set_or_eq hn hq (.answered reply) with rfl | hq
    · rw [device_of_isIdle hp]
      exact nofun
    · exact hid q hq

/-- A section of a load, beside which no other call is in progress. -/
theorem of_loadGoesOn (h : s.Inv sj) (hn : s.calls[n]? = some p)
    (hidle : ∀ i q, i ≠ n → s.calls[i]? = some q → q.isIdle = true)
    {after : DeviceRegistry F × RegistryPc F} (hgo : LoadGoesOn sj after)
    (hquiet : after.2.loads = true → (∀ t, after.2.adds ≠ some t) ∧ after.2.isIdle = false ∧
      after.2.drops = none ∧ after.2.erases = none ∧ after.2.device = none) :
    RegistryServer.Inv sj ⟨after.1, s.calls.set n after.2⟩ := by
  have hothers : ∀ q ∈ s.calls.set n after.2, q ≠ after.2 → q.Holds sj after.1 := by
    intro q hq hne
    obtain ⟨i, hi⟩ := getElem?_of_mem hq
    rcases Calls.getElem?_set_cases hi with ⟨-, rfl⟩ | ⟨hin, hi⟩
    · exact absurd rfl hne
    · exact (h.calls q (mem_of_getElem? hi)).of_isIdle (hidle i q hin hi)
  have hself : after.2 ∈ s.calls.set n after.2 := Calls.mem_set_self hn after.2
  rcases hgo with ⟨hloads, hloading⟩ | ⟨hdone, hsettled, htemplate⟩
  · obtain ⟨hadds, hbusy, hdrops, herases, hdevice⟩ := hquiet hloads
    refine ⟨?_, ?_, ?_⟩
    · intro q hq
      by_cases hsame : q = after.2
      · subst hsame
        exact
          { call := by
              intro call hcall
              rw [hcall] at hbusy
              cases hbusy
            adds := fun t ht => absurd ht (hadds t)
            drops := by
              intro t ht
              rw [hdrops] at ht
              cases ht
            erases := by
              intro t ht
              rw [herases] at ht
              cases ht
            here := by
              intro id hid
              rw [hdevice] at hid
              cases hid
            loading := hloading }
      · exact hothers q hq hsame
    · intro hnone
      rw [hnone _ hself] at hloads
      cases hloads
    · intro hnone
      rw [hnone _ hself] at hloads
      cases hloads
  · refine ⟨?_, fun _ => htemplate, fun _ id _ => hsettled id⟩
    intro q hq
    by_cases hsame : q = after.2
    · rw [hsame, hdone]
      exact GoesOn.holds_answered _
    · exact hothers q hq hsame

end RegistryServer.Inv

/-- A later section of a call that is not a load. -/
theorem goesOn_of_busy {r : DeviceRegistry F} (hbusy : p.isIdle = false)
    (hloads : p.loads = false) (h : p.Holds sj r) (hcareful : p.isCareful r = true) :
    GoesOn sj r p (advance sj isAlphanumeric r p) := by
  cases p with
  | start call => cases hbusy
  | saveTemplate template => exact goesOn_saveTemplate template
  | removeTemplate deviceType => exact goesOn_removeTemplate deviceType
  | deleteTemplate deviceType => exact goesOn_deleteTemplate deviceType
  | checkDevice config => exact goesOn_checkDevice h
  | modifyDevice config => exact goesOn_modifyDevice h
  | saveModified deviceId => exact goesOn_saveModified h
  | saveNew config => exact goesOn_saveNew h
  | insertNew config => exact goesOn_insertNew h
  | pushNew config => exact goesOn_pushNew h
  | readType config => exact goesOn_readType h
  | insertUpdated config oldDeviceType =>
    refine goesOn_insertUpdated h ?_
    rintro rfl
    cases hcareful
  | retainOld config oldType => exact goesOn_retainOld h
  | checkOld config oldType => exact goesOn_checkOld h
  | removeOld config oldType => exact goesOn_removeOld h
  | pushUpdated config => exact goesOn_pushUpdated h
  | loadStored config => exact goesOn_loadStored h
  | writeStored config oldDeviceType => exact goesOn_writeStored h
  | loadSeen deviceId lastSeen => exact goesOn_loadSeen h
  | writeSeen row => exact goesOn_writeSeen h
  | removeDevice deviceId deviceType => exact goesOn_removeDevice h
  | retain deviceId deviceType => exact goesOn_retain h
  | checkEntry deviceId deviceType => exact goesOn_checkEntry h
  | removeEntry deviceId deviceType => exact goesOn_removeEntry h
  | deleteStored deviceId => exact goesOn_deleteStored h
  | answered reply => cases hbusy
  | _ => cases hloads

/-- A load is about nothing but the load. -/
theorem quiet_of_loads (h : p.loads = true) :
    (∀ t, p.adds ≠ some t) ∧ p.isIdle = false ∧ p.drops = none ∧ p.erases = none ∧
      p.device = none := by
  cases p with
  | loadTemplates rows | listDevices | loadDevices rows migrated
  | pushLoaded config rows migrated | migrate migrated | writeMigrated row migrated =>
    exact ⟨nofun, rfl, rfl, rfl, rfl⟩
  | _ => cases h

namespace RegistryServer.Inv

variable {s : RegistryServer F} {n : ℕ} {call : RegistryCall F}

/-- A call is made. -/
theorem of_call (h : s.Inv sj) (hsound : call.IsSound sj) :
    RegistryServer.Inv sj { s with calls := s.calls ++ [.start call] } := by
  have hold {P : RegistryPc F → Prop} (hnew : ∀ q ∈ s.calls ++ [.start call], P q) :
      ∀ q ∈ s.calls, P q :=
    fun q hq => hnew q (mem_append_left _ hq)
  refine ⟨?_, fun hnew => h.template (hold hnew),
    fun hnew id hid => h.settled (hold hnew) id (hold hid)⟩
  intro q hq
  rcases mem_append.mp hq with hq | hq
  · exact h.calls q hq
  · obtain rfl := mem_singleton.mp hq
    exact .start hsound

/-- No other call is about a device that a call is about next. -/
theorem settled_of_next (h : s.Inv sj) (hn : s.calls[n]? = some (.start call))
    (hloads : ∀ q ∈ s.calls, q.loads = false) {p' : RegistryPc F}
    (hnext : Apart (s.calls.set n p')) {id : String} (hid : p'.device = some id) :
    (s.registry.view id).Settled sj id := by
  refine h.settled hloads id ?_
  intro q hq
  obtain ⟨i, hi⟩ := getElem?_of_mem hq
  by_cases hin : i = n
  · rw [hin, hn] at hi
    obtain rfl := some.inj hi
    exact nofun
  · have hcompatible := hnext.compatible (Ne.symm hin) (Calls.getElem?_set_self hn p')
      (Calls.getElem?_set_of_ne hi hin p')
    exact hcompatible.device.ne hid

/-- No load is in progress beside a call that is. -/
theorem loads_of_next (hn : s.calls[n]? = some (.start call)) {p' : RegistryPc F}
    (hbusy : p'.isIdle = false) (hnext : Apart (s.calls.set n p')) :
    ∀ q ∈ s.calls, q.loads = false := by
  intro q hq
  obtain ⟨i, hi⟩ := getElem?_of_mem hq
  by_cases hin : i = n
  · rw [hin, hn] at hi
    obtain rfl := some.inj hi
    rfl
  · have hcompatible := hnext.compatible (Ne.symm hin) (Calls.getElem?_set_self hn p')
      (Calls.getElem?_set_of_ne hi hin p')
    by_contra hloads
    rw [hcompatible.loaded (Bool.not_eq_false _ ▸ hloads)] at hbusy
    cases hbusy

/-- A type without ids has no device that no call adds to it. -/
theorem unused (h : s.Inv sj) (hloads : ∀ q ∈ s.calls, q.loads = false) {deviceType : String}
    (hids : s.registry.idsOf deviceType = [])
    (hadds : ∀ q ∈ s.calls, q.adds ≠ some deviceType) {id : String} {c : DeviceConfig F}
    (hc : s.registry.getDevice id = some c) : c.deviceType ≠ deviceType := by
  rintro rfl
  have hnone := idsOf_eq_nil_iff.mp hids id
  by_cases hcall : ∃ q ∈ s.calls, q.device = some id
  · obtain ⟨q, hq, hdevice⟩ := hcall
    rcases ((h.calls q hq).here id hdevice).listed_or_adds hdevice hc with hlisted | hq'
    · omega
    · exact hadds q hq hq'
  · have hsettled := h.settled hloads id fun q hq hdevice => hcall ⟨q, hq, hdevice⟩
    obtain ⟨row, hview, -, -⟩ := hsettled.of_device hc
    rw [hview] at hnone
    have hone : onceIn c.deviceType c.deviceType = 0 := hnone
    rw [onceIn_self] at hone
    omega

/-- The first section of a call. -/
theorem of_start (h : s.Inv sj) (hn : s.calls[n]? = some (.start call))
    (hheld : Apart (s.calls.set n (RegistryPc.start call).held))
    (hcareful : (RegistryPc.start call).isCareful s.registry = true)
    (hnext : Apart (s.calls.set n (advanceStart sj isAlphanumeric s.registry call).2)) :
    RegistryServer.Inv sj ⟨(advanceStart sj isAlphanumeric s.registry call).1,
      s.calls.set n (advanceStart sj isAlphanumeric s.registry call).2⟩ := by
  have hsound := (h.calls _ (mem_of_getElem? hn)).call call rfl
  by_cases hseen : (RegistryPc.start call).held = .start call
  · cases hidle : (advanceStart sj isAlphanumeric s.registry call).2.isIdle with
    | true =>
      obtain ⟨reply, hreply⟩ := advanceStart_of_isIdle hseen hidle
      rw [hreply]
      exact h.of_answered hn rfl reply
    | false =>
      have hloads := loads_of_next hn hidle hnext
      have hsettled {id : String}
          (hid : (advanceStart sj isAlphanumeric s.registry call).2.device = some id) :=
        h.settled_of_next hn hloads hnext hid
      have hother {q : RegistryPc F} (hq : q ∈ s.calls) :
          q = .start call ∨ (advanceStart sj isAlphanumeric s.registry call).2.Compatible q := by
        obtain ⟨i, hi⟩ := getElem?_of_mem hq
        by_cases hin : i = n
        · left
          rw [hin, hn] at hi
          exact (some.inj hi).symm
        · right
          exact hnext.compatible (Ne.symm hin) (Calls.getElem?_set_self hn _)
            (Calls.getElem?_set_of_ne hi hin _)
      cases call with
      | registerTemplate template =>
        exact h.of_goesOn hn hloads hheld (goesOn_registerTemplate template hidle)
      | unregisterTemplate deviceType =>
        refine h.of_goesOn hn hloads hheld (goesOn_unregisterTemplate hidle ?_)
        intro hids id c hc
        refine h.unused hloads hids ?_ hc
        intro q hq hadds
        have hdrops : (advanceStart sj isAlphanumeric s.registry
            (.unregisterTemplate deviceType)).2.drops = some deviceType := by
          rw [advanceStart, if_pos hids]
          rfl
        rcases hother hq with rfl | hcompatible
        · cases hadds
        · exact hcompatible.drops.ne hdrops hadds
      | registerDevice config =>
        refine h.of_goesOn hn hloads hheld (goesOn_registerDevice hsound hidle (hsettled ?_))
        rw [advanceStart] at hidle ⊢
        split at hidle
        · cases hidle
        · split at hidle
          · cases hidle
          · rename_i hempty
            simp only [if_neg hempty]
            rfl
      | updateDevice deviceId config =>
        refine h.of_goesOn hn hloads hheld (goesOn_updateDevice hsound hidle (hsettled ?_))
        rw [advanceStart] at hidle ⊢
        split at hidle
        · rename_i hid
          simp only [if_pos hid]
          split at hidle
          · cases hidle
          · rfl
        · cases hidle
      | updateLastSeen deviceId lastSeen => cases hseen
      | unregisterDevice deviceId =>
        refine h.of_goesOn hn hloads hheld (goesOn_unregisterDevice hidle (hsettled ?_))
        rw [advanceStart] at hidle ⊢
        split at hidle
        · cases hidle
        · rfl
      | loadFromStorage =>
        refine h.of_loadGoesOn hn ?_ (Or.inl ⟨rfl, ?_⟩) quiet_of_loads
        · intro i q hin hi
          rcases hother (mem_of_getElem? hi) with rfl | hcompatible
          · rfl
          · exact hcompatible.loads rfl
        · have habsent : ∀ id, s.registry.view id = .absent := by
            intro id
            refine (h.settled hloads id ?_).of_none ?_
            · intro q hq
              rcases hother hq with rfl | hcompatible
              · exact nofun
              · rw [device_of_isIdle (hcompatible.loads rfl)]
                exact nofun
            · cases hdevice : s.registry.getDevice id with
              | none => exact hdevice
              | some c =>
                have hmem : c ∈ s.registry.listDevices := by
                  refine KeyedMap.mem_values.mpr ?_
                  rw [KeyedMap.key_of_lookup hdevice]
                  exact hdevice
                rw [List.isEmpty_iff.mp hcareful] at hmem
                cases hmem
          refine ⟨fun id => Or.inl (habsent id), ?_⟩
          intro id row hrow
          have hnone : (s.registry.view id).row = none := congrArg DeviceView.row (habsent id)
          exact nomatch hnone.symm.trans hrow
  · obtain ⟨deviceId, lastSeen, rfl⟩ : ∃ deviceId lastSeen,
        call = .updateLastSeen deviceId lastSeen := by
      cases call with
      | updateLastSeen deviceId lastSeen => exact ⟨deviceId, lastSeen, rfl⟩
      | _ => exact absurd rfl hseen
    have hloads := loads_of_next hn rfl hheld
    exact h.of_goesOn hn hloads hheld
      (goesOn_updateLastSeen (h.settled_of_next hn hloads hheld rfl) hcareful)

/-- The invariant holds after an orderly step to calls that keep apart. -/
theorem of_step (h : s.Inv sj) {label : RegistryLabel F} (horderly : s.Orderly sj label)
    {s' : RegistryServer F} (hstep : s.step sj isAlphanumeric label = some s')
    (hnext : Apart s'.calls) : s'.Inv sj := by
  cases label with
  | call call =>
    obtain rfl := some.inj hstep
    exact h.of_call horderly.2
  | advance n =>
    obtain ⟨hapart, hcall⟩ := horderly
    unfold RegistryServer.step at hstep
    obtain ⟨p, hn, hstep⟩ := bind_eq_some_iff.mp hstep
    obtain ⟨hheld, hcareful⟩ := hcall p hn
    split at hstep
    · cases hstep
    · rename_i hanswered
      obtain rfl : (⟨(advance sj isAlphanumeric s.registry p).1,
          s.calls.set n (advance sj isAlphanumeric s.registry p).2⟩ : RegistryServer F) = s' :=
        some.inj hstep
      have hholds := h.calls p (mem_of_getElem? hn)
      have hother {i : ℕ} {q : RegistryPc F} (hin : i ≠ n) (hi : s.calls[i]? = some q) :=
        hapart.compatible (Ne.symm hin) hn hi
      cases hloads : p.loads with
      | true =>
        exact h.of_loadGoesOn hn (fun i q hin hi => (hother hin hi).loads hloads)
          (loadGoesOn hloads hholds.loading) quiet_of_loads
      | false =>
        cases hidle : p.isIdle with
        | true =>
          cases p with
          | start call => exact h.of_start hn hheld hcareful hnext
          | answered reply => exact absurd rfl hanswered
          | _ => cases hidle
        | false =>
          refine h.of_goesOn hn ?_ hheld (goesOn_of_busy hidle hloads hholds hcareful)
          intro q hq
          obtain ⟨i, hi⟩ := getElem?_of_mem hq
          by_cases hin : i = n
          · rw [hin, hn] at hi
            obtain rfl := some.inj hi
            exact hloads
          · by_contra hq
            rw [(hother hin hi).loaded (Bool.not_eq_false _ ▸ hq)] at hidle
            cases hidle

end RegistryServer.Inv

/-! ## Runs -/

variable {storage : DeviceRegistryStore F}

theorem DeviceRegistryStore.IsOrderly.loadsTemplates (h : storage.IsOrderly sj) :
    LoadsTemplates sj (.empty storage) (storage.listTemplates sj) where
  unloaded id := by
    have hlisted : (fun t => ((DeviceRegistry.empty storage).idsOf t).count id) = nowhere := rfl
    cases hrow : storage.devices.lookup id with
    | none =>
      left
      ext1
      · rfl
      · rfl
      · exact hrow
      · funext t
        exact (h.index id t).trans (by rw [hrow]; rfl)
    | some row =>
      right
      obtain ⟨hat, hisRow⟩ := h.device id row hrow
      refine ⟨row, ?_, hat, hisRow⟩
      ext1
      · rfl
      · rfl
      · exact hrow
      · funext t
        refine (h.index id t).trans ?_
        rw [hrow, map_some]
        by_cases ht : t = row.deviceType
        · rw [ht, if_pos rfl]
          exact (onceIn_self row.deviceType).symm
        · rw [if_neg fun hsame => ht (some.inj hsame).symm]
          exact (onceIn_of_ne ht).symm
  template id row hrow := Or.inl (h.template id row hrow)

theorem inv_opened (h : storage.IsOrderly sj) :
    (RegistryServer.opened sj storage).Inv sj := by
  have hself : RegistryPc.loadTemplates (storage.listTemplates sj) ∈
      (RegistryServer.opened sj storage).calls :=
    mem_singleton.mpr rfl
  refine ⟨?_, ?_, ?_⟩
  · intro q hq
    obtain rfl := mem_singleton.mp hq
    exact
      { call _ h := nomatch h
        adds := nofun
        drops := nofun
        erases := nofun
        here := nofun
        loading := h.loadsTemplates }
  · intro hnone
    cases hnone _ hself
  · intro hnone
    cases hnone _ hself

/-- Every state of an orderly run whose calls keep apart has the invariant. -/
theorem inv_of_run (hstore : storage.IsOrderly sj)
    {tr : List (RegistryServer F × RegistryLabel F)} {s : RegistryServer F}
    (hrun : Transition.Run (RegistryServer.step sj isAlphanumeric)
      (RegistryServer.opened sj storage) tr s)
    (hwithin : Transition.Within (RegistryServer.Orderly sj) tr) (hapart : Apart s.calls) :
    s.Inv sj := by
  refine hrun.invariant (I := fun s => Apart s.calls → s.Inv sj) hwithin
    (fun _ => inv_opened hstore) ?_ hapart
  intro s label s' h horderly hstep hnext
  have hbefore : Apart s.calls := by
    cases label with
    | call call | advance n => exact horderly.1
  exact (h hbefore).of_step horderly hstep hnext

/-- Calls that have all answered keep apart. -/
theorem apart_of_quiescent {s : RegistryServer F} (h : s.Quiescent) : Apart s.calls := by
  refine List.Pairwise.imp_of_mem ?_ (pairwise_of_forall fun _ _ => trivial)
  intro p q hp hq _
  obtain ⟨reply, rfl⟩ : ∃ reply, p = .answered reply := by
    have hp := h p hp
    cases p with
    | answered reply => exact ⟨reply, rfl⟩
    | _ => cases hp
  obtain ⟨reply', rfl⟩ : ∃ reply, q = .answered reply := by
    have hq := h q hq
    cases q with
    | answered reply => exact ⟨reply, rfl⟩
    | _ => cases hq
  exact ⟨Or.inl rfl, Or.inl rfl, Or.inl rfl, Or.inl rfl, Or.inl rfl, nofun, nofun⟩

section Settled

variable {r : DeviceRegistry F} (h : ∀ id, (r.view id).Settled sj id)

include h

/-- An id is listed under the type its device has, and there once. -/
theorem count_idsOf_of_settled (id t : String) :
    (r.idsOf t).count id =
      if (r.getDevice id).map DeviceConfig.deviceType = some t then 1 else 0 := by
  have hlisted : (r.view id).listed t = (r.idsOf t).count id := rfl
  rw [← hlisted]
  cases hdevice : r.getDevice id with
  | none =>
    rw [(h id).of_none hdevice]
    rfl
  | some c =>
    obtain ⟨row, hview, -, -⟩ := (h id).of_device hdevice
    rw [hview, map_some]
    show (if t = c.deviceType then 1 else 0) = _
    simp only [some.injEq, eq_comm]

theorem mem_idsOf_of_settled {id t : String} :
    id ∈ r.idsOf t ↔ ∃ c, r.getDevice id = some c ∧ c.deviceType = t := by
  rw [← count_pos_iff, count_idsOf_of_settled h, ← map_eq_some_iff]
  split
  · rename_i htype
    exact iff_of_true Nat.zero_lt_one htype
  · rename_i htype
    exact iff_of_false (Nat.lt_irrefl 0) htype

theorem coherent_of_settled
    (htemplate : ∀ id c, r.getDevice id = some c → (r.getTemplate c.deviceType).isSome) :
    r.Coherent sj := by
  have hread : ∀ id row, (r.view id).row = some row → row.reread sj = some row := by
    intro id row hrow
    rcases h id with habsent | ⟨c, stored, hview, hat, hkeeps⟩
    · rw [habsent] at hrow
      cases hrow
    · rw [hview] at hrow
      obtain rfl : stored = row := some.inj hrow
      exact hkeeps.isRowOf.reread hat.carried
  have hdevices : r.listDevices.Nodup :=
    List.Nodup.of_map _ r.devices.nodup_keys_values
  refine ⟨?_, ?_, ?_, listDevices_eq_values hread, ?_⟩
  · intro t
    refine (perm_ext_iff_of_nodup ?_ (hdevices.filter _)).mpr ?_
    · refine List.Nodup.filterMap ?_ (nodup_iff_count_le_one.mpr ?_)
      · intro id id' c hc hc'
        exact (KeyedMap.key_of_lookup hc).symm.trans (KeyedMap.key_of_lookup hc')
      · intro id
        rw [count_idsOf_of_settled h]
        split
        · exact Nat.le_refl 1
        · exact Nat.zero_le 1
    · intro c
      rw [DeviceRegistry.listDevicesByType, mem_filterMap, mem_filter,
        decide_eq_true_eq, DeviceRegistry.listDevices, KeyedMap.mem_values]
      constructor
      · rintro ⟨id, hid, hc⟩
        obtain ⟨c', hc', htype⟩ := (mem_idsOf_of_settled h).mp hid
        obtain rfl : c' = c := some.inj (hc'.symm.trans hc)
        refine ⟨?_, htype⟩
        rw [KeyedMap.key_of_lookup hc]
        exact hc
      · rintro ⟨hc, htype⟩
        exact ⟨c.deviceId, (mem_idsOf_of_settled h).mpr ⟨c, hc, htype⟩, hc⟩
  · intro c hc
    exact htemplate c.deviceId c (KeyedMap.mem_values.mp hc)
  · intro id
    show Option.Rel _ (r.view id).row (r.view id).device
    rcases h id with habsent | ⟨c, row, hview, -, hkeeps⟩
    · rw [habsent]
      exact .none
    · rw [hview]
      exact .some hkeeps
  · intro t
    have hindexed : ∀ id, (r.storage.idsOf t).count id =
        if (r.storage.devices.lookup id).map Storage.DeviceConfig.deviceType = some t then 1
        else 0 := by
      intro id
      have hself : (r.view id).indexed t = (r.storage.idsOf t).count id := rfl
      have hrow : (r.view id).row = r.storage.devices.lookup id := rfl
      rw [← hself, ← hrow]
      rcases h id with habsent | ⟨c, row, hview, -, -⟩
      · rw [habsent]
        rfl
      · rw [hview]
        show (if t = row.deviceType then 1 else 0) = if some row.deviceType = some t then 1 else 0
        simp only [some.injEq, eq_comm]
    have hkeys := r.storage.devices.nodup_keys_values
    refine (perm_ext_iff_of_nodup ?_ ?_).mpr ?_
    · refine nodup_iff_count_le_one.mpr ?_
      intro id
      rw [hindexed]
      split
      · exact Nat.le_refl 1
      · exact Nat.zero_le 1
    · exact hkeys.sublist (filter_sublist.map _)
    · intro id
      rw [← count_pos_iff, hindexed, mem_map]
      constructor
      · intro hpos
        have htype : (r.storage.devices.lookup id).map Storage.DeviceConfig.deviceType =
            some t := by
          by_contra hne
          rw [if_neg hne] at hpos
          omega
        obtain ⟨row, hrow, htype⟩ := map_eq_some_iff.mp htype
        have hid : row.deviceId = id := KeyedMap.key_of_lookup hrow
        refine ⟨row, mem_filter.mpr ⟨KeyedMap.mem_values.mpr ?_, ?_⟩, hid⟩
        · rw [hid]
          exact hrow
        · exact decide_eq_true htype
      · rintro ⟨row, hmem, rfl⟩
        obtain ⟨hmem, htype⟩ := mem_filter.mp hmem
        rw [KeyedMap.mem_values.mp hmem, map_some, of_decide_eq_true htype, if_pos rfl]
        exact Nat.zero_lt_one

end Settled

/-- After an orderly run, once every call has answered, the registry is coherent. -/
theorem coherent_of_orderly {storage : DeviceRegistryStore F} (hstore : storage.IsOrderly sj)
    {tr : List (RegistryServer F × RegistryLabel F)} {s : RegistryServer F}
    (hrun : Transition.Run (RegistryServer.step sj isAlphanumeric)
      (RegistryServer.opened sj storage) tr s)
    (hwithin : Transition.Within (RegistryServer.Orderly sj) tr) (hquiet : s.Quiescent) :
    s.registry.Coherent sj := by
  have hinv := inv_of_run hstore hrun hwithin (apart_of_quiescent hquiet)
  have hidle : ∀ p ∈ s.calls, p.isIdle = true := by
    intro p hp
    have hanswered := hquiet p hp
    cases p with
    | answered reply => rfl
    | _ => cases hanswered
  have hloads : ∀ p ∈ s.calls, p.loads = false := fun p hp => loads_of_isIdle (hidle p hp)
  refine coherent_of_settled (fun id => hinv.settled hloads id ?_) (hinv.template hloads)
  intro p hp
  rw [device_of_isIdle (hidle p hp)]
  exact nofun

/-! ## Two runs -/

theorem DeviceRegistryStore.isOrderly_new : (new : DeviceRegistryStore F).IsOrderly sj where
  device _ _ h := nomatch h
  index _ _ := rfl
  template _ _ h := nomatch h

/-- A device without extra parameters, whose id has no comma, is sound. -/
theorem DeviceConfig.isSound_of_plain {c : DeviceConfig F} (hlimit : 2 < sj.recursionLimit)
    (h : !c.deviceId.toList.contains ',' && c.connectionConfig.extra.isEmpty) :
    c.IsSound sj := by
  obtain ⟨hcomma, hextra⟩ := Bool.and_eq_true_iff.mp h
  have hnil : c.connectionConfig.extra = [] := List.isEmpty_iff.mp hextra
  refine ⟨by simpa using hcomma, ?_, ?_⟩
  · rw [hnil]
    intro kv hkv
    cases hkv
  · rw [hnil]
    exact hlimit

namespace RegistryServer

/-- Whether a step is orderly; the devices are ones without extra parameters. -/
def isPlain (s : RegistryServer F) : RegistryLabel F → Bool
  | .call (.registerDevice config) | .call (.updateDevice _ config) =>
    Apart s.calls && (!config.deviceId.toList.contains ',' && config.connectionConfig.extra.isEmpty)
  | .call _ => Apart s.calls
  | .advance n => Apart s.calls && (s.calls[n]?).all fun p =>
    Apart (s.calls.set n p.held) && p.isCareful s.registry

theorem orderly_of_isPlain (hlimit : 2 < sj.recursionLimit) {s : RegistryServer F}
    {label : RegistryLabel F} (h : s.isPlain label = true) : s.Orderly sj label := by
  cases label with
  | call call =>
    cases call with
    | registerDevice config | updateDevice deviceId config =>
      obtain ⟨hapart, hplain⟩ := Bool.and_eq_true_iff.mp h
      exact ⟨of_decide_eq_true hapart, DeviceConfig.isSound_of_plain hlimit hplain⟩
    | _ => exact ⟨of_decide_eq_true h, trivial⟩
  | advance n =>
    obtain ⟨hapart, hcall⟩ := Bool.and_eq_true_iff.mp h
    refine ⟨of_decide_eq_true hapart, ?_⟩
    intro p hn
    rw [hn] at hcall
    obtain ⟨hheld, hcareful⟩ := Bool.and_eq_true_iff.mp hcall
    exact ⟨of_decide_eq_true hheld, hcareful⟩

end RegistryServer

namespace DeviceRegistry.Sample

/-- A thermometer that was seen. -/
def probe : DeviceConfig ℤ :=
  ⟨"probe", "Probe", "thermometer", "mqtt", ⟨none, none, none, none, []⟩, none, 100, none⟩

/-- The store of a new registry is loaded, and a thermometer is registered. -/
def registration : List (RegistryLabel ℤ) :=
  [.advance 0, .advance 0, .advance 0, .advance 0,
    .call (.registerTemplate thermometer), .advance 1, .advance 1,
    .call (.registerDevice probe), .advance 2, .advance 2, .advance 2, .advance 2, .advance 2]

/-- The store is loaded into the registry that has left it. -/
def reload : List (RegistryLabel ℤ) :=
  .call .loadFromStorage :: List.replicate 8 (.advance 3)

end DeviceRegistry.Sample

open DeviceRegistry.Sample

theorem coherent_of_orderly_registration :
    ∃ tr s, Transition.Run (RegistryServer.step serdeJson Char.isAlphanum)
      (RegistryServer.opened serdeJson .new) tr s ∧
        s.registry.getDevice "probe" ≠ none ∧ s.registry.Coherent serdeJson := by
  obtain ⟨tr, s, hrun, hplain, hquiet, hprobe⟩ := Transition.exists_run
    (RegistryServer.step serdeJson Char.isAlphanum) (RegistryServer.opened serdeJson .new)
    registration
    (fun tr s => (tr.all fun e => e.1.isPlain e.2) = true ∧
      s.calls.all RegistryPc.isAnswered = true ∧ (s.registry.getDevice "probe").isSome = true)
    (by decide +kernel)
  refine ⟨tr, s, hrun, ?_, coherent_of_orderly DeviceRegistryStore.isOrderly_new hrun ?_ ?_⟩
  · intro hnone
    rw [hnone] at hprobe
    cases hprobe
  · intro e he
    exact RegistryServer.orderly_of_isPlain (by decide) (all_eq_true.mp hplain e he)
  · exact all_eq_true.mp hquiet

/-- A second load lists every device twice. -/
theorem reload_lists_twice :
    ∃ tr s, Transition.Run (RegistryServer.step serdeJson Char.isAlphanum)
      (RegistryServer.opened serdeJson .new) tr s ∧
        s.Quiescent ∧ ¬s.registry.Coherent serdeJson := by
  obtain ⟨tr, s, hrun, hquiet, hlength⟩ := Transition.exists_run
    (RegistryServer.step serdeJson Char.isAlphanum) (RegistryServer.opened serdeJson .new)
    (registration ++ reload)
    (fun _ s => s.calls.all RegistryPc.isAnswered = true ∧
      (s.registry.listDevicesByType "thermometer").length ≠
        (s.registry.listDevices.filter fun c => c.deviceType = "thermometer").length)
    (by decide +kernel)
  refine ⟨tr, s, hrun, all_eq_true.mp hquiet, ?_⟩
  intro hcoherent
  exact hlength (hcoherent.byType "thermometer").length_eq

end HeraMind.Devices
