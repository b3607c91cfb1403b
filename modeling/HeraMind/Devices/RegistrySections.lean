/-
# The sections of the calls of the registry

Each section of a call changes only what the call is about, and leaves the call with what it has to
know for its next section, or its device as one that no call is about.
-/
import HeraMind.Devices.RegistryInvariant

namespace HeraMind.Devices

open Option

variable {F : Type} {sj : SerdeJson F} {isAlphanumeric : Char → Bool}

/-- A section of a call that leaves the registry and the call in order. -/
structure GoesOn (sj : SerdeJson F) (r : DeviceRegistry F) (p : RegistryPc F)
    (after : DeviceRegistry F × RegistryPc F) : Prop where
  effect : Effect p.held r after.1
  holds : after.2.Holds sj after.1
  loads : after.2.loads = false
  settled : ∀ id, p.held.device = some id →
    after.2.device = some id ∨ (after.1.view id).Settled sj id

namespace GoesOn

variable {r r' : DeviceRegistry F} {p p' : RegistryPc F} {id : String}

theorem loading_of_loads (h : p.loads = false) : Loading sj r p := by
  cases p with
  | loadTemplates rows | listDevices | loadDevices rows migrated
  | pushLoaded config rows migrated | migrate migrated | writeMigrated row migrated => cases h
  | _ => trivial

theorem holds_answered (reply : Except DeviceError Unit) :
    (RegistryPc.answered reply).Holds sj r where
  call _ h := nomatch h
  adds _ h := nomatch h
  drops _ h := nomatch h
  erases _ h := nomatch h
  here _ h := nomatch h
  loading := trivial

/-- The call answers and leaves its device alone from then on. -/
theorem answered (reply : Except DeviceError Unit) (heffect : Effect p.held r r')
    (hsettled : ∀ id, p.held.device = some id → (r'.view id).Settled sj id) :
    GoesOn sj r p (r', .answered reply) where
  effect := heffect
  holds := holds_answered reply
  loads := rfl
  settled id h := Or.inr (hsettled id h)

/-- The call goes on with the same device. -/
theorem next (h : p.Holds sj r) (hdevice : p.device = some id ∧ p'.device = some id)
    (hnext : p.held = p ∧ p'.isIdle = false ∧ p'.loads = false ∧ p'.drops = none)
    (hadds : p'.adds = none ∨ p'.adds = p.adds) (heffect : Effect p r r')
    (htemplates : r'.templates = r.templates)
    (herases : ∀ t, p'.erases = some t → r'.idsOf t = [])
    (hhere : (r'.view id).Here sj id p') : GoesOn sj r p (r', p') where
  effect := by
    rw [hnext.1]
    exact heffect
  holds :=
    { call := by
        rintro call rfl
        cases hnext.2.1
      adds := by
        intro t ht
        show (r'.templates.lookup t).isSome
        rw [htemplates]
        rcases hadds with hnone | hsame
        · rw [hnone] at ht
          cases ht
        · exact h.adds t (hsame ▸ ht)
      drops := by
        intro t ht
        rw [hnext.2.2.2] at ht
        cases ht
      erases := herases
      here := by
        intro id' hid'
        obtain rfl : id = id' := some.inj (hdevice.2.symm.trans hid')
        exact hhere
      loading := loading_of_loads hnext.2.2.1 }
  loads := hnext.2.2.1
  settled id' hid' := by
    rw [hnext.1, hdevice.1] at hid'
    obtain rfl : id = id' := some.inj hid'
    exact Or.inl hdevice.2

end GoesOn

open RegistryPc DeviceRegistry DeviceView

variable {r : DeviceRegistry F}

/-! ## Templates -/

theorem goesOn_saveTemplate (template : DeviceTypeTemplate F) :
    GoesOn sj r (.saveTemplate template) (advance sj isAlphanumeric r (.saveTemplate template)) :=
  .answered _ (.of_view (fun _ => rfl) fun _ _ h => h) nofun

theorem goesOn_removeTemplate (deviceType : String) :
    GoesOn sj r (.removeTemplate deviceType)
      (advance sj isAlphanumeric r (.removeTemplate deviceType)) where
  effect := .removeTemplate rfl
  holds :=
    { call _ h := nomatch h
      adds := nofun
      drops := nofun
      erases := nofun
      here := nofun
      loading := trivial }
  loads := rfl
  settled _ h := nomatch h

theorem goesOn_deleteTemplate (deviceType : String) :
    GoesOn sj r (.deleteTemplate deviceType)
      (advance sj isAlphanumeric r (.deleteTemplate deviceType)) :=
  .answered _ (.of_view (fun _ => rfl) fun _ _ h => h) nofun

/-! ## `register_device` -/

section Register

variable {config : DeviceConfig F}

theorem goesOn_checkDevice (h : (checkDevice config).Holds sj r) :
    GoesOn sj r (.checkDevice config) (advance sj isAlphanumeric r (.checkDevice config)) := by
  obtain ⟨hsettled, hat⟩ := h.here _ rfl
  show GoesOn sj r _
    (r, if (r.getDevice config.deviceId).isSome then .modifyDevice config else .saveNew config)
  by_cases hdevice : (r.getDevice config.deviceId).isSome
  · rw [if_pos hdevice]
    obtain ⟨c, hc⟩ := isSome_iff_exists.mp hdevice
    obtain ⟨row, hview, hat', hkeeps⟩ := hsettled.of_device hc
    exact .next h ⟨rfl, rfl⟩ ⟨rfl, rfl, rfl, rfl⟩ (Or.inl rfl) .refl rfl
      nofun ⟨c, row, hview, hat', hkeeps⟩
  · rw [if_neg hdevice]
    have hnone : (r.view config.deviceId).device = none :=
      not_isSome_iff_eq_none.mp hdevice
    exact .next h ⟨rfl, rfl⟩ ⟨rfl, rfl, rfl, rfl⟩ (Or.inr rfl) .refl rfl
      nofun ⟨hsettled.of_none hnone, hat⟩

theorem goesOn_modifyDevice (h : (modifyDevice config).Holds sj r) :
    GoesOn sj r (.modifyDevice config) (advance sj isAlphanumeric r (.modifyDevice config)) := by
  obtain ⟨c, row, hview, hat, hkeeps⟩ := h.here _ rfl
  have hdevice : r.getDevice config.deviceId = some c := congrArg DeviceView.device hview
  have hid : (c.reregister config).deviceId = config.deviceId := hat.deviceId
  have hadvance : advance sj isAlphanumeric r (.modifyDevice config) =
      (r.insertDevice (c.reregister config), .saveModified config.deviceId) := by
    rw [advance, hdevice]
  rw [hadvance]
  refine .next h ⟨rfl, rfl⟩ ⟨rfl, rfl, rfl, rfl⟩ (Or.inl rfl)
    (.insertDevice (congrArg some hid.symm) (Or.inl ⟨c, hid ▸ hdevice, rfl⟩)) rfl
    nofun ⟨c.reregister config, row, ?_, hid, hat.plain, hat.carried⟩
  rw [← hid, view_insertDevice_self, hid, hview, kept, hkeeps.isRowOf.deviceType]
  rfl

theorem goesOn_saveModified {id : String} (h : (saveModified id).Holds sj r) :
    GoesOn sj r (.saveModified id) (advance sj isAlphanumeric r (.saveModified id)) := by
  obtain ⟨c, row, hview, hat⟩ := h.here _ rfl
  have hdevice : r.getDevice id = some c := congrArg DeviceView.device hview
  have hid : c.toStorage.deviceId = id := hat.deviceId
  have hadvance : advance sj isAlphanumeric r (.saveModified id) =
      (r.withStorage (r.storage.saveDevice c.toStorage), .done) := by
    rw [advance, hdevice]
  rw [hadvance]
  refine .answered _ (.withStorage rfl fun id' hid' => ?_) ?_
  · exact view_saveDevice_ne (hid ▸ hat.plain) (hid ▸ hid')
  · intro id' hid'
    obtain rfl : id = id' := some.inj hid'
    right
    refine ⟨c, c.toStorage, ?_, hat, Storage.DeviceConfig.keeps_toStorage c⟩
    rw [view_saveDevice_self hid hat.plain, hview]
    exact congrArg _ (add_onceIn c.deviceType)

theorem goesOn_saveNew (h : (saveNew config).Holds sj r) :
    GoesOn sj r (.saveNew config) (advance sj isAlphanumeric r (.saveNew config)) := by
  obtain ⟨hview, hat⟩ := h.here _ rfl
  refine .next h ⟨rfl, rfl⟩ ⟨rfl, rfl, rfl, rfl⟩ (Or.inr rfl)
    (.withStorage rfl fun id' hid' => view_saveDevice_ne hat.plain hid') rfl nofun ⟨?_, hat⟩
  refine (view_saveDevice_self rfl hat.plain).trans ?_
  rw [show r.view config.toStorage.deviceId = _ from hview]
  rfl

theorem goesOn_insertNew (h : (insertNew config).Holds sj r) :
    GoesOn sj r (.insertNew config) (advance sj isAlphanumeric r (.insertNew config)) := by
  obtain ⟨hview, hat⟩ := h.here _ rfl
  refine .next h ⟨rfl, rfl⟩ ⟨rfl, rfl, rfl, rfl⟩ (Or.inr rfl)
    (.insertDevice rfl (Or.inr rfl)) rfl nofun ⟨?_, hat⟩
  rw [view_insertDevice_self, hview]

theorem goesOn_pushNew (h : (pushNew config).Holds sj r) :
    GoesOn sj r (.pushNew config) (advance sj isAlphanumeric r (.pushNew config)) := by
  obtain ⟨hview, hat⟩ := h.here _ rfl
  refine .answered _ (.pushId rfl rfl) ?_
  intro id hid
  obtain rfl : config.deviceId = id := some.inj hid
  right
  refine ⟨config, config.toStorage, ?_, hat, Storage.DeviceConfig.keeps_toStorage config⟩
  rw [view_pushId_self, hview]
  simp only [push_nowhere]
  rfl

end Register

/-! ## `update_device` -/

section Update

variable {config : DeviceConfig F} {oldType : String}

theorem goesOn_readType (h : (readType config).Holds sj r) :
    GoesOn sj r (.readType config) (advance sj isAlphanumeric r (.readType config)) := by
  obtain ⟨hsettled, hconfig⟩ := h.here _ rfl
  exact .next h ⟨rfl, rfl⟩ ⟨rfl, rfl, rfl, rfl⟩ (Or.inr rfl) .refl rfl
    nofun ⟨hsettled, hconfig, rfl⟩

theorem goesOn_insertUpdated {oldDeviceType : Option String}
    (h : (insertUpdated config oldDeviceType).Holds sj r) (hold : oldDeviceType ≠ none) :
    GoesOn sj r (.insertUpdated config oldDeviceType)
      (advance sj isAlphanumeric r (.insertUpdated config oldDeviceType)) := by
  obtain ⟨hsettled, ⟨-, hcarried⟩, htype⟩ := h.here _ rfl
  cases hdevice : (r.view config.deviceId).device with
  | none =>
    rw [hdevice] at htype
    exact absurd htype hold
  | some c =>
    obtain ⟨row, hview, hat, hkeeps⟩ := hsettled.of_device hdevice
    have hat' : config.IsAt sj config.deviceId := ⟨rfl, hat.plain, hcarried⟩
    have hread : row.reread sj = some row := hkeeps.isRowOf.reread hat.carried
    have hafter : (r.insertDevice config).view config.deviceId =
        ⟨some config, onceIn c.deviceType, some row, onceIn row.deviceType⟩ := by
      rw [view_insertDevice_self, hview]
      rfl
    have heffect : Effect (insertUpdated config oldDeviceType) r (r.insertDevice config) :=
      .insertDevice rfl (Or.inr rfl)
    rw [hdevice] at htype
    subst htype
    show GoesOn sj r _ (r.insertDevice config,
      if c.deviceType = config.deviceType then .loadStored config
      else .retainOld config c.deviceType)
    by_cases hsame : c.deviceType = config.deviceType
    · rw [if_pos hsame]
      refine .next h ⟨rfl, rfl⟩ ⟨rfl, rfl, rfl, rfl⟩ (Or.inl rfl) heffect rfl
        nofun ⟨hat', row, hread, ?_⟩
      rw [hafter, hsame]
    · rw [if_neg hsame]
      exact .next h ⟨rfl, rfl⟩ ⟨rfl, rfl, rfl, rfl⟩ (Or.inr rfl) heffect rfl
        nofun ⟨hat', row, hread, hafter⟩

theorem goesOn_retainOld (h : (retainOld config oldType).Holds sj r) :
    GoesOn sj r (.retainOld config oldType)
      (advance sj isAlphanumeric r (.retainOld config oldType)) := by
  obtain ⟨hat, row, hread, hview⟩ := h.here _ rfl
  refine .next h ⟨rfl, rfl⟩ ⟨rfl, rfl, rfl, rfl⟩ (Or.inr rfl) (.retainIds rfl)
    templates_retainIds nofun ⟨hat, row, hread, ?_⟩
  rw [view_retainIds_self, hview]
  simp only [retain_onceIn]

theorem goesOn_checkOld (h : (checkOld config oldType).Holds sj r) :
    GoesOn sj r (.checkOld config oldType)
      (advance sj isAlphanumeric r (.checkOld config oldType)) := by
  have hhere := h.here _ rfl
  show GoesOn sj r _ (r,
    if r.hasEmptyEntry oldType then .removeOld config oldType else .pushUpdated config)
  by_cases hempty : r.hasEmptyEntry oldType
  · rw [if_pos hempty]
    exact .next h ⟨rfl, rfl⟩ ⟨rfl, rfl, rfl, rfl⟩ (Or.inr rfl) .refl rfl
      (idsOf_eq_nil_of_hasEmptyEntry hempty) hhere
  · rw [if_neg hempty]
    exact .next h ⟨rfl, rfl⟩ ⟨rfl, rfl, rfl, rfl⟩ (Or.inr rfl) .refl rfl nofun hhere

theorem goesOn_removeOld (h : (removeOld config oldType).Holds sj r) :
    GoesOn sj r (.removeOld config oldType)
      (advance sj isAlphanumeric r (.removeOld config oldType)) := by
  have hids := h.erases _ rfl
  refine .next h ⟨rfl, rfl⟩ ⟨rfl, rfl, rfl, rfl⟩ (Or.inr rfl) (.removeIds hids) rfl nofun ?_
  show DeviceView.Here sj config.deviceId ((r.removeIds oldType).view config.deviceId) _
  rw [view_removeIds hids]
  exact h.here _ rfl

theorem goesOn_pushUpdated (h : (pushUpdated config).Holds sj r) :
    GoesOn sj r (.pushUpdated config) (advance sj isAlphanumeric r (.pushUpdated config)) := by
  obtain ⟨hat, row, hread, hview⟩ := h.here _ rfl
  refine .next h ⟨rfl, rfl⟩ ⟨rfl, rfl, rfl, rfl⟩ (Or.inl rfl) (.pushId rfl rfl) rfl
    nofun ⟨hat, row, hread, ?_⟩
  rw [view_pushId_self, hview]
  simp only [push_nowhere]

/-- A row that can be read is loaded. -/
theorem loadDevice_of_view {id : String} {row : Storage.DeviceConfig F}
    (hrow : (r.view id).row = some row) (hread : row.reread sj = some row) :
    r.storage.loadDevice sj id = some (some row) := by
  have hlookup : r.storage.devices.lookup id = some row := hrow
  rw [DeviceRegistryStore.loadDevice, hlookup]
  show (row.reread sj).map some = _
  rw [hread]
  rfl

theorem goesOn_loadStored (h : (loadStored config).Holds sj r) :
    GoesOn sj r (.loadStored config) (advance sj isAlphanumeric r (.loadStored config)) := by
  obtain ⟨hat, row, hread, hview⟩ := h.here _ rfl
  have hload := loadDevice_of_view (congrArg DeviceView.row hview) hread
  have hadvance : advance sj isAlphanumeric r (.loadStored config) =
      (r, .writeStored config (some row.deviceType)) := by
    rw [advance, hload]
    rfl
  rw [hadvance]
  exact .next h ⟨rfl, rfl⟩ ⟨rfl, rfl, rfl, rfl⟩ (Or.inl rfl) .refl rfl nofun ⟨hat, row, rfl, hview⟩

theorem goesOn_writeStored {oldDeviceType : Option String}
    (h : (writeStored config oldDeviceType).Holds sj r) :
    GoesOn sj r (.writeStored config oldDeviceType)
      (advance sj isAlphanumeric r (.writeStored config oldDeviceType)) := by
  obtain ⟨hat, row, rfl, hview⟩ := h.here _ rfl
  refine .answered _ (.withStorage rfl fun id' hid' => view_updateDevice_ne hat.plain hid') ?_
  intro id hid
  obtain rfl : config.deviceId = id := some.inj hid
  right
  refine ⟨config, config.toStorage, ?_, hat, Storage.DeviceConfig.keeps_toStorage config⟩
  have hindexed : (r.view config.toStorage.deviceId).indexed = onceIn row.deviceType :=
    congrArg DeviceView.indexed hview
  refine (view_updateDevice_self rfl hat.plain hindexed).trans ?_
  rw [show r.view config.toStorage.deviceId = _ from hview]
  rfl

end Update

/-! ## `update_last_seen` -/

section LastSeen

theorem goesOn_loadSeen {id : String} {lastSeen : ℤ} (h : (loadSeen id lastSeen).Holds sj r) :
    GoesOn sj r (.loadSeen id lastSeen) (advance sj isAlphanumeric r (.loadSeen id lastSeen)) := by
  obtain ⟨c, row, hview, hat, hrow, hseen⟩ := h.here _ rfl
  have hread : row.reread sj = some row := hrow.reread hat.carried
  have hload := loadDevice_of_view (congrArg DeviceView.row hview) hread
  have hadvance : advance sj isAlphanumeric r (.loadSeen id lastSeen) =
      (r, .writeSeen { row with lastSeen := lastSeen }) := by
    rw [advance, hload]
  have hid : row.deviceId = id := hrow.deviceId.trans hat.deviceId
  have hrow' : { row with lastSeen := lastSeen } = c.toStorage := by
    rw [hrow, ← hseen]
    rfl
  rw [hadvance]
  exact .next h ⟨rfl, congrArg some hid⟩ ⟨rfl, rfl, rfl, rfl⟩ (Or.inl rfl) .refl rfl
    nofun ⟨c, row, hview, hat, hrow, hrow'⟩

theorem goesOn_writeSeen {row : Storage.DeviceConfig F} (h : (writeSeen row).Holds sj r) :
    GoesOn sj r (.writeSeen row) (advance sj isAlphanumeric r (.writeSeen row)) := by
  obtain ⟨c, stored, hview, hat, hrow, rfl⟩ := h.here _ rfl
  refine .answered _ (.withStorage rfl fun id' hid' => view_putDevice_ne hid') ?_
  intro id hid
  obtain rfl : c.toStorage.deviceId = id := some.inj hid
  right
  refine ⟨c, c.toStorage, ?_, hat, Storage.DeviceConfig.keeps_toStorage c⟩
  rw [view_putDevice_self rfl, hview, kept, hrow.deviceType]
  rfl

end LastSeen

/-! ## `unregister_device` -/

section Unregister

variable {id deviceType : String}

theorem goesOn_removeDevice (h : (removeDevice id deviceType).Holds sj r) :
    GoesOn sj r (.removeDevice id deviceType)
      (advance sj isAlphanumeric r (.removeDevice id deviceType)) := by
  obtain ⟨c, row, hview, hat, hkeeps, htype⟩ := h.here _ rfl
  refine .next h ⟨rfl, rfl⟩ ⟨rfl, rfl, rfl, rfl⟩ (Or.inl rfl) (.removeDevice rfl) rfl
    nofun ⟨row, hkeeps.isRowOf.reread hat.carried, ?_⟩
  rw [view_removeDevice_self, hview, kept, htype]

theorem goesOn_retain (h : (retain id deviceType).Holds sj r) :
    GoesOn sj r (.retain id deviceType) (advance sj isAlphanumeric r (.retain id deviceType)) := by
  obtain ⟨row, hread, hview⟩ := h.here _ rfl
  refine .next h ⟨rfl, rfl⟩ ⟨rfl, rfl, rfl, rfl⟩ (Or.inl rfl) (.retainIds rfl)
    templates_retainIds nofun ⟨row, hread, ?_⟩
  rw [view_retainIds_self, hview]
  simp only [retain_onceIn]

theorem goesOn_checkEntry (h : (checkEntry id deviceType).Holds sj r) :
    GoesOn sj r (.checkEntry id deviceType)
      (advance sj isAlphanumeric r (.checkEntry id deviceType)) := by
  have hhere := h.here _ rfl
  show GoesOn sj r _ (r,
    if r.hasEmptyEntry deviceType then .removeEntry id deviceType else .deleteStored id)
  by_cases hempty : r.hasEmptyEntry deviceType
  · rw [if_pos hempty]
    exact .next h ⟨rfl, rfl⟩ ⟨rfl, rfl, rfl, rfl⟩ (Or.inl rfl) .refl rfl
      (idsOf_eq_nil_of_hasEmptyEntry hempty) hhere
  · rw [if_neg hempty]
    exact .next h ⟨rfl, rfl⟩ ⟨rfl, rfl, rfl, rfl⟩ (Or.inl rfl) .refl rfl nofun hhere

theorem goesOn_removeEntry (h : (removeEntry id deviceType).Holds sj r) :
    GoesOn sj r (.removeEntry id deviceType)
      (advance sj isAlphanumeric r (.removeEntry id deviceType)) := by
  have hids := h.erases _ rfl
  refine .next h ⟨rfl, rfl⟩ ⟨rfl, rfl, rfl, rfl⟩ (Or.inl rfl) (.removeIds hids) rfl nofun ?_
  show DeviceView.Here sj id ((r.removeIds deviceType).view id) _
  rw [view_removeIds hids]
  exact h.here _ rfl

theorem goesOn_deleteStored (h : (deleteStored id).Holds sj r) :
    GoesOn sj r (.deleteStored id) (advance sj isAlphanumeric r (.deleteStored id)) := by
  obtain ⟨row, hread, hview⟩ := h.here _ rfl
  refine .answered _ (.withStorage rfl fun id' hid' => view_deleteDevice_ne hid') ?_
  intro id' hid'
  obtain rfl : id = id' := some.inj hid'
  left
  rw [view_deleteDevice_self (congrArg DeviceView.row hview) hread, hview]
  simp only [retain_onceIn]
  rfl

end Unregister

end HeraMind.Devices
