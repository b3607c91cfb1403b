/-
# Calls of the registry that keep apart

What a call that has begun is about: its device, the type it brings a device to, the type it lists
an id under, the entry of a type it takes away, and the template it takes away.  Calls keep apart if
no two of them are about the same thing, and what one of them does is then seen by no other.
-/
import HeraMind.Devices.RegistryViews

namespace HeraMind.Devices

variable {F : Type}

/-! ## What a call is about -/

namespace RegistryPc

/-- The device a call is about. -/
def device : RegistryPc F → Option String
  | .checkDevice config | .modifyDevice config | .saveNew config | .insertNew config
  | .pushNew config | .readType config | .insertUpdated config _ | .retainOld config _
  | .checkOld config _ | .removeOld config _ | .pushUpdated config | .loadStored config
  | .writeStored config _ => some config.deviceId
  | .saveModified deviceId | .loadSeen deviceId _ | .removeDevice deviceId _ | .retain deviceId _
  | .checkEntry deviceId _ | .removeEntry deviceId _ | .deleteStored deviceId => some deviceId
  | .writeSeen row => some row.deviceId
  | _ => none

/-- The type a call brings its device to. -/
def adds : RegistryPc F → Option String
  | .checkDevice config | .saveNew config | .insertNew config | .pushNew config
  | .readType config | .insertUpdated config _ | .retainOld config _ | .checkOld config _
  | .removeOld config _ | .pushUpdated config => some config.deviceType
  | _ => none

/-- The type a call lists its device under next. -/
def pushes : RegistryPc F → Option String
  | .pushNew config | .pushUpdated config => some config.deviceType
  | _ => none

/-- The type whose empty entry a call takes away next. -/
def erases : RegistryPc F → Option String
  | .removeOld _ oldType => some oldType
  | .removeEntry _ deviceType => some deviceType
  | _ => none

/-- The template a call takes away next. -/
def drops : RegistryPc F → Option String
  | .removeTemplate deviceType => some deviceType
  | _ => none

/-- Whether the call loads the store. -/
def loads : RegistryPc F → Bool
  | .loadTemplates _ | .listDevices | .loadDevices _ _ | .pushLoaded _ _ _ | .migrate _
  | .writeMigrated _ _ => true
  | _ => false

/-- Whether the call has not begun yet, or has answered. -/
def isIdle : RegistryPc F → Bool
  | .start _ | .answered _ => true
  | _ => false

/-- What the next section of a call is about: the first section of `update_last_seen` is the only
one that changes a device before anything else is known of it. -/
def held : RegistryPc F → RegistryPc F
  | .start (.updateLastSeen deviceId lastSeen) => .loadSeen deviceId lastSeen
  | pc => pc

end RegistryPc

/-- Not the same thing. -/
def Differ (a b : Option String) : Prop :=
  a = none ∨ a ≠ b

instance (a b : Option String) : Decidable (Differ a b) :=
  inferInstanceAs (Decidable (a = none ∨ a ≠ b))

theorem Differ.ne {a b : Option String} {t : String} (h : Differ a b) (ha : a = some t) :
    b ≠ some t := by
  rintro rfl
  rcases h with h | h
  · rw [h] at ha
    cases ha
  · exact h ha

/-- Two calls that are about different things. -/
structure RegistryPc.Compatible (p q : RegistryPc F) : Prop where
  device : Differ p.device q.device
  adds : Differ p.adds q.drops
  drops : Differ p.drops q.adds
  pushes : Differ p.pushes q.erases
  erases : Differ p.erases q.pushes
  loads : p.loads = true → q.isIdle = true
  loaded : q.loads = true → p.isIdle = true

instance (p q : RegistryPc F) : Decidable (p.Compatible q) :=
  decidable_of_iff
    (Differ p.device q.device ∧ Differ p.adds q.drops ∧ Differ p.drops q.adds ∧
      Differ p.pushes q.erases ∧ Differ p.erases q.pushes ∧
      (p.loads = true → q.isIdle = true) ∧ (q.loads = true → p.isIdle = true))
    ⟨fun ⟨h₁, h₂, h₃, h₄, h₅, h₆, h₇⟩ => ⟨h₁, h₂, h₃, h₄, h₅, h₆, h₇⟩,
      fun ⟨h₁, h₂, h₃, h₄, h₅, h₆, h₇⟩ => ⟨h₁, h₂, h₃, h₄, h₅, h₆, h₇⟩⟩

/-- The calls are about different things. -/
def Apart (calls : List (RegistryPc F)) : Prop :=
  calls.Pairwise fun p q => p.Compatible q

instance (calls : List (RegistryPc F)) : Decidable (Apart calls) :=
  inferInstanceAs (Decidable (calls.Pairwise _))

theorem Differ.symm {a b : Option String} (h : Differ a b) : Differ b a := by
  by_cases hb : b = none
  · exact Or.inl hb
  · right
    rintro rfl
    rcases h with h | h
    · exact hb h
    · exact h rfl

theorem RegistryPc.Compatible.symm {p q : RegistryPc F} (h : p.Compatible q) :
    q.Compatible p where
  device := h.device.symm
  adds := h.drops.symm
  drops := h.adds.symm
  pushes := h.erases.symm
  erases := h.pushes.symm
  loads := h.loaded
  loaded := h.loads

/-- Two calls at different places of calls that keep apart. -/
theorem Apart.compatible {calls : List (RegistryPc F)} (h : Apart calls) {i j : ℕ}
    {p q : RegistryPc F} (hij : i ≠ j) (hi : calls[i]? = some p) (hj : calls[j]? = some q) :
    p.Compatible q := by
  obtain ⟨hilt, rfl⟩ := List.getElem?_eq_some_iff.mp hi
  obtain ⟨hjlt, rfl⟩ := List.getElem?_eq_some_iff.mp hj
  have hpairwise := List.pairwise_iff_getElem.mp h
  rcases Nat.lt_or_gt_of_ne hij with hlt | hlt
  · exact hpairwise i j hilt hjlt hlt
  · exact (hpairwise j i hjlt hilt hlt).symm

/-! ## What a section changes -/

/-- A section changes nothing but what the call is about. -/
structure Effect (p : RegistryPc F) (r r' : DeviceRegistry F) : Prop where
  view : ∀ id, p.device ≠ some id → r'.view id = r.view id
  template : ∀ t, p.drops ≠ some t → (r.getTemplate t).isSome → (r'.getTemplate t).isSome
  listed : ∀ id t, p.pushes ≠ some t → (r.view id).listed t = 0 → (r'.view id).listed t = 0
  type : ∀ id c', r'.getDevice id = some c' →
    (∃ c, r.getDevice id = some c ∧ c.deviceType = c'.deviceType) ∨ p.adds = some c'.deviceType

namespace Effect

variable {p : RegistryPc F} {r : DeviceRegistry F} {id deviceType : String}

/-- A section that only changes the templates or their rows. -/
theorem of_view {r' : DeviceRegistry F} (hview : ∀ id, r'.view id = r.view id)
    (htemplate : ∀ t, p.drops ≠ some t → (r.getTemplate t).isSome → (r'.getTemplate t).isSome) :
    Effect p r r' where
  view id _ := hview id
  template := htemplate
  listed id t _ h := by
    rw [hview]
    exact h
  type id c' h := by
    left
    have hdevice : r'.getDevice id = r.getDevice id := congrArg DeviceView.device (hview id)
    exact ⟨c', hdevice ▸ h, rfl⟩

theorem refl : Effect p r r :=
  of_view (fun _ => rfl) fun _ _ h => h

theorem insertDevice {config : DeviceConfig F} (hdevice : p.device = some config.deviceId)
    (htype : (∃ c, r.getDevice config.deviceId = some c ∧ c.deviceType = config.deviceType) ∨
      p.adds = some config.deviceType) : Effect p r (r.insertDevice config) where
  view id hid := by
    apply DeviceRegistry.view_insertDevice_ne
    rintro rfl
    exact hid hdevice
  template _ _ h := h
  listed _ _ _ h := h
  type id c' h := by
    by_cases hid : id = config.deviceId
    · subst hid
      have hself : (r.insertDevice config).getDevice config.deviceId = some config :=
        KeyedMap.lookup_put_self r.devices config
      obtain rfl : config = c' := Option.some.inj (hself.symm.trans h)
      exact htype
    · left
      have hother : (r.insertDevice config).getDevice id = r.getDevice id :=
        KeyedMap.lookup_put_ne r.devices hid
      exact ⟨c', hother ▸ h, rfl⟩

theorem removeDevice (hdevice : p.device = some id) : Effect p r (r.removeDevice id) where
  view id' hid := by
    apply DeviceRegistry.view_removeDevice_ne
    rintro rfl
    exact hid hdevice
  template _ _ h := h
  listed _ _ _ h := h
  type id' c' h := by
    left
    by_cases hid : id' = id
    · have hself : (r.removeDevice id).getDevice id' = none := by
        rw [hid]
        exact KeyedMap.lookup_erase_self r.devices id
      rw [hself] at h
      cases h
    · have hother : (r.removeDevice id).getDevice id' = r.getDevice id' :=
        KeyedMap.lookup_erase_ne r.devices hid
      exact ⟨c', hother ▸ h, rfl⟩

theorem pushId (hdevice : p.device = some id) (hpushes : p.pushes = some deviceType) :
    Effect p r (r.pushId deviceType id) where
  view id' hid := by
    apply DeviceRegistry.view_pushId_ne
    rintro rfl
    exact hid hdevice
  template _ _ h := h
  listed id' t ht h := by
    have hne : t ≠ deviceType := by
      rintro rfl
      exact ht hpushes
    show ((r.pushId deviceType id).idsOf t).count id' = 0
    rw [DeviceRegistry.idsOf_pushId, if_neg hne]
    exact h
  type _ c' h := Or.inl ⟨c', h, rfl⟩

theorem retainIds (hdevice : p.device = some id) : Effect p r (r.retainIds deviceType id) where
  view id' hid := by
    apply DeviceRegistry.view_retainIds_ne
    rintro rfl
    exact hid hdevice
  template t _ h := by
    rw [DeviceRegistry.getTemplate, DeviceRegistry.templates_retainIds]
    exact h
  listed id' t _ h := by
    by_cases hid : id' = id
    · rw [hid, DeviceRegistry.view_retainIds_self]
      rw [hid] at h
      show (if t = deviceType then 0 else (r.view id).listed t) = 0
      rw [h, ite_self]
    · rw [DeviceRegistry.view_retainIds_ne hid]
      exact h
  type id' c' h := by
    left
    rw [DeviceRegistry.getDevice, DeviceRegistry.devices_retainIds] at h
    exact ⟨c', h, rfl⟩

theorem removeIds (h : r.idsOf deviceType = []) : Effect p r (r.removeIds deviceType) :=
  of_view (DeviceRegistry.view_removeIds h) fun _ _ h => h

/-- A section that only changes the row of a device. -/
theorem withStorage {storage : DeviceRegistryStore F} (hdevice : p.device = some id)
    (hview : ∀ id', id' ≠ id → (r.withStorage storage).view id' = r.view id') :
    Effect p r (r.withStorage storage) where
  view id' hid := by
    apply hview
    rintro rfl
    exact hid hdevice
  template _ _ h := h
  listed _ _ _ h := h
  type _ c' h := Or.inl ⟨c', h, rfl⟩

theorem insertTemplate (template : DeviceTypeTemplate F) :
    Effect p r (r.insertTemplate template) := by
  refine of_view (fun _ => rfl) ?_
  intro t _ h
  show ((r.templates.put template).lookup t).isSome
  rw [KeyedMap.lookup_put]
  split
  · rfl
  · exact h

theorem removeTemplate (hdrops : p.drops = some deviceType) :
    Effect p r (r.removeTemplate deviceType) := by
  refine of_view (fun _ => rfl) ?_
  intro t ht h
  have hne : t ≠ deviceType := by
    rintro rfl
    exact ht hdrops
  show ((r.templates.erase deviceType).lookup t).isSome
  rw [KeyedMap.lookup_erase_ne r.templates hne]
  exact h

end Effect

end HeraMind.Devices
