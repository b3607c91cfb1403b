/-
# Loading the store of the registry

The load runs alone: it puts the templates in memory, then lists the rows of the store, and for each
row puts a device in memory and lists it under its type.  A device that was never seen is then
written once more, as one that was seen long ago.
-/
import HeraMind.Devices.RegistrySections

namespace HeraMind.Devices

open List

variable {F : Type} {sj : SerdeJson F} {isAlphanumeric : Char → Bool} {r : DeviceRegistry F}

open RegistryPc DeviceRegistry DeviceView

/-- The load goes on, or leaves every device as one that no call is about. -/
def LoadGoesOn (sj : SerdeJson F) (after : DeviceRegistry F × RegistryPc F) : Prop :=
  (after.2.loads = true ∧ Loading sj after.1 after.2) ∨
    after.2 = .done ∧ (∀ id, (after.1.view id).Settled sj id) ∧
      ∀ id c, after.1.getDevice id = some c → (after.1.getTemplate c.deviceType).isSome

namespace Storage.DeviceConfig

variable {id : String} {row : DeviceConfig F}

/-- The device of a row keeps to the row. -/
theorem keeps_toLocal (h : row.IsRowOf row.toLocal) : row.Keeps row.toLocal where
  isRowOf := h
  late := by
    show (if row.lastSeen = 0 then 1 else row.lastSeen) - row.lastSeen < 15
    split
    · omega
    · omega
  early := by
    show row.lastSeen - (if row.lastSeen = 0 then 1 else row.lastSeen) < 15
    split
    · omega
    · omega

end Storage.DeviceConfig

/-! ## Templates -/

theorem loadGoesOn_loadTemplates {rows : List (Storage.DeviceTypeTemplate F)}
    (h : Loading sj r (.loadTemplates rows)) :
    LoadGoesOn sj (advance sj isAlphanumeric r (.loadTemplates rows)) := by
  left
  cases rows with
  | nil => exact ⟨rfl, h⟩
  | cons x rows =>
    refine ⟨rfl, h.unloaded, ?_⟩
    intro id row hrow
    have hlookup : (r.insertTemplate x.toLocal).getTemplate row.deviceType =
        if row.deviceType = x.toLocal.deviceType then some x.toLocal
        else r.getTemplate row.deviceType :=
      KeyedMap.lookup_put r.templates x.toLocal row.deviceType
    by_cases htype : row.deviceType = x.toLocal.deviceType
    · right
      show ((r.insertTemplate x.toLocal).getTemplate row.deviceType).isSome
      rw [hlookup, if_pos htype]
      rfl
    · rcases h.template id row hrow with ⟨y, hy, hsame⟩ | hsome
      · left
        rcases mem_cons.mp hy with rfl | hy
        · exact absurd hsame.symm htype
        · exact ⟨y, hy, hsame⟩
      · right
        show ((r.insertTemplate x.toLocal).getTemplate row.deviceType).isSome
        rw [hlookup, if_neg htype]
        exact hsome

/-! ## Rows -/

/-- The rows that are listed are those that are stored. -/
theorem mem_listDevices (h : ∀ id row, (r.view id).row = some row → row.reread sj = some row)
    {row : Storage.DeviceConfig F} :
    row ∈ r.storage.listDevices sj ↔ (r.view row.deviceId).row = some row := by
  unfold DeviceRegistryStore.listDevices
  rw [mem_filterMap]
  constructor
  · rintro ⟨stored, hmem, hread⟩
    have hstored : r.storage.devices.lookup stored.deviceId = some stored :=
      KeyedMap.mem_values.mp hmem
    obtain rfl : stored = row := Option.some.inj ((h _ _ hstored).symm.trans hread)
    exact hstored
  · intro hrow
    exact ⟨row, KeyedMap.mem_values.mpr hrow, h _ _ hrow⟩

theorem listDevices_eq_values
    (h : ∀ id row, (r.view id).row = some row → row.reread sj = some row) :
    r.storage.listDevices sj = r.storage.devices.values := by
  unfold DeviceRegistryStore.listDevices
  have hread : ∀ row ∈ r.storage.devices.values, row.reread sj = some row :=
    fun row hrow => h row.deviceId row (KeyedMap.mem_values.mp hrow)
  rw [filterMap_congr hread, filterMap_some]

theorem loadGoesOn_listDevices (h : Loading sj r .listDevices) :
    LoadGoesOn sj (advance sj isAlphanumeric r .listDevices) := by
  have hcases : ∀ id row, (r.view id).row = some row → row.deviceId = id ∧
      r.view id = .unloaded row ∧ row.toLocal.IsAt sj id ∧ row.IsRowOf row.toLocal := by
    intro id row hrow
    rcases h.unloaded id with habsent | ⟨stored, hview, hat, hisRow⟩
    · rw [habsent] at hrow
      cases hrow
    · rw [hview] at hrow
      obtain rfl : stored = row := Option.some.inj hrow
      exact ⟨hat.deviceId, hview, hat, hisRow⟩
  have hread : ∀ id row, (r.view id).row = some row → row.reread sj = some row :=
    fun id row hrow => (hcases id row hrow).2.2.2.reread (hcases id row hrow).2.2.1.carried
  left
  refine ⟨rfl, ?_, ?_, ?_, ?_, ?_⟩
  · rw [listDevices_eq_values hread]
    exact KeyedMap.nodup_keys_values _
  · intro row hmem
    exact (hcases _ _ ((mem_listDevices hread).mp hmem)).2
  · intro id _ hid
    left
    rcases h.unloaded id with habsent | ⟨row, hview, hat, -⟩
    · exact habsent
    · have hrow : (r.view row.deviceId).row = some row := by
        rw [show row.deviceId = id from hat.deviceId, hview]
        rfl
      exact absurd hat.deviceId (hid row ((mem_listDevices hread).mpr hrow))
  · intro id hid
    cases hid
  · intro id row hrow
    rcases h.template id row hrow with ⟨x, hx, -⟩ | hsome
    · cases hx
    · exact hsome

variable {migrated : List String}

theorem loadGoesOn_loadDevices {rows : List (Storage.DeviceConfig F)}
    (h : Loading sj r (.loadDevices rows migrated)) :
    LoadGoesOn sj (advance sj isAlphanumeric r (.loadDevices rows migrated)) := by
  left
  cases rows with
  | nil => exact ⟨rfl, h⟩
  | cons row rows =>
    obtain ⟨hview, hat, hisRow⟩ := h.pending row mem_cons_self
    have hnodup := nodup_cons.mp h.nodup
    have hrest : ∀ row' ∈ rows, row'.deviceId ≠ row.deviceId := by
      intro row' hmem hsame
      exact hnodup.1 (hsame ▸ mem_map_of_mem hmem)
    have hself : (r.insertDevice row.toLocal).view row.deviceId =
        ⟨some row.toLocal, nowhere, some row, onceIn row.deviceType⟩ := by
      refine (view_insertDevice_self row.toLocal).trans ?_
      rw [show r.view row.toLocal.deviceId = _ from hview]
      rfl
    have hother : ∀ id, id ≠ row.deviceId →
        (r.insertDevice row.toLocal).view id = r.view id :=
      fun id hid => view_insertDevice_ne hid
    refine ⟨rfl, ⟨hnodup.2, ?_, ?_, ?_, h.template⟩, hrest, row, rfl, hat, hisRow, hself⟩
    · intro row' hmem
      show (r.insertDevice row.toLocal).view row'.deviceId = _ ∧ _
      rw [hother _ (hrest row' hmem)]
      exact h.pending row' (mem_cons_of_mem _ hmem)
    · intro id hcurrent hid
      have hne : id ≠ row.deviceId := by
        rintro rfl
        exact hcurrent rfl
      show ((r.insertDevice row.toLocal).view id).Settled sj id
      rw [hother id hne]
      refine h.loaded id (fun hnone => nomatch hnone) ?_
      intro row' hmem
      rcases mem_cons.mp hmem with rfl | hmem
      · exact hne.symm
      · exact hid row' hmem
    · intro id hid
      have hmigrated : id ∈ migrated → ∃ c,
          (r.insertDevice row.toLocal).getDevice id = some c ∧ c.lastSeen = 1 := by
        intro hmem
        obtain ⟨c, hc, hseen⟩ := h.migrated id hmem
        have hne : id ≠ row.deviceId := by
          rintro rfl
          have hnone : r.getDevice row.deviceId = none := congrArg DeviceView.device hview
          rw [hnone] at hc
          cases hc
        exact ⟨c, (congrArg DeviceView.device (hother id hne)).trans hc, hseen⟩
      by_cases hzero : row.lastSeen = 0
      · rw [if_pos hzero] at hid
        rcases mem_append.mp hid with hid | hid
        · exact hmigrated hid
        · obtain rfl := mem_singleton.mp hid
          exact ⟨row.toLocal, congrArg DeviceView.device hself, if_pos hzero⟩
      · rw [if_neg hzero] at hid
        exact hmigrated hid

theorem loadGoesOn_pushLoaded {config : DeviceConfig F} {rows : List (Storage.DeviceConfig F)}
    (h : Loading sj r (.pushLoaded config rows migrated)) :
    LoadGoesOn sj (advance sj isAlphanumeric r (.pushLoaded config rows migrated)) := by
  obtain ⟨hrows, hrest, row, rfl, hat, hisRow, hview⟩ := h
  have hself : (r.pushId row.deviceType row.deviceId).view row.deviceId =
      .kept row.toLocal row := by
    rw [view_pushId_self, hview]
    simp only [push_nowhere]
    rfl
  have hother : ∀ id, id ≠ row.deviceId →
      (r.pushId row.deviceType row.deviceId).view id = r.view id :=
    fun id hid => view_pushId_ne hid
  left
  refine ⟨rfl, hrows.nodup, ?_, ?_, hrows.migrated, hrows.template⟩
  · intro row' hmem
    show (r.pushId row.deviceType row.deviceId).view row'.deviceId = _ ∧ _
    rw [hother _ (hrest row' hmem)]
    exact hrows.pending row' hmem
  · intro id _ hid
    show ((r.pushId row.deviceType row.deviceId).view id).Settled sj id
    by_cases hsame : id = row.deviceId
    · right
      rw [hsame]
      exact ⟨row.toLocal, row, hself, hat, Storage.DeviceConfig.keeps_toLocal hisRow⟩
    · rw [hother id hsame]
      refine hrows.loaded id ?_ hid
      intro hcurrent
      exact hsame (Option.some.inj hcurrent).symm

theorem loadGoesOn_migrate (h : Loading sj r (.migrate migrated)) :
    LoadGoesOn sj (advance sj isAlphanumeric r (.migrate migrated)) := by
  have hsettled : ∀ id, (r.view id).Settled sj id :=
    fun id => h.loaded id (fun hnone => nomatch hnone) fun row hrow => nomatch hrow
  cases migrated with
  | nil =>
    right
    refine ⟨rfl, hsettled, ?_⟩
    intro id c hc
    obtain ⟨row, hview, -, hkeeps⟩ := (hsettled id).of_device hc
    rw [← hkeeps.isRowOf.deviceType]
    exact h.template id row (congrArg DeviceView.row hview)
  | cons id migrated =>
    obtain ⟨c, hc, hseen⟩ := h.migrated id mem_cons_self
    obtain ⟨row, hview, hat, hkeeps⟩ := (hsettled id).of_device hc
    have hload := loadDevice_of_view (congrArg DeviceView.row hview)
      (hkeeps.isRowOf.reread hat.carried)
    have hadvance : advance sj isAlphanumeric r (.migrate (id :: migrated)) =
        (r, .writeMigrated { row with lastSeen := 1 } migrated) := by
      rw [advance, hload]
    have hid : row.deviceId = id := hkeeps.isRowOf.deviceId.trans hat.deviceId
    rw [hadvance]
    left
    refine ⟨rfl, ⟨h.nodup, h.pending, h.loaded, ?_, h.template⟩, c, row, ?_, hseen, ?_,
      hkeeps.isRowOf, rfl⟩
    · intro id' hmem
      exact h.migrated id' (mem_cons_of_mem _ hmem)
    · show r.view row.deviceId = _
      rw [hid]
      exact hview
    · show c.IsAt sj row.deviceId
      rw [hid]
      exact hat

theorem loadGoesOn_writeMigrated {row : Storage.DeviceConfig F}
    (h : Loading sj r (.writeMigrated row migrated)) :
    LoadGoesOn sj (advance sj isAlphanumeric r (.writeMigrated row migrated)) := by
  obtain ⟨hrows, c, stored, hview, hseen, hat, hisRow, rfl⟩ := h
  have hrow : { stored with lastSeen := 1 } = c.toStorage := by
    rw [hisRow, ← hseen]
    rfl
  have hself : (r.withStorage (r.storage.putDevice c.toStorage)).view stored.deviceId =
      .kept c c.toStorage := by
    rw [view_putDevice_self (hat.deviceId), show r.view stored.deviceId = _ from hview, kept,
      hisRow.deviceType]
    rfl
  have hother : ∀ id, id ≠ stored.deviceId →
      (r.withStorage (r.storage.putDevice c.toStorage)).view id = r.view id := by
    intro id hid
    exact view_putDevice_ne (fun hsame => hid (hsame.trans hat.deviceId))
  show LoadGoesOn sj (r.withStorage (r.storage.putDevice { stored with lastSeen := 1 }),
    .migrate migrated)
  rw [hrow]
  left
  refine ⟨rfl, hrows.nodup, forall_mem_nil _, ?_, hrows.migrated, ?_⟩
  · intro id hcurrent hid
    show ((r.withStorage (r.storage.putDevice c.toStorage)).view id).Settled sj id
    by_cases hsame : id = stored.deviceId
    · right
      rw [hsame]
      exact ⟨c, c.toStorage, hself, hat, Storage.DeviceConfig.keeps_toStorage c⟩
    · rw [hother id hsame]
      exact hrows.loaded id hcurrent hid
  · intro id row hlookup
    show (r.getTemplate row.deviceType).isSome
    by_cases hsame : id = stored.deviceId
    · have hstored : (r.view stored.deviceId).row = some stored := congrArg DeviceView.row hview
      obtain rfl : c.toStorage = row := by
        rw [hsame] at hlookup
        exact Option.some.inj ((congrArg DeviceView.row hself).symm.trans hlookup)
      rw [show c.toStorage.deviceType = stored.deviceType from hisRow.deviceType.symm]
      exact hrows.template _ _ hstored
    · have hold : (r.view id).row = some row :=
        (congrArg DeviceView.row (hother id hsame)).symm.trans hlookup
      exact hrows.template _ _ hold

/-- One section of a load. -/
theorem loadGoesOn {p : RegistryPc F} (hloads : p.loads = true) (h : Loading sj r p) :
    LoadGoesOn sj (advance sj isAlphanumeric r p) := by
  cases p with
  | loadTemplates rows => exact loadGoesOn_loadTemplates h
  | listDevices => exact loadGoesOn_listDevices h
  | loadDevices rows migrated => exact loadGoesOn_loadDevices h
  | pushLoaded config rows migrated => exact loadGoesOn_pushLoaded h
  | migrate migrated => exact loadGoesOn_migrate h
  | writeMigrated row migrated => exact loadGoesOn_writeMigrated h
  | _ => cases hloads

end HeraMind.Devices
