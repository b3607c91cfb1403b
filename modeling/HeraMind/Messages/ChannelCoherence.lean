/-
# Coherence of the registry

`set_enabled` puts an override in memory and the same state into the row of the channel, but
`register_with_config` puts the state of the channel object into the row and leaves an override as
it is.  `unregister` removes the channel and its row, and leaves its configuration, its override and
its recipients behind; so what is registered under the name afterwards inherits them.
-/
import HeraMind.Messages.ChannelRegistry

namespace HeraMind.Messages

open Option AList List
open Transition

namespace ChannelRegistry

section

variable {Json : Type}

/-! ## The properties -/

/-- The row of a registered channel has its configuration, and says whether it is enabled. -/
def Coherent (r : ChannelRegistry Json) (name : String) : Prop :=
  ∀ channel, r.channels.lookup name = some channel → ∃ stored,
    r.channelTable.lookup name = some stored ∧ r.configs.lookup name = some stored.config ∧
      stored.enabled = r.isEnabledEffective name

/-- What is known of a channel is what it was registered with. -/
structure Fresh (r : ChannelRegistry Json) (name : String) (channel : MessageChannel)
    (config : Json) : Prop where
  enabled : r.isEnabledEffective name = channel.isEnabled
  filter : r.getFilter name = ChannelFilter.default
  recipients : r.getRecipients name = []
  stored : (r.recipientTable.lookup name).getD [] = []
  info : ∃ info, r.getInfo name = some info ∧ info.channelType = channel.channelType ∧
    info.enabled = channel.isEnabled ∧ info.config = some config ∧ info.recipients.getD [] = []

/-! ## The conditions -/

/-- A channel is registered under a name that has no override, or the override it would have. -/
def Agreeing (r : ChannelRegistry Json) : ChannelOperation Json → Prop
  | .registerWithConfig name channel _ =>
    ∀ enabled ∈ r.enabledStates.lookup name, enabled = channel.isEnabled
  | _ => True

/-- A channel has neither recipients nor an override that differs from a state. -/
def Plain (r : ChannelRegistry Json) (name : String) (enabled : Bool) : Prop :=
  (∀ override ∈ r.enabledStates.lookup name, override = enabled) ∧ r.getRecipients name = [] ∧
    (r.recipientTable.lookup name).getD [] = []

/-- Nothing is registered under the name. -/
def NotRegistering (name : String) (_ : ChannelRegistry Json) : ChannelOperation Json → Prop
  | .registerWithConfig name' _ _ => name' ≠ name
  | _ => True

/-! ## What an operation leaves alone -/

/-- Two registries know the same of a name. -/
structure SameAt (name : String) (r r' : ChannelRegistry Json) : Prop where
  channels : r'.channels.lookup name = r.channels.lookup name
  configs : r'.configs.lookup name = r.configs.lookup name
  enabledStates : r'.enabledStates.lookup name = r.enabledStates.lookup name
  recipients : r'.recipients.lookup name = r.recipients.lookup name
  channelTable : r'.channelTable.lookup name = r.channelTable.lookup name
  recipientTable : r'.recipientTable.lookup name = r.recipientTable.lookup name

variable {f : ChannelFactory Json} {r r' r'' : ChannelRegistry Json} {name name' : String}

/-- An override, or the state of the channel. -/
theorem isEnabledEffective_eq (r : ChannelRegistry Json) (name : String) :
    r.isEnabledEffective name = (r.enabledStates.lookup name).getD
      ((r.channels.lookup name).any MessageChannel.isEnabled) := by
  unfold isEnabledEffective
  cases r.enabledStates.lookup name with
  | none | some enabled => rfl

namespace SameAt

theorem refl (name : String) (r : ChannelRegistry Json) : SameAt name r r :=
  ⟨rfl, rfl, rfl, rfl, rfl, rfl⟩

theorem trans (h : SameAt name r r') (h' : SameAt name r' r'') : SameAt name r r'' :=
  ⟨h'.channels.trans h.channels, h'.configs.trans h.configs,
    h'.enabledStates.trans h.enabledStates, h'.recipients.trans h.recipients,
    h'.channelTable.trans h.channelTable, h'.recipientTable.trans h.recipientTable⟩

theorem isEnabledEffective (h : SameAt name r r') :
    r'.isEnabledEffective name = r.isEnabledEffective name := by
  rw [isEnabledEffective_eq, isEnabledEffective_eq, h.enabledStates, h.channels]

theorem coherent (h : SameAt name r r') (hr : r.Coherent name) : r'.Coherent name := by
  intro channel hchannel
  rw [h.channels] at hchannel
  obtain ⟨stored, hstored, hconfig, henabled⟩ := hr channel hchannel
  exact ⟨stored, by rw [h.channelTable, hstored], by rw [h.configs, hconfig],
    henabled.trans h.isEnabledEffective.symm⟩

theorem getRecipients (h : SameAt name r r') : r'.getRecipients name = r.getRecipients name := by
  unfold ChannelRegistry.getRecipients
  rw [h.recipients]

theorem plain {enabled : Bool} (h : SameAt name r r') (hr : r.Plain name enabled) :
    r'.Plain name enabled := by
  unfold Plain
  rw [h.enabledStates, h.getRecipients, h.recipientTable]
  exact hr

end SameAt

section Apart

variable (hne : name ≠ name')

include hne

theorem sameAt_registerWithConfig (channel : MessageChannel) (config : Json) :
    SameAt name r (r.registerWithConfig name' channel config) :=
  ⟨lookup_insert_ne hne, lookup_insert_ne hne, rfl, rfl, KeyedMap.lookup_put_ne _ hne, rfl⟩

theorem sameAt_unregister : SameAt name r (r.unregister name').1 := by
  unfold unregister
  split
  · exact ⟨AList.lookup_erase_ne hne, rfl, rfl, rfl, KeyedMap.lookup_erase_ne _ hne, rfl⟩
  · split
    · exact ⟨rfl, AList.lookup_erase_ne hne, rfl, rfl, KeyedMap.lookup_erase_ne _ hne, rfl⟩
    · exact SameAt.refl name r

theorem sameAt_setEnabled (enabled : Bool) :
    SameAt name r (r.setEnabled name' enabled).1 := by
  unfold setEnabled
  split
  · exact SameAt.refl name r
  · refine ⟨rfl, rfl, lookup_insert_ne hne, rfl, ?_, rfl⟩
    dsimp only
    split
    · rfl
    · exact KeyedMap.lookup_put_ne _ hne

theorem sameAt_setFilter (filter : ChannelFilter) :
    SameAt name r (r.setFilter name' filter) := by
  unfold setFilter
  split
  · exact SameAt.refl name r
  · rename_i stored hstored
    refine ⟨rfl, rfl, rfl, rfl, KeyedMap.lookup_put_ne _ ?_, rfl⟩
    have hname : stored.name = name' := KeyedMap.key_of_lookup hstored
    show name ≠ stored.name
    rw [hname]
    exact hne

theorem sameAt_putRecipients (emails : List String) :
    SameAt name r (r.putRecipients name' emails) :=
  ⟨rfl, rfl, rfl, lookup_insert_ne hne, rfl, rfl⟩

theorem sameAt_saveRecipients : SameAt name r (r.saveRecipients name') :=
  ⟨rfl, rfl, rfl, rfl, rfl, lookup_insert_ne hne⟩

end Apart

/-- An email channel is made again with the state it has. -/
theorem recreateEmailChannel_ok (h : r.recreateEmailChannel f name' = .ok r') :
    ∃ old new, r.channels.lookup name' = some old ∧
      new.isEnabled = (r.enabledStates.lookup name').getD old.isEnabled ∧
      r' = { r with channels := r.channels.insert name' new } := by
  unfold recreateEmailChannel at h
  split at h
  · cases h
  · rename_i old hold
    split at h
    · cases h
    · split at h
      · cases h
      · rename_i new hnew
        cases h
        exact ⟨old, new, hold, f.isEnabled_create _ _ _ _ hnew, rfl⟩

theorem sameAt_recreateEmailChannel (hne : name ≠ name')
    (h : r.recreateEmailChannel f name' = .ok r') :
    SameAt name r r' := by
  obtain ⟨old, new, -, -, rfl⟩ := recreateEmailChannel_ok h
  exact ⟨lookup_insert_ne hne, rfl, rfl, rfl, rfl, rfl⟩

/-- The recipients of a channel change in memory, the channel is made again if it is an email
channel, and the recipients are stored. -/
inductive RecipientsChanged (f : ChannelFactory Json) (r : ChannelRegistry Json) (name : String) :
    ChannelRegistry Json → Prop
  | refused : RecipientsChanged f r name r
  | undone (emails emails' : List String) :
      RecipientsChanged f r name ((r.putRecipients name emails).putRecipients name emails')
  | recreated {r' : ChannelRegistry Json} (emails : List String)
      (h : (r.putRecipients name emails).recreateEmailChannel f name = .ok r') :
      RecipientsChanged f r name (r'.saveRecipients name)
  | stored (emails : List String) :
      RecipientsChanged f r name ((r.putRecipients name emails).saveRecipients name)

theorem recipientsChanged_addRecipient (f : ChannelFactory Json) (r : ChannelRegistry Json)
    (name email : String) : RecipientsChanged f r name (r.addRecipient f name email).1 := by
  unfold addRecipient
  split
  · exact .refused
  · split
    · exact .refused
    · split
      · exact .refused
      · dsimp only
        split
        · split
          · exact .undone _ _
          · rename_i hrecreated
            exact .recreated _ hrecreated
        · exact .stored _

theorem recipientsChanged_removeRecipient (f : ChannelFactory Json) (r : ChannelRegistry Json)
    (name email : String) : RecipientsChanged f r name (r.removeRecipient f name email).1 := by
  unfold removeRecipient
  split
  · exact .refused
  · split
    · exact .refused
    · dsimp only
      split
      · split
        · exact .undone _ _
        · rename_i hrecreated
          exact .recreated _ hrecreated
      · exact .stored _

theorem RecipientsChanged.sameAt (hne : name ≠ name') (h : RecipientsChanged f r name' r') :
    SameAt name r r' := by
  cases h with
  | refused => exact SameAt.refl name r
  | undone emails emails' =>
    exact (sameAt_putRecipients hne emails).trans (sameAt_putRecipients hne emails')
  | recreated emails hrecreated =>
    exact ((sameAt_putRecipients hne emails).trans
      (sameAt_recreateEmailChannel hne hrecreated)).trans (sameAt_saveRecipients hne)
  | stored emails =>
    exact (sameAt_putRecipients hne emails).trans (sameAt_saveRecipients hne)

variable {stored : StoredChannelConfig Json}

theorem sameAt_restoreChannel (r : ChannelRegistry Json)
    (hne : name ≠ stored.name) : SameAt name r (r.restoreChannel f stored) := by
  unfold restoreChannel
  dsimp only
  split
  · exact SameAt.refl name r
  · rename_i channel _
    have hregistered := sameAt_registerWithConfig (r := r) hne channel stored.config
    have henabled : SameAt name r
        (if stored.enabled then r.registerWithConfig stored.name channel stored.config
          else ((r.registerWithConfig stored.name channel stored.config).setEnabled
            stored.name false).1) := by
      split
      · exact hregistered
      · exact hregistered.trans (sameAt_setEnabled hne false)
    split
    · exact henabled
    · exact henabled.trans (sameAt_setFilter hne stored.filter)

/-! ## What an operation does to its channel -/

/-- The row of a channel that is known with its configuration. -/
theorem coherent_registerWithConfig (r : ChannelRegistry Json) (name : String)
    (channel : MessageChannel) (config : Json)
    (hagreeing : ∀ enabled ∈ r.enabledStates.lookup name, enabled = channel.isEnabled) :
    (r.registerWithConfig name channel config).Coherent name ∧
      (r.registerWithConfig name channel config).isEnabledEffective name = channel.isEnabled := by
  have heffective : (r.registerWithConfig name channel config).isEnabledEffective name =
      channel.isEnabled := by
    rw [isEnabledEffective_eq]
    show (r.enabledStates.lookup name).getD (((r.channels.insert name channel).lookup name).any _) =
      channel.isEnabled
    rw [lookup_insert]
    cases henabled : r.enabledStates.lookup name with
    | none => exact any_some
    | some enabled => exact hagreeing enabled henabled
  refine ⟨fun _ _ => ⟨_, KeyedMap.lookup_put_self _ _, ?_, ?_⟩, heffective⟩
  · exact lookup_insert _
  · exact heffective.symm

/-- `set_enabled` on a channel with its row. -/
theorem coherent_setEnabled (h : r.Coherent name) (enabled : Bool) :
    (r.setEnabled name enabled).1.Coherent name := by
  unfold setEnabled
  split
  · exact h
  · rename_i channel hchannel
    obtain ⟨stored, hstored, hconfig, -⟩ := h channel hchannel
    rw [hconfig]
    refine fun _ _ => ⟨_, KeyedMap.lookup_put_self _ _, hconfig, ?_⟩
    rw [isEnabledEffective_eq]
    dsimp only
    rw [lookup_insert, getD_some]

variable {channel : MessageChannel}

theorem isEnabledEffective_setEnabled (enabled : Bool)
    (hchannel : r.channels.lookup name = some channel) :
    (r.setEnabled name enabled).1.isEnabledEffective name = enabled := by
  unfold setEnabled
  rw [hchannel, isEnabledEffective_eq]
  dsimp only
  rw [lookup_insert, getD_some]

theorem coherent_setFilter (h : r.Coherent name) (filter : ChannelFilter) :
    (r.setFilter name filter).Coherent name := by
  intro channel hchannel
  unfold setFilter at hchannel ⊢
  cases hstored : r.channelTable.lookup name with
  | none =>
    rw [hstored] at hchannel
    exact h channel hchannel
  | some stored =>
    rw [hstored] at hchannel
    obtain ⟨stored', hstored', hconfig, henabled⟩ := h channel hchannel
    rw [hstored] at hstored'
    cases hstored'
    obtain rfl : stored.name = name := KeyedMap.key_of_lookup hstored
    exact ⟨{ stored with filter := filter }, KeyedMap.lookup_put_self _ _, hconfig, henabled⟩

theorem isEnabledEffective_setFilter (r : ChannelRegistry Json) (name name' : String)
    (filter : ChannelFilter) :
    (r.setFilter name' filter).isEnabledEffective name = r.isEnabledEffective name := by
  unfold setFilter
  split
  · rfl
  · rfl

theorem RecipientsChanged.coherent (h : RecipientsChanged f r name r') (hr : r.Coherent name) :
    r'.Coherent name := by
  cases h with
  | refused | undone emails emails' | stored emails => exact hr
  | recreated emails hrecreated =>
    obtain ⟨old, new, hold, hnew, rfl⟩ := recreateEmailChannel_ok hrecreated
    intro channel _
    obtain ⟨stored, hstored, hconfig, henabled⟩ := hr old hold
    refine ⟨stored, hstored, hconfig, henabled.trans ?_⟩
    rw [isEnabledEffective_eq, isEnabledEffective_eq]
    show (r.enabledStates.lookup name).getD ((r.channels.lookup name).any _) =
      (r.enabledStates.lookup name).getD (((r.channels.insert name new).lookup name).any _)
    rw [lookup_insert, show r.channels.lookup name = some old from hold]
    show _ = (r.enabledStates.lookup name).getD new.isEnabled
    rw [hnew]
    show (r.enabledStates.lookup name).getD old.isEnabled =
      (r.enabledStates.lookup name).getD ((r.enabledStates.lookup name).getD old.isEnabled)
    cases r.enabledStates.lookup name with
    | none | some enabled => rfl

/-! ## Restart -/

/-- A stored channel could not be made, or it is registered with the state of its row. -/
def RestoredAt (f : ChannelFactory Json) (stored : StoredChannelConfig Json)
    (r r' : ChannelRegistry Json) : Prop :=
  (SameAt stored.name r r' ∧ ∃ settings e, settings.name = stored.name ∧
      settings.enabled = stored.enabled ∧
      f.create stored.channelType stored.config settings = .error e) ∨
    ((r'.channels.lookup stored.name).isSome = true ∧ r'.Coherent stored.name ∧
      r'.isEnabledEffective stored.name = stored.enabled)

theorem SameAt.restoredAt (h : SameAt stored.name r r')
    (hrestored : RestoredAt f stored r' r'') : RestoredAt f stored r r'' := by
  rcases hrestored with ⟨hsame, herror⟩ | hmade
  · exact Or.inl ⟨h.trans hsame, herror⟩
  · exact Or.inr hmade

theorem RestoredAt.sameAt (h : RestoredAt f stored r r')
    (hsame : SameAt stored.name r' r'') : RestoredAt f stored r r'' := by
  rcases h with ⟨hsame', herror⟩ | ⟨hsome, hcoherent, henabled⟩
  · exact Or.inl ⟨hsame'.trans hsame, herror⟩
  · right
    rw [hsame.channels, hsame.isEnabledEffective]
    exact ⟨hsome, hsame.coherent hcoherent, henabled⟩

theorem restoredAt_restoreChannel (stored : StoredChannelConfig Json)
    (hnone : r.enabledStates.lookup stored.name = none) :
    RestoredAt f stored r (r.restoreChannel f stored) := by
  unfold restoreChannel
  dsimp only
  split
  · rename_i e herror
    exact Or.inl ⟨SameAt.refl _ r, _, e, rfl, rfl, herror⟩
  · rename_i channel hchannel
    right
    have hflag : channel.isEnabled = stored.enabled := f.isEnabled_create _ _ _ _ hchannel
    obtain ⟨hcoherent, heffective⟩ := coherent_registerWithConfig r stored.name channel
      stored.config fun enabled henabled => by
        rw [hnone] at henabled
        cases henabled
    have hlookup : (r.registerWithConfig stored.name channel stored.config).channels.lookup
        stored.name = some channel := lookup_insert _
    have hset : ∀ r₁, (if stored.enabled = true then
          r.registerWithConfig stored.name channel stored.config
        else ((r.registerWithConfig stored.name channel stored.config).setEnabled
          stored.name false).1) = r₁ →
        (r₁.channels.lookup stored.name).isSome = true ∧ r₁.Coherent stored.name ∧
          r₁.isEnabledEffective stored.name = stored.enabled := by
      rintro r₁ rfl
      split
      · refine ⟨?_, hcoherent, heffective.trans hflag⟩
        rw [hlookup, isSome_some]
      · rename_i henabled
        refine ⟨?_, coherent_setEnabled hcoherent false, ?_⟩
        · unfold setEnabled
          rw [hlookup]
          show ((r.registerWithConfig stored.name channel stored.config).channels.lookup
            stored.name).isSome = true
          rw [hlookup, isSome_some]
        · rw [isEnabledEffective_setEnabled false hlookup]
          exact (Bool.not_eq_true _ ▸ henabled : stored.enabled = false).symm
    obtain ⟨hsome, hcoherent, henabled⟩ := hset _ rfl
    split
    · exact ⟨hsome, hcoherent, henabled⟩
    · refine ⟨?_, coherent_setFilter hcoherent stored.filter, ?_⟩
      · unfold setFilter
        split
        · exact hsome
        · exact hsome
      · rw [isEnabledEffective_setFilter, henabled]

theorem sameAt_foldl_restoreChannel {rows : List (StoredChannelConfig Json)}
    (hne : ∀ stored ∈ rows, name ≠ stored.name) :
    ∀ r : ChannelRegistry Json, SameAt name r (rows.foldl (restoreChannel f) r) := by
  induction rows with
  | nil => exact SameAt.refl name
  | cons stored rows ih =>
    intro r
    exact (sameAt_restoreChannel r (hne stored mem_cons_self)).trans
      (ih (fun stored' hstored' => hne stored' (mem_cons_of_mem _ hstored')) _)

theorem restoredAt_foldl {rows : List (StoredChannelConfig Json)}
    (hnodup : (rows.map StoredChannelConfig.name).Nodup)
    (hstored : stored ∈ rows) : ∀ r : ChannelRegistry Json,
      r.enabledStates.lookup stored.name = none →
        RestoredAt f stored r (rows.foldl (restoreChannel f) r) := by
  induction rows with
  | nil => cases hstored
  | cons first rows ih =>
    intro r hnone
    rw [map_cons, nodup_cons] at hnodup
    rcases mem_cons.mp hstored with rfl | hstored
    · refine (restoredAt_restoreChannel stored hnone).sameAt (sameAt_foldl_restoreChannel ?_ _)
      intro stored' hstored' hname
      exact hnodup.1 (hname ▸ List.mem_map_of_mem hstored')
    · have hne : stored.name ≠ first.name := fun hname =>
        hnodup.1 (hname ▸ List.mem_map_of_mem hstored)
      have hsame := sameAt_restoreChannel (f := f) r hne
      refine hsame.restoredAt (ih hnodup.2 hstored _ ?_)
      rw [hsame.enabledStates, hnone]

/-- After a restart, a channel is registered with the state of its row, unless it cannot be made;
and no other channel is registered. -/
theorem restart_spec (f : ChannelFactory Json) (r : ChannelRegistry Json) (name : String) :
    ((r.restart f).channels.lookup name = none ∧
        (r.restart f).enabledStates.lookup name = none ∧
        (r.restart f).recipients.lookup name = r.recipientTable.lookup name ∧
        (r.restart f).channelTable.lookup name = r.channelTable.lookup name ∧
        (r.restart f).recipientTable.lookup name = r.recipientTable.lookup name ∧
        ∀ stored, r.channelTable.lookup name = some stored → ∃ settings e,
          settings.name = name ∧ settings.enabled = stored.enabled ∧
            f.create stored.channelType stored.config settings = .error e) ∨
      ∃ stored, r.channelTable.lookup name = some stored ∧
        ((r.restart f).channels.lookup name).isSome = true ∧ (r.restart f).Coherent name ∧
        (r.restart f).isEnabledEffective name = stored.enabled := by
  cases hstored : r.channelTable.lookup name with
  | none =>
    left
    have hsame : SameAt name r.loadPersisted (r.restart f) := by
      refine sameAt_foldl_restoreChannel ?_ _
      intro stored hmem hname
      rw [KeyedMap.mem_values, ← hname, hstored] at hmem
      cases hmem
    exact ⟨hsame.channels, hsame.enabledStates, hsame.recipients,
      hsame.channelTable.trans hstored, hsame.recipientTable, fun stored h => by cases h⟩
  | some stored =>
    obtain rfl : stored.name = name := KeyedMap.key_of_lookup hstored
    have hmem : stored ∈ r.channelTable.values := KeyedMap.mem_values.mpr hstored
    have hrestored : RestoredAt f stored r.loadPersisted (r.restart f) :=
      restoredAt_foldl r.channelTable.nodup_keys_values hmem _ rfl
    rcases hrestored with ⟨hsame, settings, e, hname, henabled, herror⟩ | hmade
    · left
      refine ⟨hsame.channels, hsame.enabledStates, hsame.recipients,
        hsame.channelTable.trans hstored, hsame.recipientTable, fun stored' h => ?_⟩
      cases h
      exact ⟨settings, e, hname, henabled, herror⟩
    · exact Or.inr ⟨stored, rfl, hmade⟩

theorem coherent_restart (f : ChannelFactory Json) (r : ChannelRegistry Json) (name : String) :
    (r.restart f).Coherent name := by
  rcases restart_spec f r name with ⟨hnone, -⟩ | ⟨stored, -, -, hcoherent, -⟩
  · intro channel hchannel
    rw [hnone] at hchannel
    cases hchannel
  · exact hcoherent

/-! ## Runs -/

theorem coherent_unregister (h : r.Coherent name) : (r.unregister name).1.Coherent name := by
  unfold unregister
  split
  · intro channel hchannel
    rw [show ({ r with
        channels := r.channels.erase name
        channelTable := r.channelTable.erase name } : ChannelRegistry Json).channels.lookup name =
      none from AList.lookup_erase _ _] at hchannel
    cases hchannel
  · rename_i hnone
    split
    · intro channel hchannel
      rw [show r.channels.lookup name = some channel from hchannel] at hnone
      exact absurd rfl hnone
    · exact h

theorem Coherent.step {op : ChannelOperation Json} (h : ∀ name, r.Coherent name)
    (hok : r.Agreeing op) (hs : r.step f op = some r') (name : String) : r'.Coherent name := by
  cases op with
  | registerWithConfig name' channel config =>
    cases hs
    by_cases hne : name = name'
    · rw [hne]
      exact (coherent_registerWithConfig r name' channel config hok).1
    · exact (sameAt_registerWithConfig hne channel config).coherent (h name)
  | unregister name' =>
    cases hs
    by_cases hne : name = name'
    · rw [hne]
      exact coherent_unregister (h name')
    · exact (sameAt_unregister hne).coherent (h name)
  | setEnabled name' enabled =>
    cases hs
    by_cases hne : name = name'
    · rw [hne]
      exact coherent_setEnabled (h name') enabled
    · exact (sameAt_setEnabled hne enabled).coherent (h name)
  | setFilter name' filter =>
    cases hs
    by_cases hne : name = name'
    · rw [hne]
      exact coherent_setFilter (h name') filter
    · exact (sameAt_setFilter hne filter).coherent (h name)
  | addRecipient name' email =>
    cases hs
    have hchanged := recipientsChanged_addRecipient f r name' email
    by_cases hne : name = name'
    · rw [hne]
      exact hchanged.coherent (h name')
    · exact (hchanged.sameAt hne).coherent (h name)
  | removeRecipient name' email =>
    cases hs
    have hchanged := recipientsChanged_removeRecipient f r name' email
    by_cases hne : name = name'
    · rw [hne]
      exact hchanged.coherent (h name')
    · exact (hchanged.sameAt hne).coherent (h name)
  | restart =>
    cases hs
    exact coherent_restart f r name

/-- What is left of a channel without recipients after it was unregistered. -/
structure Gone (r : ChannelRegistry Json) (name : String) (enabled : Bool) : Prop where
  channels : r.channels.lookup name = none
  channelTable : r.channelTable.lookup name = none
  plain : r.Plain name enabled

namespace Gone

variable {enabled : Bool}

theorem sameAt (h : Gone r name enabled) (hsame : SameAt name r r') : Gone r' name enabled :=
  ⟨hsame.channels.trans h.channels, hsame.channelTable.trans h.channelTable, hsame.plain h.plain⟩

theorem unregister (h : Gone r name enabled) : Gone (r.unregister name).1 name enabled := by
  unfold ChannelRegistry.unregister
  rw [h.channels]
  split
  · rename_i hsome
    cases hsome
  · split
    · exact ⟨h.channels, KeyedMap.lookup_erase_self _ _, h.plain⟩
    · exact h

theorem restart (h : Gone r name enabled) : Gone (r.restart f) name enabled := by
  rcases restart_spec f r name with
    ⟨hchannels, henabled, hrecipients, htable, hrecipientTable, -⟩ | ⟨stored, hstored, -⟩
  · obtain ⟨-, -, hstored⟩ := h.plain
    refine ⟨hchannels, htable.trans h.channelTable, ?_, ?_, ?_⟩
    · intro override hoverride
      rw [henabled] at hoverride
      cases hoverride
    · unfold getRecipients
      rw [hrecipients]
      exact hstored
    · rw [hrecipientTable]
      exact hstored
  · rw [h.channelTable] at hstored
    cases hstored

/-- Only a registration brings the channel back. -/
theorem step {op : ChannelOperation Json} (h : Gone r name enabled)
    (hok : NotRegistering name r op) (hs : r.step f op = some r') : Gone r' name enabled := by
  cases op with
  | registerWithConfig name' channel config =>
    cases hs
    exact h.sameAt (sameAt_registerWithConfig (Ne.symm hok) channel config)
  | unregister name' =>
    cases hs
    by_cases hne : name = name'
    · rw [← hne]
      exact h.unregister
    · exact h.sameAt (sameAt_unregister hne)
  | setEnabled name' enabled' =>
    cases hs
    by_cases hne : name = name'
    · unfold setEnabled
      rw [← hne, h.channels]
      exact h
    · exact h.sameAt (sameAt_setEnabled hne enabled')
  | setFilter name' filter =>
    cases hs
    by_cases hne : name = name'
    · unfold setFilter
      rw [← hne, h.channelTable]
      exact h
    · exact h.sameAt (sameAt_setFilter hne filter)
  | addRecipient name' email =>
    cases hs
    by_cases hne : name = name'
    · unfold addRecipient
      rw [← hne, h.channels]
      exact h
    · exact h.sameAt ((recipientsChanged_addRecipient f r name' email).sameAt hne)
  | removeRecipient name' email =>
    cases hs
    by_cases hne : name = name'
    · unfold removeRecipient
      rw [← hne, h.channels]
      exact h
    · exact h.sameAt ((recipientsChanged_removeRecipient f r name' email).sameAt hne)
  | restart =>
    cases hs
    exact h.restart

/-- What is registered under the name is fresh. -/
theorem fresh {channel : MessageChannel} (h : Gone r name channel.isEnabled) (config : Json) :
    (r.registerWithConfig name channel config).Fresh name channel config := by
  obtain ⟨hoverride, hrecipients, hstored⟩ := h.plain
  have henabled : (r.enabledStates.lookup name).getD channel.isEnabled = channel.isEnabled := by
    cases hlookup : r.enabledStates.lookup name with
    | none => rfl
    | some override => exact hoverride override hlookup
  have hchannel : (r.registerWithConfig name channel config).channels.lookup name =
      some channel := lookup_insert _
  refine ⟨?_, ?_, hrecipients, hstored, ?_⟩
  · rw [isEnabledEffective_eq, hchannel]
    exact henabled
  · unfold getFilter
    rw [show (r.registerWithConfig name channel config).channelTable.lookup name = some _ from
      KeyedMap.lookup_put_self _ _]
    show r.getFilter name = ChannelFilter.default
    unfold getFilter
    rw [h.channelTable]
    rfl
  · unfold getInfo
    rw [hchannel]
    refine ⟨_, rfl, rfl, henabled, lookup_insert _, ?_⟩
    dsimp only
    split
    · exact hrecipients
    · rfl

end Gone

/-- A fresh channel has found nothing under its name. -/
theorem plain_of_fresh {config : Json}
    (h : (r.registerWithConfig name channel config).Fresh name channel config) :
    r.Plain name channel.isEnabled := by
  refine ⟨fun override hoverride => ?_, h.recipients, h.stored⟩
  have henabled := h.enabled
  rw [isEnabledEffective_eq] at henabled
  rw [show (r.registerWithConfig name channel config).enabledStates.lookup name =
    some override from hoverride] at henabled
  exact henabled

/-- A registered channel that is unregistered. -/
theorem unregister_of_registered (hchannel : r.channels.lookup name = some channel) :
    (r.unregister name).1 =
      { r with
        channels := r.channels.erase name
        channelTable := r.channelTable.erase name } := by
  unfold unregister
  rw [if_pos]
  rw [hchannel, isSome_some]

/-- In every run in which channels are registered under names without a differing override, the row
of each registered channel has its configuration and its effective state, and after a restart the
channel has that state, unless its factory refuses it.  When a registered channel is unregistered,
its configuration stays; and whatever happens then, the next channel under its name is fresh,
exactly if the old one had no recipients, in memory or stored, and no override that differs from the
state of the new one. -/
theorem coherent_of_run (f : ChannelFactory Json)
    (tr : List (ChannelRegistry Json × ChannelOperation Json)) (r : ChannelRegistry Json)
    (hr : Run (step f) withStorage tr r) :
    (Within Agreeing tr → ∀ name channel, r.channels.lookup name = some channel →
      ∃ stored, r.channelTable.lookup name = some stored ∧
        r.configs.lookup name = some stored.config ∧
        stored.enabled = r.isEnabledEffective name ∧
        ((r.restart f).isEnabledEffective name = r.isEnabledEffective name ∨
          ∃ settings e, settings.name = name ∧ settings.enabled = stored.enabled ∧
            f.create stored.channelType stored.config settings = .error e)) ∧
      ∀ name old, r.channels.lookup name = some old →
        (r.unregister name).1.configs.lookup name = r.configs.lookup name ∧
          ∀ channel config,
            (∀ tr' r', Run (step f) (r.unregister name).1 tr' r' →
                Within (NotRegistering name) tr' →
                (r'.registerWithConfig name channel config).Fresh name channel config) ↔
              r.Plain name channel.isEnabled := by
  constructor
  · intro hok name channel hchannel
    have hcoherent : ∀ name, r.Coherent name := by
      refine hr.invariant hok ?_ fun _ _ _ h hok hs => Coherent.step h hok hs
      intro name channel hchannel
      cases hchannel
    obtain ⟨stored, hstored, hconfig, henabled⟩ := hcoherent name channel hchannel
    refine ⟨stored, hstored, hconfig, henabled, ?_⟩
    rcases restart_spec f r name with ⟨-, -, -, -, -, herror⟩ | ⟨stored', hstored', -, -, hsame⟩
    · exact Or.inr (herror stored hstored)
    · left
      rw [hstored] at hstored'
      cases hstored'
      rw [hsame, henabled]
  · intro name old hold
    rw [unregister_of_registered hold]
    refine ⟨rfl, fun channel config => ⟨fun h => ?_, fun hplain tr' r' hrun hok => ?_⟩⟩
    · have hplain := plain_of_fresh (h [] _ .nil (within_nil _))
      exact hplain
    · have hgone : Gone r' name channel.isEnabled := by
        refine hrun.invariant (I := fun r => Gone r name channel.isEnabled) hok ?_
          fun _ _ _ h hok hs => h.step hok hs
        exact ⟨AList.lookup_erase _ _, KeyedMap.lookup_erase_self _ _, hplain⟩
      exact hgone.fresh config

instance (r : ChannelRegistry Json) : DecidablePred r.Agreeing
  | .registerWithConfig name channel _ => inferInstanceAs (Decidable
      (∀ enabled ∈ r.enabledStates.lookup name, enabled = channel.isEnabled))
  | .unregister _ | .setEnabled _ _ | .setFilter _ _ | .addRecipient _ _ | .removeRecipient _ _
  | .restart => isTrue trivial

instance (r : ChannelRegistry Json) (name : String) (enabled : Bool) :
    Decidable (r.Plain name enabled) :=
  inferInstanceAs (Decidable (_ ∧ _ ∧ _))

end

end ChannelRegistry

namespace Sample

/-- Factories that take every configuration. -/
def channelFactory : ChannelFactory Unit where
  create channelType _ settings := .ok ⟨channelType, settings.enabled⟩
  isEnabled_create channelType config settings channel h := by
    cases h
    rfl

def webhook : MessageChannel := ⟨"webhook", true⟩

def mail : MessageChannel := ⟨"email", true⟩

/-- Two channels, one of them disabled, and with a recipient. -/
def configured : List (ChannelOperation Unit) :=
  [.registerWithConfig "hook" webhook (), .registerWithConfig "mail" mail (),
    .setFilter "mail" ⟨["rule"], [], none⟩, .addRecipient "mail" "a@b", .setEnabled "mail" false,
    .restart]

/-- A disabled channel is registered again. -/
def registeredAgain : List (ChannelOperation Unit) :=
  [.registerWithConfig "hook" webhook (), .setEnabled "hook" false,
    .registerWithConfig "hook" webhook ()]

end Sample

namespace ChannelRegistry

/-- A channel stays disabled over a restart, and another one leaves no trace. -/
theorem coherent_of_run_configured : ∃ tr r,
    Run (step Sample.channelFactory) withStorage tr r ∧ Within Agreeing tr ∧
      r.isEnabledEffective "mail" = false ∧
      (r.restart Sample.channelFactory).isEnabledEffective "mail" = false ∧
      ((r.unregister "hook").1.registerWithConfig "hook" Sample.mail ()).Fresh "hook"
        Sample.mail () := by
  obtain ⟨tr, r, hrun, hok, hmail, heffective, hhook, hplain⟩ := exists_run
    (step Sample.channelFactory) withStorage Sample.configured
    (fun tr r => Within Agreeing tr ∧ r.channels.lookup "mail" = some ⟨"email", false⟩ ∧
      r.isEnabledEffective "mail" = false ∧ r.channels.lookup "hook" = some Sample.webhook ∧
      r.Plain "hook" true)
    (by decide)
  obtain ⟨hcoherent, hgone⟩ := coherent_of_run Sample.channelFactory tr r hrun
  obtain ⟨stored, -, -, -, hrestart | ⟨settings, e, -, -, herror⟩⟩ := hcoherent hok "mail" _ hmail
  · refine ⟨tr, r, hrun, hok, heffective, hrestart.trans heffective, ?_⟩
    exact (((hgone "hook" _ hhook).2 Sample.mail ()).mpr hplain) [] _ .nil (within_nil _)
  · cases herror

/-- A channel that is disabled in memory is enabled in its row, and after a restart; and channels
are disabled, or have recipients, as the deleted channels of their names were or had. -/
theorem channels_inherit :
    (∃ tr r, Run (step Sample.channelFactory) withStorage tr r ∧
      r.isEnabledEffective "hook" = false ∧
      (r.restart Sample.channelFactory).isEnabledEffective "hook" = true ∧
      ¬ r.Coherent "hook") ∧
    (∃ tr r, Run (step Sample.channelFactory) withStorage tr r ∧
      r.channels.lookup "hook" = some Sample.webhook ∧
      ((r.unregister "hook").1.configs.lookup "hook").isSome = true ∧
      ¬ ((r.unregister "hook").1.registerWithConfig "hook" Sample.webhook ()).Fresh "hook"
        Sample.webhook ()) ∧
    ∃ tr r, Run (step Sample.channelFactory) withStorage tr r ∧
      r.channels.lookup "mail" = some ⟨"email", false⟩ ∧
      ((r.unregister "mail").1.registerWithConfig "mail" Sample.mail ()).getRecipients "mail" =
        ["a@b"] := by
  refine ⟨?_, ?_, ?_⟩
  · obtain ⟨tr, r, hrun, hhook, hrow, heffective, hrestart⟩ := exists_run
      (step Sample.channelFactory) withStorage Sample.registeredAgain
      (fun _ r => r.channels.lookup "hook" = some Sample.webhook ∧
        (r.channelTable.lookup "hook").map StoredChannelConfig.enabled = some true ∧
        r.isEnabledEffective "hook" = false ∧
        (r.restart Sample.channelFactory).isEnabledEffective "hook" = true)
      (by decide)
    refine ⟨tr, r, hrun, heffective, hrestart, fun hcoherent => ?_⟩
    obtain ⟨stored, hstored, -, henabled⟩ := hcoherent _ hhook
    rw [hstored, map_some, henabled, heffective] at hrow
    cases hrow
  · obtain ⟨tr, r, hrun, hhook, hconfig, heffective⟩ := exists_run
      (step Sample.channelFactory) withStorage Sample.registeredAgain
      (fun _ r => r.channels.lookup "hook" = some Sample.webhook ∧
        ((r.unregister "hook").1.configs.lookup "hook").isSome = true ∧
        ((r.unregister "hook").1.registerWithConfig "hook"
          Sample.webhook ()).isEnabledEffective "hook" = false)
      (by decide)
    refine ⟨tr, r, hrun, hhook, hconfig, fun hfresh => ?_⟩
    have henabled := hfresh.enabled
    rw [heffective] at henabled
    cases henabled
  · exact exists_run _ _ Sample.configured _ (by decide)

end ChannelRegistry

end HeraMind.Messages
