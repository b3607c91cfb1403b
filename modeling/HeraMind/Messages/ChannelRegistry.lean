/-
# The registry of channels

`ChannelRegistry` (`crates/heramind-messages/src/channels/mod.rs`) keeps what it knows of a channel
in four maps, and a part of it in two tables: the row of the channel and its recipients.  Storage
calls succeed here, and the operations run one after the other.
-/
import HeraMind.Lib.Run
import HeraMind.Messages.Manager

namespace HeraMind.Messages

/-- `MessageChannel`, as far as the registry asks it. -/
structure MessageChannel where
  channelType : String
  isEnabled : Bool
  deriving DecidableEq

/-- `ChannelFilter::default`. -/
def ChannelFilter.default : ChannelFilter := ⟨[], [], none⟩

/-- `StoredChannelConfig`. -/
structure StoredChannelConfig (Json : Type) where
  name : String
  channelType : String
  config : Json
  enabled : Bool
  filter : ChannelFilter
  deriving DecidableEq

/-- What is inserted into a configuration before a channel is made of it. -/
structure ChannelSettings where
  name : String
  enabled : Bool
  recipients : Option (List String)
  deriving DecidableEq

/-- The factories of the channels, by type.  A channel is enabled as its configuration says. -/
structure ChannelFactory (Json : Type) where
  create : String → Json → ChannelSettings → Except Error MessageChannel
  isEnabled_create : ∀ channelType config settings channel,
    create channelType config settings = .ok channel → channel.isEnabled = settings.enabled

/-- `ChannelInfo`. -/
structure ChannelInfo (Json : Type) where
  name : String
  channelType : String
  enabled : Bool
  config : Option Json
  recipients : Option (List String)
  deriving DecidableEq

/-- `ChannelRegistry`: its maps and its tables. -/
structure ChannelRegistry (Json : Type) where
  channels : HashMap String MessageChannel
  configs : HashMap String Json
  enabledStates : HashMap String Bool
  recipients : HashMap String (List String)
  channelTable : KeyedMap String (StoredChannelConfig Json) StoredChannelConfig.name
  recipientTable : HashMap String (List String)

/-- The operations. -/
inductive ChannelOperation (Json : Type) : Type where
  | registerWithConfig (name : String) (channel : MessageChannel) (config : Json)
  | unregister (name : String)
  | setEnabled (name : String) (enabled : Bool)
  | setFilter (name : String) (filter : ChannelFilter)
  | addRecipient (name email : String)
  | removeRecipient (name email : String)
  /-- The server is started again on the same tables. -/
  | restart

namespace ChannelRegistry

variable {Json : Type} (f : ChannelFactory Json) (r : ChannelRegistry Json)

/-- `with_storage`, on a new directory. -/
def withStorage : ChannelRegistry Json where
  channels := ∅
  configs := ∅
  enabledStates := ∅
  recipients := ∅
  channelTable := KeyedMap.empty
  recipientTable := ∅

/-! ## What is read -/

def isEnabledEffective (name : String) : Bool :=
  match r.enabledStates.lookup name with
  | some enabled => enabled
  | none => (r.channels.lookup name).any MessageChannel.isEnabled

def getRecipients (name : String) : List String :=
  (r.recipients.lookup name).getD []

def getFilter (name : String) : ChannelFilter :=
  ((r.channelTable.lookup name).map StoredChannelConfig.filter).getD ChannelFilter.default

def getInfo (name : String) : Option (ChannelInfo Json) :=
  (r.channels.lookup name).map fun channel =>
    { name := name
      channelType := channel.channelType
      enabled := (r.enabledStates.lookup name).getD channel.isEnabled
      config := r.configs.lookup name
      recipients := if channel.channelType = "email" then r.recipients.lookup name else none }

/-! ## Operations -/

def registerWithConfig (name : String) (channel : MessageChannel) (config : Json) :
    ChannelRegistry Json :=
  { r with
    channels := r.channels.insert name channel
    configs := r.configs.insert name config
    channelTable := r.channelTable.put
      { name := name
        channelType := channel.channelType
        config := config
        enabled := channel.isEnabled
        filter := r.getFilter name } }

/-- The configuration is removed only if there was no channel. -/
def unregister (name : String) : ChannelRegistry Json × Bool :=
  if (r.channels.lookup name).isSome then
    ({ r with channels := r.channels.erase name, channelTable := r.channelTable.erase name }, true)
  else if (r.configs.lookup name).isSome then
    ({ r with configs := r.configs.erase name, channelTable := r.channelTable.erase name }, true)
  else (r, false)

def setEnabled (name : String) (enabled : Bool) : ChannelRegistry Json × Except Error Unit :=
  match r.channels.lookup name with
  | none => (r, .error (.notFound ("Channel not found: " ++ name)))
  | some channel =>
    ({ r with
        enabledStates := r.enabledStates.insert name enabled
        channelTable :=
          match r.configs.lookup name with
          | none => r.channelTable
          | some config => r.channelTable.put
            { name := name
              channelType := channel.channelType
              config := config
              enabled := enabled
              filter := r.getFilter name } }, .ok ())

def setFilter (name : String) (filter : ChannelFilter) : ChannelRegistry Json :=
  match r.channelTable.lookup name with
  | none => r
  | some stored => { r with channelTable := r.channelTable.put { stored with filter := filter } }

def recreateEmailChannel (name : String) : Except Error (ChannelRegistry Json) :=
  match r.channels.lookup name with
  | none => .error (.notFound ("Channel not found: " ++ name))
  | some channel =>
    match r.configs.lookup name with
    | none => .error (.invalidConfiguration "Channel config not found")
    | some config =>
      match f.create "email" config
        ⟨name, (r.enabledStates.lookup name).getD channel.isEnabled, some (r.getRecipients name)⟩
      with
      | .error e => .error e
      | .ok channel => .ok { r with channels := r.channels.insert name channel }

def saveRecipients (name : String) : ChannelRegistry Json :=
  { r with recipientTable := r.recipientTable.insert name (r.getRecipients name) }

/-- The recipients of a channel are replaced in memory. -/
def putRecipients (name : String) (emails : List String) : ChannelRegistry Json :=
  { r with recipients := r.recipients.insert name emails }

def addRecipient (name email : String) : ChannelRegistry Json × Except Error Unit :=
  match r.channels.lookup name with
  | none => (r, .error (.notFound ("Channel not found: " ++ name)))
  | some channel =>
    if '@' ∉ email.toList then (r, .error (.invalidConfiguration "Invalid email address"))
    else if email ∈ r.getRecipients name then
      (r, .error (.invalidConfiguration "Recipient already exists"))
    else
      let added := r.putRecipients name (r.getRecipients name ++ [email])
      if channel.channelType = "email" then
        match added.recreateEmailChannel f name with
        | .error e =>
          (added.putRecipients name ((added.getRecipients name).filter fun e => e ≠ email),
            .error e)
        | .ok recreated => (recreated.saveRecipients name, .ok ())
      else (added.saveRecipients name, .ok ())

def removeRecipient (name email : String) : ChannelRegistry Json × Except Error Unit :=
  match r.channels.lookup name with
  | none => (r, .error (.notFound ("Channel not found: " ++ name)))
  | some channel =>
    if email ∉ r.getRecipients name then
      (r, .error (.notFound ("Recipient not found: " ++ email)))
    else
      let removed := r.putRecipients name ((r.getRecipients name).filter fun e => e ≠ email)
      if channel.channelType = "email" then
        match removed.recreateEmailChannel f name with
        | .error e => (removed.putRecipients name (removed.getRecipients name ++ [email]), .error e)
        | .ok recreated => (recreated.saveRecipients name, .ok ())
      else (removed.saveRecipients name, .ok ())

/-! ## Restart -/

/-- A stored channel is made again and registered, by `load_persisted_channels`. -/
def restoreChannel (stored : StoredChannelConfig Json) : ChannelRegistry Json :=
  let emails := r.getRecipients stored.name
  match f.create stored.channelType stored.config
    ⟨stored.name, stored.enabled,
      if stored.channelType = "email" && !emails.isEmpty then some emails else none⟩
  with
  | .error _ => r
  | .ok channel =>
    let registered := r.registerWithConfig stored.name channel stored.config
    let enabled :=
      if stored.enabled then registered else (registered.setEnabled stored.name false).1
    if stored.filter = ChannelFilter.default then enabled
    else enabled.setFilter stored.name stored.filter

/-- The tables are opened, and `load_persisted` and `load_all_recipients` read them. -/
def loadPersisted : ChannelRegistry Json where
  channels := ∅
  configs := r.channelTable.values.foldl
    (fun configs stored => configs.insert stored.name stored.config) ∅
  enabledStates := ∅
  recipients := r.recipientTable
  channelTable := r.channelTable
  recipientTable := r.recipientTable

/-- Then all stored channels are made again. -/
def restart : ChannelRegistry Json :=
  r.channelTable.values.foldl (restoreChannel f) r.loadPersisted

/-- One operation. -/
def step : ChannelOperation Json → Option (ChannelRegistry Json)
  | .registerWithConfig name channel config => some (r.registerWithConfig name channel config)
  | .unregister name => some (r.unregister name).1
  | .setEnabled name enabled => some (r.setEnabled name enabled).1
  | .setFilter name filter => some (r.setFilter name filter)
  | .addRecipient name email => some (r.addRecipient f name email).1
  | .removeRecipient name email => some (r.removeRecipient f name email).1
  | .restart => some (r.restart f)

end ChannelRegistry

end HeraMind.Messages
