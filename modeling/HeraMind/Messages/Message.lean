/-
# Messages

A message (`crates/heramind-messages/src/message.rs`), its row in the store
(`crates/heramind-storage/src/messages.rs`), and the filters of the channels it is sent to.
Timestamps are in nanoseconds, those of rows in seconds.
-/
import HeraMind.Lib.KeyedMap

namespace HeraMind.Messages

/-- `MessageSeverity`. -/
inductive MessageSeverity : Type where
  | info
  | warning
  | critical
  | emergency
  deriving DecidableEq

def MessageSeverity.asStr : MessageSeverity → String
  | .info => "info"
  | .warning => "warning"
  | .critical => "critical"
  | .emergency => "emergency"

def MessageSeverity.level : MessageSeverity → ℕ
  | .info => 0
  | .warning => 1
  | .critical => 2
  | .emergency => 3

/-- `MessageStatus`. -/
inductive MessageStatus : Type where
  | active
  | acknowledged
  | resolved
  | archived
  deriving DecidableEq

def MessageStatus.asStr : MessageStatus → String
  | .active => "active"
  | .acknowledged => "acknowledged"
  | .resolved => "resolved"
  | .archived => "archived"

/-- `Message`.  Its id is kept as its text. -/
structure Message (Json : Type) where
  id : String
  category : String
  severity : MessageSeverity
  title : String
  message : String
  source : String
  sourceType : String
  timestamp : ℤ
  status : MessageStatus
  metadata : Option Json
  tags : List String
  deriving DecidableEq

/-- `StoredMessage`. -/
structure StoredMessage (Json : Type) where
  id : String
  category : String
  severity : String
  title : String
  message : String
  source : String
  sourceType : Option String
  status : String
  tags : Option (List String)
  metadata : Option Json
  timestamp : ℤ
  acknowledgedAt : Option ℤ
  resolvedAt : Option ℤ
  acknowledgedBy : Option String
  deriving DecidableEq

/-- Nanoseconds of a second. -/
def second : ℤ := 1000000000

section

variable {Json : Type}

/-- `message_to_stored`. -/
def Message.toStored (m : Message Json) : StoredMessage Json where
  id := m.id
  category := m.category
  severity := m.severity.asStr
  title := m.title
  message := m.message
  source := m.source
  sourceType := some m.sourceType
  status := m.status.asStr
  tags := if m.tags.isEmpty then none else some m.tags
  metadata := m.metadata
  timestamp := m.timestamp / second
  acknowledgedAt := none
  resolvedAt := none
  acknowledgedBy := none

/-- The same title, source and severity. -/
def Message.SameAlert (m m' : Message Json) : Prop :=
  m.title = m'.title ∧ m.source = m'.source ∧ m.severity = m'.severity

instance (m m' : Message Json) : Decidable (m.SameAlert m') :=
  inferInstanceAs (Decidable (_ ∧ _ ∧ _))

/-- The key under which a message is looked up in the dedup cache. -/
def Message.dedupKey (m : Message Json) : String :=
  m.title ++ "|" ++ m.source ++ "|" ++ m.severity.asStr

end

/-! ## Reading rows back -/

/-- Severities and statuses are read in lowercase, and in Chinese. -/
def MessageSeverity.fromString (toLowercase : String → String) (text : String) :
    Option MessageSeverity :=
  let text := toLowercase text
  if text ∈ ["info", "信息"] then some .info
  else if text ∈ ["warning", "warn", "警告"] then some .warning
  else if text ∈ ["critical", "crit", "严重"] then some .critical
  else if text ∈ ["emergency", "emerg", "紧急"] then some .emergency
  else none

def MessageStatus.fromString (toLowercase : String → String) (text : String) :
    Option MessageStatus :=
  let text := toLowercase text
  if text ∈ ["active", "活跃"] then some .active
  else if text ∈ ["acknowledged", "已确认"] then some .acknowledged
  else if text ∈ ["resolved", "已解决"] then some .resolved
  else if text ∈ ["archived", "已归档"] then some .archived
  else none

/-- `to_lowercase`: it leaves a text of lowercase letters as it is. -/
structure Lowercase where
  toLowercase : String → String
  toLowercase_eq : ∀ text, (∀ c ∈ text.toList, c.isLower = true) → toLowercase text = text

/-- `stored_to_message`. -/
def StoredMessage.toMessage {Json : Type} (lower : Lowercase) (row : StoredMessage Json) :
    Message Json where
  id := row.id
  category := row.category
  severity := (MessageSeverity.fromString lower.toLowercase row.severity).getD .info
  title := row.title
  message := row.message
  source := row.source
  sourceType := row.sourceType.getD "system"
  timestamp := row.timestamp * second
  status := (MessageStatus.fromString lower.toLowercase row.status).getD .active
  metadata := row.metadata
  tags := row.tags.getD []

/-- A status is read as it was written. -/
theorem MessageStatus.fromString_asStr (lower : Lowercase) (status : MessageStatus) :
    MessageStatus.fromString lower.toLowercase status.asStr = some status := by
  have hall : status.asStr.toList.all Char.isLower = true := by
    cases status with
    | active | acknowledged | resolved | archived => decide
  have hlower : lower.toLowercase status.asStr = status.asStr :=
    lower.toLowercase_eq _ (List.all_eq_true.mp hall)
  unfold MessageStatus.fromString
  dsimp only
  rw [hlower]
  cases status with
  | active | acknowledged | resolved | archived => decide

/-! ## Channels -/

/-- `ChannelFilter`. -/
structure ChannelFilter where
  sourceTypes : List String
  categories : List String
  minSeverity : Option MessageSeverity
  deriving DecidableEq

/-- `matches`. -/
def ChannelFilter.matches {Json : Type} (f : ChannelFilter) (m : Message Json) : Bool :=
  (f.sourceTypes.isEmpty || decide (m.sourceType ∈ f.sourceTypes)) &&
    (f.categories.isEmpty || decide (m.category ∈ f.categories)) &&
    f.minSeverity.all fun s => decide (s.level ≤ m.severity.level)

/-- What the registry says of a channel. -/
structure Channel where
  enabled : Bool
  filter : ChannelFilter
  deriving DecidableEq

end HeraMind.Messages
