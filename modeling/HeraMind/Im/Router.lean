/-
# The router of chat messages

`ImRouter` (`crates/heramind-messages/src/im_bridge/router.rs`) handles the messages that come in
from chat platforms, with the sessions, invites and allowed chats of `ImSessionStore`
(`session_store.rs`); the API removes chats from the allowlist and resets sessions
(`crates/heramind-api/src/handlers/im_bridges.rs`).  All of these run concurrently: a call runs in
sections, between which other calls may run.

Besides what the source keeps, the state records which messages were delivered and which passed the
allowlist, which chats an invite admitted, what was answered, in which sessions messages were run,
and for every chat how many sessions there were when it was last reset.
-/
import HeraMind.Lib.ByteText
import HeraMind.Rules.Handlers

namespace HeraMind.Im

open HeraMind.Rules (isWhitespace)

/-! ## Messages -/

inductive ImPlatform : Type where
  | telegram
  | feishu
  | whatsapp
  deriving DecidableEq

def ImPlatform.asStr : ImPlatform → String
  | .telegram => "telegram"
  | .feishu => "feishu"
  | .whatsapp => "whatsapp"

structure InboundMessage where
  platform : ImPlatform
  chatId : String
  senderId : String
  text : String
  msgId : String
  deriving DecidableEq

/-- `SessionKey`. -/
structure SessionKey where
  platform : String
  chatId : String
  deriving DecidableEq

def SessionKey.composite (k : SessionKey) : String :=
  k.platform ++ ":" ++ k.chatId

/-- The session key of a chat. -/
def chatKey (platform : ImPlatform) (chatId : String) : String :=
  SessionKey.composite ⟨platform.asStr, chatId⟩

/-- The chat of a message. -/
def InboundMessage.key (m : InboundMessage) : String :=
  chatKey m.platform m.chatId

/-- What a message asks for. -/
inductive Command : Type where
  | start (token : Option String)
  | reset
  | help
  | ordinary
  deriving DecidableEq

/-- `split_whitespace`. -/
def splitWhitespace (t : List Char) : List (List Char) :=
  (t.splitOnP isWhitespace).filter fun word => !word.isEmpty

def command (text : String) : Command :=
  let trimmed := ByteText.trim isWhitespace text.toList
  if trimmed = "/start".toList || "/start@".toList.isPrefixOf trimmed ||
      "/start ".toList.isPrefixOf trimmed then
    .start ((splitWhitespace trimmed)[1]?.map String.ofList)
  else if trimmed = "/reset".toList || "/reset@".toList.isPrefixOf trimmed then .reset
  else if trimmed = "/help".toList || "/help@".toList.isPrefixOf trimmed then .help
  else .ordinary

/-- A message that is handled before the allowlist is checked. -/
def InboundMessage.isStart (m : InboundMessage) : Bool :=
  match command m.text with
  | .start _ => true
  | _ => false

/-! ## The store -/

/-- `ImSessionRecord`.  Sessions are numbered in the order in which they were created. -/
structure ImSessionRecord where
  neoSessionId : ℕ
  boundAgentId : String
  createdAt : ℤ
  lastActive : ℤ
  deriving DecidableEq

/-- `InviteRecord`. -/
structure InviteRecord where
  createdAt : ℤ
  used : Bool
  boundChatId : Option String
  boundAt : Option ℤ
  deriving DecidableEq

/-! ## Calls -/

/-- The section that is next in a call. -/
inductive ImCall : Type where
  | consumeInvite (m : InboundMessage) (token : String)
  | allowAdd (m : InboundMessage)
  | insertAllowed (m : InboundMessage)
  | checkAllowlist (m : InboundMessage)
  | checkSeen (m : InboundMessage)
  | resetSession (m : InboundMessage)
  | lockChat (m : InboundMessage)
  | lookup (m : InboundMessage)
  | resolveAgent (m : InboundMessage)
  | createSession (m : InboundMessage) (agentId : String)
  /-- `get_or_create` reads the record. -/
  | getSession (m : InboundMessage) (sessionId : ℕ) (agentId : String)
  /-- It writes a new one. -/
  | putSession (m : InboundMessage) (sessionId : ℕ) (agentId : String)
  /-- The agent runs the message. -/
  | run (m : InboundMessage) (sessionId : ℕ)
  | touchGet (m : InboundMessage) (text : String)
  | touchPut (m : InboundMessage) (record : ImSessionRecord) (text : String)
  /-- The call answers, with or without the lock of the chat. -/
  | reply (m : InboundMessage) (text : String) (locked : Bool)
  | allowRemove (chatId : String)
  | allowList
  | setAllowlist (chats : List String)
  | resetRequest (platform : ImPlatform) (chatId : String)
  | evictExpired (cutoff : ℤ)
  | returned
  deriving DecidableEq

/-- The first section in which a message is handled. -/
def InboundMessage.call (m : InboundMessage) : ImCall :=
  match command m.text with
  | .start none => .reply m "需要邀请码，请联系管理员获取" false
  | .start (some token) => .consumeInvite m token
  | _ => .checkAllowlist m

/-- The section after a message was seen for the first time. -/
def InboundMessage.afterSeen (m : InboundMessage) : ImCall :=
  match command m.text with
  | .reset => .resetSession m
  | .help => .reply m
    "HeraMind IM Bridge\n/reset — 重置会话上下文\n/help — 显示此帮助\n直接发消息即可对话" false
  | _ => .lockChat m

/-- The message whose chat the call has locked. -/
def ImCall.locking : ImCall → Option InboundMessage
  | .lookup m | .resolveAgent m | .createSession m _ | .getSession m _ _ | .putSession m _ _
  | .run m _ | .touchGet m _ | .touchPut m _ _ | .reply m _ true => some m
  | _ => none

/-- How a store operation or an operation of the agent ends. -/
inductive Outcome : Type where
  | ok
  | err (text : String)
  /-- The default agent, if one is active. -/
  | agent (id : Option String)
  /-- What the agent answers. -/
  | answer (text : String)
  | timeout
  deriving DecidableEq

/-- What is replied when the agent ends so. -/
def Outcome.replyText : Outcome → Option String
  | .answer text => some text
  | .err e => some ("Failed to process: " ++ e)
  | .timeout => some
    "Request timed out after 10 minutes. Please try again or simplify your request."
  | _ => none

/-! ## The state -/

/-- A reply to a message. -/
structure Reply where
  msgId : String
  text : String
  deriving DecidableEq

/-- A message that the agent ran. -/
structure Ran where
  call : ℕ
  sessionId : ℕ
  deriving DecidableEq

/-- `ImRouter` with its store, the calls, and what has happened. -/
structure ImRouter where
  bridges : List ImPlatform
  allowlist : Option (List String)
  seen : List String
  sessions : HashMap String ImSessionRecord
  invites : HashMap String InviteRecord
  allowTable : HashMap String ℤ
  sessionsCreated : ℕ
  now : ℤ
  calls : List ImCall
  /-- How many sessions there were at the last reset of the chat before each call. -/
  since : List ℕ
  lastReset : HashMap String ℕ
  delivered : List InboundMessage
  passed : List InboundMessage
  admitted : List (String × String)
  replies : List Reply
  ran : List Ran

/-- What happens next. -/
inductive RouterLabel : Type where
  | inbound (m : InboundMessage)
  | removeAllowlist (chatId : String)
  | resetSession (platform : ImPlatform) (chatId : String)
  | evictExpired (cutoff : ℤ)
  | run (n : ℕ) (outcome : Outcome)
  | setBridges (platforms : List ImPlatform)
  | elapse (d : ℕ)

namespace ImRouter

variable (s : ImRouter)

/-- The allowlist lets a message pass. -/
def allows (m : InboundMessage) : Bool :=
  match s.allowlist with
  | none => true
  | some allow => m.senderId ∈ allow || m.chatId ∈ allow

/-- A chat is inserted into the runtime allowlist. -/
def allowChat (chatId : String) : ImRouter :=
  { s with allowlist := s.allowlist.map fun allow =>
      if chatId ∈ allow then allow else chatId :: allow }

/-- `ImSessionStore::reset`. -/
def reset (key : String) : ImRouter :=
  { s with
    sessions := s.sessions.erase key
    lastReset := s.lastReset.insert key s.sessionsCreated }

/-- An invite is consumed by a chat, if there is one that is not used. -/
def consume (m : InboundMessage) (token : String) : Option ImRouter :=
  match s.invites.lookup token with
  | none => none
  | some invite =>
    if invite.used then none
    else some { s with
      invites := s.invites.insert token
        { invite with used := true, boundChatId := some m.chatId, boundAt := some s.now }
      admitted := (token, m.chatId) :: s.admitted }

/-- The lock of a chat is taken. -/
def isLocked (key : String) : Bool :=
  s.calls.any fun call => call.locking.any fun m => m.key = key

/-- The agent begins to run a message. -/
def beginRun (n : ℕ) (m : InboundMessage) (sessionId : ℕ) : ImRouter × ImCall :=
  ({ s with ran := ⟨n, sessionId⟩ :: s.ran }, .run m sessionId)

/-- The sessions that are left by `evict_expired`. -/
def fresh (cutoff : ℤ) : HashMap String ImSessionRecord :=
  HashMap.removeAll s.sessions (s.sessions.keys.filter fun key =>
    (s.sessions.lookup key).any fun record => decide (record.lastActive < cutoff))

/-- A section of `/start`. -/
def startSection (outcome : Outcome) : ImCall → Option (ImRouter × ImCall)
  | .consumeInvite m token =>
    match outcome with
    | .ok =>
      match s.consume m token with
      | some s' => some (s', .allowAdd m)
      | none => some (s, .reply m "邀请无效或已使用" false)
    | .err _ => some (s, .reply m "邀请无效或已使用" false)
    | _ => none
  | .allowAdd m =>
    match outcome with
    | .ok => some ({ s with allowTable := s.allowTable.insert m.chatId s.now }, .insertAllowed m)
    | .err _ => some (s, .insertAllowed m)
    | _ => none
  | .insertAllowed m =>
    some (s.allowChat m.chatId, .reply m "✅ 绑定成功，现在可以与我对话了" false)
  | _ => none

/-- A section before the agent gets the message. -/
def gateSection (outcome : Outcome) : ImCall → Option (ImRouter × ImCall)
  | .checkAllowlist m =>
    if s.allows m then some ({ s with passed := m :: s.passed }, .checkSeen m)
    else some (s, .returned)
  | .checkSeen m =>
    if m.msgId ∈ s.seen then some (s, .returned)
    else some ({ s with seen := m.msgId :: s.seen }, m.afterSeen)
  | .resetSession m =>
    match outcome with
    | .ok => some (s.reset m.key, .reply m "会话已重置 ✅" false)
    | .err _ => some (s, .reply m "会话已重置 ✅" false)
    | _ => none
  | .lockChat m => if s.isLocked m.key then none else some (s, .lookup m)
  | _ => none

/-- A section in which a message is given its session and run. -/
def agentSection (n : ℕ) (outcome : Outcome) : ImCall → Option (ImRouter × ImCall)
  | .lookup m =>
    match outcome with
    | .ok =>
      match s.sessions.lookup m.key with
      | some record => some (s.beginRun n m record.neoSessionId)
      | none => some (s, .resolveAgent m)
    | .err _ => some (s, .returned)
    | _ => none
  | .resolveAgent m =>
    match outcome with
    | .agent (some agentId) => some (s, .createSession m agentId)
    | .agent none =>
      some (s, .reply m "No active agent yet — ask the operator to create one" true)
    | _ => none
  | .createSession m agentId =>
    match outcome with
    | .ok =>
      some ({ s with sessionsCreated := s.sessionsCreated + 1 },
        .getSession m s.sessionsCreated agentId)
    | .err _ => some (s, .returned)
    | _ => none
  | .getSession m sessionId agentId =>
    match outcome with
    | .ok =>
      match s.sessions.lookup m.key with
      | some record => some (s.beginRun n m record.neoSessionId)
      | none => some (s, .putSession m sessionId agentId)
    | .err _ => some (s, .returned)
    | _ => none
  | .putSession m sessionId agentId =>
    match outcome with
    | .ok =>
      some (beginRun { s with
          sessions := s.sessions.insert m.key ⟨sessionId, agentId, s.now, s.now⟩ }
        n m sessionId)
    | .err _ => some (s, .returned)
    | _ => none
  | .run m _ => outcome.replyText.map fun text => (s, .touchGet m text)
  | .touchGet m text =>
    match outcome with
    | .ok =>
      match s.sessions.lookup m.key with
      | some record => some (s, .touchPut m { record with lastActive := s.now } text)
      | none => some (s, .reply m text true)
    | .err _ => some (s, .reply m text true)
    | _ => none
  | .touchPut m record text =>
    match outcome with
    | .ok =>
      some ({ s with sessions := s.sessions.insert m.key record }, .reply m text true)
    | .err _ => some (s, .reply m text true)
    | _ => none
  | _ => none

/-- A section of a request, or of a reply. -/
def otherSection (outcome : Outcome) : ImCall → Option (ImRouter × ImCall)
  | .reply m text _ =>
    if m.platform ∈ s.bridges then
      some ({ s with replies := ⟨m.msgId, text⟩ :: s.replies }, .returned)
    else some (s, .returned)
  | .allowRemove chatId =>
    match outcome with
    | .ok => some ({ s with allowTable := s.allowTable.erase chatId }, .allowList)
    | .err _ => some (s, .returned)
    | _ => none
  | .allowList =>
    match outcome with
    | .ok => some (s, .setAllowlist s.allowTable.keys)
    | .err _ => some (s, .returned)
    | _ => none
  | .setAllowlist chats => some ({ s with allowlist := some chats }, .returned)
  | .resetRequest platform chatId =>
    match outcome with
    | .ok => some (s.reset (chatKey platform chatId), .returned)
    | .err _ => some (s, .returned)
    | _ => none
  | .evictExpired cutoff =>
    match outcome with
    | .ok => some ({ s with sessions := s.fresh cutoff }, .returned)
    | .err _ => some (s, .returned)
    | _ => none
  | _ => none

/-- A section of a call. -/
def runSection (n : ℕ) (outcome : Outcome) (call : ImCall) : Option (ImRouter × ImCall) :=
  (s.startSection outcome call).or ((s.gateSection outcome call).or
    ((s.agentSection n outcome call).or (s.otherSection outcome call)))

/-- A call is made. -/
def beginCall (call : ImCall) (since : ℕ) : ImRouter :=
  { s with calls := s.calls ++ [call], since := s.since ++ [since] }

/-- One step. -/
def step : RouterLabel → Option ImRouter
  | .inbound m =>
    some (beginCall { s with
        delivered := m :: s.delivered
        passed := if m.isStart then m :: s.passed else s.passed }
      m.call ((s.lastReset.lookup m.key).getD 0))
  | .removeAllowlist chatId => some (s.beginCall (.allowRemove chatId) 0)
  | .resetSession platform chatId => some (s.beginCall (.resetRequest platform chatId) 0)
  | .evictExpired cutoff => some (s.beginCall (.evictExpired cutoff) 0)
  | .run n outcome =>
    match s.calls[n]? with
    | none => none
    | some call =>
      (s.runSection n outcome call).map fun r => { r.1 with calls := r.1.calls.set n r.2 }
  | .setBridges platforms => some { s with bridges := platforms }
  | .elapse d => some { s with now := s.now + d }

/-- The router when the server has started, with the store it finds. -/
def opened (sessions : HashMap String ImSessionRecord) (invites : HashMap String InviteRecord)
    (allowTable : HashMap String ℤ) (allowlist : Option (List String)) (sessionsCreated : ℕ)
    (bridges : List ImPlatform) (now : ℤ) : ImRouter where
  bridges := bridges
  allowlist := allowlist
  seen := []
  sessions := sessions
  invites := invites
  allowTable := allowTable
  sessionsCreated := sessionsCreated
  now := now
  calls := []
  since := []
  lastReset := ∅
  delivered := []
  passed := []
  admitted := []
  replies := []
  ran := []

/-! ## What a section can do -/

/-- A section of a call, with the state and the call it leads to. -/
inductive Section (s : ImRouter) (n : ℕ) (outcome : Outcome) :
    ImCall → ImRouter → ImCall → Prop
  | consumed {m token s'} (h : s.consume m token = some s') :
      Section s n outcome (.consumeInvite m token) s' (.allowAdd m)
  | refused {m token} :
      Section s n outcome (.consumeInvite m token) s (.reply m "邀请无效或已使用" false)
  | allowAdd {m} :
      Section s n outcome (.allowAdd m) { s with allowTable := s.allowTable.insert m.chatId s.now }
        (.insertAllowed m)
  | allowAddFails {m} (h : outcome ≠ .ok) :
      Section s n outcome (.allowAdd m) s (.insertAllowed m)
  | insertAllowed {m} :
      Section s n outcome (.insertAllowed m) (s.allowChat m.chatId)
        (.reply m "✅ 绑定成功，现在可以与我对话了" false)
  | passes {m} (h : s.allows m = true) :
      Section s n outcome (.checkAllowlist m) { s with passed := m :: s.passed } (.checkSeen m)
  | rejected {m} : Section s n outcome (.checkAllowlist m) s .returned
  | duplicate {m} (h : m.msgId ∈ s.seen) : Section s n outcome (.checkSeen m) s .returned
  | accepted {m} (h : m.msgId ∉ s.seen) :
      Section s n outcome (.checkSeen m) { s with seen := m.msgId :: s.seen } m.afterSeen
  | resets {m} :
      Section s n outcome (.resetSession m) (s.reset m.key) (.reply m "会话已重置 ✅" false)
  | resetFails {m} (h : outcome ≠ .ok) :
      Section s n outcome (.resetSession m) s (.reply m "会话已重置 ✅" false)
  | locks {m} (h : s.isLocked m.key = false) : Section s n outcome (.lockChat m) s (.lookup m)
  | found {m record} (h : s.sessions.lookup m.key = some record) :
      Section s n outcome (.lookup m) { s with ran := ⟨n, record.neoSessionId⟩ :: s.ran }
        (.run m record.neoSessionId)
  | unbound {m} : Section s n outcome (.lookup m) s (.resolveAgent m)
  | lookupFails {m} (h : outcome ≠ .ok) :
      Section s n outcome (.lookup m) s .returned
  | resolved {m agentId} : Section s n outcome (.resolveAgent m) s (.createSession m agentId)
  | noAgent {m} :
      Section s n outcome (.resolveAgent m) s
        (.reply m "No active agent yet — ask the operator to create one" true)
  | created {m agentId} :
      Section s n outcome (.createSession m agentId)
        { s with sessionsCreated := s.sessionsCreated + 1 }
        (.getSession m s.sessionsCreated agentId)
  | createFails {m agentId} (h : outcome ≠ .ok) :
      Section s n outcome (.createSession m agentId) s .returned
  | present {m sessionId agentId record} (h : s.sessions.lookup m.key = some record) :
      Section s n outcome (.getSession m sessionId agentId)
        { s with ran := ⟨n, record.neoSessionId⟩ :: s.ran } (.run m record.neoSessionId)
  | absent {m sessionId agentId} :
      Section s n outcome (.getSession m sessionId agentId) s (.putSession m sessionId agentId)
  | getFails {m sessionId agentId} (h : outcome ≠ .ok) :
      Section s n outcome (.getSession m sessionId agentId) s .returned
  | stored {m sessionId agentId} :
      Section s n outcome (.putSession m sessionId agentId)
        { s with
          sessions := s.sessions.insert m.key ⟨sessionId, agentId, s.now, s.now⟩
          ran := ⟨n, sessionId⟩ :: s.ran } (.run m sessionId)
  | putFails {m sessionId agentId} (h : outcome ≠ .ok) :
      Section s n outcome (.putSession m sessionId agentId) s .returned
  | ends {m sessionId text} : Section s n outcome (.run m sessionId) s (.touchGet m text)
  | touched {m text record} (h : s.sessions.lookup m.key = some record) :
      Section s n outcome (.touchGet m text) s
        (.touchPut m { record with lastActive := s.now } text)
  | untouched {m text} : Section s n outcome (.touchGet m text) s (.reply m text true)
  | touchStored {m record text} :
      Section s n outcome (.touchPut m record text)
        { s with sessions := s.sessions.insert m.key record } (.reply m text true)
  | touchFails {m record text} (h : outcome ≠ .ok) :
      Section s n outcome (.touchPut m record text) s (.reply m text true)
  | replies {m text locked} (h : m.platform ∈ s.bridges) :
      Section s n outcome (.reply m text locked) { s with replies := ⟨m.msgId, text⟩ :: s.replies }
        .returned
  | unanswered {m text locked} (h : m.platform ∉ s.bridges) :
      Section s n outcome (.reply m text locked) s .returned
  | removes {chatId} :
      Section s n outcome (.allowRemove chatId) { s with allowTable := s.allowTable.erase chatId }
        .allowList
  | lists : Section s n outcome .allowList s (.setAllowlist s.allowTable.keys)
  | replaces {chats} :
      Section s n outcome (.setAllowlist chats) { s with allowlist := some chats } .returned
  | resetRequested {platform chatId} :
      Section s n outcome (.resetRequest platform chatId) (s.reset (chatKey platform chatId))
        .returned
  | evicts {cutoff} :
      Section s n outcome (.evictExpired cutoff) { s with sessions := s.fresh cutoff } .returned
  | requestFails {call} (hfails : outcome ≠ .ok)
      (h : call = .allowList ∨ (∃ chatId, call = .allowRemove chatId) ∨
        (∃ platform chatId, call = .resetRequest platform chatId) ∨
        ∃ cutoff, call = .evictExpired cutoff) : Section s n outcome call s .returned

variable {s} {s' : ImRouter} {n : ℕ} {outcome : Outcome} {call call' : ImCall}

theorem section_of_startSection (h : s.startSection outcome call = some (s', call')) :
    Section s n outcome call s' call' := by
  cases call with
  | consumeInvite m token =>
    cases outcome with
    | ok =>
      simp only [startSection] at h
      split at h
      · rename_i s₁ hconsume
        cases h
        exact .consumed hconsume
      · cases h
        exact .refused
    | err e =>
      cases h
      exact .refused
    | _ => cases h
  | allowAdd m =>
    cases outcome with
    | ok =>
      cases h
      exact .allowAdd
    | err e =>
      cases h
      exact .allowAddFails nofun
    | _ => cases h
  | insertAllowed m =>
    cases h
    exact .insertAllowed
  | _ => cases h

theorem section_of_gateSection (h : s.gateSection outcome call = some (s', call')) :
    Section s n outcome call s' call' := by
  cases call with
  | checkAllowlist m =>
    simp only [gateSection] at h
    split at h
    · rename_i hallows
      cases h
      exact .passes hallows
    · cases h
      exact .rejected
  | checkSeen m =>
    simp only [gateSection] at h
    split at h
    · rename_i hseen
      cases h
      exact .duplicate hseen
    · rename_i hseen
      cases h
      exact .accepted hseen
  | resetSession m =>
    cases outcome with
    | ok =>
      cases h
      exact .resets
    | err e =>
      cases h
      exact .resetFails nofun
    | _ => cases h
  | lockChat m =>
    simp only [gateSection] at h
    split at h
    · cases h
    · rename_i hlocked
      cases h
      exact .locks (Bool.not_eq_true _ ▸ hlocked)
  | _ => cases h

theorem section_of_agentSection (h : s.agentSection n outcome call = some (s', call')) :
    Section s n outcome call s' call' := by
  cases call with
  | lookup m =>
    cases outcome with
    | ok =>
      simp only [agentSection] at h
      split at h
      · rename_i record hrecord
        cases h
        exact .found hrecord
      · cases h
        exact .unbound
    | err e =>
      cases h
      exact .lookupFails nofun
    | _ => cases h
  | resolveAgent m =>
    cases outcome with
    | agent id =>
      cases id with
      | none =>
        cases h
        exact .noAgent
      | some agentId =>
        cases h
        exact .resolved
    | _ => cases h
  | createSession m agentId =>
    cases outcome with
    | ok =>
      cases h
      exact .created
    | err e =>
      cases h
      exact .createFails nofun
    | _ => cases h
  | getSession m sessionId agentId =>
    cases outcome with
    | ok =>
      simp only [agentSection] at h
      split at h
      · rename_i record hrecord
        cases h
        exact .present hrecord
      · cases h
        exact .absent
    | err e =>
      cases h
      exact .getFails nofun
    | _ => cases h
  | putSession m sessionId agentId =>
    cases outcome with
    | ok =>
      cases h
      exact .stored
    | err e =>
      cases h
      exact .putFails nofun
    | _ => cases h
  | run m sessionId =>
    obtain ⟨text, -, heq⟩ := Option.map_eq_some_iff.mp h
    cases heq
    exact .ends
  | touchGet m text =>
    cases outcome with
    | ok =>
      simp only [agentSection] at h
      split at h
      · rename_i record hrecord
        cases h
        exact .touched hrecord
      · cases h
        exact .untouched
    | err e =>
      cases h
      exact .untouched
    | _ => cases h
  | touchPut m record text =>
    cases outcome with
    | ok =>
      cases h
      exact .touchStored
    | err e =>
      cases h
      exact .touchFails nofun
    | _ => cases h
  | _ => cases h

theorem section_of_otherSection (h : s.otherSection outcome call = some (s', call')) :
    Section s n outcome call s' call' := by
  cases call with
  | reply m text locked =>
    simp only [otherSection] at h
    split at h
    · rename_i hbridge
      cases h
      exact .replies hbridge
    · rename_i hbridge
      cases h
      exact .unanswered hbridge
  | allowRemove chatId =>
    cases outcome with
    | ok =>
      cases h
      exact .removes
    | err e =>
      cases h
      exact .requestFails nofun (Or.inr (Or.inl ⟨chatId, rfl⟩))
    | _ => cases h
  | allowList =>
    cases outcome with
    | ok =>
      cases h
      exact .lists
    | err e =>
      cases h
      exact .requestFails nofun (Or.inl rfl)
    | _ => cases h
  | setAllowlist chats =>
    cases h
    exact .replaces
  | resetRequest platform chatId =>
    cases outcome with
    | ok =>
      cases h
      exact .resetRequested
    | err e =>
      cases h
      exact .requestFails nofun (Or.inr (Or.inr (Or.inl ⟨platform, chatId, rfl⟩)))
    | _ => cases h
  | evictExpired cutoff =>
    cases outcome with
    | ok =>
      cases h
      exact .evicts
    | err e =>
      cases h
      exact .requestFails nofun (Or.inr (Or.inr (Or.inr ⟨cutoff, rfl⟩)))
    | _ => cases h
  | _ => cases h

/-- Everything that a section of a call can do. -/
theorem section_of_runSection (h : s.runSection n outcome call = some (s', call')) :
    Section s n outcome call s' call' := by
  rcases Option.or_eq_some_iff.mp h with h | ⟨-, h⟩
  · exact section_of_startSection h
  · rcases Option.or_eq_some_iff.mp h with h | ⟨-, h⟩
    · exact section_of_gateSection h
    · rcases Option.or_eq_some_iff.mp h with h | ⟨-, h⟩
      · exact section_of_agentSection h
      · exact section_of_otherSection h

/-- No section makes or ends another call, or changes what was recorded when calls were made. -/
theorem Section.frame (h : Section s n outcome call s' call') :
    s'.calls = s.calls ∧ s'.since = s.since ∧ s'.delivered = s.delivered := by
  cases h with
  | consumed h =>
    unfold consume at h
    split at h
    · cases h
    · split at h
      · cases h
      · cases h
        exact ⟨rfl, rfl, rfl⟩
  | _ => exact ⟨rfl, rfl, rfl⟩

/-- An invite is consumed, and nothing else happens. -/
theorem consume_frame {m : InboundMessage} {token : String} (h : s.consume m token = some s') :
    ∃ invites admitted, s' = { s with invites := invites, admitted := admitted } := by
  unfold consume at h
  split at h
  · cases h
  · split at h
    · cases h
    · cases h
      exact ⟨_, _, rfl⟩

/-- A step in which a call runs a section. -/
theorem step_run (h : s.step (.run n outcome) = some s') : ∃ call s₁ call',
    s.calls[n]? = some call ∧ s.runSection n outcome call = some (s₁, call') ∧
      s' = { s₁ with calls := s.calls.set n call' } := by
  simp only [step] at h
  split at h
  · cases h
  · rename_i call hcall
    obtain ⟨⟨s₁, call'⟩, hsection, rfl⟩ := Option.map_eq_some_iff.mp h
    refine ⟨call, s₁, call', hcall, hsection, ?_⟩
    rw [(section_of_runSection hsection).frame.1]

end ImRouter

namespace Sample

/-- A router that lets every chat in, with no session. -/
def unguarded : ImRouter := ImRouter.opened ∅ ∅ ∅ none 0 [.telegram] 0

def hello (msgId : String) : RouterLabel :=
  .inbound ⟨.telegram, "c", "u", "hello", msgId⟩

/-- The sections of one call, all of which succeed. -/
def sections (n count : ℕ) : List RouterLabel :=
  List.replicate count (.run n .ok)

end Sample

end HeraMind.Im
