/-
# Requests on a session

`crates/heramind-agent/src/session.rs`, `crates/heramind-storage/src/session.rs` and
`crates/heramind-api/src/handlers/summarization.rs`: what the requests that change a session's
metadata do to the agents, the cached messages and the rows of the session.

A section is one transaction of the store or one access under a lock of the manager; between two
sections of a request, sections of other requests may run.  Store calls succeed.  A message carries
the number under which it was added, and the metadata the numbers of the messages that its summary
describes: no function reads these.
-/
import HeraMind.Agent.Summary
import HeraMind.Lib.ByteText
import HeraMind.Rules.Handlers

namespace HeraMind.Agent.Requests

open HeraMind.Rules (isWhitespace)

/-! ## The session -/

/-- A message with its number. -/
structure Message where
  number : ℕ
  message : AgentMessage
  deriving DecidableEq

/-- `SessionMetadata` of the store. -/
structure StoredMetadata extends SessionMetadata where
  title : Option Text
  memoryEnabled : Bool
  preview : Option Text
  describes : List ℕ
  deriving DecidableEq

instance : Inhabited StoredMetadata := ⟨⟨default, none, true, none, []⟩⟩

/-- The messages that the stored summary or its index describes. -/
def StoredMetadata.described (m : StoredMetadata) : List ℕ :=
  if m.conversationSummary.isNone ∧ m.summaryUpToIndex.isNone then [] else m.describes

/-- What a request sets. -/
inductive Setting where
  | title (title : Option Text)
  | memory (enabled : Bool)
  deriving DecidableEq

inductive Request where
  | set (setting : Setting)
  | clearHistory
  | persistHistory
  | triggerSummarization (promptTokens : ℕ)
  | removeSession
  deriving DecidableEq

def Request.updateSessionTitle (title : Option Text) : Request := .set (.title title)

def Request.toggleMemory (enabled : Bool) : Request := .set (.memory enabled)

/-- Empty titles are filtered out. -/
def titleOf (title : Option Text) : Option Text :=
  title.filter fun t => !(ByteText.trim isWhitespace t).isEmpty

def Setting.apply : Setting → StoredMetadata → StoredMetadata
  | .title t, m => { m with title := titleOf t }
  | .memory enabled, m => { m with memoryEnabled := enabled }

/-- What `get_session` does next. -/
inductive GetSession where
  | lookup
  | existsInDb
  | load
  | insert (history : List Message)
  | insertMessages (agent : ℕ) (history : List Message)
  deriving DecidableEq

/-- What a request does with the session that `get_session` finds. -/
inductive After where
  | clear
  | persist
  | summarize (promptTokens maxCtx : ℕ) (metadata : StoredMetadata)
  deriving DecidableEq

/-- The next section of a request. -/
inductive Section where
  | setCheck (setting : Setting)
  | setExists (setting : Setting) (inMemory : Bool)
  | setRead (setting : Setting)
  | setSave (setting : Setting) (metadata : StoredMetadata)
  | getSession (g : GetSession) (k : After)
  | clearMemory (agent : ℕ)
  | clearMessages (upTo : ℕ)
  | clearRows (upTo : ℕ)
  | clearRead (upTo : ℕ)
  | clearReset (upTo : ℕ) (metadata : StoredMetadata)
  | persistMemory (agent : ℕ)
  | persistCached
  | persistSave (found : Bool) (messages : List Message)
  | persistRead (found : Bool) (messages : List Message)
  | persistPreview (found : Bool) (metadata : StoredMetadata) (preview : Text)
  | agentLlm (promptTokens : ℕ)
  | checkUsage (promptTokens : ℕ)
  | summaryRead (promptTokens maxCtx : ℕ)
  | summaryMemory (promptTokens maxCtx : ℕ) (metadata : StoredMetadata) (agent : ℕ)
  | generating (promptTokens : ℕ) (metadata : StoredMetadata) (d : Digest) (described : List ℕ)
  | removeCheck
  | removeExists (inMemory : Bool)
  | removeAgent
  | removeMessages
  | deleteSession
  | done
  deriving DecidableEq

/-- The session, its agents and rows, and the requests on it. -/
structure SessionState where
  /-- The row of the session in the store. -/
  sessionRow : Bool
  metadataRow : Option StoredMetadata
  historyRows : List Message
  /-- The memory of every agent that was made for the session. -/
  agents : List (List Message)
  /-- The agent in the map of sessions. -/
  session : Option ℕ
  /-- The entry in the map of cached messages. -/
  sessionMessages : Option (List Message)
  /-- The number of the next message. -/
  nextNumber : ℕ
  calls : List Section
  /-- The requests that have returned, newest first, with whether they found the session. -/
  log : List (Request × Bool)
  /-- Messages below this number were cleared by a request that has returned. -/
  clearedUpTo : ℕ

/-! ## The store and the manager -/

namespace SessionState

/-- `get_session_metadata` -/
def getMetadata (s : SessionState) : StoredMetadata := s.metadataRow.getD default

/-- `save_session_metadata` -/
def saveMetadata (s : SessionState) (m : StoredMetadata) : SessionState :=
  { s with metadataRow := some m }

/-- `save_history`, which saves no empty list. -/
def saveHistory (s : SessionState) (messages : List Message) : SessionState :=
  if messages.isEmpty then s else { s with historyRows := messages }

/-- `delete_session` -/
def deleteSession (s : SessionState) : SessionState :=
  { s with sessionRow := false, metadataRow := none, historyRows := [] }

def memory (s : SessionState) (agent : ℕ) : List Message := (s.agents[agent]?).getD []

/-- A request returns. -/
def complete (s : SessionState) (r : Request) (found : Bool) : SessionState :=
  { s with log := (r, found) :: s.log }

/-- `clear_history` returns. -/
def completeClear (s : SessionState) (upTo : ℕ) : SessionState :=
  { s.complete .clearHistory true with clearedUpTo := max s.clearedUpTo upTo }

end SessionState

/-! ## The requests -/

def Request.start : Request → Section
  | .set setting => .setCheck setting
  | .clearHistory => .getSession .lookup .clear
  | .persistHistory => .getSession .lookup .persist
  | .triggerSummarization promptTokens => .agentLlm promptTokens
  | .removeSession => .removeCheck

/-- One section of `get_session`: how it goes on, or the agent that it returns. -/
def GetSession.advance (s : SessionState) : GetSession → (GetSession ⊕ Option ℕ) × SessionState
  | .lookup =>
    match s.session with
    | some agent => (.inr (some agent), s)
    | none => (.inl .existsInDb, s)
  | .existsInDb => if s.sessionRow then (.inl .load, s) else (.inr none, s)
  | .load => (.inl (.insert s.historyRows), s)
  | .insert history =>
    match s.session with
    -- a concurrent restore won
    | some agent => (.inr (some agent), s)
    | none => (.inl (.insertMessages s.agents.length history),
        { s with agents := s.agents ++ [history], session := some s.agents.length })
  | .insertMessages agent history =>
    (.inr (some agent), { s with sessionMessages := some history })

/-- How a request goes on with what `get_session` returns. -/
def After.next (s : SessionState) : After → Option ℕ → Section × SessionState
  | .clear, some agent => (.clearMemory agent, s)
  | .clear, none => (.done, s.complete .clearHistory false)
  | .persist, some agent => (.persistMemory agent, s)
  | .persist, none => (.persistCached, s)
  | .summarize promptTokens maxCtx metadata, some agent =>
    (.summaryMemory promptTokens maxCtx metadata agent, s)
  -- `get_history` is empty
  | .summarize promptTokens _ _, none =>
    (.done, s.complete (.triggerSummarization promptTokens) true)

/-- The preview of a session: the first 50 characters of its first user message. -/
def previewOf (messages : List Message) : Text :=
  match messages.find? fun m => m.message.role = "user" with
  | some m =>
    let content := ByteText.trim isWhitespace m.message.content
    if 50 < content.length then content.take 50 ++ "...".toList else content
  | none => []

/-- The numbers of the messages that a summary or its index describes. -/
def describedBy (history : List Message) (metadata : StoredMetadata) (d : Digest) : List ℕ :=
  let upTo := metadata.summaryUpToIndex.getD 0 + d.indices.length
  (history.zipIdx.filter fun p => p.2 ∈ d.indices ∨ p.2 < upTo).map fun p => p.1.number

/-- What a summarization saves. -/
def summarizedMetadata (metadata : StoredMetadata) (d : Digest) (summary : Text)
    (described : List ℕ) : StoredMetadata :=
  { metadata with
    toSessionMetadata := summarized metadata.toSessionMetadata d summary
    describes := metadata.described ++ described }

/-- What the model decides while a request runs. -/
structure Answers where
  maxContextLength : ℕ
  reply : Except String Text

/-- One section of a request. -/
def Section.advance (env : Env) (ans : Answers) (s : SessionState) :
    Section → Option (Section × SessionState)
  -- `update_session_title` and `toggle_memory`
  | .setCheck setting => some (.setExists setting s.session.isSome, s)
  | .setExists setting inMemory =>
    if inMemory || s.sessionRow then some (.setRead setting, s)
    else some (.done, s.complete (.set setting) false)
  | .setRead setting => some (.setSave setting s.getMetadata, s)
  | .setSave setting metadata =>
    some (.done, (s.saveMetadata (setting.apply metadata)).complete (.set setting) true)
  | .getSession g k =>
    match g.advance s with
    | (.inl g', s') => some (.getSession g' k, s')
    | (.inr agent, s') => some (k.next s' agent)
  -- `clear_history`
  | .clearMemory agent => some (.clearMessages s.nextNumber,
      { s with agents := s.agents.set agent [] })
  | .clearMessages upTo => some (.clearRows upTo, { s with sessionMessages := some [] })
  | .clearRows upTo => some (.clearRead upTo, { s with historyRows := [] })
  | .clearRead upTo =>
    let metadata := s.getMetadata
    if metadata.conversationSummary.isSome || metadata.summaryUpToIndex.isSome then
      some (.clearReset upTo metadata, s)
    else some (.done, s.completeClear upTo)
  | .clearReset upTo metadata =>
    some (.done, (s.saveMetadata { metadata with
      conversationSummary := none
      summaryUpToIndex := none }).completeClear upTo)
  -- `persist_history`
  | .persistMemory agent => some (.persistSave true (s.memory agent), s)
  | .persistCached =>
    match s.sessionMessages with
    | some cached => some (.persistSave false cached, s)
    | none => some (.done, s.complete .persistHistory false)
  | .persistSave found messages => some (.persistRead found messages, s.saveHistory messages)
  | .persistRead found messages =>
    let metadata := s.getMetadata
    if (metadata.preview.getD []).isEmpty && !(previewOf messages).isEmpty then
      some (.persistPreview found metadata (previewOf messages), s)
    else some (.done, s.complete .persistHistory found)
  | .persistPreview found metadata preview =>
    some (.done, (s.saveMetadata { metadata with preview := some preview }).complete
      .persistHistory found)
  -- `trigger_summarization`
  | .agentLlm promptTokens =>
    if s.session.isSome then some (.checkUsage promptTokens, s)
    else some (.done, s.complete (.triggerSummarization promptTokens) false)
  | .checkUsage promptTokens =>
    if env.exceedsThreshold promptTokens ans.maxContextLength then
      some (.summaryRead promptTokens ans.maxContextLength, s)
    else some (.done, s.complete (.triggerSummarization promptTokens) true)
  | .summaryRead promptTokens maxCtx =>
    some (.getSession .lookup (.summarize promptTokens maxCtx s.getMetadata), s)
  | .summaryMemory promptTokens maxCtx metadata agent =>
    let history := s.memory agent
    match digest env maxCtx metadata.toSessionMetadata (history.map Message.message) with
    | some d => some (.generating promptTokens metadata d (describedBy history metadata d), s)
    | none => some (.done, s.complete (.triggerSummarization promptTokens) true)
  | .generating promptTokens metadata d described =>
    match ans.reply with
    | .error _ => some (.done, s.complete (.triggerSummarization promptTokens) true)
    | .ok summary =>
      some (.done, (s.saveMetadata (summarizedMetadata metadata d summary described)).complete
        (.triggerSummarization promptTokens) true)
  -- `remove_session`
  | .removeCheck => some (.removeExists s.session.isSome, s)
  | .removeExists inMemory =>
    if inMemory || s.sessionRow then some (.removeAgent, s)
    else some (.done, s.complete .removeSession false)
  | .removeAgent => some (.removeMessages, { s with session := none })
  | .removeMessages => some (.deleteSession, { s with sessionMessages := none })
  | .deleteSession => some (.done, s.deleteSession.complete .removeSession true)
  | .done => none

/-- A new request, a message that a running turn appends to an agent's memory, or a section of
request `n`. -/
inductive Action where
  | call (r : Request)
  | push (agent : ℕ) (message : AgentMessage)
  | run (n : ℕ) (ans : Answers)

def requestStep (env : Env) (s : SessionState) : Action → Option SessionState
  | .call r => some { s with calls := s.calls ++ [r.start] }
  | .push agent message => some { s with
      agents := s.agents.set agent (s.memory agent ++ [⟨s.nextNumber, message⟩])
      nextNumber := s.nextNumber + 1 }
  | .run n ans => do
    let pc ← s.calls[n]?
    let (pc', s') ← pc.advance env ans s
    return { s' with calls := s'.calls.set n pc' }

/-- A session on which no request has been made. -/
def SessionState.start (sessionRow : Bool) (metadataRow : Option StoredMetadata)
    (historyRows : List Message) (agents : List (List Message)) (session : Option ℕ)
    (sessionMessages : Option (List Message)) (nextNumber : ℕ) : SessionState :=
  { sessionRow, metadataRow, historyRows, agents, session, sessionMessages, nextNumber
    calls := []
    log := []
    clearedUpTo := 0 }

end HeraMind.Agent.Requests
