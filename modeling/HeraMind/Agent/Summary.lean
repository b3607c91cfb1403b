/-
# Conversation summaries

A chat session keeps its messages in memory, and a summary of the older ones in its
metadata.  `trigger_summarization`
(`crates/heramind-api/src/handlers/summarization.rs`) extends the summary and the index up
to which it reaches; a streamed turn (`crates/heramind-agent/src/agent/streaming`) caps the
history, drops what the summary covers and builds its first context from the rest.  Both
run concurrently: `Pc.advance` is one section of one call, which reads or writes the memory
or the metadata once.

The token estimate, the arithmetic on floats and `build_context_window_with_config` are
parameters (`Env`).  What a running turn appends to the memory (the reply, tool results)
is a step of its own, and a call that fails goes no further.
-/
import Mathlib.Algebra.GroupWithZero.Nat
import HeraMind.Lib.Run

namespace HeraMind.Agent

/-- A text, as its characters. -/
abbrev Text := List Char

/-- The length of a text in bytes. -/
def byteLen (t : Text) : ℕ := (t.map Char.utf8Size).sum

/-- The part of a message that the context and the summary depend on. -/
structure AgentMessage where
  role : String
  content : Text
  toolCallName : Option Text
  deriving DecidableEq

def AgentMessage.user (content : Text) : AgentMessage := ⟨"user", content, none⟩

def AgentMessage.system (content : Text) : AgentMessage := ⟨"system", content, none⟩

/-- The summary in the metadata of a session. -/
structure SessionMetadata where
  /-- Conversation summary for context compression. -/
  conversationSummary : Option Text
  /-- The index of the summary in the conversation history. -/
  summaryUpToIndex : Option ℕ
  deriving DecidableEq

instance : Inhabited SessionMetadata := ⟨⟨none, none⟩⟩

/-- What lies outside of the code modelled here. -/
structure Env where
  /-- `prompt_tokens as f64 / max_ctx as f64` exceeds the threshold of 60%. -/
  exceedsThreshold : ℕ → ℕ → Bool
  /-- `((max_ctx as f64) * 0.15) as usize`. -/
  contextShare : ℕ → ℕ
  estimateTokens : Text → ℕ
  /-- `build_context_window_with_config`, with the configuration for its budget. -/
  buildContextWindow : List AgentMessage → ℕ → List AgentMessage

/-! ## The context of a turn -/

/-- The loop of `apply_chat_history_depth`, over the messages from the last to the first. -/
def cutIdx (depth seen : ℕ) : List (AgentMessage × ℕ) → Option ℕ
  | [] => none
  | (m, i) :: rest =>
    if m.role = "user" then
      if depth ≤ seen + 1 then some i else cutIdx depth (seen + 1) rest
    else cutIdx depth seen rest

/-- The number of messages that the depth cap drops. -/
def droppedByDepth (depth : ℕ) (history : List AgentMessage) : ℕ :=
  (cutIdx depth 0 history.zipIdx.reverse).getD 0

/-- Cap the history to its last turns. -/
def applyChatHistoryDepth (depth : ℕ) (history : List AgentMessage) : List AgentMessage :=
  match cutIdx depth 0 history.zipIdx.reverse with
  | some idx => if 0 < idx then history.drop idx else history
  | none => history

/-- The messages that a context with a summary is built from, with their indices. -/
def passedOn (summary : Option Text) (summaryUpToIndex : Option ℕ)
    (messages : List AgentMessage) : List (AgentMessage × ℕ) :=
  match summary, summaryUpToIndex with
  | some _, some upTo => messages.zipIdx.filter fun p => upTo < p.2
  | _, _ => messages.zipIdx

def buildContextWindowWithSummary (env : Env) (messages : List AgentMessage) (maxTokens : ℕ)
    (summary : Option Text) (summaryUpToIndex : Option ℕ) : List AgentMessage :=
  let summaryTokens := (summary.map env.estimateTokens).getD 0
  let filtered := (passedOn summary summaryUpToIndex messages).map Prod.fst
  let result := env.buildContextWindow filtered (maxTokens - summaryTokens)
  match summary with
  | none => result
  | some text =>
    if text.isEmpty then result
    else
      let insertPos := (result.takeWhile fun m => m.role = "system").length
      result.insertIdx insertPos (.system ("[Summary of previous conversation]\n".toList ++ text))

/-- The history of a turn, without the message that the turn itself has just pushed. -/
def earlierHistory (memory : List AgentMessage) (userMessage : Text) (multimodal : Bool) :
    List AgentMessage :=
  if multimodal then memory
  else if memory.getLast?.any fun m => m.role = "user" && m.content = userMessage then
    memory.dropLast
  else memory

/-! ## Summarization -/

/-- Truncate a text, adding "..." if truncated. -/
def truncateStr (s : Text) (maxChars : ℕ) : Text :=
  if byteLen s ≤ maxChars then s else s.take maxChars ++ "...".toList

def perMessageCharCap : ℕ := 300

/-- The line of a message in the conversation text; `none` for a message that is skipped. -/
def summaryLine (msg : AgentMessage) : Option Text :=
  if msg.role = "user" then
    some ("User: ".toList ++ truncateStr msg.content perMessageCharCap ++ ['\n'])
  else if msg.role = "assistant" then
    some ("Assistant: ".toList ++ truncateStr msg.content perMessageCharCap ++ ['\n'])
  else if msg.role = "tool" then
    msg.toolCallName.map fun toolName =>
      "[Tool ".toList ++ toolName ++ ": ".toList ++ truncateStr msg.content 200 ++ "]\n".toList
  else none

/-- The conversation text and the indices of the messages in it, whose number is
`summarized_count`. -/
structure Digest where
  convText : Text
  indices : List ℕ
  deriving DecidableEq

/-- The loop that builds the conversation text under the character budget. -/
def digestLoop (charBudget : ℕ) : List (AgentMessage × ℕ) → Digest → Digest
  | [], d => d
  | (msg, i) :: rest, d =>
    match summaryLine msg with
    | none => digestLoop charBudget rest d
    | some line =>
      if charBudget < byteLen d.convText + byteLen line ∧ 4 ≤ d.indices.length then d
      else digestLoop charBudget rest ⟨d.convText ++ line, d.indices ++ [i]⟩

/-- The conversation text for the next summary, if there is enough to summarize. -/
def digest (env : Env) (maxCtx : ℕ) (metadata : SessionMetadata)
    (history : List AgentMessage) : Option Digest :=
  let charBudget := max 2000 (min 24000 (env.contextShare maxCtx))
  let summaryUpTo := metadata.summaryUpToIndex.getD 0
  let unsummarized := history.zipIdx.filter fun p => summaryUpTo ≤ p.2
  if unsummarized.length < 4 then none
  else
    let d := digestLoop charBudget (unsummarized.take (unsummarized.length / 2)) ⟨[], []⟩
    if d.indices.length = 0 ∨ d.convText = [] then none else some d

def separator : Text := "--- 后续对话摘要 ---".toList

/-- The number of non-overlapping matches of a pattern, after the characters to skip. -/
def matchCount (pattern : Text) : ℕ → Text → ℕ
  | _, [] => 0
  | skip + 1, _ :: t => matchCount pattern skip t
  | 0, c :: t =>
    if pattern <+: c :: t then matchCount pattern (pattern.length - 1) t + 1
    else matchCount pattern 0 t

def maxSummarySegments : ℕ := 4

/-- The chain of segments has no room for another one. -/
def folds (existing : Text) : Bool :=
  decide (maxSummarySegments ≤ matchCount separator 0 existing + 1)

/-- The new summary: appended to the existing one, or in its place at the cap. -/
def newSummary (existing : Option Text) (summary : Text) : Text :=
  match existing with
  | some existing =>
    if folds existing then summary
    else existing ++ "\n\n".toList ++ separator ++ ['\n'] ++ summary
  | none => summary

/-- The metadata that a summarization saves. -/
def summarized (metadata : SessionMetadata) (d : Digest) (summary : Text) :
    SessionMetadata where
  conversationSummary := some (newSummary metadata.conversationSummary summary)
  summaryUpToIndex := some (metadata.summaryUpToIndex.getD 0 + d.indices.length)

/-! ## The session -/

inductive Call : Type where
  | turn (userMessage : Text) (multimodal : Bool)
  | triggerSummarization (promptTokens : ℕ)

/-- The next section of a call. -/
inductive Pc : Type where
  | readMetadata (userMessage : Text) (multimodal : Bool)
  | pushMessage (userMessage : Text) (metadata : SessionMetadata)
  | buildContext (userMessage : Text) (multimodal : Bool) (metadata : SessionMetadata)
  | pushUserMessage (userMessage : Text) (context : List AgentMessage)
  | streaming (context : List AgentMessage)
  | checkUsage (promptTokens : ℕ)
  | readSummary (maxCtx : ℕ)
  | readHistory (maxCtx : ℕ) (metadata : SessionMetadata)
  | generating (metadata : SessionMetadata) (d : Digest)
  | done
  deriving DecidableEq

/-- What code outside decides in a section: whether the metadata can be read and saved, the
settings of the moment, and the reply of the model. -/
structure Choice where
  readFails : Bool
  saveFails : Bool
  chatHistoryDepth : ℕ
  maxContextLength : ℕ
  effectiveMax : ℕ
  reply : Except String Text

/-- A session and the calls made on it. -/
structure Session where
  memory : List AgentMessage
  metadata : SessionMetadata
  calls : List Pc

def Call.start : Call → Pc
  | .turn userMessage multimodal => .readMetadata userMessage multimodal
  | .triggerSummarization promptTokens => .checkUsage promptTokens

/-- The metadata as a call reads it: the default when the read fails. -/
def Session.getMetadata (s : Session) (choice : Choice) : SessionMetadata :=
  if choice.readFails then default else s.metadata

/-- The first context of a turn. -/
def Session.firstContext (env : Env) (s : Session) (choice : Choice) (userMessage : Text)
    (multimodal : Bool) (metadata : SessionMetadata) : List AgentMessage :=
  let history := earlierHistory s.memory userMessage multimodal
  buildContextWindowWithSummary env (applyChatHistoryDepth choice.chatHistoryDepth history)
    choice.effectiveMax metadata.conversationSummary metadata.summaryUpToIndex

/-- One section of a call. -/
def Pc.advance (env : Env) (choice : Choice) (s : Session) : Pc → Option (Pc × Session)
  | .readMetadata userMessage true =>
    some (.buildContext userMessage true (s.getMetadata choice), s)
  | .readMetadata userMessage false =>
    some (.pushMessage userMessage (s.getMetadata choice), s)
  | .pushMessage userMessage metadata =>
    some (.buildContext userMessage false metadata,
      { s with memory := s.memory ++ [.user userMessage] })
  | .buildContext userMessage multimodal metadata =>
    let context := s.firstContext env choice userMessage multimodal metadata
    -- a multimodal turn stores its message after it has built its context
    some (if multimodal then .pushUserMessage userMessage context else .streaming context, s)
  | .pushUserMessage userMessage context =>
    some (.streaming context, { s with memory := s.memory ++ [.user userMessage] })
  | .streaming _ => none
  | .checkUsage promptTokens =>
    if env.exceedsThreshold promptTokens choice.maxContextLength then
      some (.readSummary choice.maxContextLength, s)
    else some (.done, s)
  | .readSummary maxCtx => some (.readHistory maxCtx (s.getMetadata choice), s)
  | .readHistory maxCtx metadata =>
    match digest env maxCtx metadata s.memory with
    | some d => some (.generating metadata d, s)
    | none => some (.done, s)
  | .generating metadata d =>
    match choice.reply with
    | .error _ => some (.done, s)
    | .ok summary =>
      if choice.saveFails then some (.done, s)
      else some (.done, { s with metadata := summarized metadata d summary })
  | .done => none

/-- A new call, a message that a running turn appends, or a section of call `n`. -/
inductive Label : Type where
  | call (c : Call)
  | push (message : AgentMessage)
  | run (n : ℕ) (choice : Choice)

def step (env : Env) (s : Session) : Label → Option Session
  | .call c => some { s with calls := s.calls ++ [c.start] }
  | .push message => some { s with memory := s.memory ++ [message] }
  | .run n choice =>
    match s.calls[n]? with
    | none => none
    | some pc =>
      match pc.advance env choice s with
      | none => none
      | some (pc', s') => some { s' with calls := s'.calls.set n pc' }

/-- A session with a history that has not been summarized. -/
def Session.fresh (memory : List AgentMessage) : Session := ⟨memory, default, []⟩

end HeraMind.Agent
