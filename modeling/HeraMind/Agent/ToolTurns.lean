/-
# Turns that execute tools

`crates/heramind-agent/src/agent/mod.rs`: a turn of `Agent::process` executes the parsed tool calls
batch by batch.  The calls of a batch run at once, as many as there are permits; each looks for its
result in the cache, else executes its tool, with retries, and then stores the result in the cache
or, after a write action, drops results from it.

An action is what runs between two places where a call waits.  What tools return is arbitrary.  The
numbers of completed state-changing calls (`epoch`), and what was executed and served, are recorded
for the statements.
-/
import HeraMind.Agent.Summary
import HeraMind.Agent.ToolBatches
import HeraMind.Lib.Calls
import HeraMind.Lib.KeyedMap
import Mathlib.Data.List.Infix

namespace HeraMind.Agent.Tools

open Serde

variable {N : Type}

/-! ## The cache -/

/-- A field of an object. -/
def getField (d : Doc N) (key : String) : Option (Doc N) :=
  match d with
  | .object fields => (fields.find? fun f => f.1 = key).map Prod.snd
  | _ => none

def asStr : Doc N → Option String
  | .string s => some s
  | _ => none

def writeActions : List String :=
  ["create", "update", "delete", "control", "write_metric", "send", "send_message", "read",
    "acknowledge"]

/-- `is_write_action` -/
def isWriteAction (arguments : Doc N) : Bool :=
  match (getField arguments "action").bind asStr with
  | some action => writeActions.contains action
  | none => false

/-- A cached result, with the number of state-changing calls that were completed when its tool
returned it. -/
structure Entry where
  result : Text
  timestamp : ℕ
  epoch : ℕ

/-- The cached results by tool name and arguments. -/
abbrev ToolResultCache := HashMap (String × List Char) Entry

/-- A second, in nanoseconds. -/
def second : ℕ := 1000000000

/-- `str::contains` -/
def contains (s pattern : String) : Bool := decide (pattern.toList <:+: s.toList)

def getTtlForTool (toolName : String) : ℕ :=
  if contains toolName "device_discover" then 60 * second
  else if contains toolName "device_query" then 30 * second
  else if contains toolName "query_data" then 30 * second
  else if contains toolName "list_rules" then 300 * second
  else if contains toolName "list_agents" then 300 * second
  else if contains toolName "get_agent" then 120 * second
  else 30 * second

namespace ToolResultCache

/-- The entry that is served. -/
def get (cache : ToolResultCache) (now : ℕ) (key : String × List Char) : Option Entry :=
  (cache.lookup key).filter fun e => now - e.timestamp < getTtlForTool key.1

/-- Drop what is older than 5 minutes. -/
def cleanup (cache : ToolResultCache) (now : ℕ) : ToolResultCache :=
  HashMap.removeAll cache
    (cache.keys.filter fun k => (cache.lookup k).any fun e => !(now - e.timestamp < 300 * second))

def put (cache : ToolResultCache) (now : ℕ) (key : String × List Char) (e : Entry) :
    ToolResultCache :=
  cleanup (cache.insert key e) now

/-- Drop all results of tools whose name starts with this one. -/
def invalidate (cache : ToolResultCache) (toolPrefix : String) : ToolResultCache :=
  HashMap.removeAll cache (cache.keys.filter fun k => toolPrefix.toList.isPrefixOf k.1.toList)

end ToolResultCache

/-! ## The execution of a call -/

/-- What `ToolRegistry::execute` returns, with the sanitized data of a successful output.  It refuses
a call whose tool is not registered or disabled. -/
inductive Outcome where
  | output (sanitized : Text)
  | failure (error : Option Text)
  | error (text : Text)
  | refused (text : Text)

/-- Whether the tool was executed. -/
def Outcome.executes : Outcome → Bool
  | .refused _ => false
  | _ => true

/-- How far a call of the current batch has come. -/
inductive Phase where
  | waiting
  | executing (attempt start : ℕ)
  /-- The tool has returned, and its result is not yet stored. -/
  | returned (sanitized : Text) (epoch : ℕ)
  | done (result : Except Text Text)

def Phase.isDone : Phase → Bool
  | .done _ => true
  | _ => false

def Phase.holdsPermit : Phase → Bool
  | .executing _ _ | .returned _ _ => true
  | _ => false

def maxRetries : ℕ := 2

/-- An error that is worth retrying. -/
def isTransient (error : Text) : Bool :=
  let mentions (word : String) : Bool := decide (word.toList <:+: error)
  if mentions "not_found" || mentions "unknown" then false
  else mentions "timeout" || mentions "network" || mentions "connection"

/-- The error after the last attempt. -/
def retriesFailed (env : ToolEnv N) (c : Call N) (attempt elapsed : ℕ) (error : Text) : Text :=
  ("Tool " ++ c.resolved env ++ " failed (session: " ++ env.sessionId ++ ", attempts: " ++
    toString (attempt + 1) ++ ", elapsed: " ++ toString (elapsed / 1000000) ++ "ms): ").toList ++
    error

/-! ## Turns -/

/-- A turn, with the calls that it was given and those whose tool it has executed. -/
structure Turn (N : Type) where
  calls : List (Call N)
  batches : List (List (Call N))
  running : List (Call N × Phase)
  executed : List (Call N)

structure AgentState (N : Type) where
  now : ℕ
  cache : ToolResultCache
  /-- How many state-changing calls have completed. -/
  epoch : ℕ
  /-- The turn that holds the lock. -/
  turn : Option (Turn N)
  finished : List (Turn N)
  /-- The epochs of the results that were served from the cache, with those at the time. -/
  served : List (ℕ × ℕ)

namespace AgentState

def init : AgentState N := ⟨0, ∅, 0, none, [], []⟩

variable (env : ToolEnv N)

/-- The lock is taken, and the parsed calls are limited, filtered and batched. -/
def begin (s : AgentState N) (parsed : List (Call N)) : Option (AgentState N) :=
  match s.turn with
  | some _ => none
  | none =>
    let calls := parsed.take env.maxToolCalls
    some { s with turn := some {
      calls
      batches := buildExecutionBatches env (retainUnseen env [] calls)
      running := []
      executed := [] } }

/-- The next batch starts, or the turn ends. -/
def next (s : AgentState N) : Option (AgentState N) :=
  match s.turn with
  | none => none
  | some t =>
    if t.running.all fun r => r.2.isDone then
      match t.batches with
      | batch :: batches => some { s with turn := some { t with
          batches
          running := batch.map fun c => (c, .waiting) } }
      | [] => some { s with turn := none, finished := t :: s.finished }
    else none

/-- Call `i` of the batch, in the turn that holds the lock. -/
def call? (s : AgentState N) (i : ℕ) : Option (Turn N × Call N × Phase) :=
  s.turn.bind fun t => t.running[i]?.map fun r => (t, r)

/-- Call `i` of the batch is in another phase. -/
def setPhase (s : AgentState N) (t : Turn N) (i : ℕ) (c : Call N) (phase : Phase) :
    AgentState N :=
  { s with turn := some { t with running := t.running.set i (c, phase) } }

/-- A call with a permit consults the cache, and executes its tool if that has no result. -/
def check (s : AgentState N) (i : ℕ) : Option (AgentState N) :=
  match s.call? i with
  | some (t, c, .waiting) =>
    if t.running.countP (fun r => r.2.holdsPermit) < env.toolConcurrencyLimit then
      match s.cache.get s.now (c.key env) with
      | some e => some { s.setPhase t i c (.done (.ok e.result)) with
          served := (e.epoch, s.epoch) :: s.served }
      | none => some (s.setPhase t i c (.executing 0 s.now))
    else none
  | _ => none

/-- What a call does when its tool has returned. -/
def afterAttempt (s : AgentState N) (c : Call N) (attempt start : ℕ) : Outcome → Phase
  | .output sanitized => .returned sanitized s.epoch
  | .failure error => .done (.ok
      (("Tool " ++ c.resolved env ++ " execution failed: ").toList ++
        error.getD "Unknown error".toList))
  | .error text | .refused text => afterError text
where
  afterError (text : Text) : Phase :=
    if isTransient text && attempt < maxRetries then .executing (attempt + 1) start
    else .done (.error (retriesFailed env c attempt (s.now - start) text))

/-- The tool of a call returns. -/
def toolReturns (s : AgentState N) (i : ℕ) (outcome : Outcome) : Option (AgentState N) :=
  match s.call? i with
  | some (t, c, .executing attempt start) =>
    some (s.setPhase
      { t with executed := if outcome.executes then c :: t.executed else t.executed } i c
      (s.afterAttempt env c attempt start outcome))
  | _ => none

/-- The result of a call is stored, or cached results are dropped, and the call completes. -/
def store (s : AgentState N) (i : ℕ) : Option (AgentState N) :=
  match s.call? i with
  | some (t, c, .returned sanitized epoch) => some { s.setPhase t i c (.done (.ok sanitized)) with
      cache :=
        if isWriteAction c.arguments then s.cache.invalidate c.name
        else s.cache.put s.now (c.key env) ⟨sanitized, s.now, epoch⟩
      epoch := if env.changesState c then s.epoch + 1 else s.epoch }
  | _ => none

end AgentState

inductive ToolAction (N : Type) where
  | begin (parsed : List (Call N))
  | next
  | check (i : ℕ)
  | toolReturns (i : ℕ) (outcome : Outcome)
  | store (i : ℕ)
  | wait (d : ℕ)

def toolStep (env : ToolEnv N) (s : AgentState N) : ToolAction N → Option (AgentState N)
  | .begin parsed => s.begin env parsed
  | .next => s.next
  | .check i => s.check env i
  | .toolReturns i outcome => s.toolReturns env i outcome
  | .store i => s.store env i
  | .wait d => some { s with now := s.now + d }

end HeraMind.Agent.Tools
