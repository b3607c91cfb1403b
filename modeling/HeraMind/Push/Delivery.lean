/-
# Deliveries and their retries

`deliver_with_retry` and `flush_batch` (`crates/heramind-data-push/src/scheduler.rs`) send one
payload, for one event or for a batch, and try again after a pause when a send fails.  The two
loops are the same, up to the log they start from; they keep the log of the delivery in the store
as they go.  A loop is run in steps from one `await` to the next.  The last flush of a target runs
under a timeout, which drops the loop wherever it is.
-/
import HeraMind.Lib.Run
import Mathlib.Algebra.Group.Nat.Defs

namespace HeraMind.Push

/-! ## Configuration -/

/-- `RetryConfig`. -/
structure RetryConfig where
  maxRetries : ℕ
  backoffSecs : ℕ
  maxBackoffSecs : ℕ
  /-- It is a `u32`. -/
  maxRetries_lt : maxRetries < 2 ^ 32
  /-- They are `u64`s. -/
  backoffSecs_lt : backoffSecs < 2 ^ 64
  maxBackoffSecs_lt : maxBackoffSecs < 2 ^ 64

theorem RetryConfig.default_maxRetries_lt : 3 < 2 ^ 32 := by decide

theorem RetryConfig.default_backoffSecs_lt : 5 < 2 ^ 64 := by decide

theorem RetryConfig.default_maxBackoffSecs_lt : 300 < 2 ^ 64 := by decide

/-- `RetryConfig::default`. -/
def RetryConfig.default : RetryConfig where
  maxRetries := 3
  backoffSecs := 5
  maxBackoffSecs := 300
  maxRetries_lt := default_maxRetries_lt
  backoffSecs_lt := default_backoffSecs_lt
  maxBackoffSecs_lt := default_maxBackoffSecs_lt

/-- `BatchFormat`. -/
inductive BatchFormat : Type where
  | flat
  | nested
  deriving DecidableEq

/-- `BatchConfig`. -/
structure BatchConfig where
  batchSize : ℕ
  batchIntervalMs : ℕ
  format : BatchFormat
  deriving DecidableEq

def BatchConfig.isEnabled (c : BatchConfig) : Bool := decide (1 < c.batchSize)

/-- `BatchConfig::default`. -/
def BatchConfig.default : BatchConfig := ⟨1, 2000, .flat⟩

/-- An event of a data source, as it is pushed. -/
structure Entry (Json : Type) where
  sourceId : String
  value : Json
  timestamp : ℤ
  deriving DecidableEq

/-- What a delivery is made for. -/
structure Destination where
  targetId : String
  template : Option String
  retry : RetryConfig
  format : BatchFormat

/-- The renderer of templates, and the printer of a batch. -/
structure Renderer (Json : Type) where
  render : Option String → Entry Json → Except String String
  batch : BatchFormat → Option String → List (Entry Json) → String

/-! ## Logs -/

/-- `DeliveryStatus`. -/
inductive DeliveryStatus : Type where
  | pending
  | success
  | failed
  | retrying
  deriving DecidableEq

/-- `DeliveryLog`. -/
structure DeliveryLog where
  id : String
  targetId : String
  status : DeliveryStatus
  dataSourceId : String
  payloadSent : String
  response : Option String
  attempts : ℕ
  createdAt : ℤ
  completedAt : Option ℤ
  error : Option String
  deriving DecidableEq

/-- A log before the first attempt. -/
def DeliveryLog.new (id targetId dataSourceId payload : String) (now : ℤ) : DeliveryLog where
  id := id
  targetId := targetId
  status := .pending
  dataSourceId := dataSourceId
  payloadSent := payload
  response := none
  attempts := 0
  createdAt := now
  completedAt := none
  error := none

/-- `DeliveryError`, with the whole seconds of `retry_after`. -/
inductive DeliveryError : Type where
  | rateLimited (retryAfter : Option ℕ)
  | other (message : String)
  deriving DecidableEq

/-- `DEFAULT_429_BACKOFF_SECS`. -/
def default429BackoffSecs : ℕ := 60

namespace DeliveryError

def text : DeliveryError → String
  | .rateLimited retryAfter =>
    "endpoint rate-limited (retry after " ++ toString (retryAfter.getD 60) ++ "s)"
  | .other message => message

def isRateLimited : DeliveryError → Bool
  | .rateLimited _ => true
  | .other _ => false

/-- The pause after an error. -/
def effectiveBackoff (e : DeliveryError) (c : RetryConfig) (backoff : ℕ) : ℕ :=
  match e with
  | .rateLimited retryAfter => retryAfter.getD default429BackoffSecs
  | .other _ => min backoff c.maxBackoffSecs

end DeliveryError

/-! ## The loop -/

/-- `saturating_mul(2)` of a `u64`. -/
def saturatingDouble (n : ℕ) : ℕ := min (n * 2) (2 ^ 64 - 1)

/-- Where the loop is. -/
inductive LoopPc : Type where
  | sending
  | sleeping (wakeAt : ℕ) (error : DeliveryError)
  | returned (result : Except String Unit)
  /-- The future was dropped. -/
  | dropped
  deriving DecidableEq

/-- The loop of a delivery, with the logs that were saved, the outcomes of its sends, and its
pauses after errors that were no rate limits, newest first. -/
structure RetryLoop where
  log : DeliveryLog
  attempt : ℕ
  backoff : ℕ
  pc : LoopPc
  /-- Milliseconds since the start. -/
  elapsed : ℕ
  saved : List DeliveryLog
  sends : List (Except DeliveryError Unit)
  pauses : List ℕ
  deriving DecidableEq

/-- How the loop was called: with the retries of its target, with a receiver of the stop signal
or without, and under a timeout in milliseconds or not. -/
structure LoopConfig where
  retry : RetryConfig
  cancel : Bool
  timeout : Option ℕ

/-- What happens next.  Saving a log may fail. -/
inductive LoopLabel : Type where
  | elapse (d : ℕ)
  | answer (outcome : Except DeliveryError Unit) (now : ℤ) (saves : Bool)
  | wake
  | cancelled (now : ℤ) (saves : Bool)
  | timeout
  deriving DecidableEq

namespace RetryLoop

/-- The first attempt. -/
def start (c : RetryConfig) (log : DeliveryLog) : RetryLoop where
  log := { log with attempts := 1 }
  attempt := 0
  backoff := c.backoffSecs
  pc := .sending
  elapsed := 0
  saved := []
  sends := []
  pauses := []

/-- `save_delivery_log`. -/
def save (l : RetryLoop) (saves : Bool) : RetryLoop :=
  if saves then { l with saved := l.log :: l.saved } else l

/-- A last record is saved. -/
def finish (l : RetryLoop) (status : DeliveryStatus) (error : Option String) (now : ℤ)
    (result : Except String Unit) (saves : Bool) : RetryLoop :=
  save { l with
    log := { l.log with status := status, error := error, completedAt := some now }
    pc := .returned result } saves

/-- A pause before the next attempt. -/
def pause (l : RetryLoop) (c : RetryConfig) (e : DeliveryError) (saves : Bool) : RetryLoop :=
  let secs := e.effectiveBackoff c l.backoff
  save { l with
    log := { l.log with status := .retrying, error := some e.text }
    pc := .sleeping (l.elapsed + secs * 1000) e
    pauses := if e.isRateLimited then l.pauses else secs :: l.pauses } saves

/-- The next attempt. -/
def retry (l : RetryLoop) (e : DeliveryError) : RetryLoop :=
  { l with
    backoff := if e.isRateLimited then l.backoff else saturatingDouble l.backoff
    attempt := l.attempt + 1
    log := { l.log with attempts := (l.attempt + 2) % 2 ^ 32 }
    pc := .sending }

/-- One step. -/
def step (c : LoopConfig) (l : RetryLoop) : LoopLabel → Option RetryLoop
  | .elapse d => some { l with elapsed := l.elapsed + d }
  | .answer outcome now saves =>
    if l.pc = .sending then
      let l := { l with sends := outcome :: l.sends }
      match outcome with
      | .ok _ => some (l.finish .success l.log.error now (.ok ()) saves)
      | .error e =>
        if l.attempt < c.retry.maxRetries then some (l.pause c.retry e saves)
        else some (l.finish .failed (some e.text) now (.error e.text) saves)
    else none
  | .wake =>
    match l.pc with
    | .sleeping wakeAt e => if wakeAt ≤ l.elapsed then some (l.retry e) else none
    | _ => none
  | .cancelled now saves =>
    match l.pc with
    | .sleeping _ e =>
      if c.cancel then
        let text := "Cancelled during retry backoff: " ++ e.text
        some (l.finish .failed (some text) now (.error text) saves)
      else none
    | _ => none
  | .timeout =>
    match l.pc, c.timeout with
    | .returned _, _ | .dropped, _ => none
    | _, some timeout => if timeout ≤ l.elapsed then some { l with pc := .dropped } else none
    | _, none => none

section Save

variable {l : RetryLoop} {saves : Bool}

@[simp] theorem pc_save : (l.save saves).pc = l.pc := by cases saves <;> rfl

@[simp] theorem log_save : (l.save saves).log = l.log := by cases saves <;> rfl

@[simp] theorem attempt_save : (l.save saves).attempt = l.attempt := by cases saves <;> rfl

@[simp] theorem backoff_save : (l.save saves).backoff = l.backoff := by cases saves <;> rfl

@[simp] theorem sends_save : (l.save saves).sends = l.sends := by cases saves <;> rfl

@[simp] theorem pauses_save : (l.save saves).pauses = l.pauses := by cases saves <;> rfl

theorem mem_saved_save {log : DeliveryLog} (h : log ∈ (l.save saves).saved) :
    log = l.log ∨ log ∈ l.saved := by
  cases saves with
  | false => exact Or.inr h
  | true => exact List.mem_cons.mp h

end Save

end RetryLoop

/-! ## The two callers -/

section Callers

variable {Json : Type} (renderer : Renderer Json)

/-- `deliver_with_retry`. -/
def deliverWithRetry (target : Destination) (entry : Entry Json) (logId : String) (now : ℤ) :
    Except String RetryLoop :=
  match renderer.render target.template entry with
  | .error e => .error e
  | .ok payload =>
    .ok (RetryLoop.start target.retry
      (DeliveryLog.new logId target.targetId entry.sourceId payload now))

/-- `is_raw_metric`: what is after the last colon is `_raw`. -/
def isRawMetric (sourceId : String) : Bool :=
  decide (':' ∈ sourceId.toList) &&
    decide ((sourceId.toList.reverse.takeWhile fun c => c ≠ ':').reverse = "_raw".toList)

/-- The entries of a batch that are sent. -/
def withoutRaw (buffer : List (Entry Json)) : List (Entry Json) :=
  buffer.filter fun entry => !isRawMetric entry.sourceId

/-- `flush_batch`. -/
def flushBatch (target : Destination) (buffer : List (Entry Json)) (logId : String) (now : ℤ) :
    Option RetryLoop :=
  match withoutRaw buffer with
  | [] => none
  | entry :: rest =>
    let batch := entry :: rest
    some (RetryLoop.start target.retry
      (DeliveryLog.new logId target.targetId
        (String.intercalate "," (batch.map Entry.sourceId))
        (renderer.batch target.format target.template batch) now))

end Callers

/-- The timeout of the last flush of a target, in milliseconds. -/
def teardownTimeout : ℕ := 30 * 1000

end HeraMind.Push
