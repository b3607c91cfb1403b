/-
# The safety manager

`ExtensionSafetyManager` (`crates/heramind-core/src/extension/safety.rs`) keeps a circuit breaker
for each extension, the extensions that are disabled, and a count of panics, each under a fair
lock of its own.  The calls of the manager are run in sections: a section starts when the lock
that was awaited is granted and ends at the next lock that is awaited, or with the answer.  What a
task holds between two sections are the guards that are in scope there; the guard of an
`if let` is in scope to its end.
-/
import HeraMind.Lib.FairLock
import HeraMind.Lib.KeyedMap
import HeraMind.Lib.Run
import Mathlib.Algebra.Group.Nat.Defs

namespace HeraMind.Safety

open Transition FairLock

/-! ## Circuit breakers -/

inductive CircuitState : Type where
  | closed
  | open
  | halfOpen
  deriving DecidableEq

/-- `ExtensionCircuitBreaker`.  The counts are `u32`. -/
structure CircuitBreaker where
  state : CircuitState
  failureCount : ℕ
  successCount : ℕ
  lastStateChange : ℕ
  failureThreshold : ℕ
  successThreshold : ℕ
  cooldownSecs : ℕ
  deriving DecidableEq

namespace CircuitBreaker

/-- `with_defaults`, at a time in seconds. -/
def withDefaults (wall : ℕ) : CircuitBreaker where
  state := .closed
  failureCount := 0
  successCount := 0
  lastStateChange := wall
  failureThreshold := 5
  successThreshold := 2
  cooldownSecs := 60

def setState (b : CircuitBreaker) (wall : ℕ) (state : CircuitState) : CircuitBreaker :=
  { b with state := state, lastStateChange := wall }

/-- `allow_request`. -/
def allowRequest (b : CircuitBreaker) (wall : ℕ) : Bool × CircuitBreaker :=
  match b.state with
  | .closed => (true, b)
  | .open =>
    if b.cooldownSecs ≤ wall - b.lastStateChange then
      (true, { b.setState wall .halfOpen with successCount := 0 })
    else (false, b)
  | .halfOpen => (true, b)

/-- `fetch_add(1) + 1`. -/
def incremented (n : ℕ) : ℕ := (n + 1) % 2 ^ 32

/-- `record_success`. -/
def recordSuccess (b : CircuitBreaker) (wall : ℕ) : CircuitBreaker :=
  match b.state with
  | .halfOpen =>
    let successes := incremented b.successCount
    if b.successThreshold ≤ successes then
      { b.setState wall .closed with failureCount := 0, successCount := 0 }
    else { b with successCount := successes }
  | .closed => { b with failureCount := 0 }
  | .open => { b.setState wall .halfOpen with successCount := 1 }

/-- `record_failure`. -/
def recordFailure (b : CircuitBreaker) (wall : ℕ) : CircuitBreaker :=
  let failures := incremented b.failureCount
  let counted := { b with failureCount := failures }
  match b.state with
  | .halfOpen => { counted.setState wall .open with failureCount := b.failureThreshold }
  | .closed => if b.failureThreshold ≤ failures then counted.setState wall .open else counted
  | .open => counted

/-- `reset`. -/
def reset (b : CircuitBreaker) (wall : ℕ) : CircuitBreaker :=
  { b.setState wall .closed with failureCount := 0, successCount := 0 }

end CircuitBreaker

/-! ## The manager -/

/-- `DisabledInfo`.  Instants are in nanoseconds. -/
structure DisabledInfo where
  reason : String
  disabledAt : ℕ
  canAutoRecover : Bool
  deriving DecidableEq

/-- `PanicInfo`. -/
structure PanicInfo where
  count : ℕ
  lastPanic : ℕ
  deriving DecidableEq

/-- What the three locks protect, with the clocks. -/
structure Data where
  breakers : HashMap String CircuitBreaker
  disabled : HashMap String DisabledInfo
  panicCounts : HashMap String PanicInfo
  /-- `Instant::now`. -/
  now : ℕ
  /-- `SystemTime::now`, in seconds, which may be set. -/
  wall : ℕ

/-- `ExtensionSafetyStatus`. -/
structure SafetyStatus where
  extensionId : String
  circuitState : Option CircuitState
  failureCount : ℕ
  isDisabled : Bool
  disableReason : Option String
  panicCount : ℕ
  deriving DecidableEq

/-- The time after which a disabled extension recovers. -/
def recoveryTime : ℕ := 300 * 10 ^ 9

/-- The extension is to recover. -/
def DisabledInfo.recovers (info : DisabledInfo) (now : ℕ) : Bool :=
  info.canAutoRecover && decide (recoveryTime < now - info.disabledAt)

namespace Data

variable (d : Data) (id : String)

/-- An atomic operation on the breaker of an extension, if there is one. -/
def updateBreaker (f : CircuitBreaker → ℕ → CircuitBreaker) : Data :=
  match d.breakers.lookup id with
  | some breaker => { d with breakers := d.breakers.insert id (f breaker d.wall) }
  | none => d

/-- One more panic.  `count` is a `u32`. -/
def countPanic : PanicInfo where
  count := CircuitBreaker.incremented (((d.panicCounts.lookup id).map PanicInfo.count).getD 0)
  lastPanic := d.now

/-- The status of an extension that any of the maps knows. -/
def statusOf : Option SafetyStatus :=
  let breaker := d.breakers.lookup id
  let info := d.disabled.lookup id
  let panics := d.panicCounts.lookup id
  if breaker.isSome || info.isSome || panics.isSome then
    some {
      extensionId := id
      circuitState := breaker.map CircuitBreaker.state
      failureCount := (breaker.map CircuitBreaker.failureCount).getD 0
      isDisabled := info.isSome
      disableReason := info.map DisabledInfo.reason
      panicCount := (panics.map PanicInfo.count).getD 0 }
  else none

end Data

/-! ## Calls -/

inductive Lock : Type where
  | breakers
  | disabled
  | panicCounts
  deriving DecidableEq

inductive Call : Type where
  | register (id : String)
  | unregister (id : String)
  | isAllowed (id : String)
  | recordSuccess (id : String)
  | recordFailure (id : String)
  | recordPanic (id : String)
  | disable (id reason : String) (canAutoRecover : Bool)
  | enable (id : String)
  | getStatus
  | getBreaker (id : String)
  deriving DecidableEq

inductive Answer : Type where
  | unit
  | allowed (b : Bool)
  | breaker (b : Option CircuitBreaker)
  | status (status : String → Option SafetyStatus)

/-- Where a call is: the lock it awaits, and what is in scope. -/
inductive Pc : Type where
  | register (id : String)
  | unregisterBreakers (id : String)
  | unregisterDisabled (id : String)
  | unregisterPanicCounts (id : String)
  | isAllowedDisabled (id : String)
  | isAllowedBreakers (id : String)
  | recordSuccess (id : String)
  | recordFailure (id : String)
  | recordPanic (id : String)
  | disable (id reason : String) (canAutoRecover : Bool)
  /-- `recovering` if `is_allowed` made the call. -/
  | enableDisabled (id : String) (recovering : Bool)
  | enableBreakers (id : String) (recovering : Bool)
  | enablePanicCounts (id : String) (recovering : Bool)
  | statusBreakers
  | statusDisabled
  | statusPanicCounts
  | getBreaker (id : String)
  | returned (answer : Answer)

def Call.start : Call → Pc
  | .register id => .register id
  | .unregister id => .unregisterBreakers id
  | .isAllowed id => .isAllowedDisabled id
  | .recordSuccess id => .recordSuccess id
  | .recordFailure id => .recordFailure id
  | .recordPanic id => .recordPanic id
  | .disable id reason canAutoRecover => .disable id reason canAutoRecover
  | .enable id => .enableDisabled id false
  | .getStatus => .statusBreakers
  | .getBreaker id => .getBreaker id

namespace Pc

/-- The guard that is awaited. -/
def awaits : Pc → Option (Lock × Mode)
  | register _ | unregisterBreakers _ => some (.breakers, .write)
  | unregisterDisabled _ => some (.disabled, .write)
  | unregisterPanicCounts _ => some (.panicCounts, .write)
  | isAllowedDisabled _ => some (.disabled, .read)
  | isAllowedBreakers _ | recordSuccess _ | recordFailure _ => some (.breakers, .read)
  | recordPanic _ => some (.panicCounts, .write)
  | disable _ _ _ | enableDisabled _ _ => some (.disabled, .write)
  | enableBreakers _ _ => some (.breakers, .read)
  | enablePanicCounts _ _ => some (.panicCounts, .write)
  | statusBreakers => some (.breakers, .read)
  | statusDisabled => some (.disabled, .read)
  | statusPanicCounts => some (.panicCounts, .read)
  | getBreaker _ => some (.breakers, .read)
  | returned _ => none

/-- The guard of the `if let` of `is_allowed`, around its call of `enable_extension`. -/
def caller (recovering : Bool) : List (Lock × Mode) :=
  if recovering then [(.disabled, .read)] else []

/-- The guards that are in scope. -/
def holds : Pc → List (Lock × Mode)
  | unregisterDisabled _ => [(.breakers, .write)]
  | unregisterPanicCounts _ => [(.breakers, .write), (.disabled, .write)]
  | enableDisabled _ recovering => caller recovering
  | enableBreakers _ recovering | enablePanicCounts _ recovering =>
    (.disabled, .write) :: caller recovering
  | statusDisabled => [(.breakers, .read)]
  | statusPanicCounts => [(.breakers, .read), (.disabled, .read)]
  | _ => []

/-- What `enable_extension` returns to. -/
def enabled (recovering : Bool) : Pc :=
  .returned (if recovering then .allowed true else .unit)

/-- The section that is run when the awaited lock is granted.  The operations of a breaker are
atomic. -/
def resume (d : Data) : Pc → Pc × Data
  | register id =>
    let breaker := CircuitBreaker.withDefaults d.wall
    (.returned (.breaker (some breaker)), { d with breakers := d.breakers.insert id breaker })
  | unregisterBreakers id => (.unregisterDisabled id, d)
  | unregisterDisabled id => (.unregisterPanicCounts id, d)
  | unregisterPanicCounts id =>
    (.returned .unit, { d with
      breakers := d.breakers.erase id
      disabled := d.disabled.erase id
      panicCounts := d.panicCounts.erase id })
  | isAllowedDisabled id =>
    match d.disabled.lookup id with
    | some info =>
      if info.recovers d.now then (.enableDisabled id true, d) else (.returned (.allowed false), d)
    | none => (.isAllowedBreakers id, d)
  | isAllowedBreakers id =>
    match d.breakers.lookup id with
    | some breaker =>
      (.returned (.allowed (breaker.allowRequest d.wall).1),
        d.updateBreaker id fun b wall => (b.allowRequest wall).2)
    | none => (.returned (.allowed true), d)
  | recordSuccess id => (.returned .unit, d.updateBreaker id CircuitBreaker.recordSuccess)
  | recordFailure id => (.returned .unit, d.updateBreaker id CircuitBreaker.recordFailure)
  | recordPanic id =>
    let info := d.countPanic id
    (if 3 ≤ info.count then
        .disable id "Too many panics (circuit breaker triggered)" false
      else .returned .unit,
      { d with panicCounts := d.panicCounts.insert id info })
  | disable id reason canAutoRecover =>
    (.returned .unit, { d with
      disabled := d.disabled.insert id ⟨reason, d.now, canAutoRecover⟩ })
  | enableDisabled id recovering =>
    match d.disabled.lookup id with
    | some _ => (.enableBreakers id recovering, { d with disabled := d.disabled.erase id })
    | none => (enabled recovering, d)
  | enableBreakers id recovering =>
    (.enablePanicCounts id recovering, d.updateBreaker id CircuitBreaker.reset)
  | enablePanicCounts id recovering =>
    (enabled recovering, { d with panicCounts := d.panicCounts.erase id })
  | statusBreakers => (.statusDisabled, d)
  | statusDisabled => (.statusPanicCounts, d)
  | statusPanicCounts => (.returned (.status d.statusOf), d)
  | getBreaker id => (.returned (.breaker (d.breakers.lookup id)), d)
  | returned answer => (.returned answer, d)

end Pc

/-! ## Steps -/

abbrev TaskId := ℕ

/-- The manager and the calls that were made of it. -/
structure SafetyManager where
  data : Data
  locks : Lock → RwLock TaskId
  tasks : List Pc

/-- What happens next. -/
inductive Label : Type where
  | call (c : Call)
  | run (n : TaskId)
  /-- Nanoseconds pass. -/
  | elapse (d : ℕ)
  /-- The clock of the system is set. -/
  | setWall (wall : ℕ)

/-- The guard is dropped, if it goes out of scope. -/
def drops (before after : Pc) (l : RwLock TaskId) (n : TaskId) (k : Lock) (m : Mode) :
    RwLock TaskId :=
  if ((k, m) ∈ before.holds ∨ before.awaits = some (k, m)) ∧ (k, m) ∉ after.holds then l.release n m
  else l

/-- The awaited lock is requested. -/
def requests (after : Pc) (l : RwLock TaskId) (n : TaskId) (k : Lock) : RwLock TaskId :=
  match after.awaits with
  | some (k', m) => if k' = k then l.request n m else l
  | none => l

/-- What a section does to a lock. -/
def relock (before after : Pc) (n : TaskId) (k : Lock) (l : RwLock TaskId) : RwLock TaskId :=
  requests after (drops before after (drops before after l n k .write) n k .read) n k

namespace SafetyManager

def new (now wall : ℕ) : SafetyManager where
  data := ⟨∅, ∅, ∅, now, wall⟩
  locks _ := RwLock.new
  tasks := []

/-- The call has been granted the lock it awaits. -/
def Granted (s : SafetyManager) (n : TaskId) (pc : Pc) : Prop :=
  ∃ k ∈ pc.awaits, (n, k.2) ∈ (s.locks k.1).held

instance (s : SafetyManager) (n : TaskId) (pc : Pc) : Decidable (s.Granted n pc) := by
  unfold Granted
  infer_instance

def step (s : SafetyManager) : Label → Option SafetyManager
  | .call c =>
    some { s with
      locks := fun k => requests c.start (s.locks k) s.tasks.length k
      tasks := s.tasks ++ [c.start] }
  | .run n =>
    match s.tasks[n]? with
    | none => none
    | some pc =>
      if s.Granted n pc then
        let (pc', data) := pc.resume s.data
        some {
          data := data
          locks := fun k => relock pc pc' n k (s.locks k)
          tasks := s.tasks.set n pc' }
      else none
  | .elapse d => some { s with data := { s.data with now := s.data.now + d } }
  | .setWall wall => some { s with data := { s.data with wall := wall } }

end SafetyManager

end HeraMind.Safety
