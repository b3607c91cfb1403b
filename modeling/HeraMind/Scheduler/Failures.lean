/-
# Failures in a row

The scheduled executions of an agent, each with its inline retry, and the `consecutive_failures` that
they leave (`crates/heramind-agent/src/ai_agent/scheduler.rs`).
-/
import Mathlib.Tactic.MkIffOfInductiveProp
import Mathlib.Algebra.Group.Nat.Defs

namespace HeraMind.Scheduler

inductive ExecutionStatus where
  | running
  | completed
  | failed
  | partially
  deriving DecidableEq

/-- How `execute_agent` ends: with the status of the record, or with an error. -/
abbrev Execution := Option ExecutionStatus

/-- How the execution of a run ends, and how its retry would. -/
structure ScheduledRun where
  execution : Execution
  retry : Execution

/-- What a run leaves: the counter, the executions it made, and whether a sum of it overflowed. -/
structure RunResult where
  consecutiveFailures : ℕ
  executions : List Execution
  overflows : Bool

/-- A run of the loop of `start`. -/
def ScheduledRun.run (maxRetries consecutive : ℕ) (r : ScheduledRun) : RunResult :=
  match r.execution with
  | some status => ⟨if consecutive > 0 then 0 else consecutive, [some status], false⟩
  | none =>
    let newConsecutive := consecutive + 1
    if newConsecutive ≤ maxRetries ∧ maxRetries > 0 then
      let backoff := 5 * 2 ^ (newConsecutive - 1)
      ⟨if r.retry.isSome then 0 else newConsecutive, [none, r.retry],
        2 ^ 32 ≤ newConsecutive ∨ 2 ^ 64 ≤ backoff⟩
    else ⟨newConsecutive, [none], 2 ^ 32 ≤ newConsecutive⟩

/-- The counter after some runs, the last one first. -/
def consecutiveFailures (maxRetries : ℕ) : List ScheduledRun → ℕ
  | [] => 0
  | r :: rs => (r.run maxRetries (consecutiveFailures maxRetries rs)).consecutiveFailures

/-- As `execute_with_retry` of the event triggers has it. -/
def Execution.isFailure (e : Execution) : Bool := e = none ∨ e = some .failed

/-- The runs since the last one that ended in a record which has not failed. -/
def failedRuns (maxRetries : ℕ) : List ScheduledRun → ℕ
  | [] => 0
  | r :: rs =>
    if (r.run maxRetries (consecutiveFailures maxRetries rs)).executions.getLast?.any
      Execution.isFailure then failedRuns maxRetries rs + 1 else 0

/-- The last run is counted, a failed record is retried like an error, and no sum overflows. -/
@[mk_iff countsRun_iff]
structure CountsRun (maxRetries : ℕ) (r : ScheduledRun) (rs : List ScheduledRun) : Prop where
  counted : consecutiveFailures maxRetries (r :: rs) = failedRuns maxRetries (r :: rs)
  retried : Execution.isFailure r.execution = true →
    (r.run maxRetries (consecutiveFailures maxRetries rs)).executions.length =
      (ScheduledRun.run maxRetries (consecutiveFailures maxRetries rs)
        ⟨none, r.retry⟩).executions.length
  fits : (r.run maxRetries (consecutiveFailures maxRetries rs)).overflows = false

/-- Every run is counted. -/
def CountsRuns (maxRetries : ℕ) : List ScheduledRun → Prop
  | [] => True
  | r :: rs => CountsRuns maxRetries rs ∧ CountsRun maxRetries r rs

/-- No record of the run has failed, and there are not too many failures before it. -/
def Countable (maxRetries consecutive : ℕ) (r : ScheduledRun) : Prop :=
  r.execution ≠ some .failed ∧ (r.execution = none → consecutive + 1 < 2 ^ 32 ∧
    (consecutive < maxRetries → r.retry ≠ some .failed ∧ consecutive < 62))

def AllCountable (maxRetries : ℕ) : List ScheduledRun → Prop
  | [] => True
  | r :: rs =>
    AllCountable maxRetries rs ∧ Countable maxRetries (consecutiveFailures maxRetries rs) r

theorem backoff_fits_iff (n : ℕ) : ¬2 ^ 64 ≤ 5 * 2 ^ n ↔ n < 62 := by
  constructor
  · intro h
    refine Nat.lt_of_not_le fun hn => h ?_
    have hpow : 2 ^ 62 ≤ 2 ^ n := Nat.pow_le_pow_right (by decide) (by omega)
    omega
  · intro h
    have hpow : 2 ^ n ≤ 2 ^ 61 := Nat.pow_le_pow_right (by decide) (by omega)
    omega

theorem countsRun_iff_countable {maxRetries : ℕ} {rs : List ScheduledRun}
    (h : consecutiveFailures maxRetries rs = failedRuns maxRetries rs) (r : ScheduledRun) :
    CountsRun maxRetries r rs ↔ Countable maxRetries (consecutiveFailures maxRetries rs) r := by
  rw [countsRun_iff, consecutiveFailures, failedRuns, ← h]
  generalize consecutiveFailures maxRetries rs = n
  obtain ⟨execution, retry⟩ := r
  cases execution with
  | some status =>
    cases status <;> simp [ScheduledRun.run, Execution.isFailure, Countable]
    intro hcount
    split at hcount <;> omega
  | none =>
    by_cases hretry : n < maxRetries
    · have hguard : n + 1 ≤ maxRetries ∧ maxRetries > 0 := by omega
      have hbackoff := backoff_fits_iff n
      rcases retry with _ | status
      · simp [ScheduledRun.run, hguard, Execution.isFailure, Countable, hretry]
        omega
      · cases status <;>
          simp [ScheduledRun.run, hguard, Execution.isFailure, Countable, hretry] <;> omega
    · have hguard : ¬(n + 1 ≤ maxRetries ∧ maxRetries > 0) := by omega
      simp [ScheduledRun.run, Nat.succ_le_iff, Execution.isFailure, Countable, hretry]
      omega

/-- Every run is counted exactly when all can be. -/
theorem countsRuns_iff (maxRetries : ℕ) (runs : List ScheduledRun) :
    CountsRuns maxRetries runs ↔ AllCountable maxRetries runs := by
  induction runs with
  | nil => exact Iff.rfl
  | cons r rs ih =>
    refine and_congr_left' ih |>.trans (and_congr_right fun hrs => countsRun_iff_countable ?_ r)
    cases rs with
    | nil => rfl
    | cons r' rs => exact (ih.mpr hrs).2.counted

/-- The first run ends in a failed record; it is not counted. -/
theorem failed_record_not_counted : ¬ ∀ maxRetries runs, CountsRuns maxRetries runs := by
  intro h
  have hcounted := (h 3 [⟨some .failed, some .completed⟩]).2.counted
  exact absurd hcounted (by decide)

end HeraMind.Scheduler
