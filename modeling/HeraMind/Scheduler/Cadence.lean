/-
# A task keeps its schedule

`crates/heramind-agent/src/ai_agent/scheduler.rs`: what a task's later times have to do with its
schedule.  An interval keeps its timetable as long as it is given, and a cron schedule its timezone
as long as the task names it: the default timezone and the default interval are used for the first
time only, and an interval that is stored with a cron schedule is followed in its place.
-/
import HeraMind.Lib.Run
import HeraMind.Lib.Timetable
import HeraMind.Scheduler.Schedule

namespace HeraMind.Scheduler

open Timetable Transition

/-! ## The arithmetic of an interval -/

/-- The sums of an execution stay within `i64`. -/
structure SumsFit (interval : UInt64) (next now : Int64) : Prop where
  given : (interval.toNat : ℤ) < 2 ^ 63
  ahead : next.toInt + interval.toNat < 2 ^ 63
  late : now.toInt + interval.toNat < 2 ^ 63
  behind : now.toInt - next.toInt < 2 ^ 63

variable {next now : Int64} {interval : UInt64}

theorem bmod_of_fits {n : ℤ} (hmin : -2 ^ 63 ≤ n) (hmax : n < 2 ^ 63) : n.bmod (2 ^ 64) = n :=
  Int.bmod_eq_of_le (by omega) (by omega)

theorem toInt_asI64 (h : (interval.toNat : ℤ) < 2 ^ 63) :
    interval.toInt64.toInt = interval.toNat := by
  have hbits : interval.toInt64.toInt = (interval.toNat : ℤ).bmod (2 ^ 64) :=
    BitVec.toInt_eq_toNat_bmod _
  rw [hbits]
  exact bmod_of_fits (by omega) h

theorem toNat_pos (h : interval ≠ 0) : 0 < (interval.toNat : ℤ) := by
  have hne : interval.toNat ≠ 0 := fun heq => h (UInt64.toNat_inj.mp heq)
  omega

/-- Where the sums stay within `i64`, the next time of an interval is the one of the catch-up. -/
theorem toInt_nextOfInterval (hpos : interval ≠ 0) (hfit : SumsFit interval next now)
    (hdue : next ≤ now) :
    (nextOfInterval next interval now).toInt = catchUp next.toInt interval.toNat now.toInt := by
  have hi := toNat_pos hpos
  have hmin := next.le_toInt
  have hle : next.toInt ≤ now.toInt := Int64.le_iff_toInt_le.mp hdue
  obtain ⟨hcast, hahead, hlate, hbehind⟩ := hfit
  have hnext : (next + interval.toInt64).toInt = next.toInt + interval.toNat := by
    rw [Int64.toInt_add, toInt_asI64 hcast]
    exact bmod_of_fits (by omega) hahead
  unfold nextOfInterval catchUp
  dsimp only
  by_cases hgo : now < next + interval.toInt64
  · have hgo' : now.toInt < next.toInt + interval.toNat := by
      rw [← hnext]
      exact Int64.lt_iff_toInt_lt.mp hgo
    rw [if_pos hgo, if_pos hgo', hnext]
  · have hgo' : ¬ now.toInt < next.toInt + interval.toNat := by
      rw [← hnext]
      exact fun h => hgo (Int64.lt_iff_toInt_lt.mpr h)
    rw [if_neg hgo, if_neg hgo']
    -- the sums of the catch-up, one by one
    generalize hd : now.toInt - (next.toInt + interval.toNat) = d
    have hd_nonneg : 0 ≤ d := by omega
    have hsub : (now - (next + interval.toInt64)).toInt = d := by
      rw [Int64.toInt_sub, hnext, hd]
      exact bmod_of_fits (by omega) (by omega)
    have hquot_nonneg : 0 ≤ d.tdiv interval.toNat := Int.tdiv_nonneg hd_nonneg (by omega)
    have hquot_le : d.tdiv interval.toNat ≤ d := by
      rw [Int.tdiv_eq_ediv_of_nonneg hd_nonneg]
      exact Int.ediv_le_self _ hd_nonneg
    have hquot : ((now - (next + interval.toInt64)) / interval.toInt64).toInt
        = d.tdiv interval.toNat := by
      rw [Int64.toInt_div, hsub, toInt_asI64 hcast]
      exact bmod_of_fits (by omega) (by omega)
    have hsucc : ((now - (next + interval.toInt64)) / interval.toInt64 + 1).toInt
        = d.tdiv interval.toNat + 1 := by
      rw [Int64.toInt_add, hquot]
      exact bmod_of_fits (by rw [Int64.toInt_one]; omega) (by rw [Int64.toInt_one]; omega)
    have hspec : now.toInt < catchUp next.toInt interval.toNat now.toInt ∧
        catchUp next.toInt interval.toNat now.toInt ≤ now.toInt + interval.toNat ∧ _ :=
      catchUp_spec hi hle
    unfold catchUp at hspec
    rw [if_neg hgo', hd] at hspec
    have hmul : 0 ≤ (d.tdiv interval.toNat + 1) * (interval.toNat : ℤ) :=
      Int.mul_nonneg (by omega) (by omega)
    have hprod : (((now - (next + interval.toInt64)) / interval.toInt64 + 1) *
        interval.toInt64).toInt = (d.tdiv interval.toNat + 1) * interval.toNat := by
      rw [Int64.toInt_mul, hsucc, toInt_asI64 hcast]
      exact bmod_of_fits (by omega) (by omega)
    rw [Int64.toInt_add, hnext, hprod]
    exact bmod_of_fits (by omega) (by omega)

/-! ## What a task keeps of its schedule -/

namespace Cadence

variable {Cron Tz : Type} (cal : Calendar Cron Tz)

/-- A task and the default timezone. -/
structure State (Cron Tz : Type) where
  task : ScheduledTask Cron
  defaultTz : Option Tz

/-- An execution that is due at a tick, with what the clock says after that, or a call of
`set_default_timezone`. -/
inductive Action where
  | execute (now clock : DateTime)
  | setDefaultTimezone (timezone : String)

def step (s : State Cron Tz) : Action → Option (State Cron Tz)
  | .execute now clock =>
    if s.task.IsDue now.timestamp then
      some { s with task := updateNextExecution cal s.task now.timestamp clock }
    else none
  | .setDefaultTimezone timezone =>
    some { s with defaultTz := (cal.parseTz timezone).or s.defaultTz }

/-- The interval of a schedule. -/
def intervalOf (schedule : AgentSchedule) : UInt64 := schedule.intervalSeconds.getD 300

/-- Schedules that are never due. -/
def OnDemand (schedule : AgentSchedule) : Prop :=
  schedule.scheduleType = .manual ∨ schedule.scheduleType = .event ∨
    schedule.scheduleType = .interval ∧ schedule.intervalSeconds = some 0

/-- A task that was made of a schedule. -/
structure Follows (schedule : AgentSchedule) (first : Int64) (task : ScheduledTask Cron) : Prop where
  interval : task.intervalSeconds = schedule.intervalSeconds
  timezone : task.timezone = schedule.timezone
  cron : schedule.scheduleType = .cron → ∃ e c, schedule.cronExpression = some e ∧
    cal.parseSchedule e = .ok c ∧ task.cronSchedule = some c
  plain : schedule.scheduleType ≠ .cron → task.cronSchedule = none
  onTime : schedule.scheduleType = .interval →
    task.nextExecution.toInt ∈ times first.toInt (intervalOf schedule).toNat
  never : OnDemand schedule → task.nextExecution = Int64.maxValue

/-- The sums of an interval schedule stay within `i64`. -/
def SumsStay (schedule : AgentSchedule) (s : State Cron Tz) : Action → Prop
  | .execute now _ => schedule.scheduleType = .interval → ∀ i, schedule.intervalSeconds = some i →
      SumsFit i s.task.nextExecution now.timestamp
  | .setDefaultTimezone _ => True

variable {cal} {schedule : AgentSchedule} {first : Int64} {task : ScheduledTask Cron}

theorem parseCronExpression_eq_ok {e : String} {c : Cron} :
    parseCronExpression cal e = .ok c ↔ cal.parseSchedule e = .ok c := by
  unfold parseCronExpression
  cases cal.parseSchedule e with
  | error detail => exact ⟨fun h => (by cases h), fun h => (by cases h)⟩
  | ok c' =>
    constructor
    · intro h
      cases h
      rfl
    · intro h
      cases h
      rfl

theorem inFuture_of_lt {now u : DateTime} (h : now.timestamp < u.timestamp) :
    inFuture now u = u.timestamp := by
  unfold inFuture
  rw [if_neg (Int64.not_le.mpr h)]

variable {clock : DateTime}

/-- The time computed from a cron schedule is the first instant after now. -/
theorem calculateNextExecution_cron {e : String} {c : Cron} {defaultTz : Option Tz}
    {next : Int64} (htype : schedule.scheduleType = .cron)
    (hexpr : schedule.cronExpression = some e) (hparse : cal.parseSchedule e = .ok c) :
    (∃ c', calculateNextExecution cal defaultTz clock schedule = .ok (next, c')) ↔
      ∃ u, cal.next c (scheduleTz cal defaultTz schedule) clock = some u ∧ u.timestamp = next := by
  unfold calculateNextExecution
  rw [htype]
  dsimp only
  rw [hexpr]
  dsimp only
  rw [parseCronExpression_eq_ok.mpr hparse]
  dsimp only
  cases hnext : cal.next c (scheduleTz cal defaultTz schedule) clock with
  | none => exact ⟨fun ⟨_, h⟩ => (by cases h), fun ⟨_, h, _⟩ => (by cases h)⟩
  | some u =>
    dsimp only
    rw [inFuture_of_lt (cal.next_lt hnext)]
    constructor
    · rintro ⟨c', h⟩
      exact ⟨u, rfl, (Prod.mk.inj (Except.ok.inj h)).1⟩
    · rintro ⟨u', hu, rfl⟩
      cases hu
      exact ⟨_, rfl⟩

/-- The task of a schedule follows it. -/
theorem follows_scheduleAgent {defaultTz : Option Tz} {t₀ : DateTime} {agent : AiAgent}
    (h : scheduleAgent cal defaultTz t₀ agent = .ok task) :
    Follows cal agent.schedule task.nextExecution task := by
  unfold scheduleAgent at h
  cases hcalc : calculateNextExecution cal defaultTz t₀ agent.schedule with
  | error e =>
    rw [hcalc] at h
    cases h
  | ok result =>
    obtain ⟨next, cronSchedule⟩ := result
    rw [hcalc] at h
    cases h
    unfold calculateNextExecution at hcalc
    constructor
    · rfl
    · rfl
    · intro htype
      rw [htype] at hcalc
      dsimp only at hcalc
      cases hexpr : agent.schedule.cronExpression with
      | none =>
        rw [hexpr] at hcalc
        cases hcalc
      | some e =>
        rw [hexpr] at hcalc
        dsimp only at hcalc
        cases hparse : parseCronExpression cal e with
        | error detail =>
          rw [hparse] at hcalc
          cases hcalc
        | ok c =>
          rw [hparse] at hcalc
          dsimp only at hcalc
          split at hcalc
          · cases hcalc
          · cases hcalc
            exact ⟨e, c, rfl, parseCronExpression_eq_ok.mp hparse, rfl⟩
    · intro htype
      cases hkind : agent.schedule.scheduleType with
      | cron => exact absurd hkind htype
      | manual | event =>
        rw [hkind] at hcalc
        cases hcalc
        rfl
      | interval =>
        rw [hkind] at hcalc
        dsimp only at hcalc
        split at hcalc
        · cases hcalc
          rfl
        · cases hcalc
          rfl
    · exact fun _ => first_mem_times
    · rintro (htype | htype | ⟨htype, hzero⟩)
      · rw [htype] at hcalc
        cases hcalc
        rfl
      · rw [htype] at hcalc
        cases hcalc
        rfl
      · rw [htype] at hcalc
        dsimp only at hcalc
        rw [if_pos hzero] at hcalc
        cases hcalc
        rfl

theorem not_isDue_maxValue {now : DateTime} (h : task.nextExecution = Int64.maxValue) :
    ¬ task.IsDue now.timestamp := by
  rintro ⟨-, hle⟩
  rw [h] at hle
  have hle' := Int64.le_iff_toInt_le.mp hle
  rw [Int64.toInt_maxValue] at hle'
  have := now.leMax
  omega

variable {now : Int64} {i : UInt64}

theorem updateNextExecution_some (h : task.intervalSeconds = some i) (hi : i ≠ 0) :
    updateNextExecution cal task now clock
      = { task with nextExecution := nextOfInterval task.nextExecution i now } := by
  unfold updateNextExecution
  rw [h]
  exact if_neg hi

theorem updateNextExecution_zero (h : task.intervalSeconds = some 0) :
    updateNextExecution cal task now clock = { task with nextExecution := Int64.maxValue } := by
  unfold updateNextExecution
  rw [h]
  exact if_pos rfl

theorem updateNextExecution_plain
    (h : task.intervalSeconds = none) (hcron : task.cronSchedule = none) :
    updateNextExecution cal task now clock = { task with enabled := false } := by
  unfold updateNextExecution
  rw [h, hcron]

/-- What the next time of a cron task is, if there is one. -/
theorem nextExecution_update_cron {c : Cron}
    (h : task.intervalSeconds = none) (hcron : task.cronSchedule = some c) :
    (updateNextExecution cal task now clock).nextExecution
      = ((cal.next c (task.timezone.bind cal.parseTz) clock).map DateTime.timestamp).getD
        task.nextExecution := by
  unfold updateNextExecution
  rw [h, hcron]
  cases hnext : cal.next c (task.timezone.bind cal.parseTz) clock with
  | none | some u =>
    dsimp only
    rw [hnext]
    rfl

/-- An execution changes only when the task is executed next, and whether it is enabled. -/
theorem updateNextExecution_frame (task : ScheduledTask Cron) (now : Int64) (clock : DateTime) :
    ∃ next enabled, updateNextExecution cal task now clock
      = { task with nextExecution := next, enabled := enabled } := by
  unfold updateNextExecution
  split
  · split
    · exact ⟨_, task.enabled, rfl⟩
    · exact ⟨_, task.enabled, rfl⟩
  · split
    · split
      · exact ⟨_, task.enabled, rfl⟩
      · exact ⟨task.nextExecution, _, rfl⟩
    · exact ⟨task.nextExecution, _, rfl⟩

/-! ## Executions -/

variable {s : ScheduledTask Cron}

theorem Follows.mem_times (h : Follows cal schedule first s)
    (htype : schedule.scheduleType = .interval) {now : DateTime}
    (hi : schedule.intervalSeconds = some i) (hdue : s.IsDue now.timestamp) :
    i ≠ 0 ∧ s.nextExecution.toInt ∈ times first.toInt i.toNat := by
  constructor
  · rintro rfl
    exact not_isDue_maxValue (h.never (Or.inr (Or.inr ⟨htype, hi⟩))) hdue
  · have htimes := h.onTime htype
    unfold intervalOf at htimes
    rwa [hi] at htimes

/-- An execution with an interval moves the task to the next time of its timetable. -/
theorem isNext_update (h : Follows cal schedule first s)
    (htype : schedule.scheduleType = .interval) {now clock : DateTime}
    (hi : schedule.intervalSeconds = some i) (hdue : s.IsDue now.timestamp)
    (hfit : SumsFit i s.nextExecution now.timestamp) :
    IsNext first.toInt i.toNat now.timestamp.toInt
      (updateNextExecution cal s now.timestamp clock).nextExecution.toInt := by
  obtain ⟨hne, hmem⟩ := h.mem_times htype hi hdue
  rw [updateNextExecution_some (h.interval.trans hi) hne, toInt_nextOfInterval hne hfit hdue.2]
  exact isNext_catchUp (toNat_pos hne) hmem (Int64.le_iff_toInt_le.mp hdue.2)

theorem follows_update (h : Follows cal schedule first s)
    {now clock : DateTime} (hdue : s.IsDue now.timestamp)
    (hfit : schedule.scheduleType = .interval → ∀ i, schedule.intervalSeconds = some i →
      SumsFit i s.nextExecution now.timestamp) :
    Follows cal schedule first (updateNextExecution cal s now.timestamp clock) := by
  obtain ⟨next, enabled, hframe⟩ : ∃ next enabled, updateNextExecution cal s now.timestamp clock
      = { s with nextExecution := next, enabled := enabled } :=
    updateNextExecution_frame s now.timestamp clock
  constructor
  · rw [hframe]
    exact h.interval
  · rw [hframe]
    exact h.timezone
  · rw [hframe]
    exact h.cron
  · rw [hframe]
    exact h.plain
  · intro htype
    cases hi : schedule.intervalSeconds with
    | none =>
      have hplain := h.plain (by rw [htype]; decide)
      rw [updateNextExecution_plain (h.interval.trans hi) hplain]
      exact h.onTime htype
    | some i =>
      unfold intervalOf
      rw [hi]
      exact (isNext_update h htype hi hdue (hfit htype i hi)).mem
  · intro hnever
    exact absurd hdue (not_isDue_maxValue (h.never hnever))

/-- The task follows its schedule in every run in which the sums of an interval fit. -/
theorem follows_run {tr : List (State Cron Tz × Action)} {s₀ s : State Cron Tz}
    (h : Follows cal schedule first s₀.task) (hrun : Run (step cal) s₀ tr s)
    (hfit : Within (SumsStay schedule) tr) : Follows cal schedule first s.task := by
  refine hrun.invariant (G := SumsStay schedule) (I := fun s => Follows cal schedule first s.task)
    hfit h ?_
  intro s a s' hfollows hstay hstep
  cases a with
  | execute now clock =>
    rw [step] at hstep
    split at hstep
    · rename_i hdue
      cases hstep
      exact follows_update hfollows hdue hstay
    · cases hstep
  | setDefaultTimezone timezone =>
    cases hstep
    exact hfollows

variable (cal schedule)

/-- The time that an execution sets keeps the schedule: it is later than the execution, the next one
of the timetable of an interval, and for a cron schedule the one that would be computed now. -/
structure Keeps (defaultTz : Option Tz) (first : Int64) (now clock : DateTime) (next : Int64) :
    Prop where
  later : now.timestamp < next
  planned : schedule.scheduleType = .interval →
    IsNext first.toInt (intervalOf schedule).toNat now.timestamp.toInt next.toInt
  computed : schedule.scheduleType = .cron →
    ∃ c, calculateNextExecution cal defaultTz clock schedule = .ok (next, c)

/-- When a cron task goes on to an instant: it has no interval and the same instant comes next in
the timezone it names, or in UTC, or the interval happens to lead to it. -/
def GoesOnTo (task : ScheduledTask Cron) (now clock : DateTime) (c : Cron) (u : DateTime) : Prop :=
  (schedule.intervalSeconds = none ∧
    ∃ v, cal.next c (schedule.timezone.bind cal.parseTz) clock = some v ∧
      v.timestamp = u.timestamp) ∨
  ∃ i, schedule.intervalSeconds = some i ∧ i ≠ 0 ∧
    SumsFit i task.nextExecution now.timestamp ∧
    u.timestamp.toInt ≤ now.timestamp.toInt + i.toNat ∧
    (i.toNat : ℤ) ∣ u.timestamp.toInt - task.nextExecution.toInt

/-- When an execution keeps the schedule. -/
structure KeepsWhen (defaultTz : Option Tz) (task : ScheduledTask Cron) (now clock : DateTime) :
    Prop where
  interval : schedule.scheduleType = .interval → ∃ i, schedule.intervalSeconds = some i ∧
    SumsFit i task.nextExecution now.timestamp
  cron : schedule.scheduleType = .cron → ∃ c u, task.cronSchedule = some c ∧
    cal.next c (scheduleTz cal defaultTz schedule) clock = some u ∧
    now.timestamp < u.timestamp ∧ GoesOnTo cal schedule task now clock c u

variable {cal schedule} {defaultTz : Option Tz} {now clock : DateTime}

theorem not_keeps_of_unchanged {next : Int64} (h : next ≤ now.timestamp) :
    ¬ Keeps cal schedule defaultTz first now clock next := by
  intro hkeeps
  exact Int64.not_le.mpr hkeeps.later h

/-- An execution with an interval keeps the schedule where the interval is given. -/
theorem keeps_interval (h : Follows cal schedule first task)
    (htype : schedule.scheduleType = .interval) (hdue : task.IsDue now.timestamp) :
    (KeepsWhen cal schedule defaultTz task now clock →
      Keeps cal schedule defaultTz first now clock
        (updateNextExecution cal task now.timestamp clock).nextExecution) ∧
    ((∀ i, schedule.intervalSeconds = some i → SumsFit i task.nextExecution now.timestamp) →
      Keeps cal schedule defaultTz first now clock
        (updateNextExecution cal task now.timestamp clock).nextExecution →
      KeepsWhen cal schedule defaultTz task now clock) := by
  have hcron : schedule.scheduleType ≠ .cron := by
    rw [htype]
    decide
  constructor
  · intro hwhen
    obtain ⟨i, hi, hfit⟩ := hwhen.interval htype
    have hnext : IsNext first.toInt i.toNat now.timestamp.toInt
        (updateNextExecution cal task now.timestamp clock).nextExecution.toInt :=
      isNext_update h htype hi hdue hfit
    refine ⟨Int64.lt_iff_toInt_lt.mpr hnext.1.2, fun _ => ?_, fun htype' => absurd htype' hcron⟩
    unfold intervalOf
    rwa [hi]
  · intro hfits hkeeps
    cases hi : schedule.intervalSeconds with
    | none =>
      -- a task without an interval is disabled, and its time has passed
      rw [updateNextExecution_plain (h.interval.trans hi) (h.plain hcron)] at hkeeps
      exact absurd hkeeps (not_keeps_of_unchanged hdue.2)
    | some i => exact ⟨fun _ => ⟨i, hi, hfits i hi⟩, fun htype' => absurd htype' hcron⟩

/-- The next time of an interval is the instant of a cron schedule if it is one step of the
interval away. -/
theorem nextOfInterval_eq_iff {next : Int64} {u : DateTime} (hi : i ≠ 0)
    (hfit : SumsFit i next now.timestamp) (hdue : next ≤ now.timestamp) :
    nextOfInterval next i now.timestamp = u.timestamp ↔
      now.timestamp < u.timestamp ∧ u.timestamp.toInt ≤ now.timestamp.toInt + i.toNat ∧
        (i.toNat : ℤ) ∣ u.timestamp.toInt - next.toInt := by
  have hle := Int64.le_iff_toInt_le.mp hdue
  have hspec := isNext_iff (t := u.timestamp.toInt) (toNat_pos hi) first_mem_times hle
  rw [← Int64.toInt_inj, toInt_nextOfInterval hi hfit hdue, Int64.lt_iff_toInt_lt, ← hspec]
  have hcatch := isNext_catchUp (toNat_pos hi) first_mem_times hle
  constructor
  · intro heq
    rwa [heq] at hcatch
  · exact fun hnext => hcatch.unique hnext

/-- An execution of a cron task keeps the schedule where the task goes on to the instant that would
be computed. -/
theorem keeps_cron (h : Follows cal schedule first task)
    (htype : schedule.scheduleType = .cron) (hdue : task.IsDue now.timestamp) :
    (KeepsWhen cal schedule defaultTz task now clock →
      Keeps cal schedule defaultTz first now clock
        (updateNextExecution cal task now.timestamp clock).nextExecution) ∧
    ((∀ i, schedule.intervalSeconds = some i → SumsFit i task.nextExecution now.timestamp) →
      Keeps cal schedule defaultTz first now clock
        (updateNextExecution cal task now.timestamp clock).nextExecution →
      KeepsWhen cal schedule defaultTz task now clock) := by
  obtain ⟨e, c, hexpr, hparse, hcron⟩ := h.cron htype
  have hplan : schedule.scheduleType ≠ .interval := by
    rw [htype]
    decide
  constructor
  · intro hwhen
    obtain ⟨c', u, hc', hu, hlater, hgoes⟩ := hwhen.cron htype
    obtain rfl : c = c' := Option.some.inj (hcron.symm.trans hc')
    have hnext : (updateNextExecution cal task now.timestamp clock).nextExecution
        = u.timestamp := by
      rcases hgoes with ⟨hnone, v, hv, heq⟩ | ⟨i, hi, hne, hfit, hnear, hdvd⟩
      · rw [nextExecution_update_cron (h.interval.trans hnone) hcron, h.timezone, hv]
        exact heq
      · rw [updateNextExecution_some (h.interval.trans hi) hne]
        exact (nextOfInterval_eq_iff hne hfit hdue.2).mpr ⟨hlater, hnear, hdvd⟩
    rw [hnext]
    exact ⟨hlater, fun htype' => absurd htype' hplan, fun _ =>
      (calculateNextExecution_cron htype hexpr hparse).mpr ⟨u, hu, rfl⟩⟩
  · intro hfits hkeeps
    obtain ⟨u, hu, hnext⟩ :=
      (calculateNextExecution_cron htype hexpr hparse).mp (hkeeps.computed htype)
    have hlater : now.timestamp < u.timestamp := by
      rw [hnext]
      exact hkeeps.later
    refine ⟨fun htype' => absurd htype' hplan, fun _ => ⟨c, u, hcron, hu, hlater, ?_⟩⟩
    cases hi : schedule.intervalSeconds with
    | none =>
      refine Or.inl ⟨hi, ?_⟩
      rw [nextExecution_update_cron (h.interval.trans hi) hcron, h.timezone] at hnext
      cases hv : cal.next c (schedule.timezone.bind cal.parseTz) clock with
      | none =>
        rw [hv] at hnext
        have hpassed : u.timestamp ≤ now.timestamp := by
          rw [hnext]
          exact hdue.2
        exact absurd hpassed (Int64.not_le.mpr hlater)
      | some v =>
        rw [hv] at hnext
        exact ⟨v, rfl, hnext.symm⟩
    | some i =>
      refine Or.inr ⟨i, hi, ?_⟩
      have hne : i ≠ 0 := by
        rintro rfl
        rw [updateNextExecution_zero (h.interval.trans hi)] at hnext
        have hlast := u.leMax
        rw [hnext, Int64.toInt_maxValue] at hlast
        omega
      rw [updateNextExecution_some (h.interval.trans hi) hne] at hnext
      have hfit := hfits i hi
      exact ⟨hne, hfit, ((nextOfInterval_eq_iff hne hfit hdue.2).mp hnext.symm).2⟩

/-- An execution keeps the schedule when its interval is given, or the task goes on to the instant
that would be computed for its cron expression, and where the sums stay within `i64` only then. -/
theorem keeps_iff {agent : AiAgent} {t₀ : DateTime}
    (hfirst : scheduleAgent cal defaultTz t₀ agent = .ok task)
    {tr : List (State Cron Tz × Action)} {s s' : State Cron Tz}
    (hrun : Run (step cal) ⟨task, defaultTz⟩ tr s) (hfit : Within (SumsStay agent.schedule) tr)
    (hstep : step cal s (.execute now clock) = some s') :
    (KeepsWhen cal agent.schedule s.defaultTz s.task now clock →
      Keeps cal agent.schedule s.defaultTz task.nextExecution now clock s'.task.nextExecution) ∧
    ((∀ i, agent.schedule.intervalSeconds = some i →
        SumsFit i s.task.nextExecution now.timestamp) →
      Keeps cal agent.schedule s.defaultTz task.nextExecution now clock s'.task.nextExecution →
      KeepsWhen cal agent.schedule s.defaultTz s.task now clock) := by
  have hfollows : Follows cal agent.schedule task.nextExecution s.task :=
    follows_run (follows_scheduleAgent hfirst) hrun hfit
  rw [step] at hstep
  split at hstep
  · rename_i hdue
    cases hstep
    cases htype : agent.schedule.scheduleType with
    | event => exact absurd hdue (not_isDue_maxValue (hfollows.never (Or.inr (Or.inl htype))))
    | manual => exact absurd hdue (not_isDue_maxValue (hfollows.never (Or.inl htype)))
    | interval => exact keeps_interval hfollows htype hdue
    | cron => exact keeps_cron hfollows htype hdue
  · cases hstep

/-! ## A daily report -/

/-- The time of a timestamp. -/
def ofTimestamp (n : ℤ) : Option DateTime :=
  if h : -8334601228800 ≤ n ∧ n ≤ 8210266876799 then
    some ⟨Int64.ofInt n, 0, by rw [Int64.toInt_ofInt_of_le (by omega) (by omega)]; exact h.1,
      by rw [Int64.toInt_ofInt_of_le (by omega) (by omega)]; exact h.2⟩
  else none

theorem toInt_of_ofTimestamp {n : ℤ} {u : DateTime} (h : ofTimestamp n = some u) :
    u.timestamp.toInt = n := by
  unfold ofTimestamp at h
  split at h
  · cases h
    exact Int64.toInt_ofInt_of_le (by omega) (by omega)
  · cases h

/-- Daily schedules, by the second of the day, and timezones with a fixed offset. -/
def dailyCalendar : Calendar ℤ ℤ where
  parseSchedule e := if e = "0 0 9 * * *" then .ok 32400 else .error "Invalid expression"
  parseTz tz :=
    if tz = "Asia/Shanghai" then some 28800 else if tz = "UTC" then some 0 else none
  offset tz _ := tz
  after c t z := ofTimestamp (t.timestamp.toInt + 1 + (c - z - (t.timestamp.toInt + 1)) % 86400)
  after_lt {c t z u} h := by
    rw [Int64.lt_iff_toInt_lt, toInt_of_ofTimestamp h]
    have := Int.emod_nonneg (c - z - (t.timestamp.toInt + 1)) (by decide : (86400 : ℤ) ≠ 0)
    omega

/-- A whole second. -/
def second (n : Int64) (h : -8334601228800 ≤ n.toInt ∧ n.toInt ≤ 8210266876799) : DateTime :=
  ⟨n, 0, h.1, h.2⟩

/-- The night of 14 November 2023, 22:13:20 in UTC. -/
def night : DateTime := second 1700000000 (by decide)

/-- The next morning at nine o'clock in Shanghai. -/
def morning : DateTime := second 1700010000 (by decide)

/-- An agent that reports on a schedule. -/
def reporter (schedule : AgentSchedule) : AiAgent := ⟨"report", schedule, .active, 128⟩

/-- Every morning at nine o'clock. -/
def atNine (timezone : Option String) (interval : Option UInt64) : AgentSchedule :=
  ⟨.cron, some "0 0 9 * * *", interval, timezone⟩

/-- Every minute. -/
def minutely : AgentSchedule := ⟨.interval, none, some 60, none⟩

def minutelyTask (next : Int64) : ScheduledTask ℤ :=
  ⟨"report", next, some 60, none, none, none, true, 128⟩

/-- Scheduled in the night and executed late, and then on time. -/
theorem keeps_minutely : ∃ s',
    step dailyCalendar ⟨minutelyTask 1700000240, none⟩
      (.execute (second 1700000240 (by decide)) (second 1700000240 (by decide))) = some s' ∧
    Keeps dailyCalendar minutely none 1700000060 (second 1700000240 (by decide))
      (second 1700000240 (by decide)) s'.task.nextExecution := by
  have hfirst : scheduleAgent dailyCalendar none night (reporter minutely)
      = .ok (minutelyTask 1700000060) := by rfl
  have hlate : step dailyCalendar ⟨minutelyTask 1700000060, none⟩
      (.execute (second 1700000200 (by decide)) (second 1700000200 (by decide)))
      = some ⟨minutelyTask 1700000240, none⟩ := by rfl
  have hrun : Run (step dailyCalendar) ⟨minutelyTask 1700000060, none⟩ _ _ := Run.snoc .nil hlate
  refine ⟨⟨minutelyTask 1700000300, none⟩, by rfl, ?_⟩
  have hfits : ∀ next now : Int64, next.toInt ≤ 1700000300 → 1700000000 ≤ next.toInt →
      now.toInt ≤ 1700000300 → SumsFit 60 next now := by
    intro next now hnext hnext' hnow
    have hsixty : ((60 : UInt64).toNat : ℤ) = 60 := by decide
    exact ⟨by rw [hsixty]; omega, by rw [hsixty]; omega, by rw [hsixty]; omega, by omega⟩
  refine (keeps_iff hfirst hrun ?_ (by rfl)).1 ⟨fun _ => ⟨60, rfl, ?_⟩, fun h => ?_⟩
  · rw [within_cons]
    refine ⟨fun _ i hi => ?_, within_nil _⟩
    cases hi
    exact hfits 1700000060 1700000200 (by decide) (by decide) (by decide)
  · exact hfits 1700000240 1700000240 (by decide) (by decide) (by decide)
  · cases h

def nineTask (next : Int64) : ScheduledTask ℤ :=
  ⟨"report", next, none, some "0 0 9 * * *", some 32400, none, true, 128⟩

/-- With Shanghai as the default timezone, the first report is made at nine o'clock there, and the
second one at nine o'clock in UTC. -/
theorem report_leaves_shanghai :
    scheduleAgent dailyCalendar (some 28800) night (reporter (atNine none none))
      = .ok (nineTask morning.timestamp) ∧
    ∃ s', step dailyCalendar ⟨nineTask morning.timestamp, some 28800⟩ (.execute morning morning)
        = some s' ∧
      ¬ Keeps dailyCalendar (atNine none none) (some 28800) morning.timestamp morning morning
        s'.task.nextExecution := by
  refine ⟨by rfl, ⟨nineTask 1700038800, some 28800⟩, by rfl, ?_⟩
  intro hkeeps
  obtain ⟨c, hnext⟩ := hkeeps.computed rfl
  have htomorrow : calculateNextExecution dailyCalendar (some 28800) morning (atNine none none)
      = .ok (1700096400, some 32400) := by rfl
  rw [htomorrow] at hnext
  exact absurd (Prod.mk.inj (Except.ok.inj hnext)).1 (by decide)

end Cadence

end HeraMind.Scheduler
