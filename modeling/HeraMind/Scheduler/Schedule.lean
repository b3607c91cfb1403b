/-
# Schedules and scheduled tasks

`crates/heramind-agent/src/ai_agent/scheduler.rs`: an agent's schedule gives the time of its first
execution, and makes a task of it.  Each execution moves the task to its next time.  The first time
is computed from the schedule and the default timezone, and the later ones from what the task has
kept of the schedule.
-/
import Mathlib.Data.Int.Notation

namespace HeraMind.Scheduler

/-- `ScheduleType`. -/
inductive ScheduleType where
  | event
  | cron
  | interval
  | manual
  deriving DecidableEq

/-- `AgentSchedule`. -/
structure AgentSchedule where
  scheduleType : ScheduleType
  cronExpression : Option String
  intervalSeconds : Option UInt64
  timezone : Option String
  deriving DecidableEq

/-- `AgentStatus`. -/
inductive AgentStatus where
  | active
  | paused
  | stopped
  | error
  | executing
  | completed
  deriving DecidableEq

/-- `AiAgent`, as far as it is scheduled. -/
structure AiAgent where
  id : String
  schedule : AgentSchedule
  status : AgentStatus
  priority : UInt8
  deriving DecidableEq

/-- `DateTime<Utc>`: a time in the years that chrono has. -/
structure DateTime where
  timestamp : Int64
  nanos : UInt32
  minLe : -8334601228800 ≤ timestamp.toInt
  leMax : timestamp.toInt ≤ 8210266876799
  deriving DecidableEq

/-- The crates `cron` and `chrono-tz`: how texts are read, the offset from UTC in a timezone, and
the first instant of a cron schedule that comes after a time with an offset. -/
structure Calendar (Cron Tz : Type) where
  parseSchedule : String → Except String Cron
  parseTz : String → Option Tz
  offset : Tz → DateTime → ℤ
  after : Cron → DateTime → ℤ → Option DateTime
  after_lt : ∀ {c t z u}, after c t z = some u → t.timestamp < u.timestamp

/-- `SchedulerError`. -/
inductive SchedulerError where
  | invalidCronExpression (detail : String)
  | invalidTimezone (timezone : String)
  | cronParseError (detail : String)
  | calculationError (detail : String)
  deriving DecidableEq

def SchedulerError.text : SchedulerError → String
  | .invalidCronExpression detail => "Invalid cron expression: " ++ detail
  | .invalidTimezone timezone => "Invalid timezone: " ++ timezone
  | .cronParseError detail => "Cron parsing error: " ++ detail
  | .calculationError detail => "Schedule calculation error: " ++ detail

/-- `ScheduledTask`. -/
structure ScheduledTask (Cron : Type) where
  agentId : String
  nextExecution : Int64
  intervalSeconds : Option UInt64
  cronExpression : Option String
  cronSchedule : Option Cron
  timezone : Option String
  enabled : Bool
  priority : UInt8
  deriving DecidableEq

variable {Cron Tz : Type} (cal : Calendar Cron Tz)

namespace Calendar

/-- The offset in a timezone, and that of UTC where there is none. -/
def fixedOffset (tz : Option Tz) (t : DateTime) : ℤ :=
  match tz with
  | some tz => cal.offset tz t
  | none => 0

/-- The first instant of a cron schedule after a time, in a timezone. -/
def next (c : Cron) (tz : Option Tz) (t : DateTime) : Option DateTime :=
  cal.after c t (cal.fixedOffset tz t)

theorem next_lt {c : Cron} {tz : Option Tz} {t u : DateTime} (h : cal.next c tz t = some u) :
    t.timestamp < u.timestamp :=
  cal.after_lt h

end Calendar

/-- `AgentScheduler::parse_timezone`. -/
def parseTimezone (timezone : Option String) : Option Tz := cal.parseTz (timezone.getD "UTC")

/-- `AgentScheduler::parse_cron_expression`. -/
def parseCronExpression (expression : String) : Except SchedulerError Cron :=
  (cal.parseSchedule expression).mapError .cronParseError

/-- The timezone in which the first time of a schedule is computed. -/
def scheduleTz (defaultTz : Option Tz) (schedule : AgentSchedule) : Option Tz :=
  (schedule.timezone.bind fun tz => parseTimezone cal (some tz)).or defaultTz

/-- The time that `calculate_next_execution` takes from the first instant of a cron schedule. -/
def inFuture (now next : DateTime) : Int64 :=
  if next.timestamp ≤ now.timestamp then now.timestamp + 60 else next.timestamp

/-- `AgentScheduler::calculate_next_execution`. -/
def calculateNextExecution (defaultTz : Option Tz) (now : DateTime) (schedule : AgentSchedule) :
    Except SchedulerError (Int64 × Option Cron) :=
  match schedule.scheduleType with
  | .manual => .ok (Int64.maxValue, none)
  | .interval =>
    if schedule.intervalSeconds = some 0 then .ok (Int64.maxValue, none)
    else .ok (now.timestamp + (schedule.intervalSeconds.getD 300).toInt64, none)
  | .cron =>
    match schedule.cronExpression with
    | none => .error (.invalidCronExpression "No cron expression provided")
    | some expression =>
      match parseCronExpression cal expression with
      | .error e => .error e
      | .ok parsed =>
        match cal.next parsed (scheduleTz cal defaultTz schedule) now with
        | none => .error (.calculationError "Could not calculate next execution time")
        | some next => .ok (inFuture now next, some parsed)
  | .event => .ok (Int64.maxValue, none)

/-- `AgentScheduler::schedule_agent`: the task, or the text of the configuration error. -/
def scheduleAgent (defaultTz : Option Tz) (now : DateTime) (agent : AiAgent) :
    Except String (ScheduledTask Cron) :=
  match calculateNextExecution cal defaultTz now agent.schedule with
  | .error e => .error ("Schedule error: " ++ e.text)
  | .ok (nextExecution, cronSchedule) =>
    .ok
      { agentId := agent.id
        nextExecution
        intervalSeconds := agent.schedule.intervalSeconds
        cronExpression := agent.schedule.cronExpression
        cronSchedule
        timezone := agent.schedule.timezone
        enabled := decide (agent.status = .active)
        priority := agent.priority }

/-- The next time of a task with an interval, which is not zero. -/
def nextOfInterval (next : Int64) (interval : UInt64) (now : Int64) : Int64 :=
  let scheduledNext := next + interval.toInt64
  if now < scheduledNext then scheduledNext
  else scheduledNext + ((now - scheduledNext) / interval.toInt64 + 1) * interval.toInt64

/-- `AgentScheduler::update_next_execution`, which reads the clock for cron schedules. -/
def updateNextExecution (task : ScheduledTask Cron) (now : Int64) (clock : DateTime) :
    ScheduledTask Cron :=
  match task.intervalSeconds with
  | some interval =>
    if interval = 0 then { task with nextExecution := Int64.maxValue }
    else { task with nextExecution := nextOfInterval task.nextExecution interval now }
  | none =>
    match task.cronSchedule with
    | some schedule =>
      match cal.next schedule (task.timezone.bind cal.parseTz) clock with
      | some next => { task with nextExecution := next.timestamp }
      | none => { task with enabled := false }
    | none => { task with enabled := false }

/-- What the scheduler looks for in a tick. -/
def ScheduledTask.IsDue (task : ScheduledTask Cron) (now : Int64) : Prop :=
  task.enabled = true ∧ task.nextExecution ≤ now

instance (task : ScheduledTask Cron) (now : Int64) : Decidable (task.IsDue now) :=
  inferInstanceAs (Decidable (_ ∧ _))

end HeraMind.Scheduler
