/-
# The buffered time-series store

`crates/heramind-storage/src/timeseries.rs`.  `write` pushes a point into the write
buffer; `flush_buffer` drains the buffer and writes the points to the redb table, in one
transaction if that succeeds, group by group and point by point if not, and queues again
what could not be written.  Any number of calls run concurrently: `Pc.advance` is one
section of one call, which holds the mutex of the buffer or is one transaction.

What the source leaves to code outside of it is the `Choice` made for a section: whether
its transaction fails (and is rolled back), in which order a hash map visits its entries,
whether the lock of the statistics is taken, and the time measured.  The metric infos and
the statistics are read by nothing here, so their update is part of the section before it.
The cache of latest values, which `write` also fills, serves only reads and is left out.
-/
import Mathlib.Algebra.GroupWithZero.Nat
import HeraMind.Lib.Grouping
import HeraMind.Lib.Run

namespace HeraMind.Storage

variable {V : Type}

/-! ## Points -/

/-- A single data point in time series.  Its value and its metadata are opaque, and its
quality is an `f32` as its bits. -/
structure DataPoint (V : Type) where
  timestamp : ℤ
  value : V
  quality : Option (BitVec 32)
  metadata : Option V
  deriving DecidableEq

/-- A buffered write entry. -/
structure BufferedWrite (V : Type) where
  sourceId : String
  metric : String
  point : DataPoint V
  deriving DecidableEq

/-- The key of a row of the table: source, metric and timestamp. -/
abbrev Key := String × String × ℤ

/-- The key of a group of points: source and metric. -/
abbrev GroupKey := String × String

def BufferedWrite.key (w : BufferedWrite V) : Key := (w.sourceId, w.metric, w.point.timestamp)

def BufferedWrite.groupKey (w : BufferedWrite V) : GroupKey := (w.sourceId, w.metric)

/-- A group of points of one source and metric. -/
abbrev Group (V : Type) := GroupKey × List (DataPoint V)

/-! ## The write buffer -/

/-- Write-behind buffer for batching single-point writes. -/
structure WriteBuffer (V : Type) where
  /-- Pending writes, guarded by a mutex. -/
  pending : List (BufferedWrite V)
  /-- Maximum number of buffered points before automatic flush. -/
  maxSize : ℕ

namespace WriteBuffer

/-- Push a write into the buffer; true if the buffer is full and should be flushed. -/
def push (b : WriteBuffer V) (write : BufferedWrite V) : Bool × WriteBuffer V :=
  let pending := b.pending ++ [write]
  (decide (b.maxSize ≤ pending.length), { b with pending := pending })

/-- Drain all pending writes. -/
def drain (b : WriteBuffer V) : List (BufferedWrite V) × WriteBuffer V :=
  (b.pending, { b with pending := [] })

/-- `max_size.saturating_mul(10)`. -/
def hardCap (b : WriteBuffer V) : ℕ := min (b.maxSize * 10) (2 ^ 64 - 1)

/-- Queue again the writes whose batch failed, up to the hard cap; the number dropped. -/
def requeue (b : WriteBuffer V) : List (BufferedWrite V) → ℕ × WriteBuffer V
  | [] => (0, b)
  | w :: writes =>
    if b.hardCap ≤ b.pending.length then
      let (dropped, b') := b.requeue writes
      (dropped + 1, b')
    else { b with pending := b.pending ++ [w] }.requeue writes

end WriteBuffer

/-! ## The store -/

/-- Information about a metric's storage. -/
structure MetricInfo where
  lastUpdate : ℤ
  pointCount : ℕ
  deriving DecidableEq

/-- The statistics of the writes. -/
structure PerformanceStats where
  writeCount : ℕ
  totalWriteNs : ℕ
  deriving DecidableEq

/-- The part of the store that writing touches. -/
structure TimeSeriesStore (V : Type) where
  writeBuffer : WriteBuffer V
  /-- The table in redb. -/
  table : HashMap Key (DataPoint V)
  metricsInfo : HashMap String MetricInfo
  metricsInitialized : Bool
  stats : PerformanceStats

/-- Insert the points of one group into the table. -/
def insertPoints (table : HashMap Key (DataPoint V)) (group : GroupKey)
    (points : List (DataPoint V)) : HashMap Key (DataPoint V) :=
  points.foldl (fun table point =>
    table.insert (group.1, group.2, point.timestamp) point) table

/-- Record the points of one group in the metric infos. -/
def recordMetric (info : HashMap String MetricInfo) (group : GroupKey)
    (points : List (DataPoint V)) : HashMap String MetricInfo :=
  let metricKey := group.1 ++ ":" ++ group.2
  let lastTs := (points.getLast?.map DataPoint.timestamp).getD 0
  info.insert metricKey
    { lastUpdate := lastTs
      pointCount := match info.lookup metricKey with
        | some entry => entry.pointCount + points.length
        | none => points.length }

namespace TimeSeriesStore

/-- `write_all_groups_sync` when its transaction commits. -/
def writeAllGroupsSync (s : TimeSeriesStore V) (groups : List (Group V)) :
    TimeSeriesStore V :=
  { s with
    table := groups.foldl (fun table g => insertPoints table g.1 g.2) s.table
    metricsInfo := groups.foldl (fun info g => recordMetric info g.1 g.2) s.metricsInfo
    metricsInitialized := true }

/-- `write_batch_sync` when its transaction commits. -/
def writeBatchSync (s : TimeSeriesStore V) (group : GroupKey) (points : List (DataPoint V)) :
    TimeSeriesStore V :=
  { s with
    table := insertPoints s.table group points
    metricsInfo := recordMetric s.metricsInfo group points
    metricsInitialized := true }

/-- Count the points that landed, and the time it took. -/
def recordStats (s : TimeSeriesStore V) (count elapsedNs : ℕ) : TimeSeriesStore V :=
  { s with stats :=
    { writeCount := s.stats.writeCount + count
      totalWriteNs := s.stats.totalWriteNs + elapsedNs } }

end TimeSeriesStore

/-! ## Calls -/

/-- The calls on the store. -/
inductive Call (V : Type) : Type where
  | write (sourceId metric : String) (point : DataPoint V)
  | flushBuffer

/-- The next section of a call.  `total` counts the drained points, `queue` holds the
writes to queue again. -/
inductive Pc (V : Type) : Type where
  | push (write : BufferedWrite V)
  | drain
  | allGroups (total : ℕ) (groups : List (Group V))
  | batch (total : ℕ) (groups : List (Group V)) (queue : List (BufferedWrite V))
  | isolated (total : ℕ) (group : GroupKey) (points failed : List (DataPoint V))
      (groups : List (Group V)) (queue : List (BufferedWrite V))
  | stats (total requeued : ℕ)
  | done

/-- What code outside the source decides in a section. -/
structure Choice where
  /-- The transaction of the section fails. -/
  fails : Bool
  /-- The order in which the hash map of the groups is visited. -/
  order : List GroupKey
  /-- `try_write` on the statistics finds them locked. -/
  statsLocked : Bool
  elapsedNs : ℕ

/-- The first section of a call. -/
def Call.start : Call V → Pc V
  | .write sourceId metric point => .push ⟨sourceId, metric, point⟩
  | .flushBuffer => .drain

/-- The points of a group as writes again. -/
def buffered (group : GroupKey) (points : List (DataPoint V)) : List (BufferedWrite V) :=
  points.map fun point => ⟨group.1, group.2, point⟩

/-- Group the drained writes by source and metric. -/
def groupsOf (drained : List (BufferedWrite V)) : HashMap GroupKey (List (DataPoint V)) :=
  groupInto BufferedWrite.groupKey BufferedWrite.point drained

/-- One section of a call. -/
def Pc.advance (choice : Choice) (s : TimeSeriesStore V) :
    Pc V → Option (Pc V × TimeSeriesStore V)
  | .push write =>
    let s' := { s with writeBuffer := (s.writeBuffer.push write).2 }
    -- a full buffer is flushed by the writer itself
    if (s.writeBuffer.push write).1 then some (.drain, s') else some (.done, s')
  | .drain =>
    let drained := s.writeBuffer.drain.1
    let s' := { s with writeBuffer := s.writeBuffer.drain.2 }
    if drained.isEmpty then some (.done, s')
    else if choice.order.Perm (groupsOf drained).keys then
      let groups := entriesIn (groupsOf drained) choice.order
      some (.allGroups (groups.map fun g => g.2.length).sum groups, s')
    else none
  | .allGroups total groups =>
    if choice.fails then some (.batch total groups [], s)
    else some (.stats total 0, s.writeAllGroupsSync groups)
  | .batch total ((group, points) :: groups) queue =>
    if choice.fails then some (.isolated total group points [] groups queue, s)
    else some (.batch total groups queue, s.writeBatchSync group points)
  | .batch total [] queue =>
    if queue.isEmpty then some (.stats total 0, s)
    else some (.stats total queue.length,
      { s with writeBuffer := (s.writeBuffer.requeue queue).2 })
  | .isolated total group (point :: points) failed groups queue =>
    if choice.fails then some (.isolated total group points (failed ++ [point]) groups queue, s)
    else some (.isolated total group points failed groups queue, s.writeBatchSync group [point])
  | .isolated total group [] failed groups queue =>
    some (.batch total groups (queue ++ buffered group failed), s)
  | .stats total requeued =>
    if choice.statsLocked then some (.done, s)
    else some (.done, s.recordStats (total - requeued) choice.elapsedNs)
  | .done => none

/-! ## The system -/

/-- The store and every call ever made on it. -/
structure System (V : Type) where
  store : TimeSeriesStore V
  calls : List (Pc V)

/-- A new call, or a section of call `n`. -/
inductive Label (V : Type) : Type where
  | call (c : Call V)
  | run (n : ℕ) (choice : Choice)

def step (s : System V) : Label V → Option (System V)
  | .call c => some { s with calls := s.calls ++ [c.start] }
  | .run n choice =>
    match s.calls[n]? with
    | none => none
    | some pc =>
      match pc.advance choice s.store with
      | none => none
      | some (pc', store) => some { store := store, calls := s.calls.set n pc' }

/-- The store before any call. -/
def System.idle (store : TimeSeriesStore V) : System V := ⟨store, []⟩

end HeraMind.Storage
