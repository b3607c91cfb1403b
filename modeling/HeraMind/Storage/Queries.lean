/-
# Queries of the table

The reads of `crates/heramind-storage/src/timeseries.rs` that go to the table and to the
metric infos: range queries in both directions, aggregates, time buckets, and the lists of
metrics.  Each of them sees the points of one group only through the rows of its range.

What an `f64` computes comes in as a parameter, as does the reading of a value as one.
-/
import Mathlib.Data.List.Dedup
import HeraMind.Storage.Cached

namespace HeraMind.Storage

open List Option

variable {V F : Type}

/-! ## Floating point -/

/-- What the queries use of `f64`. -/
structure Float64 (V F : Type) where
  /-- `Value::as_f64`. -/
  asF64 : V → Option F
  zero : F
  infinity : F
  negInfinity : F
  add : F → F → F
  min : F → F → F
  max : F → F → F
  /-- Division by a count. -/
  divNat : F → ℕ → F
  /-- `(a as f64 / b as f64).ceil()` as an integer. -/
  ceilDiv : ℤ → ℤ → ℤ

/-! ## Range queries -/

/-- Time series query result. -/
structure TimeSeriesResult (V : Type) where
  sourceId : String
  metric : String
  points : List (DataPoint V)
  totalCount : Option ℕ

/-- The points of a group in a range, oldest first. -/
def pointsIn (table : HashMap Key (DataPoint V)) (group : GroupKey) (start stop : ℤ) :
    List (DataPoint V) :=
  (range table group start stop).map Prod.snd

/-- The loop of `query_range_impl`, which stops at the first row beyond the limit. -/
def scanRange {α : Type} (limit : Option ℕ) : List α → List α → ℕ → ℕ → List α × ℕ
  | [], points, _, totalCount => (points, totalCount)
  | row :: rows, points, collected, totalCount =>
    if limit.all (collected < ·) then
      scanRange limit rows (points ++ [row]) (collected + 1) (totalCount + 1)
    else (points, totalCount + 1)

/-- The loop of `query_range_rev_impl`, which goes over all rows. -/
def scanRangeRev {α : Type} (limit : Option ℕ) (offset : ℕ) :
    List α → List α → ℕ → ℕ → ℕ → List α × ℕ
  | [], points, _, _, totalCount => (points, totalCount)
  | row :: rows, points, collected, skipped, totalCount =>
    if skipped < offset then
      scanRangeRev limit offset rows points collected (skipped + 1) (totalCount + 1)
    else if limit.all (collected < ·) then
      scanRangeRev limit offset rows (points ++ [row]) (collected + 1) skipped (totalCount + 1)
    else scanRangeRev limit offset rows points collected skipped (totalCount + 1)

/-- Query data points in a time range; the count is a `u32`, which wraps. -/
def queryRange (table : HashMap Key (DataPoint V)) (group : GroupKey) (start stop : ℤ)
    (limit : Option ℕ) : TimeSeriesResult V :=
  let (points, totalCount) := scanRange limit (pointsIn table group start stop) [] 0 0
  ⟨group.1, group.2, points, limit.map fun _ => totalCount % 2 ^ 32⟩

/-- Query data points in descending timestamp order. -/
def queryRangeRev (table : HashMap Key (DataPoint V)) (group : GroupKey) (start stop : ℤ)
    (limit : Option ℕ) (offset : ℕ) : TimeSeriesResult V :=
  let (points, totalCount) :=
    scanRangeRev limit offset (pointsIn table group start stop).reverse [] 0 0 0
  ⟨group.1, group.2, points, some (totalCount % 2 ^ 32)⟩

/-! ## Pages -/

section Pages

variable {α : Type} (limit : Option ℕ)

/-- The rows that a limit leaves room for. -/
def roomFor (limit : Option ℕ) (collected : ℕ) (rows : List α) : List α :=
  limit.elim rows fun n => rows.take (n - collected)

theorem roomFor_of_full {collected : ℕ} (h : ¬limit.all (collected < ·)) (rows : List α) :
    roomFor limit collected rows = [] := by
  cases limit with
  | none => exact absurd rfl h
  | some n =>
    have hle : n ≤ collected := by simpa using h
    rw [roomFor, elim_some, Nat.sub_eq_zero_of_le hle, take_zero]

theorem roomFor_cons {collected : ℕ} (h : limit.all (collected < ·)) (row : α) (rows : List α) :
    roomFor limit collected (row :: rows) = row :: roomFor limit (collected + 1) rows := by
  cases limit with
  | none => rfl
  | some n =>
    have hlt : collected < n := by simpa using h
    simp only [roomFor, elim_some]
    rw [show n - collected = n - (collected + 1) + 1 by omega, take_succ_cons]

/-- One row beyond the limit is counted. -/
theorem scanRange_eq (rows points : List α) (collected totalCount : ℕ) :
    scanRange limit rows points collected totalCount =
      (points ++ roomFor limit collected rows,
        totalCount + min rows.length ((roomFor limit collected rows).length + 1)) := by
  induction rows generalizing points collected totalCount with
  | nil => cases limit <;> simp [scanRange, roomFor]
  | cons row rows ih =>
    rw [scanRange, ih]
    split
    · rename_i hroom
      rw [roomFor_cons limit hroom]
      simp
      omega
    · rename_i hfull
      rw [roomFor_of_full limit hfull]
      simp

/-- All rows are counted. -/
theorem scanRangeRev_eq (offset skipped collected : ℕ) (rows points : List α) (totalCount : ℕ) :
    scanRangeRev limit offset rows points collected skipped totalCount =
      (points ++ roomFor limit collected (rows.drop (offset - skipped)),
        totalCount + rows.length) := by
  induction rows generalizing points collected skipped totalCount with
  | nil => cases limit <;> simp [scanRangeRev, roomFor]
  | cons row rows ih =>
    rw [scanRangeRev, ih, ih, ih, length_cons, Nat.add_right_comm totalCount, Nat.add_assoc]
    split
    · rw [show offset - skipped = offset - (skipped + 1) + 1 by omega, drop_succ_cons]
    · rw [show offset - skipped = 0 by omega, drop_zero, drop_zero]
      split
      · rename_i hroom
        rw [roomFor_cons limit hroom, append_assoc, singleton_append]
      · rename_i hfull
        rw [roomFor_of_full limit hfull, roomFor_of_full limit hfull]

variable (table : HashMap Key (DataPoint V)) (group : GroupKey) (start stop : ℤ)

theorem queryRange_eq : queryRange table group start stop limit =
    ⟨group.1, group.2, roomFor limit 0 (pointsIn table group start stop), limit.map fun _ =>
      (min (pointsIn table group start stop).length
        ((roomFor limit 0 (pointsIn table group start stop)).length + 1)) % 2 ^ 32⟩ := by
  rw [queryRange, scanRange_eq, nil_append, Nat.zero_add]

theorem queryRangeRev_eq (offset : ℕ) : queryRangeRev table group start stop limit offset =
    ⟨group.1, group.2, roomFor limit 0 ((pointsIn table group start stop).reverse.drop offset),
      some ((pointsIn table group start stop).length % 2 ^ 32)⟩ := by
  rw [queryRangeRev, scanRangeRev_eq, nil_append, Nat.zero_add, length_reverse, Nat.sub_zero]

theorem points_queryRange_none : (queryRange table group start stop none).points =
    pointsIn table group start stop := by
  rw [queryRange_eq]
  rfl

/-- The pages of both queries and what they say about the number of points. -/
structure PagesAgree (n offset : ℕ) : Prop where
  slice : ∀ limit : Option ℕ, (queryRangeRev table group start stop limit offset).points =
    let rest := (queryRange table group start stop none).points.reverse.drop offset
    limit.elim rest rest.take
  forward : (queryRange table group start stop (some n)).totalCount =
    some (queryRange table group start stop none).points.length
  backward : (queryRangeRev table group start stop (some n) offset).totalCount =
    some (queryRange table group start stop none).points.length

/-- The pages agree exactly when at most one point is beyond the limit, and the `u32` has room. -/
theorem pagesAgree_iff (n offset : ℕ) : PagesAgree table group start stop n offset ↔
    (range table group start stop).length ≤ n + 1 ∧
      (range table group start stop).length < 2 ^ 32 := by
  have hlength : (pointsIn table group start stop).length =
    (range table group start stop).length := length_map ..
  have hforward : (queryRange table group start stop (some n)).totalCount =
      some (min (range table group start stop).length (n + 1) % 2 ^ 32) := by
    rw [queryRange_eq, ← hlength]
    simp [roomFor]
    omega
  have hpoints := points_queryRange_none table group start stop
  constructor
  · intro h
    have hlow := h.forward
    have hhigh := h.backward
    rw [hforward, hpoints, hlength, some_inj] at hlow
    rw [queryRangeRev_eq, hpoints, hlength, some_inj] at hhigh
    omega
  · rintro ⟨hroom, hcount⟩
    refine ⟨fun limit => ?_, ?_, ?_⟩
    · rw [queryRangeRev_eq, hpoints]
      rfl
    · rw [hforward, hpoints, hlength, Nat.min_eq_left hroom, Nat.mod_eq_of_lt hcount]
    · rw [queryRangeRev_eq, hpoints, hlength, Nat.mod_eq_of_lt hcount]

/-- Three points and a limit of one: the forward query reports two. -/
theorem not_pagesAgree : ¬ ∀ (table : HashMap Key (DataPoint ℕ)) (group : GroupKey)
    (start stop : ℤ) (n offset : ℕ), table.entries ≠ [] →
      PagesAgree table group start stop n offset := by
  intro h
  let row (t : ℤ) : DataPoint ℕ := ⟨t, 20, none, none⟩
  let key (t : ℤ) : Key := ("device:d1", "temp", t)
  have hforward := (h (((∅ : HashMap Key (DataPoint ℕ)).insert (key 1) (row 1)).insert (key 2)
    (row 2) |>.insert (key 3) (row 3)) ("device:d1", "temp") 0 9 1 0 (by decide)).forward
  exact absurd hforward (by decide)

end Pages

/-! ## Aggregates -/

/-- Streaming aggregation result. -/
structure AggregateResult (V F : Type) where
  count : ℕ
  sum : Option F
  min : Option F
  max : Option F
  firstValue : Option V
  lastValue : Option V

/-- Aggregate some points. -/
def aggregate (f : Float64 V F) (points : List (DataPoint V)) : AggregateResult V F :=
  let numbers := points.filterMap fun p => f.asF64 p.value
  let numeric (x : F) : Option F := if numbers.isEmpty then none else some x
  { count := points.length
    sum := numeric (numbers.foldl f.add f.zero)
    min := numeric (numbers.foldl f.min f.infinity)
    max := numeric (numbers.foldl f.max f.negInfinity)
    firstValue := points.head?.map DataPoint.value
    lastValue := points.getLast?.map DataPoint.value }

/-- Aggregate data over a time range. -/
def aggregateRange (f : Float64 V F) (table : HashMap Key (DataPoint V)) (group : GroupKey)
    (start stop : ℤ) : AggregateResult V F :=
  aggregate f (pointsIn table group start stop)

/-! ## Time buckets -/

/-- Time series bucket for aggregating data. -/
structure TimeSeriesBucket (V F : Type) where
  start : ℤ
  stop : ℤ
  count : ℕ
  sum : Option F
  min : Option F
  max : Option F
  avg : Option F
  sampleValues : List V

/-- A new empty bucket. -/
def TimeSeriesBucket.new (start stop : ℤ) : TimeSeriesBucket V F :=
  ⟨start, stop, 0, none, none, none, none, []⟩

/-- Add a value to the bucket. -/
def TimeSeriesBucket.add (f : Float64 V F) (b : TimeSeriesBucket V F) (value : V) :
    TimeSeriesBucket V F :=
  let b := { b with count := b.count + 1 }
  match f.asF64 value with
  | some num =>
    let sum := f.add (b.sum.getD f.zero) num
    { b with
      sum := some sum
      min := some (match b.min with
        | some m => f.min m num
        | none => num)
      max := some (match b.max with
        | some m => f.max m num
        | none => num)
      avg := some (f.divNat sum b.count) }
  | none =>
    -- for non-numeric values, keep samples (up to 10)
    if b.sampleValues.length < 10 then { b with sampleValues := b.sampleValues ++ [value] }
    else b

/-- The buckets of some points, by their start. -/
def bucketsOf (f : Float64 V F) (bucketSizeSecs : ℤ) (points : List (DataPoint V)) :
    List (TimeSeriesBucket V F) :=
  let buckets : HashMap ℤ (TimeSeriesBucket V F) := points.foldl (fun buckets point =>
    let bucketKey := point.timestamp.tdiv bucketSizeSecs * bucketSizeSecs
    let bucket := (buckets.lookup bucketKey).getD (.new bucketKey (bucketKey + bucketSizeSecs))
    buckets.insert bucketKey (bucket.add f point.value)) ∅
  (buckets.entries.map Sigma.snd).insertionSort fun b b' => b.start ≤ b'.start

/-- Query data points aggregated into time buckets; none for a bucket size that is not
positive. -/
def queryAggregated (f : Float64 V F) (table : HashMap Key (DataPoint V)) (group : GroupKey)
    (start stop bucketSizeSecs : ℤ) : Option (List (TimeSeriesBucket V F)) :=
  if bucketSizeSecs ≤ 0 then none
  else some (bucketsOf f bucketSizeSecs (queryRange table group start stop none).points)

/-- The aligned bucket sizes of `snap_bucket_size`. -/
def niceSizes : List ℤ :=
  [30, 60, 120, 300, 600, 900, 1800, 3600, 7200, 10800, 21600, 43200, 86400]

/-- Snap a raw bucket size (seconds) up to the nearest aligned interval. -/
def snapBucketSize (rawSecs : ℤ) : ℤ :=
  (niceSizes.find? fun n => rawSecs ≤ n).getD ((rawSecs + 3599).tdiv 3600 * 3600)

/-- `i64::saturating_sub`. -/
def saturatingSub (a b : ℤ) : ℤ := max i64Min (min i64Max (a - b))

/-- Put each row into its bucket; a later row of a bucket replaces an earlier one. -/
def fillBuckets (alignedStart bucketSize : ℤ) (actualBuckets : ℕ)
    (rows : List (ℤ × DataPoint V)) : List (Option (DataPoint V)) :=
  rows.foldl (fun buckets r =>
    let idx := (saturatingSub r.1 alignedStart).tdiv bucketSize
    -- a negative index wraps around and is cut off like one that is too large
    let idx := if idx < 0 then actualBuckets - 1 else Nat.min idx.toNat (actualBuckets - 1)
    buckets.set idx (some r.2)) (List.replicate actualBuckets none)

/-- Query data points with uniform time-bucket downsampling. -/
def queryRangeBucketed (f : Float64 V F) (table : HashMap Key (DataPoint V)) (group : GroupKey)
    (start stop : ℤ) (targetCount : ℕ) : TimeSeriesResult V :=
  let rows := Storage.range table group start stop
  let range := saturatingSub stop start
  if range ≤ 0 ∨ targetCount = 0 then ⟨group.1, group.2, [], none⟩
  else if rows.length ≤ targetCount then
    ⟨group.1, group.2, rows.map Prod.snd, some rows.length⟩
  else
    let bucketSize := snapBucketSize (f.ceilDiv range targetCount)
    let alignedStart := start.tdiv bucketSize * bucketSize
    let actualBuckets := Nat.max (f.ceilDiv (stop - alignedStart) bucketSize).toNat 1
    ⟨group.1, group.2, (fillBuckets alignedStart bucketSize actualBuckets rows).filterMap id,
      some rows.length⟩

/-! ## What a query sees -/

section Sees

variable {table : HashMap Key (DataPoint V)} {group : GroupKey} {start stop : ℤ}
  {point : DataPoint V}

theorem exists_row_of_mem_pointsIn (h : point ∈ pointsIn table group start stop) :
    ∃ t, table.lookup (group.1, group.2, t) = some point := by
  obtain ⟨⟨t, p⟩, hr, rfl⟩ := mem_map.mp h
  exact ⟨t, (mem_range.mp hr).1⟩

theorem mem_pointsIn_of_queryRange {limit : Option ℕ}
    (h : point ∈ (queryRange table group start stop limit).points) :
    point ∈ pointsIn table group start stop := by
  rw [queryRange_eq] at h
  cases limit with
  | none => exact h
  | some n => exact mem_of_mem_take h

theorem mem_pointsIn_of_queryRangeRev {limit : Option ℕ} {offset : ℕ}
    (h : point ∈ (queryRangeRev table group start stop limit offset).points) :
    point ∈ pointsIn table group start stop := by
  rw [queryRangeRev_eq] at h
  rw [← mem_reverse]
  apply mem_of_mem_drop (i := offset)
  cases limit with
  | none => exact h
  | some n => exact mem_of_mem_take h

/-- A bucket holds the point of one of the rows. -/
theorem exists_row_of_mem_fillBuckets {alignedStart bucketSize : ℤ} {actualBuckets : ℕ}
    {rows : List (ℤ × DataPoint V)}
    (h : some point ∈ fillBuckets alignedStart bucketSize actualBuckets rows) :
    ∃ r ∈ rows, r.2 = point := by
  unfold fillBuckets at h
  -- the rows are put into the buckets one after the other
  have hfold : ∀ (rows : List (ℤ × DataPoint V)) (buckets : List (Option (DataPoint V))),
      some point ∈ rows.foldl (fun buckets r =>
        let idx := (saturatingSub r.1 alignedStart).tdiv bucketSize
        let idx := if idx < 0 then actualBuckets - 1
          else Nat.min idx.toNat (actualBuckets - 1)
        buckets.set idx (some r.2)) buckets →
      some point ∈ buckets ∨ ∃ r ∈ rows, r.2 = point := by
    intro rows
    induction rows with
    | nil => exact fun buckets h => Or.inl h
    | cons r rows ih =>
      intro buckets h
      rw [foldl_cons] at h
      rcases ih _ h with h | ⟨r', hr', heq⟩
      · rcases mem_or_eq_of_mem_set h with h | h
        · exact Or.inl h
        · exact Or.inr ⟨r, mem_cons_self, (some.inj h).symm⟩
      · exact Or.inr ⟨r', mem_cons_of_mem _ hr', heq⟩
  rcases hfold rows _ h with h | h
  · cases eq_of_mem_replicate h
  · exact h

theorem mem_pointsIn_of_queryRangeBucketed {f : Float64 V F} {targetCount : ℕ}
    (h : point ∈ (queryRangeBucketed f table group start stop targetCount).points) :
    point ∈ pointsIn table group start stop := by
  unfold queryRangeBucketed at h
  dsimp only at h
  split at h
  · cases h
  · split at h
    · exact h
    · obtain ⟨o, ho, hid⟩ := mem_filterMap.mp h
      rw [id] at hid
      subst hid
      obtain ⟨r, hr, rfl⟩ := exists_row_of_mem_fillBuckets ho
      exact mem_map_of_mem hr

end Sees

/-! ## Lists of metrics -/

/-- `str::strip_prefix`. -/
def stripPrefix (prefix_ key : String) : Option String :=
  if prefix_.toList <+: key.toList then
    some (String.ofList (key.toList.drop prefix_.toList.length))
  else none

/-- The key of a group in the metric infos. -/
def metricKey (group : GroupKey) : String := group.1 ++ ":" ++ group.2

/-- The last metric name of the range scan. -/
def scanBound : String := "\u00ff"

/-- The range scan of `list_metrics`, whose bound leaves out metrics after `\u{FF}`. -/
def scanMetrics (table : HashMap Key (DataPoint V)) (sourceId : String) : List String :=
  (table.entries.filterMap fun e =>
    if e.1.1 = sourceId ∧ e.1.2.1 ≤ scanBound then some e.1.2.1 else none).dedup

/-- Get all metrics for a device: from the metric infos, if they have any for it, or by a
range scan. -/
def listMetrics (info : HashMap String MetricInfo) (table : HashMap Key (DataPoint V))
    (sourceId : String) : List String :=
  let metrics := info.keys.filterMap (stripPrefix (sourceId ++ ":"))
  if metrics.isEmpty then scanMetrics table sourceId
  else metrics.insertionSort fun a b => a ≤ b

theorem stripPrefix_eq_some {prefix_ key rest : String} :
    stripPrefix prefix_ key = some rest ↔ key = prefix_ ++ rest := by
  have hchars : key = prefix_ ++ rest ↔ key.toList = prefix_.toList ++ rest.toList := by
    rw [← String.toList_append, String.toList_inj]
  rw [hchars]
  unfold stripPrefix
  constructor
  · intro h
    split at h
    · rename_i hpre
      obtain ⟨l, hl⟩ := hpre
      cases h
      rw [← hl, drop_left, String.toList_ofList]
    · cases h
  · intro h
    rw [if_pos ⟨_, h.symm⟩, h, drop_left, String.ofList_toList]

variable {sourceId metric : String}

theorem mem_scanMetrics {table : HashMap Key (DataPoint V)} :
    metric ∈ scanMetrics table sourceId ↔
      metric ≤ scanBound ∧ ∃ t point, table.lookup (sourceId, metric, t) = some point := by
  unfold scanMetrics
  rw [mem_dedup, mem_filterMap]
  constructor
  · rintro ⟨⟨⟨source, m, t⟩, point⟩, he, h⟩
    split at h
    · rename_i hin
      obtain ⟨hsource, hbound⟩ := hin
      cases h
      cases hsource
      exact ⟨hbound, t, point, AList.mem_lookup_iff.mpr he⟩
    · cases h
  · rintro ⟨hbound, t, point, hlookup⟩
    refine ⟨⟨(sourceId, metric, t), point⟩, AList.mem_lookup_iff.mp hlookup, ?_⟩
    rw [if_pos ⟨rfl, hbound⟩]

theorem mem_filterMap_stripPrefix {info : HashMap String MetricInfo} :
    metric ∈ info.keys.filterMap (stripPrefix (sourceId ++ ":")) ↔
      metricKey (sourceId, metric) ∈ info := by
  rw [mem_filterMap]
  constructor
  · rintro ⟨key, hkey, h⟩
    rw [stripPrefix_eq_some] at h
    subst h
    exact AList.mem_keys.mpr hkey
  · intro h
    exact ⟨metricKey (sourceId, metric), AList.mem_keys.mp h, stripPrefix_eq_some.mpr rfl⟩

/-- A metric is listed for its info, or else for a row of the scan. -/
theorem mem_listMetrics {info : HashMap String MetricInfo} {table : HashMap Key (DataPoint V)}
    (h : metric ∈ listMetrics info table sourceId) :
    metricKey (sourceId, metric) ∈ info ∨
      ∃ t point, table.lookup (sourceId, metric, t) = some point := by
  unfold listMetrics at h
  dsimp only at h
  split at h
  · exact Or.inr (mem_scanMetrics.mp h).2
  · rw [mem_insertionSort] at h
    exact Or.inl (mem_filterMap_stripPrefix.mp h)

end HeraMind.Storage
