/-
# The store with its cache of latest values

The rest of `crates/heramind-storage/src/timeseries.rs` that reads and changes points:
the range scan of the table, the cache of latest values, `query_latest` in its three
forms, the writes that go around the write buffer, and `delete_range`.

Each call is one function on the store here, and its transactions commit: `LastWrite`
is about flushes whose transactions fail, and any other call that fails returns an
error.  The statistics, which nothing reads, are not updated.
-/
import Mathlib.Algebra.Group.Int.Defs
import Mathlib.Data.List.Sort
import HeraMind.Lib.Series
import HeraMind.Storage.LastWrite

namespace HeraMind.Storage

open List

variable {V : Type}

/-! ## Writes of a key -/

section Writes

variable {writes : List (BufferedWrite V)} {key : Key}

theorem lastOf_eq_none (h : ∀ w ∈ writes, w.key ≠ key) : lastOf key writes = none := by
  unfold lastOf ofKey
  rw [filter_eq_nil_iff.mpr]
  · rfl
  · intro w hw
    simpa using h w hw

theorem exists_of_lastOf {point : DataPoint V} (h : lastOf key writes = some point) :
    ∃ w ∈ writes, w.key = key ∧ w.point = point := by
  obtain ⟨w, hw, rfl⟩ := Option.map_eq_some_iff.mp h
  have hmem := mem_of_getLast? hw
  rw [ofKey, mem_filter, decide_eq_true_eq] at hmem
  exact ⟨w, hmem.1, hmem.2, rfl⟩

end Writes

/-! ## Range scans -/

/-- The rows of a group in the order of the table: by timestamp. -/
def rowsOf (table : HashMap Key (DataPoint V)) (group : GroupKey) : List (ℤ × DataPoint V) :=
  (table.entries.filterMap fun e =>
    if (e.1.1, e.1.2.1) = group then some (e.1.2.2, e.2) else none).insertionSort
      fun r r' => r.1 ≤ r'.1

/-- `table.range(start..=end)` on the rows of a group. -/
def range (table : HashMap Key (DataPoint V)) (group : GroupKey) (start stop : ℤ) :
    List (ℤ × DataPoint V) :=
  (rowsOf table group).filter fun r => start ≤ r.1 ∧ r.1 ≤ stop

/-- `table.range(..).next_back()` on all rows of a group. -/
def latestRow (table : HashMap Key (DataPoint V)) (group : GroupKey) : Option (DataPoint V) :=
  (rowsOf table group).getLast?.map Prod.snd

variable {table : HashMap Key (DataPoint V)} {group : GroupKey} {point : DataPoint V}

theorem mem_rowsOf {t : ℤ} :
    (t, point) ∈ rowsOf table group ↔ table.lookup (group.1, group.2, t) = some point := by
  unfold rowsOf
  rw [mem_insertionSort, mem_filterMap]
  constructor
  · rintro ⟨⟨⟨source, metric, t'⟩, point'⟩, he, h⟩
    split at h
    · rename_i hgroup
      cases h
      rw [← hgroup]
      exact AList.mem_lookup_iff.mpr he
    · cases h
  · intro h
    exact ⟨⟨(group.1, group.2, t), point⟩, AList.mem_lookup_iff.mp h, by simp⟩

theorem lookup_of_latestRow (h : latestRow table group = some point) :
    ∃ t, table.lookup (group.1, group.2, t) = some point := by
  obtain ⟨⟨t, p⟩, hr, rfl⟩ := Option.map_eq_some_iff.mp h
  exact ⟨t, mem_rowsOf.mp (mem_of_getLast? hr)⟩

theorem sorted_rowsOf (table : HashMap Key (DataPoint V)) (group : GroupKey) :
    (rowsOf table group).Pairwise fun r r' => r.1 ≤ r'.1 := by
  have htotal : Std.Total fun r r' : ℤ × DataPoint V => r.1 ≤ r'.1 :=
    ⟨fun r r' => le_total r.1 r'.1⟩
  have htrans : IsTrans (ℤ × DataPoint V) fun r r' => r.1 ≤ r'.1 :=
    ⟨fun _ _ _ h h' => le_trans h h'⟩
  exact pairwise_insertionSort _ _

/-- `i64::MIN`. -/
def i64Min : ℤ := -2 ^ 63

/-- `i64::MAX`. -/
def i64Max : ℤ := 2 ^ 63 - 1

/-! ## Deletion -/

/-- `DELETE_BATCH_SIZE`. -/
def deleteBatchSize : ℕ := 1000

/-- The keys that one transaction of `delete_range` removes. -/
def keysBatch (table : HashMap Key (DataPoint V)) (group : GroupKey) (start stop : ℤ) :
    List Key :=
  ((range table group start stop).take deleteBatchSize).map fun r => (group.1, group.2, r.1)

theorem mem_range {start stop t : ℤ} :
    (t, point) ∈ range table group start stop ↔
      table.lookup (group.1, group.2, t) = some point ∧ start ≤ t ∧ t ≤ stop := by
  rw [range, mem_filter, mem_rowsOf]
  simp

theorem mem_keysBatch {start stop : ℤ} {key : Key} (h : key ∈ keysBatch table group start stop) :
    ∃ t point, key = (group.1, group.2, t) ∧ table.lookup key = some point ∧
      start ≤ t ∧ t ≤ stop := by
  obtain ⟨⟨t, point⟩, hr, rfl⟩ := mem_map.mp h
  obtain ⟨hlookup, hin⟩ := mem_range.mp (mem_of_mem_take hr)
  exact ⟨t, point, rfl, hlookup, hin⟩

/-- A batch that removes anything leaves fewer rows. -/
theorem length_keys_lt {start stop : ℤ} (h : keysBatch table group start stop ≠ []) :
    (HashMap.removeAll table (keysBatch table group start stop)).keys.length < table.keys.length := by
  obtain ⟨key, keys, hkeys⟩ := exists_cons_of_ne_nil h
  have hmem : key ∈ keysBatch table group start stop := by simp [hkeys]
  obtain ⟨t, point, -, hlookup, -⟩ := mem_keysBatch hmem
  rw [hkeys]
  apply HashMap.length_keys_removeAll_lt
  rw [← AList.mem_keys, ← AList.lookup_isSome, hlookup]
  rfl

/-- The loop of `delete_range`: batches until one is not full.  The number of rows
removed, and the table. -/
def deleteRows (table : HashMap Key (DataPoint V)) (group : GroupKey) (start stop : ℤ) :
    ℕ × HashMap Key (DataPoint V) :=
  let keys := keysBatch table group start stop
  if keys = [] then (0, table)
  else
    let table' := HashMap.removeAll table keys
    if keys.length < deleteBatchSize then (keys.length, table')
    else
      let (count, table'') := deleteRows table' group start stop
      (keys.length + count, table'')
termination_by table.keys.length
decreasing_by exact length_keys_lt ‹_›

/-- A batch that is not full has removed every row of the range. -/
theorem mem_keysBatch_of_lt {start stop t : ℤ}
    (hlt : (keysBatch table group start stop).length < deleteBatchSize)
    (hlookup : table.lookup (group.1, group.2, t) = some point) (hin : start ≤ t ∧ t ≤ stop) :
    (group.1, group.2, t) ∈ keysBatch table group start stop := by
  have hr : (t, point) ∈ range table group start stop := mem_range.mpr ⟨hlookup, hin⟩
  unfold keysBatch at hlt ⊢
  rw [length_map, length_take] at hlt
  rw [take_of_length_le (by omega)]
  exact mem_map_of_mem hr

/-- The loop removes the rows of the range and no others. -/
theorem lookup_deleteRows (table : HashMap Key (DataPoint V)) (group : GroupKey)
    (start stop : ℤ) (key : Key) :
    (deleteRows table group start stop).2.lookup key =
      if (key.1, key.2.1) = group ∧ start ≤ key.2.2 ∧ key.2.2 ≤ stop then none
      else table.lookup key := by
  -- what a batch removes lies in the range
  have hbatch : ∀ table : HashMap Key (DataPoint V),
      ¬ ((key.1, key.2.1) = group ∧ start ≤ key.2.2 ∧ key.2.2 ≤ stop) →
      (HashMap.removeAll table (keysBatch table group start stop)).lookup key =
        table.lookup key := by
    intro table hout
    rw [HashMap.lookup_removeAll, if_neg]
    intro hmem
    obtain ⟨t, point, rfl, -, hin⟩ := mem_keysBatch hmem
    exact hout ⟨rfl, hin⟩
  -- a batch that is not full leaves nothing of the range
  have hlast : ∀ table : HashMap Key (DataPoint V),
      (keysBatch table group start stop).length < deleteBatchSize →
      (key.1, key.2.1) = group ∧ start ≤ key.2.2 ∧ key.2.2 ≤ stop →
      (HashMap.removeAll table (keysBatch table group start stop)).lookup key = none := by
    rintro table hlt ⟨hgroup, hin⟩
    rw [HashMap.lookup_removeAll]
    split
    · rfl
    · rename_i hnot
      subst hgroup
      cases hl : table.lookup key with
      | none => rfl
      | some point => exact absurd (mem_keysBatch_of_lt hlt hl hin) hnot
  fun_induction deleteRows table group start stop with
  | case1 table keys hkeys =>
    have hkeys : keysBatch table group start stop = [] := hkeys
    have hnone := hlast table (by rw [hkeys]; decide)
    have hsame := hbatch table
    rw [hkeys] at hnone hsame
    split
    · rename_i hin
      exact hnone hin
    · rename_i hout
      exact hsame hout
  | case2 table keys hne table' hlt =>
    split
    · rename_i hin
      exact hlast table hlt hin
    · rename_i hout
      exact hbatch table hout
  | case3 table keys hne table' hfull count table'' heq ih =>
    rw [heq] at ih
    rw [ih]
    split
    · rfl
    · rename_i hout
      exact hbatch table hout

/-- Nothing is removed exactly when the range has no row. -/
theorem fst_deleteRows_eq_zero {start stop : ℤ} :
    (deleteRows table group start stop).1 = 0 ↔ keysBatch table group start stop = [] := by
  unfold deleteRows
  dsimp only
  split
  · rename_i hkeys
    simp [hkeys]
  · rename_i hkeys
    have hpos : 0 < (keysBatch table group start stop).length := length_pos_of_ne_nil hkeys
    split
    · simp [hkeys]
    · simp only [hkeys, iff_false]
      omega

/-! ## The cache -/

/-- Cache entry for latest data point. -/
structure CacheEntry (V : Type) where
  point : DataPoint V
  /-- When this entry was cached, in nanoseconds. -/
  cachedAt : ℕ

/-- The store with its cache of latest values. -/
structure CachedStore (V : Type) extends TimeSeriesStore V where
  latestCache : HashMap GroupKey (CacheEntry V)
  /-- Cache TTL, in nanoseconds. -/
  cacheTtl : ℕ
  /-- `Instant::now`, in nanoseconds. -/
  clock : ℕ

/-- Batch write request grouped by device.  Its device type is read by nothing. -/
structure BatchWriteRequest (V : Type) where
  sourceId : String
  metrics : HashMap String (List (DataPoint V))

/-- The points of a request, as writes. -/
def BatchWriteRequest.writes (r : BatchWriteRequest V) : List (BufferedWrite V) :=
  r.metrics.entries.flatMap fun e => buffered (r.sourceId, e.1) e.2

/-- The last point of each metric of a request. -/
def BatchWriteRequest.lastPoints (r : BatchWriteRequest V) : List (BufferedWrite V) :=
  r.metrics.entries.flatMap fun e => buffered (r.sourceId, e.1) e.2.getLast?.toList

namespace CachedStore

/-- The store after `with_config` has opened a database with these rows. -/
def opened (table : HashMap Key (DataPoint V)) (maxSize cacheTtl clock : ℕ) :
    CachedStore V where
  writeBuffer := ⟨[], maxSize⟩
  table := table
  metricsInfo := ∅
  metricsInitialized := false
  stats := ⟨0, 0⟩
  latestCache := ∅
  cacheTtl := cacheTtl
  clock := clock

/-- Update the latest value cache. -/
def updateCache (s : CachedStore V) (group : GroupKey) (point : DataPoint V) : CachedStore V :=
  { s with latestCache := s.latestCache.insert group ⟨point, s.clock⟩ }

/-- The point in the cache, unless its entry has expired. -/
def cached (s : CachedStore V) (group : GroupKey) : Option (DataPoint V) :=
  match s.latestCache.lookup group with
  | some entry => if s.clock - entry.cachedAt < s.cacheTtl then some entry.point else none
  | none => none

/-! ## Queries of the latest point

A row is the JSON text of its point.  `readBack` is what `serde_json` reads from the text of a
point; where it gives an error, so does the query. -/

variable (readBack : DataPoint V → Option (DataPoint V))

/-- Read the latest data point without touching the cache. -/
def queryLatestUncached (s : CachedStore V) (group : GroupKey) : Option (Option (DataPoint V)) :=
  match latestRow s.table group with
  | some row => (readBack row).map some
  | none => some none

theorem latestRow_of_queryLatestUncached {s : CachedStore V} {group : GroupKey} {point : DataPoint V}
    (h : s.queryLatestUncached some group = some (some point)) :
    latestRow s.table group = some point := by
  unfold queryLatestUncached at h
  cases hrow : latestRow s.table group with
  | none =>
    rw [hrow] at h
    cases h
  | some row =>
    rw [hrow] at h
    cases h
    rfl

/-- Query the latest data point. -/
def queryLatest (s : CachedStore V) (group : GroupKey) :
    Option (Option (DataPoint V)) × CachedStore V :=
  match s.cached group with
  | some point => (some (some point), s)
  | none =>
    match s.queryLatestUncached readBack group with
    | some (some point) => (some (some point), s.updateCache group point)
    | result => (result, s)

/-- The loop of `query_latest_batch` over the cache misses. -/
def queryMisses (sourceId : String) :
    List String → HashMap String (DataPoint V) → CachedStore V →
      Option (HashMap String (DataPoint V)) × CachedStore V
  | [], results, s => (some results, s)
  | metric :: misses, results, s =>
    match s.queryLatestUncached readBack (sourceId, metric) with
    | some (some latest) =>
      queryMisses sourceId misses (results.insert metric latest)
        (s.updateCache (sourceId, metric) latest)
    | some none => queryMisses sourceId misses results s
    | none => (none, s)

/-- The result for a metric that is in the cache. -/
def addHit (s : CachedStore V) (sourceId : String) (results : HashMap String (DataPoint V))
    (metric : String) : HashMap String (DataPoint V) :=
  match s.cached (sourceId, metric) with
  | some point => results.insert metric point
  | none => results

/-- Batch query the latest data point for multiple metrics of a source. -/
def queryLatestBatch (s : CachedStore V) (sourceId : String) (metrics : List String) :
    Option (HashMap String (DataPoint V)) × CachedStore V :=
  -- the cache hits first, then the misses in one read transaction
  let results := metrics.foldl (s.addHit sourceId) ∅
  let misses := metrics.filter fun metric => (s.cached (sourceId, metric)).isNone
  queryMisses readBack sourceId misses results s

/-! ## Writes -/

/-- Flush all buffered writes in one transaction.  The hash map of the groups is visited
in the given order. -/
def flushBuffer (order : List GroupKey) (s : CachedStore V) : Option (CachedStore V) :=
  let drained := s.writeBuffer.drain.1
  let s' := { s.toTimeSeriesStore with writeBuffer := s.writeBuffer.drain.2 }
  if drained.isEmpty then some { s with toTimeSeriesStore := s' }
  else if order.Perm (groupsOf drained).keys then
    some { s with
      toTimeSeriesStore := s'.writeAllGroupsSync (entriesIn (groupsOf drained) order) }
  else none

/-- Write a data point (buffered). -/
def write (order : List GroupKey) (s : CachedStore V) (write : BufferedWrite V) :
    Option (CachedStore V) :=
  let s := s.updateCache write.groupKey write.point
  let s' := { s with writeBuffer := (s.writeBuffer.push write).2 }
  if (s.writeBuffer.push write).1 then s'.flushBuffer order else some s'

/-- Write multiple data points in batch.  An empty batch has the present time, in
seconds, as its last update. -/
def writeBatch (now : ℤ) (s : CachedStore V) (group : GroupKey) (points : List (DataPoint V)) :
    CachedStore V :=
  let metricKey := group.1 ++ ":" ++ group.2
  let lastTs := (points.getLast?.map DataPoint.timestamp).getD now
  { s with
    table := insertPoints s.table group points
    metricsInfo := s.metricsInfo.insert metricKey
      { lastUpdate := lastTs
        pointCount := match s.metricsInfo.lookup metricKey with
          | some entry => entry.pointCount + points.length
          | none => points.length }
    metricsInitialized := true }

/-- Write multiple batch requests concurrently.  The requests come in the order in which
their transactions commit, `caches` are the updates of the cache in their order.  Each
request commits before it updates the cache; since the two touch different parts of the
store, no other property of the interleaving matters. -/
def writeBatchConcurrent [DecidableEq V] (s : CachedStore V)
    (requests : List (BatchWriteRequest V)) (caches : List (BufferedWrite V)) :
    Option (CachedStore V) :=
  if caches.Perm (requests.flatMap BatchWriteRequest.lastPoints) then
    let s' := caches.foldl (fun s w => s.updateCache w.groupKey w.point) s
    some { s' with table := insertAll s.table (requests.flatMap BatchWriteRequest.writes) }
  else none

/-! ## Deletion -/

/-- Delete data points in a time range: the rows, the entry of the cache, and, for the
range of all times, the metric info. -/
def deleteRange (s : CachedStore V) (group : GroupKey) (start stop : ℤ) :
    ℕ × CachedStore V :=
  let (count, table) := deleteRows s.table group start stop
  let metricsInfo :=
    if start = i64Min ∧ stop = i64Max then
      s.metricsInfo.erase (group.1 ++ ":" ++ group.2)
    else s.metricsInfo
  (count, { s with
    table := table
    latestCache := s.latestCache.erase group
    metricsInfo := metricsInfo })

end CachedStore

end HeraMind.Storage
