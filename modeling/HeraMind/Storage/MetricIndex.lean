/-
# The index of the metrics

`metrics_info` of `crates/heramind-storage/src/timeseries.rs` is a flat map from
`source:metric` to what is known about the metric.  The lists of metrics read it in place
of the table, so its keys have to be those of the sources and metrics that have a row.  A
store that is opened has none of them: the first list of all metrics builds the index, but
so does the first write, with its own metrics alone.
-/
import HeraMind.Storage.Retention

namespace HeraMind.Storage

open AList
open List
open Transition

variable {V : Type}

/-! ## The list of all metrics -/

/-- Split a text at the colon that has `n` colons before it. -/
def splitAtColon : ℕ → List Char → Option (List Char × List Char)
  | _, [] => none
  | n, c :: t =>
    if c = ':' then
      match n with
      | 0 => some ([], t)
      | n + 1 => (splitAtColon n t).map fun h => (c :: h.1, h.2)
    else (splitAtColon n t).map fun h => (c :: h.1, h.2)

/-- The source and the metric of a key: split at the second colon. -/
def splitKey (key : String) : Option GroupKey :=
  (splitAtColon 1 key.toList).map fun h => (String.ofList h.1, String.ofList h.2)

/-- The metrics by their source.  A hash set is the list of its elements. -/
def groupMetrics (groups : List GroupKey) : HashMap String (List String) :=
  groupInto Prod.fst Prod.snd groups.dedup

/-- The source and the metric of a row. -/
def Key.group (key : Key) : GroupKey := (key.1, key.2.1)

/-- One row of the scan that rebuilds the metric infos, with the keys seen so far. -/
def rebuildRow (acc : List String × HashMap String MetricInfo) (key : Key) :
    List String × HashMap String MetricInfo :=
  let k := metricKey key.group
  if k ∈ acc.1 then
    match acc.2.lookup k with
    | some info =>
      if info.lastUpdate < key.2.2 then
        (acc.1, acc.2.insert k { info with lastUpdate := key.2.2 })
      else acc
    | none => acc
  else
    match acc.2.lookup k with
    | some _ => (k :: acc.1, acc.2)
    | none => (k :: acc.1, acc.2.insert k ⟨key.2.2, 0⟩)

namespace CachedStore

/-- Get all metrics for all sources: from the metric infos, or, if there are none, by a scan
of the table that fills them. -/
def listAllMetricsGrouped (s : CachedStore V) : HashMap String (List String) × CachedStore V :=
  if s.metricsInfo.keys ≠ [] then (groupMetrics (s.metricsInfo.keys.filterMap splitKey), s)
  else
    (groupMetrics (s.table.keys.map Key.group),
      { s with
        metricsInfo := (s.table.keys.foldl rebuildRow ([], s.metricsInfo)).2
        metricsInitialized := true })

end CachedStore

namespace MetricIndex

/-! ## Calls -/

/-- A call on the store. -/
inductive Call (V : Type) : Type where
  | write (order : List GroupKey) (w : BufferedWrite V)
  | flush (order : List GroupKey)
  | writeBatch (now : ℤ) (group : GroupKey) (points : List (DataPoint V))
  | writeBatchConcurrent (requests : List (BatchWriteRequest V))
      (caches : List (BufferedWrite V))
  | deleteRange (group : GroupKey) (start stop : ℤ)
  | applyRetention (policy : RetentionPolicy) (now : ℤ) (order : List GroupKey)
  | listMetrics (sourceId : String)
  | listAllMetricsGrouped

/-- One call.  A retention pass that panics has done what it did before. -/
def step [DecidableEq V] (probe : ImageProbe V) (s : CachedStore V) :
    Call V → Option (CachedStore V)
  | .write order w => s.write order w
  | .flush order => s.flushBuffer order
  | .writeBatch now group points => some (s.writeBatch now group points)
  | .writeBatchConcurrent requests caches => s.writeBatchConcurrent requests caches
  | .deleteRange group start stop => some (s.deleteRange group start stop).2
  | .applyRetention policy now order =>
    if order.Perm (metricPairs s.table) then some (s.applyRetention probe policy now order).2
    else none
  | .listMetrics _ => some { s with metricsInitialized := true }
  | .listAllMetricsGrouped => some s.listAllMetricsGrouped.2

/-! ## What the lists have to say -/

/-- The table has a point of the source and metric. -/
def Stored (table : HashMap Key (DataPoint V)) (group : GroupKey) : Prop :=
  ∃ t point, table.lookup (group.1, group.2, t) = some point

/-- The list of the metrics of a source has exactly those with a point, each once. -/
structure Lists (s : CachedStore V) (sourceId : String) : Prop where
  exact : ∀ metric, metric ∈ listMetrics s.metricsInfo s.table sourceId ↔
    Stored s.table (sourceId, metric)
  nodup : (listMetrics s.metricsInfo s.table sourceId).Nodup

/-- The list of all metrics has exactly the sources and metrics with a point. -/
structure ListsAll (s : CachedStore V) : Prop where
  exact : ∀ sourceId metric,
    metric ∈ (s.listAllMetricsGrouped.1.lookup sourceId).getD [] ↔ Stored s.table (sourceId, metric)
  sources : ∀ sourceId, sourceId ∈ s.listAllMetricsGrouped.1 ↔
    ∃ metric, Stored s.table (sourceId, metric)

/-! ## What keeps the index in step with the table -/

/-- The source is a type and an id, as in `device:camera01`. -/
def OneColon (sourceId : String) : Prop := sourceId.toList.count ':' = 1

instance decidableOneColon (sourceId : String) : Decidable (OneColon sourceId) :=
  inferInstanceAs (Decidable (_ = _))

/-- No other source with a point has a key that begins like those of this source. -/
def Unambiguous (table : HashMap Key (DataPoint V)) (sourceId : String) : Prop :=
  ∀ group, Stored table group → ∀ metric, metricKey group = metricKey (sourceId, metric) →
    group.1 = sourceId

/-- If these groups start the index, the table has no other ones. -/
def Starts (s : CachedStore V) (groups : List GroupKey) : Prop :=
  s.metricsInfo.keys = [] → ∀ group, Stored s.table group → group ∈ groups

/-- A timestamp is an `i64`. -/
def InI64 (t : ℤ) : Prop := i64Min ≤ t ∧ t ≤ i64Max

instance decidableInI64 (t : ℤ) : Decidable (InI64 t) := inferInstanceAs (Decidable (_ ∧ _))

/-- What a call must be given: sources with one colon and timestamps that are `i64`.  Then
it must not start an index that leaves something out, index a metric without points, write
past the index, or delete the last points of a metric in its index without the metric
info. -/
def Tracks (s : CachedStore V) : Call V → Prop
  | .write _ w =>
    OneColon w.sourceId ∧ InI64 w.point.timestamp ∧
      ((s.writeBuffer.push w).1 →
        Starts s ((s.writeBuffer.pending ++ [w]).map BufferedWrite.groupKey))
  | .flush _ =>
    s.writeBuffer.pending ≠ [] → Starts s (s.writeBuffer.pending.map BufferedWrite.groupKey)
  | .writeBatch _ group points =>
    OneColon group.1 ∧ (∀ point ∈ points, InI64 point.timestamp) ∧ Starts s [group] ∧
      (points = [] → Stored s.table group)
  | .writeBatchConcurrent requests _ =>
    ∀ w ∈ requests.flatMap BatchWriteRequest.writes,
      OneColon w.sourceId ∧ InI64 w.point.timestamp ∧
        if s.metricsInfo.keys = [] then w.metric ≤ scanBound else Stored s.table w.groupKey
  | .deleteRange group start stop =>
    if start = i64Min ∧ stop = i64Max then
      ∀ group', Stored s.table group' → metricKey group' = metricKey group → group' = group
    else s.metricsInfo.keys ≠ [] → Stored s.table group →
      ∃ t point, s.table.lookup (group.1, group.2, t) = some point ∧ ¬ (start ≤ t ∧ t ≤ stop)
  | .applyRetention _ now _ => now ≤ i64Max
  | .listMetrics _ | .listAllMetricsGrouped => True

/-! ## The stored metrics -/

section Stored

variable {table : HashMap Key (DataPoint V)} {group group' : GroupKey} {start stop : ℤ}

theorem stored_of_mem {key : Key} (h : key ∈ table) : Stored table key.group := by
  obtain ⟨point, hpoint⟩ := Option.isSome_iff_exists.mp (lookup_isSome.mpr h)
  exact ⟨key.2.2, point, hpoint⟩

theorem exists_mem_of_stored (h : Stored table group) : ∃ key ∈ table, key.group = group := by
  obtain ⟨t, point, hpoint⟩ := h
  refine ⟨(group.1, group.2, t), ?_, rfl⟩
  rw [← lookup_isSome, hpoint]
  rfl

/-- Writing stores the groups of the writes. -/
theorem stored_insertAll (table : HashMap Key (DataPoint V)) (writes : List (BufferedWrite V))
    (group : GroupKey) :
    Stored (insertAll table writes) group ↔
      Stored table group ∨ group ∈ writes.map BufferedWrite.groupKey := by
  unfold Stored
  simp only [lookup_insertAll, mem_map]
  constructor
  · rintro ⟨t, point, h⟩
    cases hlast : lastOf (group.1, group.2, t) writes with
    | none =>
      rw [hlast, Option.none_or] at h
      exact Or.inl ⟨t, point, h⟩
    | some last =>
      obtain ⟨w, hw, hkey, -⟩ := exists_of_lastOf hlast
      have hgroup : w.groupKey = group :=
        Prod.ext (congrArg (fun k : Key => k.1) hkey) (congrArg (fun k : Key => k.2.1) hkey)
      exact Or.inr ⟨w, hw, hgroup⟩
  · rintro (⟨t, point, h⟩ | ⟨w, hw, rfl⟩)
    · exact ⟨t, (lastOf (group.1, group.2, t) writes).getD point, by
        cases lastOf (group.1, group.2, t) writes with
        | none => exact h
        | some last => rfl⟩
    · have hlast : lastOf w.key writes ≠ none := by
        unfold lastOf ofKey
        rw [ne_eq, Option.map_eq_none_iff, getLast?_eq_none_iff, filter_eq_nil_iff]
        intro hall
        exact hall w hw (by simp)
      obtain ⟨last, hlast⟩ := Option.ne_none_iff_exists'.mp hlast
      refine ⟨w.point.timestamp, last, ?_⟩
      show (lastOf w.key writes).or _ = some last
      rw [hlast]
      rfl

/-- Deleting a range of one group leaves it the points outside of the range. -/
theorem stored_deleteRows :
    Stored (deleteRows table group start stop).2 group' ↔
      ∃ t point, table.lookup (group'.1, group'.2, t) = some point ∧
        ¬ (group' = group ∧ start ≤ t ∧ t ≤ stop) := by
  unfold Stored
  apply exists_congr
  intro t
  apply exists_congr
  intro point
  rw [lookup_deleteRows]
  constructor
  · intro h
    split at h
    · cases h
    · rename_i hout
      exact ⟨h, hout⟩
  · rintro ⟨h, hout⟩
    rw [if_neg (by exact hout)]
    exact h

theorem stored_of_deleteRows (h : Stored (deleteRows table group start stop).2 group') :
    Stored table group' := by
  obtain ⟨t, point, hpoint, -⟩ := stored_deleteRows.mp h
  exact ⟨t, point, hpoint⟩

/-- Other groups keep all of their points. -/
theorem stored_deleteRows_of_ne (hne : group' ≠ group) :
    Stored (deleteRows table group start stop).2 group' ↔ Stored table group' := by
  rw [stored_deleteRows]
  constructor
  · rintro ⟨t, point, hpoint, -⟩
    exact ⟨t, point, hpoint⟩
  · rintro ⟨t, point, hpoint⟩
    exact ⟨t, point, hpoint, fun h => hne h.1⟩

theorem i64Rows_insertAll {writes : List (BufferedWrite V)} (hrows : I64Rows table)
    (hwrites : ∀ w ∈ writes, InI64 w.point.timestamp) : I64Rows (insertAll table writes) := by
  intro key hkey
  obtain ⟨point, hpoint⟩ := Option.isSome_iff_exists.mp (lookup_isSome.mpr hkey)
  rw [lookup_insertAll] at hpoint
  cases hlast : lastOf key writes with
  | none =>
    rw [hlast, Option.none_or] at hpoint
    exact hrows key (lookup_isSome.mp (by rw [hpoint]; rfl))
  | some last =>
    obtain ⟨w, hw, rfl, -⟩ := exists_of_lastOf hlast
    exact hwrites w hw

theorem i64Rows_deleteRows (hrows : I64Rows table) :
    I64Rows (deleteRows table group start stop).2 := by
  intro key hkey
  apply hrows key
  rw [← lookup_isSome, lookup_deleteRows] at hkey
  split at hkey
  · cases hkey
  · exact lookup_isSome.mp hkey

end Stored

/-! ## The keys of the index -/

section Keys

variable {key : String} {group : GroupKey}

theorem mem_recordMetric (info : HashMap String MetricInfo) (group : GroupKey)
    (points : List (DataPoint V)) :
    key ∈ recordMetric info group points ↔ key = metricKey group ∨ key ∈ info :=
  mem_insert info

theorem mem_foldl_recordMetric (info : HashMap String MetricInfo) (groups : List (Group V)) :
    key ∈ groups.foldl (fun info g => recordMetric info g.1 g.2) info ↔
      key ∈ info ∨ ∃ g ∈ groups, metricKey g.1 = key := by
  induction groups generalizing info with
  | nil => simp
  | cons g groups ih =>
    rw [foldl_cons, ih, mem_recordMetric]
    constructor
    · rintro ((rfl | h) | ⟨g', hg', rfl⟩)
      · exact Or.inr ⟨g, mem_cons_self, rfl⟩
      · exact Or.inl h
      · exact Or.inr ⟨g', mem_cons_of_mem _ hg', rfl⟩
    · rintro (h | ⟨g', hg', rfl⟩)
      · exact Or.inl (Or.inr h)
      · rcases mem_cons.mp hg' with rfl | hg'
        · exact Or.inl (Or.inl rfl)
        · exact Or.inr ⟨g', hg', rfl⟩

/-- The rows of the scan all get their keys into the index. -/
theorem mem_foldl_rebuildRow (keys : List Key) (seen : List String)
    (info : HashMap String MetricInfo) (hseen : ∀ k ∈ seen, k ∈ info) :
    key ∈ (keys.foldl rebuildRow (seen, info)).2 ↔
      key ∈ info ∨ ∃ k ∈ keys, metricKey k.group = key := by
  induction keys generalizing seen info with
  | nil => simp
  | cons row keys ih =>
    -- one row adds its own key
    obtain ⟨seen', info', hrow, hseen', hinfo'⟩ : ∃ seen' info',
        rebuildRow (seen, info) row = (seen', info') ∧ (∀ k ∈ seen', k ∈ info') ∧
          ∀ k, k ∈ info' ↔ k ∈ info ∨ k = metricKey row.group := by
      unfold rebuildRow
      dsimp only
      by_cases hmem : metricKey row.group ∈ seen
      · have hold := hseen _ hmem
        have hsame : ∀ k, k ∈ info ↔ k ∈ info ∨ k = metricKey row.group := by
          intro k
          constructor
          · exact Or.inl
          · rintro (h | rfl)
            · exact h
            · exact hold
        rw [if_pos hmem]
        split
        · split
          · refine ⟨_, _, rfl, fun k hk => ?_, fun k => ?_⟩
            · exact (mem_insert _).mpr (Or.inr (hseen k hk))
            · rw [mem_insert, or_comm]
          · exact ⟨_, _, rfl, hseen, hsame⟩
        · exact ⟨_, _, rfl, hseen, hsame⟩
      · rw [if_neg hmem]
        split
        · rename_i old hold
          have hin : metricKey row.group ∈ info := lookup_isSome.mp (by rw [hold]; rfl)
          refine ⟨_, _, rfl, fun k hk => ?_, fun k => ?_⟩
          · rcases mem_cons.mp hk with rfl | hk
            · exact hin
            · exact hseen k hk
          · constructor
            · exact Or.inl
            · rintro (h | rfl)
              · exact h
              · exact hin
        · refine ⟨_, _, rfl, fun k hk => ?_, fun k => ?_⟩
          · rcases mem_cons.mp hk with rfl | hk
            · exact (mem_insert _).mpr (Or.inl rfl)
            · exact (mem_insert _).mpr (Or.inr (hseen k hk))
          · rw [mem_insert, or_comm]
    rw [foldl_cons, hrow, ih seen' info' hseen', hinfo', exists_mem_cons_iff, or_assoc,
      eq_comm (a := key)]

theorem splitAtColon_append (t rest : List Char) (n : ℕ) (h : t.count ':' = n) :
    splitAtColon n (t ++ ':' :: rest) = some (t, rest) := by
  induction t generalizing n with
  | nil =>
    subst h
    rfl
  | cons c t ih =>
    rw [cons_append, splitAtColon.eq_def]
    dsimp only
    by_cases hc : c = ':'
    · subst hc
      rw [count_cons_self] at h
      subst h
      rw [if_pos rfl]
      dsimp only
      rw [ih _ rfl]
      rfl
    · rw [count_cons_of_ne (fun h => hc h)] at h
      rw [if_neg hc, ih n h]
      rfl

theorem toList_metricKey (group : GroupKey) :
    (metricKey group).toList = group.1.toList ++ ':' :: group.2.toList := by
  unfold metricKey
  rw [String.toList_append, String.toList_append, append_assoc]
  rfl

/-- The key of a source with one colon is split where it was put together. -/
theorem splitKey_metricKey (h : OneColon group.1) : splitKey (metricKey group) = some group := by
  unfold splitKey
  rw [toList_metricKey, splitAtColon_append _ _ 1 h, Option.map_some, String.ofList_toList,
    String.ofList_toList]

theorem metricKey_injOn {group' : GroupKey} (h : OneColon group.1) (h' : OneColon group'.1)
    (heq : metricKey group = metricKey group') : group = group' := by
  have hsplit := splitKey_metricKey h
  rw [heq, splitKey_metricKey h'] at hsplit
  exact (Option.some.inj hsplit).symm

end Keys

/-! ## One call -/

/-- The keys of the index are those of the stored metrics. -/
def Exact (s : CachedStore V) : Prop :=
  ∀ key, key ∈ s.metricsInfo ↔ ∃ group, Stored s.table group ∧ metricKey group = key

/-- The index is exact, or there is none and a scan finds every metric. -/
structure Tracked (s : CachedStore V) : Prop where
  rows : I64Rows s.table
  sources : ∀ group, Stored s.table group → OneColon group.1
  pending : ∀ w ∈ s.writeBuffer.pending, OneColon w.sourceId ∧ InI64 w.point.timestamp
  index : (s.metricsInfo.keys = [] ∧ ∀ group, Stored s.table group → group.2 ≤ scanBound) ∨ Exact s

section Calls

variable {s s' : CachedStore V} {group : GroupKey} {order : List GroupKey}

theorem not_mem_of_keys_eq_nil {info : HashMap String MetricInfo} (h : info.keys = [])
    (key : String) : key ∉ info := by
  rw [AList.mem_keys, h]
  exact not_mem_nil

/-- Without an index there is no row. -/
theorem Exact.not_stored (h : Exact s) (hnone : s.metricsInfo.keys = []) (group : GroupKey) :
    ¬ Stored s.table group := fun hstored =>
  not_mem_of_keys_eq_nil hnone _ ((h (metricKey group)).mpr ⟨group, hstored, rfl⟩)

/-- Some groups are stored and indexed. -/
theorem Tracked.add (h : Tracked s) (groups : List GroupKey) (hrows : I64Rows s'.table)
    (hstored : ∀ group, Stored s'.table group ↔ Stored s.table group ∨ group ∈ groups)
    (hsources : ∀ group ∈ groups, OneColon group.1)
    (hpending : ∀ w ∈ s'.writeBuffer.pending, OneColon w.sourceId ∧ InI64 w.point.timestamp)
    (hinfo : ∀ key, key ∈ s'.metricsInfo ↔
      key ∈ s.metricsInfo ∨ ∃ group ∈ groups, metricKey group = key)
    (hstarts : Starts s groups) : Tracked s' := by
  refine ⟨hrows, ?_, hpending, Or.inr ?_⟩
  · intro group hgroup
    rcases (hstored group).mp hgroup with hold | hnew
    · exact h.sources group hold
    · exact hsources group hnew
  · -- what was stored is in the index already, or is among the new groups
    have hold : ∀ group, Stored s.table group →
        metricKey group ∈ s.metricsInfo ∨ group ∈ groups := by
      intro group hgroup
      rcases h.index with ⟨hnone, -⟩ | hexact
      · exact Or.inr (hstarts hnone group hgroup)
      · exact Or.inl ((hexact _).mpr ⟨group, hgroup, rfl⟩)
    have hindexed : ∀ key ∈ s.metricsInfo, ∃ group, Stored s.table group ∧ metricKey group = key := by
      intro key hkey
      rcases h.index with ⟨hnone, -⟩ | hexact
      · exact absurd hkey (not_mem_of_keys_eq_nil hnone key)
      · exact (hexact key).mp hkey
    intro key
    rw [hinfo]
    constructor
    · rintro (hkey | ⟨group, hgroup, rfl⟩)
      · obtain ⟨group, hgroup, rfl⟩ := hindexed key hkey
        exact ⟨group, (hstored group).mpr (Or.inl hgroup), rfl⟩
      · exact ⟨group, (hstored group).mpr (Or.inr hgroup), rfl⟩
    · rintro ⟨group, hgroup, rfl⟩
      rcases (hstored group).mp hgroup with hgroup | hgroup
      · rcases hold group hgroup with hkey | hgroup
        · exact Or.inl hkey
        · exact Or.inr ⟨group, hgroup, rfl⟩
      · exact Or.inr ⟨group, hgroup, rfl⟩

/-- A group loses all of its points and its metric info. -/
theorem Tracked.remove (h : Tracked s) (hrows : I64Rows s'.table)
    (hstored : ∀ group', Stored s'.table group' ↔ Stored s.table group' ∧ group' ≠ group)
    (halias : ∀ group', Stored s.table group' → metricKey group' = metricKey group →
      group' = group)
    (hpending : s'.writeBuffer = s.writeBuffer)
    (hinfo : s'.metricsInfo = s.metricsInfo.erase (metricKey group)) : Tracked s' := by
  refine ⟨hrows, ?_, ?_, ?_⟩
  · intro group' hgroup'
    exact h.sources group' ((hstored group').mp hgroup').1
  · rw [hpending]
    exact h.pending
  · rcases h.index with ⟨hnone, hbound⟩ | hexact
    · left
      refine ⟨?_, fun group' hgroup' => hbound group' ((hstored group').mp hgroup').1⟩
      rw [hinfo, keys_erase, hnone]
      rfl
    · right
      intro key
      rw [hinfo, mem_erase, hexact]
      constructor
      · rintro ⟨hne, group', hgroup', rfl⟩
        refine ⟨group', (hstored group').mpr ⟨hgroup', ?_⟩, rfl⟩
        rintro rfl
        exact hne rfl
      · rintro ⟨group', hgroup', rfl⟩
        obtain ⟨hin, hne⟩ := (hstored group').mp hgroup'
        exact ⟨fun heq => hne (halias group' hin heq), group', hin, rfl⟩

/-- Points go, and the index stays: with an index, every group keeps a point. -/
theorem Tracked.shrink (h : Tracked s) (hrows : I64Rows s'.table)
    (hstored : ∀ group', Stored s'.table group' → Stored s.table group')
    (hkept : s.metricsInfo.keys ≠ [] → ∀ group', Stored s.table group' → Stored s'.table group')
    (hpending : s'.writeBuffer = s.writeBuffer) (hinfo : s'.metricsInfo = s.metricsInfo) :
    Tracked s' := by
  refine ⟨hrows, fun group' hgroup' => h.sources group' (hstored group' hgroup'), ?_, ?_⟩
  · rw [hpending]
    exact h.pending
  · rcases h.index with ⟨hnone, hbound⟩ | hexact
    · left
      exact ⟨by rw [hinfo, hnone], fun group' hgroup' => hbound group' (hstored group' hgroup')⟩
    · right
      intro key
      rw [hinfo, hexact]
      constructor
      · rintro ⟨group', hgroup', rfl⟩
        have hkeys : s.metricsInfo.keys ≠ [] := fun hnone =>
          hexact.not_stored hnone group' hgroup'
        exact ⟨group', hkept hkeys group' hgroup', rfl⟩
      · rintro ⟨group', hgroup', rfl⟩
        exact ⟨group', hstored group' hgroup', rfl⟩

/-- A flush of a buffer that is not empty inserts the groups of the drained writes. -/
theorem of_flushBuffer (hs : s.flushBuffer order = some s') (hne : s.writeBuffer.pending ≠ []) :
    order.Perm (groupsOf s.writeBuffer.pending).keys ∧
      s'.writeBuffer.pending = [] ∧
      s'.table = insertAll s.table (ungroup (entriesIn (groupsOf s.writeBuffer.pending) order)) ∧
      s'.metricsInfo = (entriesIn (groupsOf s.writeBuffer.pending) order).foldl
        (fun info g => recordMetric info g.1 g.2) s.metricsInfo := by
  unfold CachedStore.flushBuffer at hs
  dsimp only [WriteBuffer.drain] at hs
  split at hs
  · rename_i hempty
    exact absurd (List.isEmpty_iff.mp hempty) hne
  · split at hs
    · rename_i horder
      cases hs
      exact ⟨horder, rfl, foldl_insertPoints _ _, rfl⟩
    · cases hs

theorem flushBuffer_of_nil (hs : s.flushBuffer order = some s')
    (hnil : s.writeBuffer.pending = []) :
    s'.table = s.table ∧ s'.metricsInfo = s.metricsInfo ∧ s'.writeBuffer.pending = [] := by
  unfold CachedStore.flushBuffer at hs
  dsimp only [WriteBuffer.drain] at hs
  rw [if_pos (List.isEmpty_iff.mpr hnil)] at hs
  cases hs
  exact ⟨rfl, rfl, rfl⟩

/-- The groups that a flush visits are those of the drained writes. -/
theorem mem_groups_of_perm {drained : List (BufferedWrite V)}
    (horder : order.Perm (groupsOf drained).keys) :
    group ∈ (entriesIn (groupsOf drained) order).map Prod.fst ↔
      group ∈ drained.map BufferedWrite.groupKey := by
  rw [mem_map_fst_entriesIn, horder.mem_iff, AList.mem_keys, and_self, groupsOf,
    mem_keys_groupInto, mem_map]

theorem Tracked.flush (h : Tracked s) (hs : s.flushBuffer order = some s')
    (hstarts : s.writeBuffer.pending ≠ [] →
      Starts s (s.writeBuffer.pending.map BufferedWrite.groupKey)) : Tracked s' := by
  by_cases hne : s.writeBuffer.pending = []
  · obtain ⟨htable, hinfo, hpending⟩ := flushBuffer_of_nil hs hne
    refine ⟨?_, ?_, ?_, ?_⟩
    · rw [htable]
      exact h.rows
    · rw [htable]
      exact h.sources
    · rw [hpending]
      exact fun w hw => absurd hw not_mem_nil
    · unfold Exact
      rw [htable, hinfo]
      exact h.index
  · obtain ⟨horder, hpending, htable, hinfo⟩ := of_flushBuffer hs hne
    have hperm := perm_ungroup s.writeBuffer.pending horder
    refine h.add (s.writeBuffer.pending.map BufferedWrite.groupKey) ?_ ?_ ?_ ?_ ?_ (hstarts hne)
    · rw [htable]
      exact i64Rows_insertAll h.rows fun w hw => (h.pending w (hperm.mem_iff.mp hw)).2
    · intro group
      rw [htable, stored_insertAll, (hperm.map _).mem_iff]
    · intro group hgroup
      obtain ⟨w, hw, rfl⟩ := mem_map.mp hgroup
      exact (h.pending w hw).1
    · rw [hpending]
      exact fun w hw => absurd hw not_mem_nil
    · intro key
      rw [hinfo, mem_foldl_recordMetric]
      apply or_congr_right
      constructor
      · rintro ⟨g, hg, rfl⟩
        exact ⟨g.1, (mem_groups_of_perm horder).mp (mem_map_of_mem hg), rfl⟩
      · rintro ⟨group, hgroup, rfl⟩
        obtain ⟨g, hg, rfl⟩ := mem_map.mp ((mem_groups_of_perm horder).mpr hgroup)
        exact ⟨g, hg, rfl⟩

theorem Tracked.write {w : BufferedWrite V} (h : Tracked s) (hs : s.write order w = some s')
    (hcolon : OneColon w.sourceId) (hi64 : InI64 w.point.timestamp)
    (hstarts : (s.writeBuffer.push w).1 →
      Starts s ((s.writeBuffer.pending ++ [w]).map BufferedWrite.groupKey)) : Tracked s' := by
  -- the write is pushed, and the buffer may be flushed
  obtain ⟨s₁, hpending, htable, hinfo, hs⟩ : ∃ s₁ : CachedStore V,
      s₁.writeBuffer.pending = s.writeBuffer.pending ++ [w] ∧ s₁.table = s.table ∧
        s₁.metricsInfo = s.metricsInfo ∧
          (if (s.writeBuffer.push w).1 then s₁.flushBuffer order else some s₁) = some s' :=
    ⟨{ s.updateCache w.groupKey w.point with writeBuffer := (s.writeBuffer.push w).2 },
      rfl, rfl, rfl, hs⟩
  have h₁ : Tracked s₁ := by
    refine ⟨?_, ?_, ?_, ?_⟩
    · rw [htable]
      exact h.rows
    · rw [htable]
      exact h.sources
    · rw [hpending]
      exact forall_mem_append.mpr ⟨h.pending, forall_mem_singleton.mpr ⟨hcolon, hi64⟩⟩
    · unfold Exact
      rw [htable, hinfo]
      exact h.index
  split at hs
  · rename_i hfull
    apply h₁.flush hs
    unfold Starts
    rw [hpending, htable, hinfo]
    exact fun _ => hstarts hfull
  · cases hs
    exact h₁

theorem Tracked.writeBatch {now : ℤ} {points : List (DataPoint V)} (h : Tracked s)
    (hcolon : OneColon group.1) (hi64 : ∀ point ∈ points, InI64 point.timestamp)
    (hstarts : Starts s [group]) (hempty : points = [] → Stored s.table group) :
    Tracked (s.writeBatch now group points) := by
  have htable : (s.writeBatch now group points).table =
      insertAll s.table (buffered group points) := insertPoints_eq _ _ _
  have hgroups : ∀ group', group' ∈ (buffered group points).map BufferedWrite.groupKey ↔
      group' = group ∧ points ≠ [] := by
    intro group'
    unfold buffered
    rw [map_map, mem_map]
    constructor
    · rintro ⟨point, hpoint, rfl⟩
      exact ⟨rfl, ne_nil_of_mem hpoint⟩
    · rintro ⟨rfl, hne⟩
      obtain ⟨point, points', rfl⟩ := exists_cons_of_ne_nil hne
      exact ⟨point, mem_cons_self, rfl⟩
  refine h.add [group] ?_ ?_ ?_ h.pending ?_ hstarts
  · rw [htable]
    apply i64Rows_insertAll h.rows
    intro w hw
    obtain ⟨point, hpoint, rfl⟩ := mem_map.mp hw
    exact hi64 point hpoint
  · intro group'
    rw [htable, stored_insertAll, hgroups, mem_singleton]
    constructor
    · rintro (hold | ⟨rfl, -⟩)
      · exact Or.inl hold
      · exact Or.inr rfl
    · rintro (hold | rfl)
      · exact Or.inl hold
      · by_cases hpoints : points = []
        · exact Or.inl (hempty hpoints)
        · exact Or.inr ⟨rfl, hpoints⟩
  · intro group' hgroup'
    rw [mem_singleton] at hgroup'
    subst hgroup'
    exact hcolon
  · intro key
    show key ∈ s.metricsInfo.insert (metricKey group) _ ↔ _
    rw [mem_insert, or_comm]
    simp [eq_comm]

theorem Tracked.writeBatchConcurrent [DecidableEq V] {requests : List (BatchWriteRequest V)}
    {caches : List (BufferedWrite V)} (h : Tracked s)
    (hs : s.writeBatchConcurrent requests caches = some s')
    (hwrites : ∀ w ∈ requests.flatMap BatchWriteRequest.writes,
      OneColon w.sourceId ∧ InI64 w.point.timestamp ∧
        if s.metricsInfo.keys = [] then w.metric ≤ scanBound else Stored s.table w.groupKey) :
    Tracked s' := by
  -- filling the cache touches nothing of the index
  have hcaches : ∀ (caches : List (BufferedWrite V)) (s : CachedStore V),
      (caches.foldl (fun s w => s.updateCache w.groupKey w.point) s).toTimeSeriesStore =
        s.toTimeSeriesStore := by
    intro caches
    induction caches with
    | nil => exact fun s => rfl
    | cons w caches ih => exact fun s => ih _
  unfold CachedStore.writeBatchConcurrent at hs
  split at hs
  · cases hs
    have hsame := hcaches caches s
    have hstored : ∀ group, Stored (insertAll s.table
        (requests.flatMap BatchWriteRequest.writes)) group ↔ Stored s.table group ∨
          group ∈ (requests.flatMap BatchWriteRequest.writes).map BufferedWrite.groupKey :=
      stored_insertAll _ _
    refine ⟨i64Rows_insertAll h.rows fun w hw => (hwrites w hw).2.1, ?_, ?_, ?_⟩
    · intro group hgroup
      rcases (hstored group).mp hgroup with hold | hnew
      · exact h.sources group hold
      · obtain ⟨w, hw, rfl⟩ := mem_map.mp hnew
        exact (hwrites w hw).1
    · dsimp only
      rw [hsame]
      exact h.pending
    · unfold Exact
      dsimp only
      rw [hsame]
      by_cases hnone : s.metricsInfo.keys = []
      · left
        refine ⟨hnone, fun group hgroup => ?_⟩
        rcases (hstored group).mp hgroup with hold | hnew
        · rcases h.index with ⟨-, hbound⟩ | hexact
          · exact hbound group hold
          · exact absurd hold (hexact.not_stored hnone group)
        · obtain ⟨w, hw, rfl⟩ := mem_map.mp hnew
          have hbound := (hwrites w hw).2.2
          rw [if_pos hnone] at hbound
          exact hbound
      · right
        have hexact : Exact s := h.index.resolve_left fun hcold => hnone hcold.1
        intro key
        rw [hexact]
        apply exists_congr
        intro group
        apply and_congr_left
        intro _
        rw [hstored]
        constructor
        · exact Or.inl
        · rintro (hold | hnew)
          · exact hold
          · obtain ⟨w, hw, rfl⟩ := mem_map.mp hnew
            have hin := (hwrites w hw).2.2
            rw [if_neg hnone] at hin
            exact hin
  · cases hs

/-- Every row of an `i64` table lies in the full range. -/
theorem stored_deleteRows_full (hrows : I64Rows s.table) (group' : GroupKey) :
    Stored (deleteRows s.table group i64Min i64Max).2 group' ↔
      Stored s.table group' ∧ group' ≠ group := by
  rw [stored_deleteRows]
  constructor
  · rintro ⟨t, point, hpoint, hout⟩
    refine ⟨⟨t, point, hpoint⟩, fun hgroup => hout ⟨hgroup, ?_⟩⟩
    exact hrows _ (lookup_isSome.mp (by rw [hpoint]; rfl))
  · rintro ⟨⟨t, point, hpoint⟩, hne⟩
    exact ⟨t, point, hpoint, fun h => hne h.1⟩

theorem Tracked.deleteRange {start stop : ℤ} (h : Tracked s)
    (hkeeps : if start = i64Min ∧ stop = i64Max then
        ∀ group', Stored s.table group' → metricKey group' = metricKey group → group' = group
      else s.metricsInfo.keys ≠ [] → Stored s.table group →
        ∃ t point, s.table.lookup (group.1, group.2, t) = some point ∧ ¬ (start ≤ t ∧ t ≤ stop)) :
    Tracked (s.deleteRange group start stop).2 := by
  by_cases hfull : start = i64Min ∧ stop = i64Max
  · rw [if_pos hfull] at hkeeps
    have hinfo : (s.deleteRange group start stop).2.metricsInfo =
        s.metricsInfo.erase (metricKey group) := if_pos hfull
    obtain ⟨rfl, rfl⟩ := hfull
    exact h.remove (i64Rows_deleteRows h.rows) (stored_deleteRows_full h.rows) hkeeps rfl hinfo
  · rw [if_neg hfull] at hkeeps
    have hinfo : (s.deleteRange group start stop).2.metricsInfo = s.metricsInfo := if_neg hfull
    refine h.shrink (i64Rows_deleteRows h.rows) (fun _ => stored_of_deleteRows) ?_ rfl hinfo
    intro hkeys group' hgroup'
    by_cases hgroup : group' = group
    · subst hgroup
      obtain ⟨t, point, hpoint, hout⟩ := hkeeps hkeys hgroup'
      exact stored_deleteRows.mpr ⟨t, point, hpoint, fun hin => hout hin.2⟩
    · exact (stored_deleteRows_of_ne hgroup).mpr hgroup'

theorem hasAnyPoint_eq_false (hrows : I64Rows s.table) :
    s.hasAnyPoint group = false ↔ ¬ Stored s.table group := by
  unfold CachedStore.hasAnyPoint
  rw [Bool.not_eq_false', List.isEmpty_iff, eq_nil_iff_forall_not_mem]
  constructor
  · rintro hnone ⟨t, point, hpoint⟩
    refine hnone (t, point) (mem_range.mpr ⟨hpoint, ?_⟩)
    exact hrows _ (lookup_isSome.mp (by rw [hpoint]; rfl))
  · rintro hnot ⟨t, point⟩ hmem
    exact hnot ⟨t, point, (mem_range.mp hmem).1⟩

/-- A deletion that removes nothing changes no group. -/
theorem stored_of_removed_eq_zero {stop : ℤ}
    (hzero : (deleteRows s.table group i64Min stop).1 = 0) (hgroup : Stored s.table group) :
    Stored (deleteRows s.table group i64Min stop).2 group := by
  obtain ⟨t, point, hpoint⟩ := hgroup
  refine stored_deleteRows.mpr ⟨t, point, hpoint, ?_⟩
  rintro ⟨-, hin⟩
  rw [fst_deleteRows_eq_zero] at hzero
  have hkey := mem_keysBatch_of_lt (by rw [hzero]; decide) hpoint hin
  rw [hzero] at hkey
  cases hkey

theorem Tracked.retain {now : ℤ} (h : Tracked s) (hnow : now ≤ i64Max)
    (hours : Option UInt64) : Tracked (s.retain now group hours).2 := by
  cases hours with
  | none => exact h
  | some hours =>
    unfold CachedStore.retain
    dsimp only
    split
    · rename_i hcut
      have hpartial : ¬ (i64Min = i64Min ∧ cutoffOf now hours = i64Max) := by
        rintro ⟨-, heq⟩
        omega
      have hinfo : (s.deleteRange group i64Min (cutoffOf now hours)).2.metricsInfo =
          s.metricsInfo := if_neg hpartial
      have hrows : I64Rows (s.deleteRange group i64Min (cutoffOf now hours)).2.table :=
        i64Rows_deleteRows h.rows
      split
      · rename_i hlast
        obtain ⟨hpos, hnone⟩ := hlast
        rw [hasAnyPoint_eq_false hrows] at hnone
        have hstored : Stored s.table group := by
          by_contra hnot
          have hkeys : keysBatch s.table group i64Min (cutoffOf now hours) = [] := by
            rw [eq_nil_iff_forall_not_mem]
            intro key hkey
            obtain ⟨t, point, rfl, hpoint, -⟩ := mem_keysBatch hkey
            exact hnot ⟨t, point, hpoint⟩
          have hzero : (deleteRows s.table group i64Min (cutoffOf now hours)).1 = 0 :=
            fst_deleteRows_eq_zero.mpr hkeys
          have hpos : 0 < (deleteRows s.table group i64Min (cutoffOf now hours)).1 := hpos
          omega
        refine h.remove hrows ?_ ?_ rfl (congrArg (AList.erase (metricKey group)) hinfo)
        · intro group'
          by_cases hgroup : group' = group
          · subst hgroup
            exact ⟨fun hin => absurd hin hnone, fun hin => absurd rfl hin.2⟩
          · exact ⟨fun hin => ⟨stored_of_deleteRows hin, hgroup⟩,
              fun hin => (stored_deleteRows_of_ne hgroup).mpr hin.1⟩
        · intro group' hgroup' heq
          exact metricKey_injOn (h.sources _ hgroup') (h.sources _ hstored) heq
      · rename_i hkept
        refine h.shrink hrows (fun _ => stored_of_deleteRows) ?_ rfl hinfo
        intro _ group' hgroup'
        by_cases hgroup : group' = group
        · subst hgroup
          by_cases hzero : (deleteRows s.table group' i64Min (cutoffOf now hours)).1 = 0
          · exact stored_of_removed_eq_zero hzero hgroup'
          · by_contra hnot
            have hpos : 0 < (s.deleteRange group' i64Min (cutoffOf now hours)).1 :=
              Nat.pos_of_ne_zero hzero
            exact hkept ⟨hpos, (hasAnyPoint_eq_false hrows).mpr hnot⟩
        · exact (stored_deleteRows_of_ne hgroup).mpr hgroup'
    · exact h

theorem Tracked.retainAll {probe : ImageProbe V} {policy : RetentionPolicy} {now : ℤ}
    {result : RetentionPolicyCleanupResult} (h : Tracked s) (hnow : now ≤ i64Max) :
    Tracked (CachedStore.retainAll probe policy now order result s).2 := by
  induction order generalizing result s with
  | nil => exact h
  | cons group order ih =>
    rw [CachedStore.retainAll]
    split
    · exact h
    · exact ih (h.retain hnow _)

theorem Tracked.listAllMetricsGrouped (h : Tracked s) : Tracked s.listAllMetricsGrouped.2 := by
  unfold CachedStore.listAllMetricsGrouped
  split
  · exact h
  · rename_i hnone
    rw [not_not] at hnone
    refine ⟨h.rows, h.sources, h.pending, Or.inr ?_⟩
    intro key
    show key ∈ (s.table.keys.foldl rebuildRow ([], s.metricsInfo)).2 ↔ _
    rw [mem_foldl_rebuildRow _ _ _ (fun k hk => absurd hk not_mem_nil)]
    constructor
    · rintro (hkey | ⟨row, hrow, rfl⟩)
      · exact absurd hkey (not_mem_of_keys_eq_nil hnone key)
      · exact ⟨row.group, stored_of_mem (AList.mem_keys.mpr hrow), rfl⟩
    · rintro ⟨group, hgroup, rfl⟩
      obtain ⟨row, hrow, rfl⟩ := exists_mem_of_stored hgroup
      exact Or.inr ⟨row, AList.mem_keys.mp hrow, rfl⟩

end Calls

/-! ## Runs -/

section Run

variable [DecidableEq V] {probe : ImageProbe V} {s s' : CachedStore V}

theorem Tracked.step {c : Call V} (h : Tracked s) (htracks : Tracks s c)
    (hs : step probe s c = some s') : Tracked s' := by
  cases c with
  | write order w => exact h.write hs htracks.1 htracks.2.1 htracks.2.2
  | flush order => exact h.flush hs htracks
  | writeBatch now group points =>
    cases hs
    exact h.writeBatch htracks.1 htracks.2.1 htracks.2.2.1 htracks.2.2.2
  | writeBatchConcurrent requests caches => exact h.writeBatchConcurrent hs htracks
  | deleteRange group start stop =>
    cases hs
    exact h.deleteRange htracks
  | applyRetention policy now order =>
    simp only [MetricIndex.step] at hs
    split at hs
    · cases hs
      exact h.retainAll htracks
    · cases hs
  | listMetrics sourceId =>
    cases hs
    exact ⟨h.rows, h.sources, h.pending, h.index⟩
  | listAllMetricsGrouped =>
    cases hs
    exact h.listAllMetricsGrouped

omit [DecidableEq V] in
theorem tracked_opened {table : HashMap Key (DataPoint V)} (maxSize cacheTtl clock : ℕ)
    (hrows : I64Rows table) (hsources : ∀ group, Stored table group → OneColon group.1)
    (hbound : ∀ group, Stored table group → group.2 ≤ scanBound) :
    Tracked (CachedStore.opened table maxSize cacheTtl clock) :=
  ⟨hrows, hsources, fun _ hw => absurd hw not_mem_nil, Or.inl ⟨rfl, hbound⟩⟩

end Run

section Lists

variable {s : CachedStore V}

theorem metric_inj {sourceId metric metric' : String}
    (h : metricKey (sourceId, metric) = metricKey (sourceId, metric')) : metric = metric' := by
  have hchars := congrArg String.toList h
  rw [toList_metricKey, toList_metricKey] at hchars
  exact String.toList_inj.mp (cons.inj (append_cancel_left hchars)).2

theorem nodup_filterMap_stripPrefix (info : HashMap String MetricInfo) (prefix_ : String) :
    (info.keys.filterMap (stripPrefix prefix_)).Nodup := by
  apply List.Nodup.filterMap _ (keys_nodup info)
  intro key key' rest hkey hkey'
  rw [Option.mem_def, stripPrefix_eq_some] at hkey hkey'
  rw [hkey, hkey']

/-- The keys of the index that begin with a source are those of its metrics. -/
theorem mem_index_iff (h : Exact s) {sourceId : String} (halone : Unambiguous s.table sourceId)
    (metric : String) :
    metric ∈ s.metricsInfo.keys.filterMap (stripPrefix (sourceId ++ ":")) ↔
      Stored s.table (sourceId, metric) := by
  rw [mem_filterMap_stripPrefix, h]
  constructor
  · rintro ⟨⟨source, metric'⟩, hgroup, hkey⟩
    have hsource : source = sourceId := halone _ hgroup metric hkey
    subst hsource
    rw [← metric_inj hkey]
    exact hgroup
  · intro hgroup
    exact ⟨_, hgroup, rfl⟩

theorem Tracked.lists (h : Tracked s) {sourceId : String}
    (halone : Unambiguous s.table sourceId) : Lists s sourceId := by
  refine ⟨fun metric => ?_, ?_⟩
  · unfold listMetrics
    dsimp only
    split
    · rename_i hempty
      rw [List.isEmpty_iff] at hempty
      rw [mem_scanMetrics]
      refine and_iff_right_of_imp fun hgroup => ?_
      rcases h.index with ⟨-, hbound⟩ | hexact
      · exact hbound (sourceId, metric) hgroup
      · -- an index has the metric, so the scan is not made
        have hin := (mem_index_iff hexact halone metric).mpr hgroup
        rw [hempty] at hin
        cases hin
    · rename_i hsome
      rw [mem_insertionSort]
      rcases h.index with ⟨hnone, -⟩ | hexact
      · rw [hnone] at hsome
        exact absurd rfl hsome
      · exact mem_index_iff hexact halone metric
  · unfold listMetrics
    dsimp only
    split
    · exact nodup_dedup _
    · exact (perm_insertionSort _ _).nodup_iff.mpr (nodup_filterMap_stripPrefix _ _)

theorem mem_groupMetrics (groups : List GroupKey) (sourceId metric : String) :
    metric ∈ ((groupMetrics groups).lookup sourceId).getD [] ↔ (sourceId, metric) ∈ groups := by
  unfold groupMetrics
  rw [getD_lookup_groupInto, mem_map]
  constructor
  · rintro ⟨⟨source, metric'⟩, hmem, rfl⟩
    rw [mem_filter, mem_dedup, decide_eq_true_eq] at hmem
    obtain ⟨hmem, rfl⟩ := hmem
    exact hmem
  · intro hmem
    refine ⟨(sourceId, metric), ?_, rfl⟩
    rw [mem_filter, mem_dedup, decide_eq_true_eq]
    exact ⟨hmem, rfl⟩

theorem source_mem_groupMetrics (groups : List GroupKey) (sourceId : String) :
    sourceId ∈ groupMetrics groups ↔ ∃ metric, (sourceId, metric) ∈ groups := by
  unfold groupMetrics
  rw [AList.mem_keys, mem_keys_groupInto]
  constructor
  · rintro ⟨⟨source, metric⟩, hmem, rfl⟩
    exact ⟨metric, mem_dedup.mp hmem⟩
  · rintro ⟨metric, hmem⟩
    exact ⟨(sourceId, metric), mem_dedup.mpr hmem, rfl⟩

/-- The pairs that the list of all metrics groups are those with a point. -/
theorem Tracked.exists_groups (h : Tracked s) :
    ∃ groups, s.listAllMetricsGrouped.1 = groupMetrics groups ∧
      ∀ group, group ∈ groups ↔ Stored s.table group := by
  unfold CachedStore.listAllMetricsGrouped
  split
  · rename_i hsome
    refine ⟨_, rfl, fun group => ?_⟩
    have hexact : Exact s := h.index.resolve_left fun hcold => hsome hcold.1
    rw [mem_filterMap]
    constructor
    · rintro ⟨key, hkey, hsplit⟩
      obtain ⟨group', hgroup', rfl⟩ := (hexact key).mp (AList.mem_keys.mpr hkey)
      rw [splitKey_metricKey (h.sources group' hgroup')] at hsplit
      cases hsplit
      exact hgroup'
    · intro hgroup
      exact ⟨metricKey group, AList.mem_keys.mp ((hexact _).mpr ⟨group, hgroup, rfl⟩),
        splitKey_metricKey (h.sources group hgroup)⟩
  · refine ⟨_, rfl, fun group => ?_⟩
    rw [mem_map]
    constructor
    · rintro ⟨row, hrow, rfl⟩
      exact stored_of_mem (AList.mem_keys.mpr hrow)
    · intro hgroup
      obtain ⟨row, hrow, rfl⟩ := exists_mem_of_stored hgroup
      exact ⟨row, AList.mem_keys.mp hrow, rfl⟩

theorem Tracked.listsAll (h : Tracked s) : ListsAll s := by
  obtain ⟨groups, hgrouped, hgroups⟩ := h.exists_groups
  refine ⟨?_, ?_⟩
  · intro sourceId metric
    rw [hgrouped, mem_groupMetrics, hgroups]
  · intro sourceId
    rw [hgrouped, source_mem_groupMetrics]
    exact exists_congr fun metric => hgroups _

end Lists

section Run

variable [DecidableEq V] {probe : ImageProbe V} {table : HashMap Key (DataPoint V)}
  {maxSize cacheTtl clock : ℕ} {tr : List (CachedStore V × Call V)} {s : CachedStore V}

/-- In a run whose calls keep the index in step, the lists of metrics have exactly those with
a point. -/
theorem lists_of_tracks (hrows : I64Rows table)
    (hsources : ∀ group, Stored table group → OneColon group.1)
    (hbound : ∀ group, Stored table group → group.2 ≤ scanBound)
    (hrun : Run (step probe) (CachedStore.opened table maxSize cacheTtl clock) tr s)
    (htracks : Within Tracks tr) :
    (∀ sourceId, Unambiguous s.table sourceId → Lists s sourceId) ∧ ListsAll s := by
  have htracked : Tracked s := hrun.invariant htracks
    (tracked_opened maxSize cacheTtl clock hrows hsources hbound)
    fun _ _ _ h htracks hs => h.step htracks hs
  exact ⟨fun sourceId halone => htracked.lists halone, htracked.listsAll⟩

end Run

/-! ### A metric that was stored before -/

/-- A source with one colon shares its keys with no other one. -/
theorem unambiguous_of_oneColon {table : HashMap Key (DataPoint V)} {sourceId : String}
    (hsources : ∀ group, Stored table group → OneColon group.1) (hcolon : OneColon sourceId) :
    Unambiguous table sourceId := by
  intro group hgroup metric hkey
  have hsame : group = (sourceId, metric) := metricKey_injOn (hsources group hgroup) hcolon hkey
  rw [hsame]

/-- Values that are numbers. -/
def numbers : ImageProbe ℤ := ⟨fun _ => none, fun _ => none, fun _ => none⟩

/-- A temperature that an earlier process has stored. -/
def stored : HashMap Key (DataPoint ℤ) :=
  (∅ : HashMap Key (DataPoint ℤ)).insert ("device:d1", "temp", 1000) ⟨1000, 20, none, none⟩

/-- The humidity, written by this process. -/
def writeHumidity : Call ℤ := .writeBatch 2000 ("device:d1", "humidity") [⟨2000, 40, none, none⟩]

theorem group_of_stored {group : GroupKey} (h : Stored stored group) :
    group = ("device:d1", "temp") := by
  obtain ⟨key, hkey, rfl⟩ := exists_mem_of_stored h
  have hmem : key ∈ (∅ : HashMap Key (DataPoint ℤ)).insert ("device:d1", "temp", 1000)
      ⟨1000, 20, none, none⟩ := hkey
  rw [mem_insert] at hmem
  rcases hmem with rfl | hmem
  · rfl
  · cases hmem

/-- The index is built before the humidity is written. -/
theorem lists_of_tracks_rebuilt : ∃ tr s,
    Run (step numbers) (CachedStore.opened stored 200 60000000000 0) tr s ∧
      Stored s.table ("device:d1", "temp") ∧ Stored s.table ("device:d1", "humidity") ∧
        Lists s "device:d1" ∧ ListsAll s := by
  have hrows : I64Rows stored := by
    intro key hkey
    have hmem : key ∈ (∅ : HashMap Key (DataPoint ℤ)).insert ("device:d1", "temp", 1000)
        ⟨1000, 20, none, none⟩ := hkey
    rw [mem_insert] at hmem
    rcases hmem with rfl | hmem
    · decide
    · cases hmem
  have hrun : Run (step numbers) (CachedStore.opened stored 200 60000000000 0) _ _ :=
    .snoc (.snoc .nil (rfl : step numbers _ .listAllMetricsGrouped = _))
      (rfl : step numbers _ writeHumidity = _)
  have htracks := lists_of_tracks hrows
    (fun group hgroup => by rw [group_of_stored hgroup]; decide)
    (fun group hgroup => by rw [group_of_stored hgroup]; decide) hrun
    (by
      rw [within_cons, within_cons]
      refine ⟨⟨by decide, by decide, ?_, ?_⟩, trivial, within_nil _⟩
      · intro hnone
        exact absurd hnone (by decide)
      · intro hnil
        cases hnil)
  have hhumidity : Stored (insertPoints stored ("device:d1", "humidity")
      [⟨2000, 40, none, none⟩]) ("device:d1", "humidity") := ⟨2000, _, rfl⟩
  have htemp : Stored (insertPoints stored ("device:d1", "humidity")
      [⟨2000, 40, none, none⟩]) ("device:d1", "temp") := ⟨1000, _, rfl⟩
  refine ⟨_, _, hrun, htemp, hhumidity, htracks.1 _ ?_, htracks.2⟩
  apply unambiguous_of_oneColon _ (by decide)
  intro group hgroup
  have hgroup : Stored (insertPoints stored ("device:d1", "humidity")
      [⟨2000, 40, none, none⟩]) group := hgroup
  rw [insertPoints_eq, stored_insertAll] at hgroup
  rcases hgroup with hold | hnew
  · rw [group_of_stored hold]
    decide
  · obtain rfl := mem_singleton.mp hnew
    decide

/-- The first write starts the index with its own metric, which hides the stored one. -/
theorem written_metric_hides_stored : ∃ tr s,
    Run (step numbers) (CachedStore.opened stored 200 60000000000 0) tr s ∧
      ¬ Lists s "device:d1" := by
  have hrun : Run (step numbers) (CachedStore.opened stored 200 60000000000 0) _ _ :=
    .snoc .nil (rfl : step numbers _ writeHumidity = _)
  refine ⟨_, _, hrun, fun h => ?_⟩
  have htemp : Stored (insertPoints stored ("device:d1", "humidity")
      [⟨2000, 40, none, none⟩]) ("device:d1", "temp") := ⟨1000, _, rfl⟩
  have hlisted := (h.exact "temp").mpr htemp
  have hlist : listMetrics (((CachedStore.opened stored 200 60000000000 0).writeBatch 2000
      ("device:d1", "humidity") [⟨2000, 40, none, none⟩])).metricsInfo
      (insertPoints stored ("device:d1", "humidity") [⟨2000, 40, none, none⟩]) "device:d1" =
        ["humidity"] := by decide
  have hmem : "temp" ∈ ["humidity"] := hlist ▸ hlisted
  simp at hmem

end MetricIndex

end HeraMind.Storage
