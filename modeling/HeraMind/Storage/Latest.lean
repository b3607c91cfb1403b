/-
# The latest point

What the calls on a store accept and delete is a set of points, at most one for each key;
its last point for a source and a metric is what `query_latest` should return.  The rows
of the table under the pending writes are that set as long as no pending write is older
than a row or a deletion that should hide it.  The cache has the last point only if every
update of it does, and once an entry is gone the table must have it: nothing in the
source sees to either.
-/
import HeraMind.Storage.Cached

namespace HeraMind.Storage

open List Option AList
open Transition

variable {V : Type}

/-! ## Points -/

/-- A set of points, at most one for each key. -/
abbrev Points (V : Type) := Key → Option (DataPoint V)

namespace Points

/-- Accept some writes, one after the other. -/
def accept (points : Points V) (writes : List (BufferedWrite V)) : Points V :=
  fun key => (lastOf key writes).or (points key)

/-- Forget the points of a group in a range of times. -/
def forget (points : Points V) (group : GroupKey) (start stop : ℤ) : Points V := fun key =>
  if (key.1, key.2.1) = group ∧ start ≤ key.2.2 ∧ key.2.2 ≤ stop then none else points key

/-- The points of a group. -/
def ofGroup (points : Points V) (group : GroupKey) : Series ℤ (DataPoint V) :=
  fun t => points (group.1, group.2, t)

end Points

namespace CachedStore

/-- The points in the table, under those in the write buffer. -/
def settled (s : CachedStore V) : Points V :=
  Points.accept s.table.lookup s.writeBuffer.pending

/-- The point that the queries of the latest point return. -/
def latest (s : CachedStore V) (group : GroupKey) : Option (DataPoint V) :=
  (s.cached group).or (latestRow s.table group)

end CachedStore

/-- The last point of a group is in the table: at or after each point there is one that
is a row. -/
def Surfaced (points : Points V) (table : HashMap Key (DataPoint V)) (group : GroupKey) :
    Prop :=
  ∀ t point, points.ofGroup group t = some point →
    ∃ t' row, table.lookup (group.1, group.2, t') = some row ∧
      points.ofGroup group t' = some row ∧ t ≤ t'

theorem isLast_latestRow (table : HashMap Key (DataPoint V)) (group : GroupKey) :
    (Points.ofGroup table.lookup group).IsLast (latestRow table group) :=
  Series.isLast_getLast? (sorted_rowsOf table group) fun _ _ => mem_rowsOf

theorem surfaced_lookup (table : HashMap Key (DataPoint V)) (group : GroupKey) :
    Surfaced table.lookup table group :=
  fun t point ht => ⟨t, point, ht, ht, le_refl t⟩

/-- Where the last point is in the table, the last row is the last point. -/
theorem Surfaced.isLast {points : Points V} {table : HashMap Key (DataPoint V)}
    {group : GroupKey} (h : Surfaced points table group)
    (hrows : ∀ key point, table.lookup key = some point → ∃ point', points key = some point') :
    (points.ofGroup group).IsLast (latestRow table group) := by
  have hlast := isLast_latestRow table group
  cases hrow : latestRow table group with
  | none =>
    rw [hrow] at hlast
    intro t
    cases ht : points.ofGroup group t with
    | none => rfl
    | some point =>
      obtain ⟨t', row, hrow', -, -⟩ := h t point ht
      have hnone : table.lookup (group.1, group.2, t') = none := hlast t'
      rw [hnone] at hrow'
      cases hrow'
  | some last =>
    rw [hrow] at hlast
    obtain ⟨t₁, ht₁, hmax⟩ := hlast
    -- the last row is not hidden, since some row at or after it is not
    obtain ⟨point, hpoint⟩ := hrows _ _ ht₁
    obtain ⟨t', row, hrow', hvisible, hle⟩ := h t₁ point hpoint
    have ht' : t' = t₁ := le_antisymm (hmax t' row hrow') hle
    subst ht'
    have hsame : row = last := some.inj (hrow'.symm.trans ht₁)
    subst hsame
    refine Series.isLast_some hvisible ?_
    intro t point' ht
    obtain ⟨t'', row'', hrow'', -, hle''⟩ := h t point' ht
    exact le_trans hle'' (hmax t'' row'' hrow'')

/-! ## Sequences of calls -/

namespace Latest

/-- A call on the store, or something that happens to its cache. -/
inductive Label (V : Type) : Type where
  | write (w : BufferedWrite V) (order : List GroupKey)
  | writeBatch (group : GroupKey) (points : List (DataPoint V)) (now : ℤ)
  | writeBatchConcurrent (requests : List (BatchWriteRequest V))
      (caches : List (BufferedWrite V))
  | flush (order : List GroupKey)
  | deleteRange (group : GroupKey) (start stop : ℤ)
  | queryLatest (group : GroupKey)
  | queryLatestBatch (sourceId : String) (metrics : List String)
  /-- Time passes. -/
  | tick (elapsed : ℕ)
  /-- The cache evicts an entry. -/
  | evict (group : GroupKey)

def step [DecidableEq V] (readBack : DataPoint V → Option (DataPoint V)) (s : CachedStore V) :
    Label V → Option (CachedStore V)
  | .write w order => s.write order w
  | .writeBatch group points now => some (s.writeBatch now group points)
  | .writeBatchConcurrent requests caches => s.writeBatchConcurrent requests caches
  | .flush order => s.flushBuffer order
  | .deleteRange group start stop => some (s.deleteRange group start stop).2
  | .queryLatest group => some (s.queryLatest readBack group).2
  | .queryLatestBatch sourceId metrics => some (s.queryLatestBatch readBack sourceId metrics).2
  | .tick elapsed => some { s with clock := s.clock + elapsed }
  | .evict group => some { s with latestCache := s.latestCache.erase group }

/-- The writes that a call makes. -/
def Label.writes : Label V → List (BufferedWrite V)
  | .write w _ => [w]
  | .writeBatch group points _ => buffered group points
  | .writeBatchConcurrent requests _ => requests.flatMap BatchWriteRequest.writes
  | _ => []

/-- The points accepted and not deleted, beginning with those of the database. -/
def accepted (points : Points V) : List (CachedStore V × Label V) → Points V
  | [] => points
  | (_, .deleteRange group start stop) :: tr => (accepted points tr).forget group start stop
  | (_, a) :: tr => (accepted points tr).accept a.writes

/-- The last update of a group in a list of updates of the cache. -/
def lastUpdate (group : GroupKey) (caches : List (BufferedWrite V)) : Option (DataPoint V) :=
  (caches.filter fun w => w.groupKey = group).getLast?.map BufferedWrite.point

/-- The step neither puts another point than the last one into the cache or leaves it
there, nor takes the last point from the cache before it is in the table, nor goes around
a pending write of a key it changes. -/
def Orderly (s : CachedStore V) : Label V → Prop
  | .write w _ =>
    (∀ t point, s.settled.ofGroup w.groupKey t = some point → t ≤ w.point.timestamp) ∧
      (0 < s.cacheTtl ∨ s.writeBuffer.maxSize ≤ s.writeBuffer.pending.length + 1)
  | .writeBatch group points _ =>
    (∀ u ∈ s.writeBuffer.pending, ∀ w ∈ buffered group points, u.key ≠ w.key) ∧
      ∀ point, s.cached group = some point →
        ((s.settled.accept (buffered group points)).ofGroup group).IsLast (some point)
  | .writeBatchConcurrent requests caches =>
    let writes := requests.flatMap BatchWriteRequest.writes
    (∀ u ∈ s.writeBuffer.pending, ∀ w ∈ writes, u.key ≠ w.key) ∧
      ∀ group point, lastUpdate group caches = some point → 0 < s.cacheTtl →
        ((s.settled.accept writes).ofGroup group).IsLast (some point)
  | .deleteRange group start stop =>
    (∀ u ∈ s.writeBuffer.pending, u.groupKey = group →
      ¬ (start ≤ u.point.timestamp ∧ u.point.timestamp ≤ stop)) ∧
      Surfaced (s.settled.forget group start stop) (deleteRows s.table group start stop).2 group
  | .tick elapsed =>
    ∀ group, (s.cached group).isSome →
      ({ s with clock := s.clock + elapsed }.cached group).isNone →
        Surfaced s.settled s.table group
  | .evict group => (s.cached group).isSome → Surfaced s.settled s.table group
  | _ => True

/-- The text of a point reads back as the point. -/
def ReadsBack (readBack : DataPoint V → Option (DataPoint V)) (point : DataPoint V) : Prop :=
  readBack point = some point

/-- The texts of the points that a call writes read back. -/
def WritesReadable (readBack : DataPoint V → Option (DataPoint V)) (_ : CachedStore V)
    (a : Label V) : Prop :=
  ∀ w ∈ a.writes, ReadsBack readBack w.point

/-- The rows and the pending points read back. -/
structure Readable (readBack : DataPoint V → Option (DataPoint V)) (s : CachedStore V) : Prop where
  rows : ∀ key point, s.table.lookup key = some point → ReadsBack readBack point
  pending : ∀ w ∈ s.writeBuffer.pending, ReadsBack readBack w.point

/-! ## Points under writes -/

section Accept

variable {points : Points V} {writes writes' : List (BufferedWrite V)} {key : Key}

theorem accept_nil (points : Points V) : points.accept [] = points := by
  funext key
  rfl

theorem accept_append (points : Points V) (writes writes' : List (BufferedWrite V)) :
    points.accept (writes ++ writes') = (points.accept writes).accept writes' := by
  funext key
  show (lastOf key (writes ++ writes')).or (points key) =
    (lastOf key writes').or ((lastOf key writes).or (points key))
  rw [lastOf_append, Option.or_assoc]

/-- Writes to different keys can be accepted in either order. -/
theorem accept_comm (h : ∀ u ∈ writes', ∀ w ∈ writes, u.key ≠ w.key) :
    (points.accept writes).accept writes' = (points.accept writes').accept writes := by
  funext key
  show (lastOf key writes').or ((lastOf key writes).or (points key)) =
    (lastOf key writes).or ((lastOf key writes').or (points key))
  cases hlast : lastOf key writes with
  | none => rfl
  | some point =>
    obtain ⟨w, hw, hkey, -⟩ := exists_of_lastOf hlast
    have hnone : lastOf key writes' = none := lastOf_eq_none fun u hu => hkey ▸ h u hu w hw
    rw [hnone]
    rfl

theorem lookup_insertAll_eq (table : HashMap Key (DataPoint V))
    (writes : List (BufferedWrite V)) :
    (insertAll table writes).lookup = Points.accept table.lookup writes := by
  funext key
  exact lookup_insertAll table writes key

theorem lookup_deleteRows_eq (table : HashMap Key (DataPoint V)) (group : GroupKey)
    (start stop : ℤ) :
    (deleteRows table group start stop).2.lookup = Points.forget table.lookup group start stop := by
  funext key
  exact lookup_deleteRows table group start stop key

/-- Points outside of the range are forgotten before or after some writes. -/
theorem forget_accept {group : GroupKey} {start stop : ℤ}
    (h : ∀ u ∈ writes, u.groupKey = group →
      ¬ (start ≤ u.point.timestamp ∧ u.point.timestamp ≤ stop)) :
    (points.accept writes).forget group start stop =
      (points.forget group start stop).accept writes := by
  funext key
  show (if _ then none else (lastOf key writes).or (points key)) =
    (lastOf key writes).or (if _ then none else points key)
  split
  · rename_i hin
    have hnone : lastOf key writes = none := by
      apply lastOf_eq_none
      rintro u hu rfl
      exact h u hu hin.1 hin.2
    rw [hnone]
    rfl
  · rfl

/-- The flushed groups hold the drained writes of each key in their order. -/
theorem lastOf_ungroup (drained : List (BufferedWrite V)) {order : List GroupKey}
    (horder : order.Perm (groupsOf drained).keys) (key : Key) :
    lastOf key (ungroup (entriesIn (groupsOf drained) order)) = lastOf key drained := by
  have hflat : ungroup (entriesIn (groupsOf drained) order) =
      order.flatMap fun k => drained.filter fun w => w.groupKey = k :=
    flatMap_entriesIn_groupInto BufferedWrite.groupKey BufferedWrite.point
      (fun group point => ⟨group.1, group.2, point⟩) (fun _ => rfl) drained order
  have hcover : ∀ w ∈ drained, w.groupKey ∈ order := by
    intro w hw
    rw [horder.mem_iff]
    exact (mem_keys_groupInto _ _ _ _).mpr ⟨w, hw, rfl⟩
  have hgroup : ∀ w : BufferedWrite V, decide (w.key = key) = true →
      w.groupKey = (key.1, key.2.1) := by
    intro w hw
    rw [decide_eq_true_eq] at hw
    subst hw
    rfl
  unfold lastOf ofKey
  rw [hflat, filter_flatMap_filter BufferedWrite.groupKey
    (horder.nodup_iff.mpr (keys_nodup _)) drained hcover _ hgroup]

end Accept

/-! ## The cache -/

section Cache

variable {s : CachedStore V} {group group' : GroupKey} {point : DataPoint V}
  {readBack : DataPoint V → Option (DataPoint V)}

theorem cached_updateCache_self (httl : 0 < s.cacheTtl) :
    (s.updateCache group point).cached group = some point := by
  unfold CachedStore.cached CachedStore.updateCache
  dsimp only
  rw [lookup_insert]
  simp [httl]

theorem cached_updateCache_ne (h : group' ≠ group) :
    (s.updateCache group point).cached group' = s.cached group' := by
  unfold CachedStore.cached CachedStore.updateCache
  dsimp only
  rw [lookup_insert_ne h]

/-- An entry that expires at once is never read. -/
theorem cached_eq_none (httl : s.cacheTtl = 0) : s.cached group = none := by
  unfold CachedStore.cached
  split
  · rw [if_neg (by omega)]
  · rfl

theorem latest_of_cached (h : s.cached group = some point) : s.latest group = some point := by
  rw [CachedStore.latest, h]
  rfl

theorem latest_of_not_cached (h : s.cached group = none) :
    s.latest group = latestRow s.table group := by
  rw [CachedStore.latest, h]
  rfl

/-- The last row reads back. -/
theorem Readable.queryLatestUncached (h : Readable readBack s) (group : GroupKey) :
    s.queryLatestUncached readBack group = some (latestRow s.table group) := by
  unfold CachedStore.queryLatestUncached
  cases hrow : latestRow s.table group with
  | none => rfl
  | some row =>
    obtain ⟨t, hlookup⟩ := lookup_of_latestRow hrow
    have hread : readBack row = some row := h.rows _ row hlookup
    dsimp only
    rw [hread]
    rfl

theorem fst_queryLatest (h : Readable readBack s) (group : GroupKey) :
    (s.queryLatest readBack group).1 = some (s.latest group) := by
  unfold CachedStore.queryLatest
  cases hc : s.cached group with
  | some point => rw [latest_of_cached hc]
  | none =>
    rw [latest_of_not_cached hc, h.queryLatestUncached]
    cases latestRow s.table group <;> rfl

/-- Reading has changed the cache, but no answer. -/
structure SameAnswers (s s' : CachedStore V) : Prop where
  table : s'.table = s.table
  buffer : s'.writeBuffer = s.writeBuffer
  latest : ∀ group, s'.latest group = s.latest group
  cached : ∀ group, s'.cached group = none → s.cached group = none

theorem SameAnswers.refl (s : CachedStore V) : SameAnswers s s :=
  ⟨rfl, rfl, fun _ => rfl, fun _ h => h⟩

theorem SameAnswers.settled {s s' : CachedStore V} (h : SameAnswers s s') :
    s'.settled = s.settled := by
  rw [CachedStore.settled, h.table, h.buffer]
  rfl

theorem SameAnswers.readable {s s' : CachedStore V} (h : SameAnswers s s')
    (hread : Readable readBack s) : Readable readBack s' :=
  ⟨h.table ▸ hread.rows, h.buffer ▸ hread.pending⟩

theorem SameAnswers.trans {s s' s'' : CachedStore V} (h : SameAnswers s s')
    (h' : SameAnswers s' s'') : SameAnswers s s'' where
  table := h'.table.trans h.table
  buffer := h'.buffer.trans h.buffer
  latest := fun group => (h'.latest group).trans (h.latest group)
  cached := fun group hc => h.cached group (h'.cached group hc)

/-- Filling the cache from the table, where the table has the answer, changes no answer. -/
theorem sameAnswers_updateCache (hlatest : s.latest group = latestRow s.table group)
    (hrow : latestRow s.table group = some point) :
    SameAnswers s (s.updateCache group point) := by
  refine ⟨rfl, rfl, ?_, ?_⟩
  · intro group'
    by_cases hg : group' = group
    · subst hg
      rw [hlatest, hrow]
      by_cases httl : 0 < s.cacheTtl
      · exact latest_of_cached (cached_updateCache_self httl)
      · have hnone : (s.updateCache group' point).cached group' = none :=
          cached_eq_none (Nat.eq_zero_of_not_pos httl)
        rw [latest_of_not_cached hnone]
        exact hrow
    · rw [CachedStore.latest, cached_updateCache_ne hg]
      rfl
  · intro group' hc
    by_cases hg : group' = group
    · subst hg
      by_cases httl : 0 < s.cacheTtl
      · rw [cached_updateCache_self httl] at hc
        cases hc
      · exact cached_eq_none (Nat.eq_zero_of_not_pos httl)
    · rwa [cached_updateCache_ne hg] at hc

theorem sameAnswers_queryLatest (h : Readable readBack s) (group : GroupKey) :
    SameAnswers s (s.queryLatest readBack group).2 := by
  unfold CachedStore.queryLatest
  cases hc : s.cached group with
  | some point => exact .refl s
  | none =>
    rw [h.queryLatestUncached]
    cases hrow : latestRow s.table group with
    | none => exact .refl s
    | some point => exact sameAnswers_updateCache (latest_of_not_cached hc) hrow

/-- The loop over the misses answers them from the table and changes no answer. -/
theorem queryMisses_spec (hread : Readable readBack s) (sourceId : String) (misses : List String)
    (results : HashMap String (DataPoint V))
    (hmisses : ∀ m ∈ misses, s.latest (sourceId, m) = latestRow s.table (sourceId, m)) :
    (∃ answers, (CachedStore.queryMisses readBack sourceId misses results s).1 = some answers ∧
      ∀ m, answers.lookup m =
        if m ∈ misses then (s.latest (sourceId, m)).or (results.lookup m)
        else results.lookup m) ∧
    SameAnswers s (CachedStore.queryMisses readBack sourceId misses results s).2 := by
  induction misses generalizing results s with
  | nil => exact ⟨⟨results, rfl, fun m => by simp⟩, .refl s⟩
  | cons metric misses ih =>
    have hfirst := hmisses metric mem_cons_self
    have hrest : ∀ m ∈ misses, s.latest (sourceId, m) = latestRow s.table (sourceId, m) :=
      fun m hm => hmisses m (mem_cons_of_mem _ hm)
    unfold CachedStore.queryMisses
    rw [hread.queryLatestUncached]
    cases hrow : latestRow s.table (sourceId, metric) with
    | none =>
      obtain ⟨⟨answers, hanswers, hlookup⟩, hsame⟩ := ih hread results hrest
      refine ⟨⟨answers, hanswers, fun m => ?_⟩, hsame⟩
      rw [hlookup m]
      by_cases hm : m = metric
      · subst hm
        simp [hfirst, hrow]
      · simp [hm]
    | some point =>
      have hfill := sameAnswers_updateCache hfirst hrow
      have hrest' : ∀ m ∈ misses, (s.updateCache (sourceId, metric) point).latest (sourceId, m) =
          latestRow (s.updateCache (sourceId, metric) point).table (sourceId, m) := by
        intro m hm
        rw [hfill.latest]
        exact hrest m hm
      obtain ⟨⟨answers, hanswers, hlookup⟩, hsame⟩ :=
        ih (hfill.readable hread) (results.insert metric point) hrest'
      refine ⟨⟨answers, hanswers, fun m => ?_⟩, hfill.trans hsame⟩
      rw [hlookup m, hfill.latest]
      by_cases hm : m = metric
      · subst hm
        simp [hfirst, hrow]
      · rw [lookup_insert_ne hm]
        simp [hm]

theorem lookup_hits (s : CachedStore V) (sourceId m : String) (metrics : List String)
    (results : HashMap String (DataPoint V)) :
    (metrics.foldl (s.addHit sourceId) results).lookup m =
      if m ∈ metrics then (s.cached (sourceId, m)).or (results.lookup m)
      else results.lookup m := by
  induction metrics generalizing results with
  | nil => simp
  | cons metric metrics ih =>
    rw [foldl_cons, ih]
    unfold CachedStore.addHit
    by_cases hm : m = metric
    · subst hm
      cases hc : s.cached (sourceId, m) with
      | none | some point => simp
    · cases hc : s.cached (sourceId, metric) with
      | none => simp [hm]
      | some point =>
        dsimp only
        rw [lookup_insert_ne hm]
        simp [hm]

/-- The batch query answers each metric as the single query does. -/
theorem queryLatestBatch_spec (hread : Readable readBack s) (sourceId : String)
    (metrics : List String) :
    (∃ answers, (s.queryLatestBatch readBack sourceId metrics).1 = some answers ∧
      ∀ m, answers.lookup m = if m ∈ metrics then s.latest (sourceId, m) else none) ∧
    SameAnswers s (s.queryLatestBatch readBack sourceId metrics).2 := by
  have hmisses : ∀ m ∈ metrics.filter (fun metric => (s.cached (sourceId, metric)).isNone),
      s.latest (sourceId, m) = latestRow s.table (sourceId, m) := by
    intro m hm
    rw [mem_filter, isNone_iff_eq_none] at hm
    exact latest_of_not_cached hm.2
  obtain ⟨⟨answers, hanswers, hlookup⟩, hsame⟩ := queryMisses_spec hread sourceId _
    (metrics.foldl (s.addHit sourceId) ∅) hmisses
  refine ⟨⟨answers, hanswers, fun m => ?_⟩, hsame⟩
  rw [hlookup m, lookup_hits, AList.lookup_empty, or_none]
  simp only [mem_filter, isNone_iff_eq_none]
  by_cases hm : m ∈ metrics
  · cases hc : s.cached (sourceId, m) with
    | none => simp [hm]
    | some point => simp [hm, latest_of_cached hc]
  · simp [hm]

end Cache

/-! ## The invariant -/

/-- What the calls accepted and did not delete is in the table and the write buffer.  For
each group the cache has the last point, or it has none and the table has it. -/
structure Fresh (points : Points V) (s : CachedStore V) : Prop where
  settled : s.settled = points
  cached : ∀ group point, s.cached group = some point →
    (points.ofGroup group).IsLast (some point)
  surfaced : ∀ group, s.cached group = none → Surfaced points s.table group

section Calls

variable {points : Points V} {s s' : CachedStore V} {group : GroupKey}

/-- Without pending writes the table has the last point of every group. -/
theorem surfaced_of_pending_eq_nil (h : s.writeBuffer.pending = []) (group : GroupKey) :
    Surfaced s.settled s.table group := by
  unfold CachedStore.settled
  rw [h, accept_nil]
  exact surfaced_lookup s.table group

/-- A row is a point, or a pending write hides it. -/
theorem exists_settled (s : CachedStore V) (key : Key) (point : DataPoint V)
    (h : s.table.lookup key = some point) : ∃ point', s.settled key = some point' := by
  show ∃ point', (lastOf key s.writeBuffer.pending).or (s.table.lookup key) = some point'
  rw [h]
  cases lastOf key s.writeBuffer.pending with
  | none => exact ⟨point, rfl⟩
  | some point' => exact ⟨point', rfl⟩

namespace Fresh

/-- Every answer is the last point. -/
theorem latest (h : Fresh points s) (group : GroupKey) :
    (points.ofGroup group).IsLast (s.latest group) := by
  cases hc : s.cached group with
  | some point =>
    rw [latest_of_cached hc]
    exact h.cached group point hc
  | none =>
    rw [latest_of_not_cached hc]
    refine (h.surfaced group hc).isLast ?_
    rw [← h.settled]
    exact exists_settled s

end Fresh

/-- A flush moves the pending writes into the table. -/
theorem settled_flushBuffer {order : List GroupKey} (h : s.flushBuffer order = some s') :
    s'.settled = s.settled ∧ s'.writeBuffer.pending = [] ∧
      ∀ group, s'.cached group = s.cached group := by
  unfold CachedStore.flushBuffer at h
  dsimp only at h
  split at h
  · rename_i hempty
    rw [List.isEmpty_iff] at hempty
    have hnil : s.writeBuffer.pending = [] := hempty
    cases h
    refine ⟨?_, rfl, fun _ => rfl⟩
    unfold CachedStore.settled
    rw [hnil]
    rfl
  · split at h
    · rename_i horder
      cases h
      refine ⟨?_, rfl, fun _ => rfl⟩
      have htable := lookup_insertAll_eq s.table
        (ungroup (entriesIn (groupsOf s.writeBuffer.drain.1) order))
      rw [← foldl_insertPoints] at htable
      refine (accept_nil _).trans (htable.trans ?_)
      funext key
      show (lastOf key _).or _ = _
      rw [lastOf_ungroup _ horder]
      rfl
    · cases h

theorem Fresh.flushBuffer {order : List GroupKey} (hsettled : s.settled = points)
    (hcached : ∀ group point, s.cached group = some point →
      (points.ofGroup group).IsLast (some point))
    (h : s.flushBuffer order = some s') : Fresh points s' := by
  obtain ⟨hsame, hnil, hcache⟩ := settled_flushBuffer h
  have hpoints : s'.settled = points := hsame.trans hsettled
  refine ⟨hpoints, ?_, ?_⟩
  · intro group point hc
    rw [hcache] at hc
    exact hcached group point hc
  · intro group _
    rw [← hpoints]
    exact surfaced_of_pending_eq_nil hnil group

end Calls

/-! ## One call -/

section Step

variable {points : Points V} {s s' : CachedStore V} {group : GroupKey}
  {writes : List (BufferedWrite V)} {readBack : DataPoint V → Option (DataPoint V)}

/-- Writes to other groups leave the points of a group alone. -/
theorem ofGroup_accept_of_ne (h : ∀ w ∈ writes, w.groupKey ≠ group) :
    (points.accept writes).ofGroup group = points.ofGroup group := by
  funext t
  have hnone : lastOf (group.1, group.2, t) writes = none := by
    apply lastOf_eq_none
    intro w hw hkey
    apply h w hw
    show (w.key.1, w.key.2.1) = group
    rw [hkey]
  show (lastOf (group.1, group.2, t) writes).or _ = _
  rw [hnone]
  rfl

/-- A point written at or after every other time of its group is the last one. -/
theorem isLast_accept_singleton {w : BufferedWrite V}
    (h : ∀ t point, points.ofGroup w.groupKey t = some point → t ≤ w.point.timestamp) :
    ((points.accept [w]).ofGroup w.groupKey).IsLast (some w.point) := by
  refine Series.isLast_some (t := w.point.timestamp) ?_ ?_
  · show (lastOf w.key [w]).or _ = _
    simp [lastOf, ofKey]
  · intro t point ht
    by_cases hkey : w.key = (w.groupKey.1, w.groupKey.2, t)
    · have heq : w.point.timestamp = t := congrArg (fun key : Key => key.2.2) hkey
      exact le_of_eq heq.symm
    · have hnone : lastOf (w.groupKey.1, w.groupKey.2, t) [w] = none := by
        apply lastOf_eq_none
        simpa using hkey
      apply h t point
      have ht' : (lastOf (w.groupKey.1, w.groupKey.2, t) [w]).or
          (points.ofGroup w.groupKey t) = some point := ht
      rwa [hnone] at ht'

/-- A table that has the last point of a group still has it when rows under other keys than
the pending ones are added. -/
theorem surfaced_insertAll {table : HashMap Key (DataPoint V)}
    {pending : List (BufferedWrite V)} (hkeys : ∀ u ∈ pending, ∀ w ∈ writes, u.key ≠ w.key)
    (h : Surfaced (Points.accept table.lookup pending) table group) :
    Surfaced (Points.accept (insertAll table writes).lookup pending) (insertAll table writes)
      group := by
  intro t point ht
  have ht' : (lastOf (group.1, group.2, t) pending).or
      ((insertAll table writes).lookup (group.1, group.2, t)) = some point := ht
  cases hp : lastOf (group.1, group.2, t) pending with
  | none =>
    rw [hp] at ht'
    exact ⟨t, point, ht', ht, le_refl t⟩
  | some pendingPoint =>
    -- the point was there before, and so was a row at or after it
    have hold : (Points.accept table.lookup pending).ofGroup group t = some pendingPoint := by
      show (lastOf (group.1, group.2, t) pending).or _ = _
      rw [hp]
      rfl
    obtain ⟨t', row, hrow, hvisible, hle⟩ := h t pendingPoint hold
    have hvisible' : (lastOf (group.1, group.2, t') pending).or
        (table.lookup (group.1, group.2, t')) = some row := hvisible
    cases hp' : lastOf (group.1, group.2, t') pending with
    | none =>
      -- it stays, or a newer row takes its key
      obtain ⟨row', hrow'⟩ : ∃ row',
          (insertAll table writes).lookup (group.1, group.2, t') = some row' := by
        rw [lookup_insertAll, hrow]
        cases lastOf (group.1, group.2, t') writes with
        | none => exact ⟨row, rfl⟩
        | some row' => exact ⟨row', rfl⟩
      refine ⟨t', row', hrow', ?_, hle⟩
      show (lastOf (group.1, group.2, t') pending).or _ = _
      rw [hp']
      exact hrow'
    | some pendingRow =>
      -- a key with a pending write is not written
      obtain ⟨u, hu, hkey, -⟩ := exists_of_lastOf hp'
      have hkeep : (insertAll table writes).lookup (group.1, group.2, t') = some row := by
        rw [lookup_insertAll, lastOf_eq_none fun w hw => hkey ▸ (hkeys u hu w hw).symm]
        exact hrow
      refine ⟨t', row, hkeep, ?_, hle⟩
      show (lastOf (group.1, group.2, t') pending).or _ = _
      rw [hp'] at hvisible' ⊢
      exact hvisible'

theorem foldl_updateCache (s : CachedStore V) (caches : List (BufferedWrite V)) :
    ∃ cache, caches.foldl (fun s w => s.updateCache w.groupKey w.point) s =
      { s with latestCache := cache } := by
  induction caches generalizing s with
  | nil => exact ⟨s.latestCache, rfl⟩
  | cons w caches ih =>
    obtain ⟨cache, hcache⟩ := ih (s.updateCache w.groupKey w.point)
    exact ⟨cache, hcache⟩

theorem lastUpdate_cons (group : GroupKey) (w : BufferedWrite V)
    (caches : List (BufferedWrite V)) :
    lastUpdate group (w :: caches) =
      (lastUpdate group caches).or (if w.groupKey = group then some w.point else none) := by
  unfold lastUpdate
  by_cases hg : w.groupKey = group
  · rw [filter_cons_of_pos (by simpa using hg), getLast?_cons, if_pos hg]
    cases (caches.filter fun w => w.groupKey = group).getLast? <;> rfl
  · rw [filter_cons_of_neg (by simpa using hg), if_neg hg, or_none]

/-- The cache has the last update of a group. -/
theorem cached_foldl_updateCache (s : CachedStore V) (httl : 0 < s.cacheTtl)
    (caches : List (BufferedWrite V)) (group : GroupKey) :
    (caches.foldl (fun s w => s.updateCache w.groupKey w.point) s).cached group =
      (lastUpdate group caches).or (s.cached group) := by
  induction caches generalizing s with
  | nil => rfl
  | cons w caches ih =>
    rw [foldl_cons, ih (s.updateCache w.groupKey w.point) httl, lastUpdate_cons, Option.or_assoc]
    congr 1
    by_cases hg : w.groupKey = group
    · subst hg
      rw [if_pos rfl, cached_updateCache_self httl]
      rfl
    · rw [if_neg hg, cached_updateCache_ne (Ne.symm hg)]
      rfl

/-- A request that writes to a group updates its entry of the cache. -/
theorem exists_lastPoint {r : BatchWriteRequest V} {w : BufferedWrite V} (hw : w ∈ r.writes) :
    ∃ u ∈ r.lastPoints, u.groupKey = w.groupKey := by
  obtain ⟨e, he, hw⟩ := mem_flatMap.mp hw
  obtain ⟨point, hpoint, rfl⟩ := mem_map.mp hw
  obtain ⟨last, hlast⟩ : ∃ last, e.2.getLast? = some last := by
    cases hl : e.2.getLast? with
    | some last => exact ⟨last, rfl⟩
    | none =>
      rw [getLast?_eq_none_iff] at hl
      rw [hl] at hpoint
      cases hpoint
  refine ⟨⟨r.sourceId, e.1, last⟩, mem_flatMap.mpr ⟨e, he, ?_⟩, rfl⟩
  rw [hlast]
  exact mem_singleton_self _

namespace Fresh

variable (h : Fresh points s)

include h

/-- A query changes no answer. -/
theorem query (hsame : SameAnswers s s') : Fresh points s' where
  settled := hsame.settled.trans h.settled
  cached := fun group point hc => by
    rw [← latest_of_cached hc, hsame.latest]
    exact h.latest group
  surfaced := fun group hc => by
    rw [hsame.table]
    exact h.surfaced group (hsame.cached group hc)

theorem write {order : List GroupKey} {w : BufferedWrite V}
    (hnewest : ∀ t point, points.ofGroup w.groupKey t = some point → t ≤ w.point.timestamp)
    (hseen : 0 < s.cacheTtl ∨ s.writeBuffer.maxSize ≤ s.writeBuffer.pending.length + 1)
    (hs : s.write order w = some s') : Fresh (points.accept [w]) s' := by
  have hother : ∀ group, group ≠ w.groupKey →
      (points.accept [w]).ofGroup group = points.ofGroup group := by
    intro group hne
    apply ofGroup_accept_of_ne
    intro u hu
    rw [mem_singleton] at hu
    subst hu
    exact hne.symm
  have hsettled : CachedStore.settled { s.updateCache w.groupKey w.point with
      writeBuffer := ((s.updateCache w.groupKey w.point).writeBuffer.push w).2 } =
      points.accept [w] := by
    rw [← h.settled]
    exact accept_append s.table.lookup s.writeBuffer.pending [w]
  -- the cache has the new point
  have hcached : ∀ group point, (s.updateCache w.groupKey w.point).cached group = some point →
      ((points.accept [w]).ofGroup group).IsLast (some point) := by
    intro group point hc
    by_cases hg : group = w.groupKey
    · subst hg
      by_cases httl : 0 < s.cacheTtl
      · rw [cached_updateCache_self httl] at hc
        cases hc
        exact isLast_accept_singleton hnewest
      · have hnone : (s.updateCache w.groupKey w.point).cached w.groupKey = none :=
          cached_eq_none (Nat.eq_zero_of_not_pos httl)
        rw [hnone] at hc
        cases hc
    · rw [cached_updateCache_ne hg] at hc
      rw [hother group hg]
      exact h.cached group point hc
  unfold CachedStore.write at hs
  dsimp only at hs
  split at hs
  · exact Fresh.flushBuffer hsettled hcached hs
  · rename_i hfull
    cases hs
    refine ⟨hsettled, hcached, ?_⟩
    intro group hc
    by_cases hg : group = w.groupKey
    · -- the point that was just cached is not missed, unless it was flushed at once
      subst hg
      exfalso
      have httl : 0 < s.cacheTtl := by
        rcases hseen with httl | hsize
        · exact httl
        · apply absurd _ hfull
          simpa [WriteBuffer.push, CachedStore.updateCache] using hsize
      have hhit : (s.updateCache w.groupKey w.point).cached w.groupKey = some w.point :=
        cached_updateCache_self httl
      have hmiss : (s.updateCache w.groupKey w.point).cached w.groupKey = none := hc
      rw [hhit] at hmiss
      cases hmiss
    · have hmiss : s.cached group = none := by
        rw [← cached_updateCache_ne hg]
        exact hc
      unfold Surfaced
      rw [hother group hg]
      exact h.surfaced group hmiss

/-- Rows are added under other keys than the pending ones; the cache may change. -/
theorem insert (hkeys : ∀ u ∈ s.writeBuffer.pending, ∀ w ∈ writes, u.key ≠ w.key)
    (htable : s'.table = insertAll s.table writes) (hbuffer : s'.writeBuffer = s.writeBuffer)
    (hcached : ∀ group point, s'.cached group = some point →
      ((points.accept writes).ofGroup group).IsLast (some point))
    (hmissed : ∀ group, s'.cached group = none → s.cached group = none) :
    Fresh (points.accept writes) s' := by
  have hsettled : s'.settled = points.accept writes := by
    unfold CachedStore.settled
    rw [htable, hbuffer, lookup_insertAll_eq, accept_comm hkeys, ← h.settled]
    rfl
  refine ⟨hsettled, hcached, ?_⟩
  intro group hc
  have hold := h.surfaced group (hmissed group hc)
  rw [← h.settled] at hold
  rw [← hsettled, htable]
  unfold CachedStore.settled
  rw [htable, hbuffer]
  exact surfaced_insertAll hkeys hold

theorem writeBatch {now : ℤ} {batch : List (DataPoint V)}
    (hkeys : ∀ u ∈ s.writeBuffer.pending, ∀ w ∈ buffered group batch, u.key ≠ w.key)
    (hnewest : ∀ point, s.cached group = some point →
      ((points.accept (buffered group batch)).ofGroup group).IsLast (some point)) :
    Fresh (points.accept (buffered group batch)) (s.writeBatch now group batch) := by
  refine h.insert hkeys (insertPoints_eq s.table group batch) rfl ?_ fun _ hc => hc
  intro group' point hc
  by_cases hg : group' = group
  · subst hg
    exact hnewest point hc
  · rw [ofGroup_accept_of_ne]
    · exact h.cached group' point hc
    · intro w hw
      obtain ⟨p, -, rfl⟩ := mem_map.mp hw
      exact Ne.symm hg

theorem deleteRange {start stop : ℤ}
    (hpending : ∀ u ∈ s.writeBuffer.pending, u.groupKey = group →
      ¬ (start ≤ u.point.timestamp ∧ u.point.timestamp ≤ stop))
    (hsurfaced : Surfaced (points.forget group start stop)
      (deleteRows s.table group start stop).2 group) :
    Fresh (points.forget group start stop) (s.deleteRange group start stop).2 := by
  have hsettled : (s.deleteRange group start stop).2.settled =
      points.forget group start stop := by
    rw [← h.settled]
    unfold CachedStore.settled
    rw [forget_accept hpending, ← lookup_deleteRows_eq]
    rfl
  have hother : ∀ group', group' ≠ group →
      (points.forget group start stop).ofGroup group' = points.ofGroup group' := by
    intro group' hg
    funext t
    exact if_neg fun hin => hg hin.1
  have hcache : ∀ group', group' ≠ group →
      (s.deleteRange group start stop).2.cached group' = s.cached group' := by
    intro group' hg
    have hlookup : (s.deleteRange group start stop).2.latestCache.lookup group' =
        s.latestCache.lookup group' := AList.lookup_erase_ne hg
    unfold CachedStore.cached
    rw [hlookup]
    rfl
  refine ⟨hsettled, ?_, ?_⟩
  · intro group' point hc
    by_cases hg : group' = group
    · subst hg
      have hnone : (s.deleteRange group' start stop).2.cached group' = none := by
        have hlookup : (s.deleteRange group' start stop).2.latestCache.lookup group' = none :=
          AList.lookup_erase group' s.latestCache
        unfold CachedStore.cached
        rw [hlookup]
      rw [hnone] at hc
      cases hc
    · rw [hother group' hg]
      exact h.cached group' point (hcache group' hg ▸ hc)
  · intro group' hc
    by_cases hg : group' = group
    · subst hg
      exact hsurfaced
    · intro t point ht
      rw [hother group' hg] at ht ⊢
      obtain ⟨t', row, hrow, hvisible, hle⟩ :=
        h.surfaced group' (hcache group' hg ▸ hc) t point ht
      refine ⟨t', row, ?_, hvisible, hle⟩
      show (deleteRows s.table group start stop).2.lookup _ = _
      rw [lookup_deleteRows, if_neg fun hin => hg hin.1]
      exact hrow

theorem writeBatchConcurrent [DecidableEq V] {requests : List (BatchWriteRequest V)}
    {caches : List (BufferedWrite V)}
    (hkeys : ∀ u ∈ s.writeBuffer.pending, ∀ w ∈ requests.flatMap BatchWriteRequest.writes,
      u.key ≠ w.key)
    (hnewest : ∀ group point, lastUpdate group caches = some point → 0 < s.cacheTtl →
      ((points.accept (requests.flatMap BatchWriteRequest.writes)).ofGroup group).IsLast
        (some point))
    (hs : s.writeBatchConcurrent requests caches = some s') :
    Fresh (points.accept (requests.flatMap BatchWriteRequest.writes)) s' := by
  unfold CachedStore.writeBatchConcurrent at hs
  split at hs
  · rename_i hperm
    dsimp only at hs
    obtain ⟨cache, hfold⟩ := foldl_updateCache s caches
    have hcached : ∀ group, s'.cached group =
        (caches.foldl (fun s w => s.updateCache w.groupKey w.point) s).cached group := by
      cases hs
      exact fun _ => rfl
    have hfields : s'.table = insertAll s.table (requests.flatMap BatchWriteRequest.writes) ∧
        s'.writeBuffer = s.writeBuffer ∧ s'.cacheTtl = s.cacheTtl := by
      cases hs
      rw [hfold]
      exact ⟨rfl, rfl, rfl⟩
    obtain ⟨htable, hbuffer, httl⟩ := hfields
    by_cases hpos : 0 < s.cacheTtl
    · refine h.insert hkeys htable hbuffer ?_ ?_
      · intro group point hc
        rw [hcached, cached_foldl_updateCache s hpos] at hc
        cases hlast : lastUpdate group caches with
        | some last =>
          rw [hlast] at hc
          cases hc
          exact hnewest group _ hlast hpos
        | none =>
          -- no request writes to the group
          rw [hlast] at hc
          rw [ofGroup_accept_of_ne]
          · exact h.cached group point hc
          · intro w hw hg
            obtain ⟨r, hr, hw⟩ := mem_flatMap.mp hw
            obtain ⟨u, hu, hsame⟩ := exists_lastPoint hw
            have hmem : u ∈ caches := hperm.mem_iff.mpr (mem_flatMap.mpr ⟨r, hr, hu⟩)
            unfold lastUpdate at hlast
            rw [map_eq_none_iff, getLast?_eq_none_iff, filter_eq_nil_iff] at hlast
            exact hlast u hmem (by simpa using hsame.trans hg)
      · intro group hc
        rw [hcached, cached_foldl_updateCache s hpos, or_eq_none_iff] at hc
        exact hc.2
    · have hzero : s.cacheTtl = 0 := Nat.eq_zero_of_not_pos hpos
      refine h.insert hkeys htable hbuffer ?_ fun group _ => cached_eq_none hzero
      intro group point hc
      rw [cached_eq_none (httl.trans hzero)] at hc
      cases hc
  · cases hs

/-- Entries leave the cache. -/
theorem expire (htable : s'.table = s.table) (hbuffer : s'.writeBuffer = s.writeBuffer)
    (hcached : ∀ group, s'.cached group = s.cached group ∨ s'.cached group = none)
    (hsurfaced : ∀ group, (s.cached group).isSome → s'.cached group = none →
      Surfaced points s.table group) : Fresh points s' where
  settled := by
    rw [← h.settled]
    unfold CachedStore.settled
    rw [htable, hbuffer]
  cached := by
    intro group point hc
    rcases hcached group with hsame | hnone
    · exact h.cached group point (hsame ▸ hc)
    · rw [hnone] at hc
      cases hc
  surfaced := by
    intro group hc
    rw [htable]
    cases hold : s.cached group with
    | none => exact h.surfaced group hold
    | some point => exact hsurfaced group (by simp [hold]) hc

end Fresh

/-- An orderly step keeps the invariant. -/
theorem fresh_step [DecidableEq V] {initial : Points V} {tr : List (CachedStore V × Label V)}
    {a : Label V} (h : Fresh (accepted initial tr) s) (hread : Readable readBack s)
    (horderly : Orderly s a) (hs : step readBack s a = some s') :
    Fresh (accepted initial ((s, a) :: tr)) s' := by
  have hsettled := h.settled
  -- a step that writes nothing accepts nothing
  have hnothing : ∀ {t : CachedStore V}, Fresh (accepted initial tr) t →
      Fresh ((accepted initial tr).accept []) t := by
    intro t ht
    rwa [accept_nil]
  cases a with
  | write w order =>
    obtain ⟨hnewest, hseen⟩ := horderly
    rw [hsettled] at hnewest
    exact h.write hnewest hseen hs
  | writeBatch group batch now =>
    obtain ⟨hkeys, hnewest⟩ := horderly
    rw [hsettled] at hnewest
    cases hs
    exact h.writeBatch hkeys hnewest
  | writeBatchConcurrent requests caches =>
    obtain ⟨hkeys, hnewest⟩ := horderly
    rw [hsettled] at hnewest
    exact h.writeBatchConcurrent hkeys hnewest hs
  | flush order => exact hnothing (.flushBuffer hsettled h.cached hs)
  | deleteRange group start stop =>
    obtain ⟨hpending, hsurfaced⟩ := horderly
    rw [hsettled] at hsurfaced
    cases hs
    exact h.deleteRange hpending hsurfaced
  | queryLatest group =>
    cases hs
    exact hnothing (h.query (sameAnswers_queryLatest hread group))
  | queryLatestBatch sourceId metrics =>
    cases hs
    exact hnothing (h.query (queryLatestBatch_spec hread sourceId metrics).2)
  | tick elapsed =>
    cases hs
    have hsurfaced : ∀ group, (s.cached group).isSome →
        ({ s with clock := s.clock + elapsed }.cached group).isNone →
          Surfaced s.settled s.table group := horderly
    rw [hsettled] at hsurfaced
    refine hnothing (h.expire rfl rfl ?_ ?_)
    · -- an entry that has not expired had not expired before
      intro group
      unfold CachedStore.cached
      cases s.latestCache.lookup group with
      | none => exact Or.inl rfl
      | some entry =>
        by_cases hlater : s.clock + elapsed - entry.cachedAt < s.cacheTtl
        · have hbefore : s.clock - entry.cachedAt < s.cacheTtl := by omega
          left
          simp only [hlater, hbefore, if_true]
        · right
          simp only [hlater, if_false]
    · intro group hsome hnone
      exact hsurfaced group hsome (by rw [hnone]; rfl)
  | evict group =>
    cases hs
    have hsurfaced : (s.cached group).isSome → Surfaced s.settled s.table group := horderly
    rw [hsettled] at hsurfaced
    have hother : ∀ group', group' ≠ group →
        { s with latestCache := s.latestCache.erase group }.cached group' = s.cached group' := by
      intro group' hg
      unfold CachedStore.cached
      dsimp only
      rw [AList.lookup_erase_ne hg]
    refine hnothing (h.expire rfl rfl ?_ ?_)
    · intro group'
      by_cases hg : group' = group
      · right
        unfold CachedStore.cached
        dsimp only
        rw [hg, AList.lookup_erase]
      · exact Or.inl (hother group' hg)
    · intro group' hsome hnone
      by_cases hg : group' = group
      · subst hg
        exact hsurfaced hsome
      · rw [hother group' hg] at hnone
        rw [hnone] at hsome
        cases hsome

/-- Rows that are added read back. -/
theorem Readable.insertAll (h : Readable readBack s)
    (hwrites : ∀ w ∈ writes, ReadsBack readBack w.point)
    (htable : s'.table = Storage.insertAll s.table writes)
    (hbuffer : s'.writeBuffer = s.writeBuffer) : Readable readBack s' := by
  refine ⟨fun key point hrow => ?_, hbuffer ▸ h.pending⟩
  rw [htable, lookup_insertAll] at hrow
  cases hlast : lastOf key writes with
  | none =>
    rw [hlast] at hrow
    exact h.rows key point hrow
  | some last =>
    rw [hlast] at hrow
    cases hrow
    obtain ⟨w, hw, -, rfl⟩ := exists_of_lastOf hlast
    exact hwrites w hw

/-- Pending points that are flushed read back. -/
theorem Readable.flushBuffer {order : List GroupKey} (h : Readable readBack s)
    (hs : s.flushBuffer order = some s') : Readable readBack s' := by
  obtain ⟨hsame, hnil, -⟩ := settled_flushBuffer hs
  refine ⟨fun key point hrow => ?_, by rw [hnil]; exact fun _ hw => nomatch hw⟩
  have hsettled : s.settled key = some point := by
    rw [← hsame]
    show (lastOf key s'.writeBuffer.pending).or (s'.table.lookup key) = some point
    rw [hnil, hrow]
    rfl
  have hor : (lastOf key s.writeBuffer.pending).or (s.table.lookup key) = some point := hsettled
  cases hlast : lastOf key s.writeBuffer.pending with
  | none =>
    rw [hlast] at hor
    exact h.rows key point hor
  | some last =>
    rw [hlast] at hor
    cases hor
    obtain ⟨w, hw, -, rfl⟩ := exists_of_lastOf hlast
    exact h.pending w hw

/-- What was written reads back in every state. -/
theorem readable_step [DecidableEq V] {a : Label V} (h : Readable readBack s)
    (hwrites : WritesReadable readBack s a) (hs : step readBack s a = some s') :
    Readable readBack s' := by
  cases a with
  | write w order =>
    have hpush : Readable readBack { s.updateCache w.groupKey w.point with
        writeBuffer := ((s.updateCache w.groupKey w.point).writeBuffer.push w).2 } := by
      refine ⟨h.rows, fun u hu => ?_⟩
      rcases mem_append.mp hu with hu | hu
      · exact h.pending u hu
      · exact hwrites u hu
    have hwrite : s.write order w = some s' := hs
    unfold CachedStore.write at hwrite
    dsimp only at hwrite
    split at hwrite
    · exact hpush.flushBuffer hwrite
    · cases hwrite
      exact hpush
  | writeBatch group points now =>
    cases hs
    exact h.insertAll hwrites (insertPoints_eq s.table group points) rfl
  | writeBatchConcurrent requests caches =>
    have hconcurrent : s.writeBatchConcurrent requests caches = some s' := hs
    unfold CachedStore.writeBatchConcurrent at hconcurrent
    split at hconcurrent
    · obtain ⟨cache, hfold⟩ := foldl_updateCache s caches
      cases hconcurrent
      rw [hfold]
      exact h.insertAll hwrites rfl rfl
    · cases hconcurrent
  | flush order => exact h.flushBuffer hs
  | deleteRange group start stop =>
    cases hs
    refine ⟨fun key point hrow => ?_, h.pending⟩
    have hrow' : (deleteRows s.table group start stop).2.lookup key = some point := hrow
    rw [lookup_deleteRows] at hrow'
    split at hrow'
    · cases hrow'
    · exact h.rows key point hrow'
  | queryLatest group =>
    cases hs
    exact (sameAnswers_queryLatest h group).readable h
  | queryLatestBatch sourceId metrics =>
    cases hs
    exact (queryLatestBatch_spec h sourceId metrics).2.readable h
  | tick elapsed | evict group =>
    cases hs
    exact ⟨h.rows, h.pending⟩

end Step

/-! ## Runs -/

/-- The queries of the latest point agree, and return the last of the points. -/
structure Agrees (readBack : DataPoint V → Option (DataPoint V)) (points : Points V)
    (s : CachedStore V) : Prop where
  flushes : ∃ order flushed, s.flushBuffer order = some flushed
  queryLatest : ∀ group, ∃ answer, (s.queryLatest readBack group).1 = some answer ∧
    (points.ofGroup group).IsLast answer ∧ ∀ order flushed, s.flushBuffer order = some flushed →
      flushed.queryLatestUncached readBack group = some answer
  queryLatestBatch : ∀ sourceId metrics, ∃ answers,
    (s.queryLatestBatch readBack sourceId metrics).1 = some answers ∧ ∀ metric ∈ metrics,
      (points.ofGroup (sourceId, metric)).IsLast (answers.lookup metric)

theorem fresh_opened (table : HashMap Key (DataPoint V)) (maxSize cacheTtl clock : ℕ) :
    Fresh table.lookup (CachedStore.opened table maxSize cacheTtl clock) where
  settled := accept_nil _
  cached := by
    intro group point hc
    cases hc
  surfaced := fun group _ => surfaced_lookup table group

theorem exists_flushBuffer (s : CachedStore V) :
    ∃ order flushed, s.flushBuffer order = some flushed := by
  refine ⟨(groupsOf s.writeBuffer.drain.1).keys, ?_⟩
  unfold CachedStore.flushBuffer
  dsimp only
  split
  · exact ⟨_, rfl⟩
  · rw [if_pos (List.Perm.refl _)]
    exact ⟨_, rfl⟩

theorem Fresh.agrees {points : Points V} {s : CachedStore V}
    {readBack : DataPoint V → Option (DataPoint V)} (h : Fresh points s)
    (hread : Readable readBack s) : Agrees readBack points s where
  flushes := exists_flushBuffer s
  queryLatest := fun group => by
    refine ⟨s.latest group, fst_queryLatest hread group, h.latest group, fun order flushed hs => ?_⟩
    obtain ⟨hsettled, hnil, -⟩ := settled_flushBuffer hs
    have htable : flushed.settled = flushed.table.lookup := by
      unfold CachedStore.settled
      rw [hnil, accept_nil]
    have hrow := isLast_latestRow flushed.table group
    rw [← htable, hsettled, h.settled] at hrow
    rw [(hread.flushBuffer hs).queryLatestUncached, hrow.unique (h.latest group)]
  queryLatestBatch := fun sourceId metrics => by
    obtain ⟨⟨answers, hanswers, hlookup⟩, -⟩ := queryLatestBatch_spec hread sourceId metrics
    refine ⟨answers, hanswers, fun metric hm => ?_⟩
    rw [hlookup metric, if_pos hm]
    exact h.latest (sourceId, metric)

/-- In a run of orderly calls on an opened database the queries of the latest point agree
in every state, if the texts of all points read back. -/
theorem agrees_of_orderly [DecidableEq V] {readBack : DataPoint V → Option (DataPoint V)}
    {table : HashMap Key (DataPoint V)} {maxSize cacheTtl clock : ℕ}
    {tr : List (CachedStore V × Label V)} {s : CachedStore V}
    (hrun : Run (step readBack) (CachedStore.opened table maxSize cacheTtl clock) tr s)
    (hrows : ∀ key point, table.lookup key = some point → ReadsBack readBack point)
    (hwrites : Within (WritesReadable readBack) tr) (horderly : Within Orderly tr) :
    Agrees readBack (accepted table.lookup tr) s := by
  have hinv : Fresh (accepted table.lookup tr) s ∧ Readable readBack s :=
    hrun.traceInvariant (G := fun s a => Orderly s a ∧ WritesReadable readBack s a)
      (I := fun tr s => Fresh (accepted table.lookup tr) s ∧ Readable readBack s)
      (fun e he => ⟨horderly e he, hwrites e he⟩)
      ⟨fresh_opened table maxSize cacheTtl clock, hrows, fun _ hw => nomatch hw⟩
      (fun _ _ _ _ _ h ha hs => ⟨fresh_step h.1 h.2 ha.1 hs, readable_step h.2 ha.2 hs⟩)
  exact hinv.1.agrees hinv.2

/-! ### A late point -/

/-- A write of a temperature. -/
def temp (timestamp value : ℤ) : BufferedWrite ℤ :=
  ⟨"device:d1", "temp", ⟨timestamp, value, none, none⟩⟩

/-- A store with the default configuration and no rows. -/
def empty : CachedStore ℤ := .opened ∅ 200 60000000000 0

/-- Two points in order are flushed and read. -/
theorem agrees_of_orderly_flushed :
    ∃ tr s, Run (step some) (CachedStore.opened ∅ 200 60000000000 0) tr s ∧
      (s.queryLatest some ("device:d1", "temp")).1 = some (some (temp 10 1).point) ∧
      Agrees some (accepted (∅ : HashMap Key (DataPoint ℤ)).lookup tr) s := by
  have hrun : Run (step some) empty
      [(_, .flush [("device:d1", "temp")]), (_, .write (temp 10 1) []),
        (_, .write (temp 5 2) [])] _ :=
    ((Run.nil.snoc rfl).snoc rfl).snoc rfl
  refine ⟨_, _, hrun, rfl, agrees_of_orderly hrun (fun _ _ _ => rfl) (fun _ _ _ _ => rfl) ?_⟩
  simp only [within_cons]
  refine ⟨trivial, ⟨?_, Or.inl (by decide)⟩, ⟨?_, Or.inl (by decide)⟩, within_nil _⟩
  · intro t point ht
    cases hlast : lastOf ("device:d1", "temp", t) [temp 5 2] with
    | none =>
      have hnone : (lastOf ("device:d1", "temp", t) [temp 5 2]).or none = some point := ht
      rw [hlast] at hnone
      cases hnone
    | some first =>
      obtain ⟨w, hw, hkey, -⟩ := exists_of_lastOf hlast
      rw [mem_singleton] at hw
      subst hw
      have ht5 : (5 : ℤ) = t := congrArg (fun key : Key => key.2.2) hkey
      show t ≤ 10
      omega
  · intro t point ht
    cases ht

/-- A point that arrives late hides the newer one. -/
theorem late_point_hides_newer :
    ∃ tr s, Run (step some) empty tr s ∧
      (s.queryLatest some ("device:d1", "temp")).1 = some (some (temp 5 2).point) ∧
      ¬ Agrees some (accepted empty.table.lookup tr) s := by
  obtain ⟨tr, s, hrun, hlatest, huncached⟩ := exists_run (step some) empty
    [.write (temp 10 1) [], .write (temp 5 2) []]
    (fun tr s => (s.queryLatest some ("device:d1", "temp")).1
        = some (some (temp 5 2).point) ∧
      (s.flushBuffer [("device:d1", "temp")]).map
        (fun s => s.queryLatestUncached some ("device:d1", "temp")) =
          some (some (some (temp 10 1).point))) (by decide)
  refine ⟨tr, s, hrun, hlatest, fun h => ?_⟩
  obtain ⟨flushed, hflush, hrow⟩ := map_eq_some_iff.mp huncached
  obtain ⟨answer, hanswer, -, hflushed⟩ := h.queryLatest ("device:d1", "temp")
  have heq := hflushed _ _ hflush
  rw [hrow, ← hanswer, hlatest] at heq
  revert heq
  decide

end Latest

end HeraMind.Storage
