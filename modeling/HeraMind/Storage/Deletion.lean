/-
# Deleted points

Any number of `write`, `flush_buffer`, `query_latest` and `delete_metric` calls run at the
same time.  A delete goes through three places in sections of its own: the rows, batch by
batch, the cache, and the metric infos.  What was written before can come back from where
the delete does not look: the write buffer and the hands of a flush, and a query that has
read the table and fills the cache later.  Nothing in the source waits for either.
-/
import HeraMind.Storage.Queries

namespace HeraMind.Storage

open List Option AList
open Transition

variable {V : Type}

namespace Deletion

/-! ## Calls -/

/-- The calls on the store. -/
inductive Call (V : Type) : Type where
  | write (w : BufferedWrite V)
  | flushBuffer
  | queryLatest (group : GroupKey)
  | deleteMetric (group : GroupKey)

/-- The next section of a call. -/
inductive Section (V : Type) : Type where
  /-- `write`: update the cache. -/
  | cache (w : BufferedWrite V)
  /-- `write` and `flush_buffer` from the push on, with the groups that a transaction has
  committed and that are not yet recorded in the metric infos. -/
  | flush (pc : Pc V) (unrecorded : List (Group V))
  /-- `query_latest`: look into the cache. -/
  | lookup (group : GroupKey)
  /-- `query_latest`: read the table. -/
  | read (group : GroupKey)
  /-- `query_latest`: put what was read into the cache. -/
  | fill (group : GroupKey) (point : DataPoint V)
  | answered
  /-- `delete_metric`: one transaction. -/
  | deleteBatch (group : GroupKey)
  /-- `delete_metric`: drop the entry of the cache. -/
  | invalidate (group : GroupKey)
  /-- `delete_metric`: drop the metric info. -/
  | removeInfo (group : GroupKey)
  | deleted (group : GroupKey)

/-- The first section of a call. -/
def Call.start : Call V → Section V
  | .write w => .cache w
  | .flushBuffer => .flush .drain []
  | .queryLatest group => .lookup group
  | .deleteMetric group => .deleteBatch group

/-- The groups that a section of a flush commits. -/
def landed (choice : Choice) : Pc V → List (Group V)
  | .allGroups _ groups => if choice.fails then [] else groups
  | .batch _ (g :: _) _ => if choice.fails then [] else [g]
  | .isolated _ group (point :: _) _ _ _ => if choice.fails then [] else [(group, [point])]
  | _ => []

/-- The keys that one transaction of a full-range delete removes: every timestamp is an
`i64`, so the range has all rows of the group. -/
def metricBatch (table : HashMap Key (DataPoint V)) (group : GroupKey) : List Key :=
  ((rowsOf table group).take deleteBatchSize).map fun r => (group.1, group.2, r.1)

/-- One section of a call. -/
def Section.advance (choice : Choice) (s : CachedStore V) :
    Section V → Option (Section V × CachedStore V)
  | .cache w => some (.flush (.push w) [], s.updateCache w.groupKey w.point)
  | .flush pc ((group, points) :: unrecorded) =>
    some (.flush pc unrecorded,
      { s with metricsInfo := recordMetric s.metricsInfo group points })
  | .flush pc [] =>
    match pc.advance choice s.toTimeSeriesStore with
    | none => none
    | some (pc', store) =>
      -- the metric infos follow in sections of their own
      some (.flush pc' (landed choice pc),
        { s with toTimeSeriesStore := { store with metricsInfo := s.metricsInfo } })
  | .lookup group =>
    match s.cached group with
    | some _ => some (.answered, s)
    | none => some (.read group, s)
  | .read group =>
    match latestRow s.table group with
    | some point => some (.fill group point, s)
    | none => some (.answered, s)
  | .fill group point => some (.answered, s.updateCache group point)
  | .answered => none
  | .deleteBatch group =>
    let keys := metricBatch s.table group
    let s' := { s with table := HashMap.removeAll s.table keys }
    if keys.length < deleteBatchSize then some (.invalidate group, s')
    else some (.deleteBatch group, s')
  | .invalidate group =>
    some (.removeInfo group, { s with latestCache := s.latestCache.erase group })
  | .removeInfo group =>
    some (.deleted group, { s with metricsInfo := s.metricsInfo.erase (metricKey group) })
  | .deleted _ => none

/-! ## The system -/

/-- The store and every call ever made on it. -/
structure System (V : Type) where
  store : CachedStore V
  calls : List (Section V)

/-- A new call, a section of call `n`, or something that happens to the cache. -/
inductive Label (V : Type) : Type where
  | call (c : Call V)
  | run (n : ℕ) (choice : Choice)
  /-- Time passes. -/
  | tick (elapsed : ℕ)
  /-- The cache evicts an entry. -/
  | evict (group : GroupKey)

def step (s : System V) : Label V → Option (System V)
  | .call c => some { s with calls := s.calls ++ [c.start] }
  | .run n choice =>
    match s.calls[n]? with
    | none => none
    | some section_ =>
      match section_.advance choice s.store with
      | none => none
      | some (section', store) => some { store := store, calls := s.calls.set n section' }
  | .tick elapsed => some { s with store := { s.store with clock := s.store.clock + elapsed } }
  | .evict group =>
    some { s with store := { s.store with latestCache := s.store.latestCache.erase group } }

/-- The store before any call. -/
def System.idle (store : CachedStore V) : System V := ⟨store, []⟩

/-! ## What came since -/

/-- The point of a group that a section of a write puts into the cache or into the write
buffer. -/
def arriving (group : GroupKey) : Section V → List (DataPoint V)
  | .cache w | .flush (.push w) [] => if w.groupKey = group then [w.point] else []
  | _ => []

/-- The point of a group that arrives in a step. -/
def arrives (group : GroupKey) : System V × Label V → List (DataPoint V)
  | (s, .run n _) => (s.calls[n]?.map (arriving group)).getD []
  | _ => []

/-- The points of a group that have arrived since call `n` was made. -/
def since (n : ℕ) (group : GroupKey) : List (System V × Label V) → List (DataPoint V)
  | [] => []
  | (s, a) :: tr =>
    if n < s.calls.length then arrives group (s, a) ++ since n group tr else []

/-- Every query of a group answers from the given points only. -/
structure AnswersFrom (points : List (DataPoint V)) (s : CachedStore V) (group : GroupKey) :
    Prop where
  latest : ∀ point, (s.queryLatest some group).1 = some (some point) → point ∈ points
  uncached : ∀ point, s.queryLatestUncached some group = some (some point) → point ∈ points
  range : ∀ start stop limit, ∀ point ∈ (queryRange s.table group start stop limit).points,
    point ∈ points
  rangeRev : ∀ start stop limit offset,
    ∀ point ∈ (queryRangeRev s.table group start stop limit offset).points, point ∈ points
  bucketed : ∀ (F : Type) (f : Float64 V F) start stop targetCount,
    ∀ point ∈ (queryRangeBucketed f s.table group start stop targetCount).points, point ∈ points
  aggregate : ∀ (F : Type) (f : Float64 V F) start stop, ∃ seen, (∀ point ∈ seen, point ∈ points) ∧
    aggregateRange f s.table group start stop = aggregate f seen
  aggregated : ∀ (F : Type) (f : Float64 V F) start stop bucketSizeSecs,
    ∃ seen, (∀ point ∈ seen, point ∈ points) ∧
      queryAggregated f s.table group start stop bucketSizeSecs =
        if bucketSizeSecs ≤ 0 then none else some (bucketsOf f bucketSizeSecs seen)
  listed : group.2 ∈ listMetrics s.metricsInfo s.table group.1 → points ≠ []

/-! ## What a delete has to wait for -/

/-- The writes in the hands of a flush. -/
def Section.held : Section V → List (BufferedWrite V)
  | .flush pc _ => pc.held
  | _ => []

/-- The groups that a flush still has to record in the metric infos. -/
def Section.unrecorded : Section V → List (Group V)
  | .flush _ unrecorded => unrecorded
  | _ => []

/-- The point of a group that a query has read and still has to put into the cache. -/
def Section.fills (group : GroupKey) : Section V → List (DataPoint V)
  | .fill group' point => if group' = group then [point] else []
  | _ => []

/-- The writes that are in the write buffer or in the hands of a flush. -/
def System.unsettled (s : System V) : List (BufferedWrite V) :=
  s.store.writeBuffer.pending ++ s.calls.flatMap Section.held

/-- The writes of the run. -/
def writesOf : List (System V × Label V) → List (BufferedWrite V)
  | [] => []
  | (_, .call (.write w)) :: tr => w :: writesOf tr
  | _ :: tr => writesOf tr

/-- The groups that the run deletes. -/
def deletesOf : List (System V × Label V) → List GroupKey
  | [] => []
  | (_, .call (.deleteMetric group)) :: tr => group :: deletesOf tr
  | _ :: tr => deletesOf tr

/-- A delete takes its last batch when no older write of the group is pending or held, drops
the entry of the cache when no query is about to fill it with an older point, and drops
the metric info when no flush is about to record older points. -/
def Section.Waits (tr : List (System V × Label V)) (s : System V) (n : ℕ) : Section V → Prop
  | .deleteBatch group =>
    (metricBatch s.store.table group).length < deleteBatchSize →
      ∀ w ∈ s.unsettled, w.groupKey = group → w.point ∈ since n group tr
  | .invalidate group =>
    ∀ point ∈ s.calls.flatMap (Section.fills group), point ∈ since n group tr
  | .removeInfo group =>
    ∀ e ∈ s.calls.flatMap Section.unrecorded, e.1 = group → since n group tr ≠ []
  | _ => True

/-- The step is not one of a delete, or the delete has waited. -/
def Waits (tr : List (System V × Label V)) : System V × Label V → Prop
  | (s, .run n _) => ∀ sec ∈ s.calls[n]?, sec.Waits tr s n
  | _ => True

/-- Every delete of the run waits. -/
def DeletesWait : List (System V × Label V) → Prop
  | [] => True
  | e :: tr => Waits tr e ∧ DeletesWait tr

/-- No written metric reads like another one that is deleted, as `a:b` does for the metric
`c` like `a` for the metric `b:c`. -/
def AliasFree (tr : List (System V × Label V)) : Prop :=
  ∀ w ∈ writesOf tr, ∀ group ∈ deletesOf tr, metricKey w.groupKey = metricKey group →
    w.groupKey = group

/-! ## What a flush holds -/

section Flush

variable {choice : Choice} {s s' : TimeSeriesStore V} {pc pc' : Pc V} {w : BufferedWrite V}

theorem mem_requeue {b : WriteBuffer V} {writes : List (BufferedWrite V)}
    (h : w ∈ (b.requeue writes).2.pending) : w ∈ b.pending ∨ w ∈ writes := by
  induction writes generalizing b with
  | nil => exact Or.inl h
  | cons u writes ih =>
    unfold WriteBuffer.requeue at h
    split at h
    · rcases ih h with h | h
      · exact Or.inl h
      · exact Or.inr (mem_cons_of_mem _ h)
    · rcases ih h with h | h
      · rcases mem_append.mp h with h | h
        · exact Or.inl h
        · rw [mem_singleton] at h
          exact Or.inr (h ▸ mem_cons_self)
      · exact Or.inr (mem_cons_of_mem _ h)

/-- What is pending or held after a section was so before, or is pushed by it. -/
theorem mem_of_advance (h : pc.advance choice s = some (pc', s'))
    (hw : w ∈ s'.writeBuffer.pending ++ pc'.held) :
    w ∈ s.writeBuffer.pending ++ pc.held ++ pc.written := by
  by_cases hdrop : pc.dropped s = 0
  · have hperm := perm_of_advance h hdrop
    exact hperm.mem_iff.mpr (mem_append_right _ hw)
  · -- only putting writes back into the buffer drops any
    cases pc with
    | batch total groups queue =>
      cases groups with
      | nil =>
        simp only [Pc.advance] at h
        split at h
        · rename_i hempty
          rw [List.isEmpty_iff] at hempty
          subst hempty
          exact absurd rfl hdrop
        · cases h
          simp only [Pc.held, append_nil] at hw
          rcases mem_requeue hw with hw | hw
          · exact mem_append_left _ (mem_append_left _ hw)
          · simp [Pc.held, ungroup, hw]
      | cons g groups => exact absurd rfl hdrop
    | _ => exact absurd rfl hdrop

/-- A section leads to no push. -/
theorem written_of_advance (h : pc.advance choice s = some (pc', s')) : pc'.written = [] := by
  cases pc with
  | push write =>
    simp only [Pc.advance] at h
    split at h <;> cases h <;> rfl
  | drain =>
    simp only [Pc.advance] at h
    split at h
    · cases h
      rfl
    · split at h <;> cases h
      rfl
  | allGroups total groups =>
    simp only [Pc.advance] at h
    split at h <;> cases h <;> rfl
  | batch total groups queue =>
    cases groups with
    | nil | cons g groups =>
      simp only [Pc.advance] at h
      split at h <;> cases h <;> rfl
  | isolated total group points failed groups queue =>
    cases points with
    | nil =>
      cases h
      rfl
    | cons point points =>
      simp only [Pc.advance] at h
      split at h <;> cases h <;> rfl
  | stats total requeued =>
    simp only [Pc.advance] at h
    split at h <;> cases h <;> rfl
  | done => cases h

/-- A section commits only what it holds. -/
theorem mem_held_of_committed (hw : w ∈ pc.committed choice) : w ∈ pc.held := by
  cases pc with
  | allGroups total groups =>
    simp only [Pc.committed] at hw
    split at hw
    · cases hw
    · exact hw
  | batch total groups queue =>
    cases groups with
    | nil => cases hw
    | cons g groups =>
      simp only [Pc.committed] at hw
      split at hw
      · cases hw
      · simp [Pc.held, ungroup, hw]
  | isolated total group points failed groups queue =>
    cases points with
    | nil => cases hw
    | cons point points =>
      simp only [Pc.committed] at hw
      split at hw
      · cases hw
      · simp only [Pc.held, buffered, map_cons, map_nil, mem_singleton] at hw ⊢
        simp [hw]
  | _ => cases hw

/-- Every group that a flush holds has a point. -/
def Filled : Pc V → Prop
  | .allGroups _ groups | .batch _ groups _ | .isolated _ _ _ _ groups _ => ∀ g ∈ groups, g.2 ≠ []
  | _ => True

theorem filled_entriesIn (drained : List (BufferedWrite V)) (order : List GroupKey) :
    ∀ g ∈ entriesIn (groupsOf drained) order, g.2 ≠ [] := by
  rintro ⟨group, points⟩ hg
  obtain ⟨k, -, hk⟩ := mem_filterMap.mp hg
  obtain ⟨points', hlookup, heq⟩ := map_eq_some_iff.mp hk
  cases heq
  have hkey : group ∈ (groupsOf drained).keys := by
    rw [← AList.mem_keys, ← lookup_isSome, hlookup]
    rfl
  obtain ⟨w, hw, rfl⟩ := (mem_keys_groupInto _ _ _ _).mp hkey
  have hgroup := getD_lookup_groupInto BufferedWrite.groupKey BufferedWrite.point drained w.groupKey
  unfold groupsOf at hlookup
  rw [hlookup, getD_some] at hgroup
  rw [hgroup]
  exact ne_nil_of_mem (mem_map_of_mem (mem_filter.mpr ⟨hw, by simp⟩))

theorem filled_of_advance (hfilled : Filled pc) (h : pc.advance choice s = some (pc', s')) :
    Filled pc' := by
  cases pc with
  | drain =>
    simp only [Pc.advance] at h
    split at h
    · cases h
      trivial
    · split at h
      · cases h
        exact filled_entriesIn _ _
      · cases h
  | allGroups total groups =>
    simp only [Pc.advance] at h
    split at h
    · cases h
      exact hfilled
    · cases h
      trivial
  | batch total groups queue =>
    cases groups with
    | nil =>
      simp only [Pc.advance] at h
      split at h <;> cases h <;> trivial
    | cons g groups =>
      have hrest : ∀ g ∈ groups, g.2 ≠ [] := fun g hg => hfilled g (mem_cons_of_mem _ hg)
      simp only [Pc.advance] at h
      split at h <;> cases h <;> exact hrest
  | isolated total group points failed groups queue =>
    cases points with
    | nil =>
      cases h
      exact hfilled
    | cons point points =>
      simp only [Pc.advance] at h
      split at h <;> cases h <;> exact hfilled
  | push write | stats total requeued =>
    simp only [Pc.advance] at h
    split at h <;> cases h <;> trivial
  | done => cases h

/-- A group that a section commits is the group of a write it holds. -/
theorem exists_held_of_landed (hfilled : Filled pc) {g : Group V} (hg : g ∈ landed choice pc) :
    ∃ w ∈ pc.held, w.groupKey = g.1 := by
  -- a group with a point is the group of that point
  have hfirst : ∀ g : Group V, g.2 ≠ [] → ∃ w ∈ buffered g.1 g.2, w.groupKey = g.1 := by
    rintro ⟨group, points⟩ hne
    obtain ⟨point, points, rfl⟩ := exists_cons_of_ne_nil hne
    exact ⟨⟨group.1, group.2, point⟩, mem_cons_self, rfl⟩
  cases pc with
  | allGroups total groups =>
    simp only [landed] at hg
    split at hg
    · cases hg
    · obtain ⟨w, hw, heq⟩ := hfirst g (hfilled g hg)
      exact ⟨w, mem_flatMap.mpr ⟨g, hg, hw⟩, heq⟩
  | batch total groups queue =>
    cases groups with
    | nil => cases hg
    | cons g' groups =>
      simp only [landed] at hg
      split at hg
      · cases hg
      · rw [mem_singleton] at hg
        subst hg
        obtain ⟨w, hw, heq⟩ := hfirst g (hfilled g mem_cons_self)
        refine ⟨w, ?_, heq⟩
        simp [Pc.held, ungroup, hw]
  | isolated total group points failed groups queue =>
    cases points with
    | nil => cases hg
    | cons point points =>
      simp only [landed] at hg
      split at hg
      · cases hg
      · rw [mem_singleton] at hg
        subst hg
        exact ⟨⟨group.1, group.2, point⟩, by simp [Pc.held, buffered], rfl⟩
  | _ => cases hg

end Flush

/-! ## Where old points can be -/

/-- The points of a group in the table, in the write buffer and in the hands of a flush. -/
structure TableFrom (points : List (DataPoint V)) (s : System V) (group : GroupKey) : Prop where
  rows : ∀ t point, s.store.table.lookup (group.1, group.2, t) = some point → point ∈ points
  unsettled : ∀ w ∈ s.unsettled, w.groupKey = group → w.point ∈ points

/-- The points of a group in the cache and in the hands of a query. -/
structure ReadsFrom (points : List (DataPoint V)) (s : System V) (group : GroupKey) : Prop where
  cache : ∀ entry, s.store.latestCache.lookup group = some entry → entry.point ∈ points
  fills : ∀ point ∈ s.calls.flatMap (Section.fills group), point ∈ points

/-- The info of a metric, and those that a flush will record. -/
structure ListedFrom (points : List (DataPoint V)) (s : System V) (group : GroupKey) :
    Prop where
  info : metricKey group ∈ s.store.metricsInfo → points ≠ []
  unrecorded : ∀ e ∈ s.calls.flatMap Section.unrecorded, metricKey e.1 = metricKey group →
    points ≠ []

theorem mem_flatMap_set {α β : Type} {l : List α} {n : ℕ} {a : α} {f : α → List β} {b : β}
    (h : b ∈ (l.set n a).flatMap f) : b ∈ f a ∨ b ∈ l.flatMap f := by
  obtain ⟨x, hx, hb⟩ := mem_flatMap.mp h
  rcases mem_or_eq_of_mem_set hx with hx | rfl
  · exact Or.inr (mem_flatMap.mpr ⟨x, hx, hb⟩)
  · exact Or.inl hb

theorem mem_flatMap_of_getElem? {α β : Type} {l : List α} {n : ℕ} {a : α} {f : α → List β}
    {b : β} (hn : l[n]? = some a) (hb : b ∈ f a) : b ∈ l.flatMap f :=
  mem_flatMap.mpr ⟨a, mem_of_getElem? hn, hb⟩

section Run

variable {choice : Choice} {s : System V} {n : ℕ} {sec sec' : Section V}
  {store : CachedStore V} {points : List (DataPoint V)} {group : GroupKey}

/-- What a section does: one case for each way on. -/
inductive Moves (choice : Choice) (c : CachedStore V) :
    Section V → Section V → CachedStore V → Prop
  | cache (w : BufferedWrite V) :
      Moves choice c (.cache w) (.flush (.push w) []) (c.updateCache w.groupKey w.point)
  | record (pc : Pc V) (g : Group V) (unrecorded : List (Group V)) :
      Moves choice c (.flush pc (g :: unrecorded)) (.flush pc unrecorded)
        { c with metricsInfo := recordMetric c.metricsInfo g.1 g.2 }
  | flush {pc pc' : Pc V} {t : TimeSeriesStore V} :
      pc.advance choice c.toTimeSeriesStore = some (pc', t) →
      Moves choice c (.flush pc []) (.flush pc' (landed choice pc))
        { c with toTimeSeriesStore := { t with metricsInfo := c.metricsInfo } }
  | hit (group : GroupKey) : Moves choice c (.lookup group) .answered c
  | miss (group : GroupKey) : Moves choice c (.lookup group) (.read group) c
  | row {group : GroupKey} {point : DataPoint V} : latestRow c.table group = some point →
      Moves choice c (.read group) (.fill group point) c
  | noRow (group : GroupKey) : Moves choice c (.read group) .answered c
  | fill (group : GroupKey) (point : DataPoint V) :
      Moves choice c (.fill group point) .answered (c.updateCache group point)
  | lastBatch {group : GroupKey} : (metricBatch c.table group).length < deleteBatchSize →
      Moves choice c (.deleteBatch group) (.invalidate group)
        { c with table := HashMap.removeAll c.table (metricBatch c.table group) }
  | fullBatch (group : GroupKey) : Moves choice c (.deleteBatch group) (.deleteBatch group)
        { c with table := HashMap.removeAll c.table (metricBatch c.table group) }
  | invalidate (group : GroupKey) : Moves choice c (.invalidate group) (.removeInfo group)
        { c with latestCache := c.latestCache.erase group }
  | removeInfo (group : GroupKey) : Moves choice c (.removeInfo group) (.deleted group)
        { c with metricsInfo := c.metricsInfo.erase (metricKey group) }

theorem moves_of_advance {c : CachedStore V} (h : sec.advance choice c = some (sec', store)) :
    Moves choice c sec sec' store := by
  cases sec with
  | flush pc unrecorded =>
    cases unrecorded with
    | cons g unrecorded =>
      cases h
      exact .record pc g unrecorded
    | nil =>
      simp only [Section.advance] at h
      split at h
      · cases h
      · rename_i pc' t hpc
        cases h
        exact .flush hpc
  | lookup g =>
    simp only [Section.advance] at h
    split at h
    · cases h
      exact .hit g
    · cases h
      exact .miss g
  | read g =>
    simp only [Section.advance] at h
    split at h
    · rename_i point hpoint
      cases h
      exact .row hpoint
    · cases h
      exact .noRow g
  | deleteBatch g =>
    simp only [Section.advance] at h
    split at h
    · rename_i hlt
      cases h
      exact .lastBatch hlt
    · cases h
      exact .fullBatch g
  | cache w =>
    cases h
    exact .cache w
  | fill g point =>
    cases h
    exact .fill g point
  | invalidate g =>
    cases h
    exact .invalidate g
  | removeInfo g =>
    cases h
    exact .removeInfo g
  | answered | deleted g => cases h

variable {w : BufferedWrite V}

theorem mem_unsettled_of_held (hn : s.calls[n]? = some sec) (hw : w ∈ sec.held) : w ∈ s.unsettled :=
  mem_append_right _ (mem_flatMap_of_getElem? hn hw)

variable (h : sec.advance choice s.store = some (sec', store))

include h

/-- What is in the buffer or held after a section was so before, or arrives with it. -/
theorem mem_unsettled_of_advance (hw : w ∈ store.writeBuffer.pending ++ sec'.held) :
    w ∈ s.store.writeBuffer.pending ∨ w ∈ sec.held ∨ sec = .flush (.push w) [] := by
  cases moves_of_advance h with
  | record pc g unrecorded =>
    rcases mem_append.mp hw with hw | hw
    · exact Or.inl hw
    · exact Or.inr (Or.inl hw)
  | @flush pc pc' store' hpc =>
    have hmem := mem_of_advance hpc hw
    rcases mem_append.mp hmem with hmem | hmem
    · rcases mem_append.mp hmem with hmem | hmem
      · exact Or.inl hmem
      · exact Or.inr (Or.inl hmem)
    · cases pc with
      | push u =>
        rw [Pc.written, mem_singleton] at hmem
        subst hmem
        exact Or.inr (Or.inr rfl)
      | _ => cases hmem
  | cache u =>
    exact Or.inl (by simpa [Section.held, Pc.held, CachedStore.updateCache] using hw)
  | fill g point => exact Or.inl (by simpa [Section.held, CachedStore.updateCache] using hw)
  | _ => exact Or.inl (by simpa [Section.held] using hw)

/-- A row after a section was there before, or the section had held it. -/
theorem lookup_of_advance {key : Key} {point : DataPoint V} (hrow : store.table.lookup key = some point) :
    s.store.table.lookup key = some point ∨ ∃ w ∈ sec.held, w.key = key ∧ w.point = point := by
  -- a batch only removes rows
  have hbatch : ∀ keys : List Key, (HashMap.removeAll s.store.table keys).lookup key = some point →
      s.store.table.lookup key = some point := by
    intro keys hkeys
    rw [HashMap.lookup_removeAll] at hkeys
    split at hkeys
    · cases hkeys
    · exact hkeys
  cases moves_of_advance h with
  | @flush pc pc' store' hpc =>
    have htable : store'.table = insertAll s.store.table (pc.committed choice) :=
      table_of_advance hpc
    have hrow' : store'.table.lookup key = some point := hrow
    rw [htable, lookup_insertAll] at hrow'
    cases hlast : lastOf key (pc.committed choice) with
    | none =>
      rw [hlast] at hrow'
      exact Or.inl hrow'
    | some point' =>
      rw [hlast] at hrow'
      cases hrow'
      obtain ⟨w, hw, hkey, hpoint⟩ := exists_of_lastOf hlast
      exact Or.inr ⟨w, mem_held_of_committed hw, hkey, hpoint⟩
  | lastBatch hlt | fullBatch g => exact Or.inl (hbatch _ hrow)
  | _ => exact Or.inl hrow

/-- An entry of the cache after a section was there before, or its point arrives with the
section or was about to be filled in. -/
theorem cache_of_advance {entry : CacheEntry V} (hentry : store.latestCache.lookup group = some entry) :
    s.store.latestCache.lookup group = some entry ∨
      entry.point ∈ arriving group sec ∨ entry.point ∈ sec.fills group := by
  -- the entry that an update of the cache puts in
  have hupdate : ∀ (g : GroupKey) (point : DataPoint V),
      (s.store.updateCache g point).latestCache.lookup group = some entry →
        s.store.latestCache.lookup group = some entry ∨ g = group ∧ entry.point = point := by
    intro g point hlookup
    by_cases hg : group = g
    · subst hg
      have hself : some ⟨point, s.store.clock⟩ = some entry := by
        rw [← hlookup]
        exact (lookup_insert s.store.latestCache).symm
      cases hself
      exact Or.inr ⟨rfl, rfl⟩
    · left
      rw [← hlookup]
      exact (lookup_insert_ne hg).symm
  cases moves_of_advance h with
  | cache w =>
    rcases hupdate _ _ hentry with hentry | ⟨hg, hpoint⟩
    · exact Or.inl hentry
    · exact Or.inr (Or.inl (by simp [arriving, hg, hpoint]))
  | fill g point =>
    rcases hupdate _ _ hentry with hentry | ⟨hg, hpoint⟩
    · exact Or.inl hentry
    · exact Or.inr (Or.inr (by simp [Section.fills, hg, hpoint]))
  | invalidate g =>
    by_cases hg : group = g
    · subst hg
      have hnone : some entry = none :=
        hentry.symm.trans (AList.lookup_erase group s.store.latestCache)
      cases hnone
    · left
      rw [← hentry]
      exact (AList.lookup_erase_ne hg).symm
  | _ => exact Or.inl hentry

/-- What a query is about to fill in is a row. -/
theorem fills_of_advance {point : DataPoint V} (hpoint : point ∈ sec'.fills group) :
    ∃ t, s.store.table.lookup (group.1, group.2, t) = some point := by
  cases moves_of_advance h with
  | @row g row hrow =>
    by_cases hg : g = group
    · subst hg
      simp only [Section.fills, if_true, mem_singleton] at hpoint
      exact hpoint ▸ lookup_of_latestRow hrow
    · simp [Section.fills, hg] at hpoint
  | _ => cases hpoint

/-- A metric info after a section was there before, or the section records it. -/
theorem info_of_advance {key : String} (hkey : key ∈ store.metricsInfo) :
    key ∈ s.store.metricsInfo ∨ ∃ e ∈ sec.unrecorded, metricKey e.1 = key := by
  cases moves_of_advance h with
  | record pc g unrecorded =>
    have hinsert : key ∈ recordMetric s.store.metricsInfo g.1 g.2 := hkey
    rw [recordMetric, mem_insert] at hinsert
    rcases hinsert with rfl | hkey
    · exact Or.inr ⟨g, mem_cons_self, rfl⟩
    · exact Or.inl hkey
  | removeInfo g =>
    have herase : key ∈ s.store.metricsInfo.erase (metricKey g) := hkey
    exact Or.inl (mem_erase.mp herase).2
  | _ => exact Or.inl hkey

/-- Every group that a section holds has a point. -/
def Section.Filled : Section V → Prop
  | .flush pc _ => Deletion.Filled pc
  | _ => True

/-- A group to record after a section was so before, or has just been committed. -/
theorem unrecorded_of_advance (hfilled : sec.Filled) {e : Group V} (he : e ∈ sec'.unrecorded) :
    e ∈ sec.unrecorded ∨ ∃ w ∈ sec.held, w.groupKey = e.1 := by
  cases moves_of_advance h with
  | record pc g unrecorded => exact Or.inl (mem_cons_of_mem _ he)
  | flush hpc => exact Or.inr (exists_held_of_landed hfilled he)
  | _ => cases he

theorem filled_of_section (hfilled : sec.Filled) : sec'.Filled := by
  cases moves_of_advance h with
  | record pc g unrecorded => exact hfilled
  | flush hpc => exact filled_of_advance hfilled hpc
  | _ => trivial

theorem TableFrom.run (hfrom : TableFrom points s group) (hn : s.calls[n]? = some sec) :
    TableFrom (arriving group sec ++ points) ⟨store, s.calls.set n sec'⟩ group where
  rows := by
    intro t point hrow
    apply mem_append_right
    rcases lookup_of_advance h hrow with hrow | ⟨w, hw, hkey, rfl⟩
    · exact hfrom.rows t point hrow
    · apply hfrom.unsettled w (mem_unsettled_of_held hn hw)
      show (w.key.1, w.key.2.1) = group
      rw [hkey]
  unsettled := by
    intro w hw hgroup
    have hcases : w ∈ store.writeBuffer.pending ++ sec'.held ∨ w ∈ s.calls.flatMap Section.held := by
      rcases mem_append.mp hw with hw | hw
      · exact Or.inl (mem_append_left _ hw)
      · rcases mem_flatMap_set hw with hw | hw
        · exact Or.inl (mem_append_right _ hw)
        · exact Or.inr hw
    rcases hcases with hw | hw
    · rcases mem_unsettled_of_advance h hw with hw | hw | rfl
      · exact mem_append_right _ (hfrom.unsettled w (mem_append_left _ hw) hgroup)
      · exact mem_append_right _ (hfrom.unsettled w (mem_unsettled_of_held hn hw) hgroup)
      · apply mem_append_left
        simp [arriving, hgroup]
    · exact mem_append_right _ (hfrom.unsettled w (mem_append_right _ hw) hgroup)

/-- The write that a call still has to push. -/
def Section.unpushed : Section V → List (BufferedWrite V)
  | .cache w => [w]
  | .flush pc _ => pc.written
  | _ => []

/-- A write that has still to be pushed had to be pushed before the section. -/
theorem unpushed_of_advance (hw : w ∈ sec'.unpushed) : w ∈ sec.unpushed := by
  cases moves_of_advance h with
  | cache u | record pc g unrecorded => exact hw
  | flush hpc =>
    rw [Section.unpushed, written_of_advance hpc] at hw
    cases hw
  | _ => cases hw

theorem ReadsFrom.run (htable : TableFrom points s group) (hfrom : ReadsFrom points s group)
    (hn : s.calls[n]? = some sec) :
    ReadsFrom (arriving group sec ++ points) ⟨store, s.calls.set n sec'⟩ group where
  cache := by
    intro entry hentry
    rcases cache_of_advance h hentry with hentry | hentry | hentry
    · exact mem_append_right _ (hfrom.cache entry hentry)
    · exact mem_append_left _ hentry
    · exact mem_append_right _ (hfrom.fills _ (mem_flatMap_of_getElem? hn hentry))
  fills := by
    intro point hpoint
    apply mem_append_right
    rcases mem_flatMap_set hpoint with hpoint | hpoint
    · obtain ⟨t, hrow⟩ := fills_of_advance h hpoint
      exact htable.rows t point hrow
    · exact hfrom.fills point hpoint

theorem ListedFrom.run (htable : TableFrom points s group) (hfrom : ListedFrom points s group)
    (hfilled : sec.Filled) (halias : ∀ w ∈ s.unsettled, metricKey w.groupKey = metricKey group →
      w.groupKey = group) (hn : s.calls[n]? = some sec) :
    ListedFrom (arriving group sec ++ points) ⟨store, s.calls.set n sec'⟩ group where
  info := by
    intro hkey
    apply append_ne_nil_of_right_ne_nil
    rcases info_of_advance h hkey with hkey | ⟨e, he, heq⟩
    · exact hfrom.info hkey
    · exact hfrom.unrecorded e (mem_flatMap_of_getElem? hn he) heq
  unrecorded := by
    intro e he heq
    apply append_ne_nil_of_right_ne_nil
    rcases mem_flatMap_set he with he | he
    · rcases unrecorded_of_advance h hfilled he with he | ⟨w, hw, hgroup⟩
      · exact hfrom.unrecorded e (mem_flatMap_of_getElem? hn he) heq
      · have hunsettled := mem_unsettled_of_held hn hw
        rw [← hgroup] at heq
        exact ne_nil_of_mem (htable.unsettled w hunsettled (halias w hunsettled heq))
    · exact hfrom.unrecorded e he heq

end Run

/-! ## The invariant -/

/-- The group that a delete deletes, and how far it has come. -/
def Section.phase : Section V → Option (GroupKey × ℕ)
  | .deleteBatch group => some (group, 0)
  | .invalidate group => some (group, 1)
  | .removeInfo group => some (group, 2)
  | .deleted group => some (group, 3)
  | _ => none

/-- What a delete that has come this far has left behind. -/
structure Erased (points : List (DataPoint V)) (s : System V) (group : GroupKey) (k : ℕ) :
    Prop where
  table : 1 ≤ k → TableFrom points s group
  reads : 2 ≤ k → ReadsFrom points s group
  listed : 3 ≤ k → ListedFrom points s group

/-- Every write in the system comes from a call, and every delete has left behind only what
came since. -/
structure Invariant (tr : List (System V × Label V)) (s : System V) : Prop where
  unsettled : ∀ w ∈ s.unsettled, w ∈ writesOf tr
  unpushed : ∀ w ∈ s.calls.flatMap Section.unpushed, w ∈ writesOf tr
  filled : ∀ sec ∈ s.calls, sec.Filled
  unrecorded : ∀ e ∈ s.calls.flatMap Section.unrecorded, ∃ w ∈ writesOf tr, w.groupKey = e.1
  erased : ∀ n group k, s.calls[n]?.bind Section.phase = some (group, k) →
    Erased (since n group tr) s group k ∧ group ∈ deletesOf tr

section Invariant

variable {tr : List (System V × Label V)} {s s' : System V} {group : GroupKey}

/-- A call that has been made before the step sees what arrives in the step. -/
theorem since_cons {n : ℕ} {a : Label V} {sec : Section V} (hn : s.calls[n]? = some sec) :
    since n group ((s, a) :: tr) = arrives group (s, a) ++ since n group tr := by
  obtain ⟨hlt, -⟩ := List.getElem?_eq_some_iff.mp hn
  rw [since, if_pos hlt]

theorem exists_of_bind_phase {n k : ℕ} (h : s.calls[n]?.bind Section.phase = some (group, k)) :
    ∃ sec, s.calls[n]? = some sec ∧ sec.phase = some (group, k) :=
  bind_eq_some_iff.mp h

theorem writesOf_cons (e : System V × Label V) {w : BufferedWrite V} (h : w ∈ writesOf tr) :
    w ∈ writesOf (e :: tr) := by
  obtain ⟨s, a⟩ := e
  cases a with
  | call c =>
    cases c with
    | write u => exact mem_cons_of_mem _ h
    | _ => exact h
  | _ => exact h

theorem deletesOf_cons (e : System V × Label V) (h : group ∈ deletesOf tr) :
    group ∈ deletesOf (e :: tr) := by
  obtain ⟨s, a⟩ := e
  cases a with
  | call c =>
    cases c with
    | deleteMetric g => exact mem_cons_of_mem _ h
    | _ => exact h
  | _ => exact h

/-- The store changes in a way that no call sees, and no call moves. -/
theorem Invariant.frame (h : Invariant tr s) (s' : System V) (hcalls : s'.calls = s.calls)
    (htable : s'.store.table = s.store.table)
    (hbuffer : s'.store.writeBuffer = s.store.writeBuffer)
    (hinfo : s'.store.metricsInfo = s.store.metricsInfo)
    (hcache : ∀ group entry, s'.store.latestCache.lookup group = some entry →
      s.store.latestCache.lookup group = some entry)
    {a : Label V} (harrives : ∀ group, arrives group (s, a) = [])
    (hwrites : writesOf ((s, a) :: tr) = writesOf tr) : Invariant ((s, a) :: tr) s' := by
  have hunsettled : s'.unsettled = s.unsettled := by
    unfold System.unsettled
    rw [hcalls, hbuffer]
  refine ⟨?_, ?_, ?_, ?_, ?_⟩
  · rw [hunsettled, hwrites]
    exact h.unsettled
  · rw [hcalls, hwrites]
    exact h.unpushed
  · rw [hcalls]
    exact h.filled
  · rw [hcalls, hwrites]
    exact h.unrecorded
  · intro n group k hphase
    rw [hcalls] at hphase
    obtain ⟨sec, hn, -⟩ := exists_of_bind_phase hphase
    obtain ⟨herased, hdeleted⟩ := h.erased n group k hphase
    rw [since_cons hn, harrives, nil_append]
    refine ⟨⟨fun hk => ?_, fun hk => ?_, fun hk => ?_⟩, deletesOf_cons _ hdeleted⟩
    · refine ⟨?_, ?_⟩
      · rw [htable]
        exact (herased.table hk).rows
      · rw [hunsettled]
        exact (herased.table hk).unsettled
    · refine ⟨fun entry hentry => (herased.reads hk).cache entry (hcache group entry hentry), ?_⟩
      rw [hcalls]
      exact (herased.reads hk).fills
    · refine ⟨?_, ?_⟩
      · rw [hinfo]
        exact (herased.listed hk).info
      · rw [hcalls]
        exact (herased.listed hk).unrecorded

theorem Invariant.call (h : Invariant tr s) (c : Call V) :
    Invariant ((s, .call c) :: tr) { s with calls := s.calls ++ [c.start] } := by
  have hheld : c.start.held = [] := by cases c <;> rfl
  have hunrecorded : c.start.unrecorded = [] := by cases c <;> rfl
  have hfills : ∀ group, c.start.fills group = [] := fun group => by cases c <;> rfl
  have hunsettled : System.unsettled { s with calls := s.calls ++ [c.start] } = s.unsettled := by
    unfold System.unsettled
    simp [flatMap_append, hheld]
  refine ⟨?_, ?_, ?_, ?_, ?_⟩
  · rw [hunsettled]
    exact fun w hw => writesOf_cons _ (h.unsettled w hw)
  · intro w hw
    rw [flatMap_append] at hw
    rcases mem_append.mp hw with hw | hw
    · exact writesOf_cons _ (h.unpushed w hw)
    · rw [flatMap_singleton] at hw
      cases c with
      | write u =>
        rw [Call.start, Section.unpushed, mem_singleton] at hw
        exact hw ▸ mem_cons_self
      | _ => cases hw
  · refine forall_mem_append.mpr ⟨h.filled, forall_mem_singleton.mpr ?_⟩
    cases c <;> trivial
  · intro e he
    simp only [flatMap_append, flatMap_cons, flatMap_nil, hunrecorded, append_nil] at he
    obtain ⟨w, hw, heq⟩ := h.unrecorded e he
    exact ⟨w, writesOf_cons _ hw, heq⟩
  · intro n group k hphase
    obtain ⟨sec, hn, hsec⟩ := exists_of_bind_phase hphase
    by_cases hlt : n < s.calls.length
    · have hold : s.calls[n]? = some sec := by
        rw [← hn]
        exact (getElem?_append_left hlt).symm
      obtain ⟨herased, hdeleted⟩ := h.erased n group k (by rw [hold]; exact hsec)
      rw [since_cons hold]
      refine ⟨⟨fun hk => ?_, fun hk => ?_, fun hk => ?_⟩, deletesOf_cons _ hdeleted⟩
      · refine ⟨(herased.table hk).rows, ?_⟩
        rw [hunsettled]
        exact (herased.table hk).unsettled
      · refine ⟨(herased.reads hk).cache, ?_⟩
        simp only [flatMap_append, flatMap_cons, flatMap_nil, hfills, append_nil]
        exact (herased.reads hk).fills
      · refine ⟨(herased.listed hk).info, ?_⟩
        simp only [flatMap_append, flatMap_cons, flatMap_nil, hunrecorded, append_nil]
        exact (herased.listed hk).unrecorded
    · -- the new call has not deleted anything yet
      have hnew : (s.calls ++ [c.start])[n]? = some sec := hn
      rw [getElem?_append_right (by omega), getElem?_singleton] at hnew
      split at hnew
      · cases hnew
        cases c with
        | deleteMetric g =>
          cases hsec
          refine ⟨⟨?_, ?_, ?_⟩, mem_cons_self⟩
          all_goals
            intro hk
            omega
        | _ => cases hsec
      · cases hnew

end Invariant

section Advance

variable {tr : List (System V × Label V)} {s : System V} {n : ℕ} {choice : Choice}
  {sec sec' : Section V} {store : CachedStore V}

theorem AliasFree.tail {e : System V × Label V} (h : AliasFree (e :: tr)) : AliasFree tr :=
  fun w hw group hgroup => h w (writesOf_cons e hw) group (deletesOf_cons e hgroup)

variable {group : GroupKey}

theorem Invariant.alias (h : Invariant tr s) (halias : AliasFree tr)
    (hgroup : group ∈ deletesOf tr) : ∀ w ∈ s.unsettled,
      metricKey w.groupKey = metricKey group → w.groupKey = group :=
  fun w hw => halias w (h.unsettled w hw) group hgroup

/-- A batch that is not full was the last one. -/
theorem lookup_of_metricBatch {table : HashMap Key (DataPoint V)}
    (hlt : (metricBatch table group).length < deleteBatchSize) (t : ℤ) :
    (HashMap.removeAll table (metricBatch table group)).lookup (group.1, group.2, t) = none := by
  rw [HashMap.lookup_removeAll]
  split
  · rfl
  · rename_i hnot
    cases hrow : table.lookup (group.1, group.2, t) with
    | none => rfl
    | some point =>
      exfalso
      apply hnot
      unfold metricBatch at hlt ⊢
      rw [length_map, length_take] at hlt
      rw [take_of_length_le (by omega)]
      exact mem_map_of_mem (mem_rowsOf.mpr hrow)

/-- A delete that waits leaves behind only what came since. -/
theorem Invariant.delete (h : Invariant tr s) (halias : AliasFree tr)
    (hn : s.calls[n]? = some sec) (hadvance : sec.advance choice s.store = some (sec', store))
    (hwaits : Waits tr (s, .run n choice)) {k : ℕ} (hphase : sec'.phase = some (group, k)) :
    Erased (since n group ((s, .run n choice) :: tr)) ⟨store, s.calls.set n sec'⟩ group k ∧
      group ∈ deletesOf tr := by
  have hsince : ∀ g, since n g ((s, .run n choice) :: tr) =
      arriving g sec ++ since n g tr := by
    intro g
    rw [since_cons hn]
    simp [arrives, hn]
  have hwaits : sec.Waits tr s n := hwaits sec hn
  cases moves_of_advance hadvance with
  | @lastBatch g hlt =>
    have hold := h.erased n g 0 (by rw [hn]; rfl)
    cases hphase
    refine ⟨⟨fun _ => ⟨?_, ?_⟩, fun hk => by omega, fun hk => by omega⟩, hold.2⟩
    · intro t point hrow
      have hnone := lookup_of_metricBatch hlt t
      have hrow' : (HashMap.removeAll s.store.table
          (metricBatch s.store.table group)).lookup (group.1, group.2, t) = some point := hrow
      rw [hnone] at hrow'
      cases hrow'
    · intro w hw hgroup
      rw [hsince]
      apply mem_append_right
      apply hwaits hlt w _ hgroup
      rcases mem_append.mp hw with hw | hw
      · exact mem_append_left _ hw
      · rcases mem_flatMap_set hw with hw | hw
        · cases hw
        · exact mem_append_right _ hw
  | fullBatch g =>
    have hold := h.erased n g 0 (by rw [hn]; rfl)
    cases hphase
    exact ⟨⟨fun hk => by omega, fun hk => by omega, fun hk => by omega⟩, hold.2⟩
  | invalidate g =>
    have hold := h.erased n g 1 (by rw [hn]; rfl)
    have htable := (hold.1.table (le_refl 1)).run hadvance hn
    rw [← hsince] at htable
    cases hphase
    refine ⟨⟨fun _ => htable, fun _ => ⟨?_, ?_⟩, fun hk => by omega⟩, hold.2⟩
    · intro entry hentry
      have hnone : some entry = none :=
        hentry.symm.trans (AList.lookup_erase group s.store.latestCache)
      cases hnone
    · intro point hpoint
      rw [hsince]
      apply mem_append_right
      apply hwaits point
      rcases mem_flatMap_set hpoint with hpoint | hpoint
      · cases hpoint
      · exact hpoint
  | removeInfo g =>
    have hold := h.erased n g 2 (by rw [hn]; rfl)
    have htable := (hold.1.table (by omega)).run hadvance hn
    have hreads := (hold.1.reads (le_refl 2)).run hadvance (hold.1.table (by omega)) hn
    rw [← hsince] at htable hreads
    cases hphase
    refine ⟨⟨fun _ => htable, fun _ => hreads, fun _ => ⟨?_, ?_⟩⟩, hold.2⟩
    · intro hkey
      have hkey' : metricKey group ∈ s.store.metricsInfo.erase (metricKey group) := hkey
      exact absurd rfl (mem_erase.mp hkey').1
    · intro e he hname
      have hmem : e ∈ s.calls.flatMap Section.unrecorded := by
        rcases mem_flatMap_set he with he | he
        · cases he
        · exact he
      -- a group with that name is the deleted one
      obtain ⟨w, hw, hgroup⟩ := h.unrecorded e hmem
      rw [← hgroup] at hname
      have hsame : e.1 = group := hgroup ▸ halias w hw group hold.2 hname
      rw [hsince]
      exact append_ne_nil_of_right_ne_nil _ (hwaits e hmem hsame)
  | _ => cases hphase

theorem Invariant.run (h : Invariant tr s) (halias : AliasFree tr)
    (hn : s.calls[n]? = some sec) (hadvance : sec.advance choice s.store = some (sec', store))
    (hwaits : Waits tr (s, .run n choice)) :
    Invariant ((s, .run n choice) :: tr) ⟨store, s.calls.set n sec'⟩ := by
  have hmem : sec ∈ s.calls := mem_of_getElem? hn
  have hfilled := h.filled sec hmem
  refine ⟨?_, ?_, ?_, ?_, ?_⟩
  · intro w hw
    have hcases : w ∈ store.writeBuffer.pending ++ sec'.held ∨
        w ∈ s.calls.flatMap Section.held := by
      rcases mem_append.mp hw with hw | hw
      · exact Or.inl (mem_append_left _ hw)
      · rcases mem_flatMap_set hw with hw | hw
        · exact Or.inl (mem_append_right _ hw)
        · exact Or.inr hw
    rcases hcases with hw | hw
    · rcases mem_unsettled_of_advance hadvance hw with hw | hw | rfl
      · exact h.unsettled w (mem_append_left _ hw)
      · exact h.unsettled w (mem_unsettled_of_held hn hw)
      · exact h.unpushed w (mem_flatMap_of_getElem? hn mem_cons_self)
    · exact h.unsettled w (mem_append_right _ hw)
  · intro w hw
    rcases mem_flatMap_set hw with hw | hw
    · exact h.unpushed w (mem_flatMap_of_getElem? hn (unpushed_of_advance hadvance hw))
    · exact h.unpushed w hw
  · intro sec₀ hsec₀
    rcases mem_or_eq_of_mem_set hsec₀ with hold | rfl
    · exact h.filled sec₀ hold
    · exact filled_of_section hadvance hfilled
  · intro e he
    rcases mem_flatMap_set he with he | he
    · rcases unrecorded_of_advance hadvance hfilled he with he | ⟨w, hw, hgroup⟩
      · exact h.unrecorded e (mem_flatMap_of_getElem? hn he)
      · exact ⟨w, h.unsettled w (mem_unsettled_of_held hn hw), hgroup⟩
    · exact h.unrecorded e he
  · intro m group k hphase
    obtain ⟨sec₀, hm, hsec₀⟩ := exists_of_bind_phase hphase
    by_cases hmn : n = m
    · subst hmn
      have hlt : n < s.calls.length := (List.getElem?_eq_some_iff.mp hn).1
      have hset : (s.calls.set n sec')[n]? = some sec' := getElem?_set_self hlt
      have heq : sec' = sec₀ := some.inj (hset.symm.trans hm)
      subst heq
      exact h.delete halias hn hadvance hwaits hsec₀
    · -- another call has moved
      have hold : s.calls[m]? = some sec₀ := by
        rw [← hm]
        exact (getElem?_set_ne hmn).symm
      obtain ⟨herased, hdeleted⟩ := h.erased m group k (by rw [hold]; exact hsec₀)
      have harrives : arrives group (s, .run n choice) = arriving group sec := by
        simp [arrives, hn]
      rw [since_cons hold, harrives]
      refine ⟨⟨fun hk => (herased.table hk).run hadvance hn, fun hk => ?_, fun hk => ?_⟩, hdeleted⟩
      · exact (herased.reads hk).run hadvance (herased.table (by omega)) hn
      · exact (herased.listed hk).run hadvance (herased.table (by omega)) hfilled
          (h.alias halias hdeleted) hn

end Advance

/-! ## Runs -/

section Runs

variable {tr : List (System V × Label V)} {s s' : System V}

theorem Invariant.step {a : Label V} (h : Invariant tr s) (halias : AliasFree tr)
    (hwaits : Waits tr (s, a)) (hs : Deletion.step s a = some s') :
    Invariant ((s, a) :: tr) s' := by
  cases a with
  | call c =>
    cases hs
    exact h.call c
  | run n choice =>
    simp only [Deletion.step] at hs
    split at hs
    · cases hs
    · rename_i sec hn
      split at hs
      · cases hs
      · rename_i sec' store hadvance
        cases hs
        exact h.run halias hn hadvance hwaits
  | tick elapsed =>
    cases hs
    exact h.frame { s with store := { s.store with clock := s.store.clock + elapsed } }
      rfl rfl rfl rfl (fun _ _ hentry => hentry) (a := .tick elapsed) (fun _ => rfl) rfl
  | evict group =>
    cases hs
    refine h.frame
      { s with store := { s.store with latestCache := s.store.latestCache.erase group } }
      rfl rfl rfl rfl ?_ (a := .evict group) (fun _ => rfl) rfl
    intro group' entry hentry
    have herase : (s.store.latestCache.erase group).lookup group' = some entry := hentry
    by_cases hg : group' = group
    · subst hg
      rw [AList.lookup_erase] at herase
      cases herase
    · rwa [AList.lookup_erase_ne hg] at herase

theorem invariant_idle (store : CachedStore V) (hempty : store.writeBuffer.pending = []) :
    Invariant [] (System.idle store) := by
  refine ⟨?_, ?_, ?_, ?_, ?_⟩
  · intro w hw
    have hnil : (System.idle store).unsettled = [] := by
      simp [System.unsettled, System.idle, hempty]
    rw [hnil] at hw
    cases hw
  · intro w hw
    cases hw
  · intro sec hsec
    cases hsec
  · intro e he
    cases he
  · intro n group k hphase
    cases hphase

theorem invariant_of_run {store : CachedStore V} (hempty : store.writeBuffer.pending = [])
    (hrun : Run step (System.idle store) tr s) (hwait : DeletesWait tr) (halias : AliasFree tr) :
    Invariant tr s := by
  induction hrun with
  | nil => exact invariant_idle store hempty
  | snoc _ hs ih => exact (ih hwait.2 halias.tail).step halias.tail hwait.1 hs

/-- Where old points are nowhere, no query answers from them. -/
theorem answersFrom_of_from {points : List (DataPoint V)} {group : GroupKey}
    (htable : TableFrom points s group) (hreads : ReadsFrom points s group)
    (hlisted : ListedFrom points s group) : AnswersFrom points s.store group := by
  have hrows : ∀ start stop, ∀ point ∈ pointsIn s.store.table group start stop,
      point ∈ points := by
    intro start stop point hpoint
    obtain ⟨t, hrow⟩ := exists_row_of_mem_pointsIn hpoint
    exact htable.rows t point hrow
  have hlatest : ∀ point, latestRow s.store.table group = some point → point ∈ points := by
    intro point hrow
    obtain ⟨t, hlookup⟩ := lookup_of_latestRow hrow
    exact htable.rows t point hlookup
  refine ⟨?_, fun point h => hlatest point (CachedStore.latestRow_of_queryLatestUncached h),
    ?_, ?_, ?_, ?_, ?_, ?_⟩
  · intro point hpoint
    unfold CachedStore.queryLatest at hpoint
    cases hc : s.store.cached group with
    | some cached =>
      rw [hc] at hpoint
      cases hpoint
      unfold CachedStore.cached at hc
      split at hc
      · rename_i entry hentry
        split at hc
        · cases hc
          exact hreads.cache entry hentry
        · cases hc
      · cases hc
    | none =>
      rw [hc] at hpoint
      cases hrow : s.store.queryLatestUncached some group with
      | none =>
        rw [hrow] at hpoint
        cases hpoint
      | some row =>
        rw [hrow] at hpoint
        cases row with
        | none => cases hpoint
        | some row =>
          cases hpoint
          exact hlatest _ (CachedStore.latestRow_of_queryLatestUncached hrow)
  · intro start stop limit point hpoint
    exact hrows start stop point (mem_pointsIn_of_queryRange hpoint)
  · intro start stop limit offset point hpoint
    exact hrows start stop point (mem_pointsIn_of_queryRangeRev hpoint)
  · intro F f start stop targetCount point hpoint
    exact hrows start stop point (mem_pointsIn_of_queryRangeBucketed hpoint)
  · intro F f start stop
    exact ⟨_, hrows start stop, rfl⟩
  · intro F f start stop bucketSizeSecs
    exact ⟨_, hrows start stop, by rw [queryAggregated, points_queryRange_none]⟩
  · intro hlist
    rcases mem_listMetrics hlist with hinfo | ⟨t, point, hrow⟩
    · exact hlisted.info hinfo
    · exact ne_nil_of_mem (htable.rows t point hrow)

/-- If every delete of the run waits, a delete that has returned leaves nothing behind: every
query of its group answers from what has come since the delete was called. -/
theorem answersFrom_since_of_deletesWait {store : CachedStore V}
    (hempty : store.writeBuffer.pending = []) (hrun : Run step (System.idle store) tr s)
    (hwait : DeletesWait tr) (halias : AliasFree tr) {n : ℕ} {group : GroupKey}
    (hdeleted : s.calls[n]? = some (.deleted group)) :
    AnswersFrom (since n group tr) s.store group := by
  obtain ⟨herased, -⟩ := (invariant_of_run hempty hrun hwait halias).erased n group 3
    (by rw [hdeleted]; rfl)
  exact answersFrom_of_from (herased.table (by decide)) (herased.reads (by decide))
    (herased.listed (by decide))

end Runs

/-! ### A point that was only buffered -/

instance decidableSectionWaits [DecidableEq V] (tr : List (System V × Label V)) (s : System V)
    (n : ℕ) (sec : Section V) : Decidable (sec.Waits tr s n) :=
  match sec with
  | .deleteBatch group =>
    inferInstanceAs (Decidable ((metricBatch s.store.table group).length < deleteBatchSize →
      ∀ w ∈ s.unsettled, w.groupKey = group → w.point ∈ since n group tr))
  | .invalidate group =>
    inferInstanceAs (Decidable
      (∀ point ∈ s.calls.flatMap (Section.fills group), point ∈ since n group tr))
  | .removeInfo group =>
    inferInstanceAs (Decidable
      (∀ e ∈ s.calls.flatMap Section.unrecorded, e.1 = group → since n group tr ≠ []))
  | .cache _ | .flush _ _ | .lookup _ | .read _ | .fill _ _ | .answered | .deleted _ =>
    isTrue trivial

instance decidableWaits [DecidableEq V] (tr : List (System V × Label V))
    (e : System V × Label V) : Decidable (Waits tr e) :=
  match e with
  | (s, .run n _) => inferInstanceAs (Decidable (∀ sec ∈ s.calls[n]?, sec.Waits tr s n))
  | (_, .call _) | (_, .tick _) | (_, .evict _) => isTrue trivial

instance decidableDeletesWait [DecidableEq V] (tr : List (System V × Label V)) :
    Decidable (DeletesWait tr) := by
  induction tr with
  | nil => exact isTrue trivial
  | cons e tr ih => exact inferInstanceAs (Decidable (_ ∧ DeletesWait tr))

instance decidableAliasFree (tr : List (System V × Label V)) : Decidable (AliasFree tr) :=
  inferInstanceAs (Decidable (∀ w ∈ writesOf tr, ∀ group ∈ deletesOf tr, _))

/-- A store with the default configuration and no rows. -/
def empty : CachedStore ℤ := .opened ∅ 200 60000000000 0

/-- A temperature of 20 at second 1000. -/
def temp : BufferedWrite ℤ := ⟨"device:d1", "temp", ⟨1000, 20, none, none⟩⟩

/-- Section of a call whose transaction commits. -/
def runs (n : ℕ) : Label ℤ := .run n ⟨false, [("device:d1", "temp")], true, 0⟩

theorem deleted_of_phase {sec : Section V} {group : GroupKey}
    (h : sec.phase = some (group, 3)) : sec = .deleted group := by
  cases sec <;> cases h
  rfl

/-- The point is flushed and then deleted. -/
theorem answersFrom_since_of_deletesWait_flushed :
    ∃ tr s, Run step (System.idle empty) tr s ∧ since 2 ("device:d1", "temp") tr = [] ∧
      AnswersFrom (since 2 ("device:d1", "temp") tr) s.store ("device:d1", "temp") := by
  obtain ⟨tr, s, hrun, hwait, halias, hsince, hphase⟩ := exists_run step (System.idle empty)
    [.call (.write temp), runs 0, runs 0, .call .flushBuffer, runs 1, runs 1, runs 1, runs 1,
      .call (.deleteMetric ("device:d1", "temp")), runs 2, runs 2, runs 2]
    (fun tr s => DeletesWait tr ∧ AliasFree tr ∧
      since 2 ("device:d1", "temp") tr = [] ∧
      s.calls[2]?.bind Section.phase = some (("device:d1", "temp"), 3)) (by decide)
  obtain ⟨sec, hsec, hdeleted⟩ := bind_eq_some_iff.mp hphase
  rw [deleted_of_phase hdeleted] at hsec
  exact ⟨tr, s, hrun, hsince, answersFrom_since_of_deletesWait rfl hrun hwait halias hsec⟩

/-- The point is deleted while it is in the write buffer, and comes back with the flush. -/
theorem deleted_point_comes_back :
    ∃ tr s, Run step (System.idle empty) tr s ∧
      s.calls[1]? = some (.deleted ("device:d1", "temp")) ∧
      since 1 ("device:d1", "temp") tr = [] ∧
      ¬ AnswersFrom (since 1 ("device:d1", "temp") tr) s.store ("device:d1", "temp") := by
  obtain ⟨tr, s, hrun, hsince, hphase, hrange⟩ := exists_run step (System.idle empty)
    [.call (.write temp), runs 0, runs 0, .call (.deleteMetric ("device:d1", "temp")), runs 1,
      runs 1, runs 1, .call .flushBuffer, runs 2, runs 2, runs 2, runs 2]
    (fun tr s => since 1 ("device:d1", "temp") tr = [] ∧
      s.calls[1]?.bind Section.phase = some (("device:d1", "temp"), 3) ∧
      (queryRange s.store.table ("device:d1", "temp") 0 2000 none).points = [temp.point])
    (by decide)
  obtain ⟨sec, hsec, hdeleted⟩ := bind_eq_some_iff.mp hphase
  rw [deleted_of_phase hdeleted] at hsec
  refine ⟨tr, s, hrun, hsec, hsince, fun h => ?_⟩
  have hback := h.range 0 2000 none temp.point (hrange ▸ mem_singleton_self _)
  rw [hsince] at hback
  cases hback

end Deletion

end HeraMind.Storage
