/-
# Last write wins

What a run of the store writes, commits, holds and drops is read off its trace.  A point
that was written is committed, pending in the buffer, or held by a flush; it is nowhere
twice and gets lost only at the hard cap.  So once nothing is pending and nothing is held,
every write has been committed, and the table has the last write of a key if the points of
the key were committed in the order in which they were written.  Nothing in the source
enforces that order: a point that is queued again goes behind newer ones, and a flush can
overtake another one.
-/
import HeraMind.Storage.TimeSeries

namespace HeraMind.Storage

open List
open Transition

variable {V : Type}

/-! ## What a run does with the points -/

/-- The points of some groups as writes again. -/
def ungroup (groups : List (Group V)) : List (BufferedWrite V) :=
  groups.flatMap fun g => buffered g.1 g.2

/-- The writes that the section pushes into the buffer. -/
def Pc.written : Pc V → List (BufferedWrite V)
  | .push write => [write]
  | _ => []

/-- The writes that the section commits to the table, in the order of their insertion. -/
def Pc.committed (choice : Choice) : Pc V → List (BufferedWrite V)
  | .allGroups _ groups => if choice.fails then [] else ungroup groups
  | .batch _ ((group, points) :: _) _ => if choice.fails then [] else buffered group points
  | .isolated _ group (point :: _) _ _ _ => if choice.fails then [] else buffered group [point]
  | _ => []

/-- The writes that a flush has drained and still has to commit or to queue again. -/
def Pc.held : Pc V → List (BufferedWrite V)
  | .allGroups _ groups => ungroup groups
  | .batch _ groups queue => ungroup groups ++ queue
  | .isolated _ group points failed groups queue =>
    buffered group points ++ (ungroup groups ++ (queue ++ buffered group failed))
  | _ => []

/-- The number of writes that the section drops at the hard cap. -/
def Pc.dropped (s : TimeSeriesStore V) : Pc V → ℕ
  | .batch _ [] queue => (s.writeBuffer.requeue queue).1
  | _ => 0

/-- The writes that the step commits. -/
def commits : System V × Label V → List (BufferedWrite V)
  | (s, .run n choice) => (s.calls[n]?.map (Pc.committed choice)).getD []
  | _ => []

/-- The writes that the run pushed into the buffer, oldest first. -/
def written : List (System V × Label V) → List (BufferedWrite V)
  | [] => []
  | (s, .run n _) :: tr => written tr ++ (s.calls[n]?.map Pc.written).getD []
  | _ :: tr => written tr

/-- The writes that the run committed, oldest first. -/
def committed : List (System V × Label V) → List (BufferedWrite V)
  | [] => []
  | e :: tr => committed tr ++ commits e

/-- The number of writes that the step drops. -/
def dropped (s : System V) : Label V → ℕ
  | .run n _ => (s.calls[n]?.map (Pc.dropped s.store)).getD 0
  | _ => 0

/-- The writes of one key. -/
def ofKey (key : Key) (writes : List (BufferedWrite V)) : List (BufferedWrite V) :=
  writes.filter fun w => w.key = key

/-- The point of the last write of a key. -/
def lastOf (key : Key) (writes : List (BufferedWrite V)) : Option (DataPoint V) :=
  (ofKey key writes).getLast?.map BufferedWrite.point

/-- Every transaction commits, of each of its keys, the oldest writes that are not yet
committed: none of them overtakes an older write that is still pending or held. -/
def CommitsInOrder : List (System V × Label V) → Prop
  | [] => True
  | e :: tr =>
    (∀ w ∈ commits e, ofKey w.key (committed tr ++ commits e) <+: ofKey w.key (written tr)) ∧
      CommitsInOrder tr

instance [DecidableEq V] (tr : List (System V × Label V)) : Decidable (CommitsInOrder tr) := by
  induction tr with
  | nil => exact isTrue trivial
  | cons e tr ih => exact inferInstanceAs (Decidable (_ ∧ CommitsInOrder tr))

/-- The buffer is empty and no flush holds a point. -/
def System.Drained (s : System V) : Prop :=
  s.store.writeBuffer.pending = [] ∧ ∀ pc ∈ s.calls, pc.held = []

instance (s : System V) : Decidable s.Drained :=
  inferInstanceAs (Decidable (_ ∧ _))

/-! ## One section -/

section Advance

variable {choice : Choice} {s s' : TimeSeriesStore V} {pc pc' : Pc V}

/-- Without drops, queueing again appends. -/
theorem pending_requeue {b : WriteBuffer V} {writes : List (BufferedWrite V)}
    (h : (b.requeue writes).1 = 0) : (b.requeue writes).2.pending = b.pending ++ writes := by
  induction writes generalizing b with
  | nil => simp [WriteBuffer.requeue]
  | cons w writes ih =>
    unfold WriteBuffer.requeue at h ⊢
    split at h
    · simp at h
    · rename_i hcap
      rw [if_neg hcap, ih h, append_assoc]
      rfl

theorem buffered_append (group : GroupKey) (points points' : List (DataPoint V)) :
    buffered group (points ++ points') = buffered group points ++ buffered group points' :=
  map_append

theorem buffered_cons (group : GroupKey) (point : DataPoint V) (points : List (DataPoint V)) :
    buffered group (point :: points) = buffered group [point] ++ buffered group points :=
  rfl

/-- The groups of the drained writes hold every drained write once. -/
theorem perm_ungroup (drained : List (BufferedWrite V)) {order : List GroupKey}
    (h : order.Perm (groupsOf drained).keys) :
    (ungroup (entriesIn (groupsOf drained) order)).Perm drained :=
  perm_entriesIn_groupInto BufferedWrite.groupKey BufferedWrite.point
    (fun group point => ⟨group.1, group.2, point⟩) (fun _ => rfl) drained h

/-- A section that drops nothing moves its points on and loses none. -/
theorem perm_of_advance (h : pc.advance choice s = some (pc', s')) (hdrop : pc.dropped s = 0) :
    (s.writeBuffer.pending ++ pc.held ++ pc.written).Perm
      (pc.committed choice ++ (s'.writeBuffer.pending ++ pc'.held)) := by
  cases pc with
  | push write =>
    simp only [Pc.advance] at h
    split at h
    all_goals
      cases h
      simp [Pc.held, Pc.written, Pc.committed, WriteBuffer.push]
  | drain =>
    simp only [Pc.advance] at h
    split at h
    · rename_i hempty
      cases h
      have hnil : s.writeBuffer.pending = [] := List.isEmpty_iff.mp hempty
      simp [Pc.held, Pc.written, Pc.committed, WriteBuffer.drain, hnil]
    · split at h
      · -- the drained writes are regrouped, in any order of the groups
        rename_i horder
        cases h
        have hgroups := (perm_ungroup _ horder).symm
        show (s.writeBuffer.pending ++ [] ++ []).Perm ([] ++ ([] ++ ungroup _))
        rw [append_nil, append_nil]
        exact hgroups
      · cases h
  | allGroups total groups =>
    simp only [Pc.advance] at h
    split at h
    · rename_i hfails
      cases h
      simp [Pc.held, Pc.written, Pc.committed, hfails]
    · rename_i hfails
      cases h
      simpa [Pc.held, Pc.written, Pc.committed, hfails, TimeSeriesStore.writeAllGroupsSync]
        using perm_append_comm
  | batch total groups queue =>
    cases groups with
    | nil =>
      simp only [Pc.advance] at h
      split at h
      · rename_i hempty
        cases h
        rw [List.isEmpty_iff] at hempty
        simp [Pc.held, Pc.written, Pc.committed, ungroup, hempty]
      · -- what failed goes back into the buffer
        cases h
        have hpending : (s.writeBuffer.requeue queue).2.pending =
            s.writeBuffer.pending ++ queue := pending_requeue hdrop
        simp [Pc.held, Pc.written, Pc.committed, ungroup, hpending]
    | cons g groups =>
      obtain ⟨group, points⟩ := g
      simp only [Pc.advance] at h
      split at h
      · rename_i hfails
        cases h
        simp [Pc.held, Pc.written, Pc.committed, hfails, ungroup, buffered]
      · rename_i hfails
        cases h
        simp only [Pc.held, Pc.written, Pc.committed, hfails, ungroup, flatMap_cons,
          TimeSeriesStore.writeBatchSync, append_nil, append_assoc]
        exact perm_append_comm_assoc _ _ _
  | isolated total group points failed groups queue =>
    cases points with
    | nil =>
      cases h
      simp [Pc.held, Pc.written, Pc.committed, buffered]
    | cons point points =>
      simp only [Pc.advance] at h
      split at h
      · rename_i hfails
        cases h
        -- the point moves to the end of those set aside
        simp only [Pc.held, Pc.written, Pc.committed, hfails, buffered_append, if_true,
          append_nil, nil_append]
        refine List.Perm.append_left _ ?_
        have hmove : (buffered group [point] ++
            (buffered group points ++ (ungroup groups ++ (queue ++ buffered group failed)))).Perm
            ((buffered group points ++ (ungroup groups ++ (queue ++ buffered group failed))) ++
              buffered group [point]) := perm_append_comm
        rw [buffered_cons]
        simpa only [append_assoc] using hmove
      · rename_i hfails
        cases h
        simp only [Pc.held, Pc.written, Pc.committed, hfails, append_nil]
        exact perm_append_comm_assoc _ (buffered group [point]) _
  | stats total requeued =>
    simp only [Pc.advance] at h
    split at h
    all_goals
      cases h
      simp [Pc.held, Pc.written, Pc.committed, TimeSeriesStore.recordStats]
  | done => cases h

/-- Insert the points of some writes into the table, one after the other. -/
def insertAll (table : HashMap Key (DataPoint V)) (writes : List (BufferedWrite V)) :
    HashMap Key (DataPoint V) :=
  writes.foldl (fun table w => table.insert w.key w.point) table

theorem insertPoints_eq (table : HashMap Key (DataPoint V)) (group : GroupKey)
    (points : List (DataPoint V)) :
    insertPoints table group points = insertAll table (buffered group points) := by
  unfold insertPoints insertAll buffered
  rw [foldl_map]
  rfl

theorem insertAll_append (table : HashMap Key (DataPoint V))
    (writes writes' : List (BufferedWrite V)) :
    insertAll table (writes ++ writes') = insertAll (insertAll table writes) writes' :=
  foldl_append

theorem foldl_insertPoints (table : HashMap Key (DataPoint V)) (groups : List (Group V)) :
    groups.foldl (fun table g => insertPoints table g.1 g.2) table =
      insertAll table (ungroup groups) := by
  induction groups generalizing table with
  | nil => rfl
  | cons g groups ih =>
    rw [foldl_cons, ih, insertPoints_eq, ungroup, ungroup, flatMap_cons, insertAll_append]

/-- A section changes the table by what it commits. -/
theorem table_of_advance (h : pc.advance choice s = some (pc', s')) :
    s'.table = insertAll s.table (pc.committed choice) := by
  cases pc with
  | push write =>
    simp only [Pc.advance] at h
    split at h <;> cases h <;> rfl
  | drain =>
    simp only [Pc.advance] at h
    repeat' split at h
    all_goals
      cases h
      try rfl
  | allGroups total groups =>
    simp only [Pc.advance] at h
    split at h
    · rename_i hfails
      cases h
      simp [Pc.committed, hfails, insertAll]
    · rename_i hfails
      cases h
      simp only [Pc.committed, hfails, TimeSeriesStore.writeAllGroupsSync, foldl_insertPoints]
      rfl
  | batch total groups queue =>
    cases groups with
    | nil =>
      simp only [Pc.advance] at h
      split at h <;> cases h <;> rfl
    | cons g groups =>
      simp only [Pc.advance] at h
      split at h
      · rename_i hfails
        cases h
        simp [Pc.committed, hfails, insertAll]
      · rename_i hfails
        cases h
        simp only [Pc.committed, hfails, TimeSeriesStore.writeBatchSync, insertPoints_eq]
        rfl
  | isolated total group points failed groups queue =>
    cases points with
    | nil =>
      cases h
      rfl
    | cons point points =>
      simp only [Pc.advance] at h
      split at h
      · rename_i hfails
        cases h
        simp [Pc.committed, hfails, insertAll]
      · rename_i hfails
        cases h
        simp only [Pc.committed, hfails, TimeSeriesStore.writeBatchSync, insertPoints_eq]
        rfl
  | stats total requeued =>
    simp only [Pc.advance] at h
    split at h <;> cases h <;> rfl
  | done => cases h

/-- After an insertion a key has the last point inserted under it. -/
theorem lookup_insertAll (table : HashMap Key (DataPoint V)) (writes : List (BufferedWrite V))
    (key : Key) :
    (insertAll table writes).lookup key = (lastOf key writes).or (table.lookup key) := by
  induction writes generalizing table with
  | nil => rfl
  | cons w writes ih =>
    have hcons : insertAll table (w :: writes) =
        insertAll (table.insert w.key w.point) writes := rfl
    rw [hcons, ih]
    by_cases hkey : w.key = key
    · -- the inserted point is the last one, unless a later one has the key
      subst hkey
      rw [AList.lookup_insert]
      unfold lastOf ofKey
      rw [filter_cons_of_pos (by simp), getLast?_cons]
      cases (writes.filter fun w' => w'.key = w.key).getLast? <;> rfl
    · have hne : key ≠ w.key := fun h => hkey h.symm
      rw [AList.lookup_insert_ne hne]
      unfold lastOf ofKey
      rw [filter_cons_of_neg (by simpa using hkey)]

end Advance

/-! ## Runs -/

theorem ofKey_append (key : Key) (writes writes' : List (BufferedWrite V)) :
    ofKey key (writes ++ writes') = ofKey key writes ++ ofKey key writes' :=
  filter_append _ _

theorem lastOf_append (key : Key) (writes writes' : List (BufferedWrite V)) :
    lastOf key (writes ++ writes') = (lastOf key writes').or (lastOf key writes) := by
  unfold lastOf
  rw [ofKey_append, getLast?_append]
  cases (ofKey key writes').getLast? <;> rfl

/-- A section of call `n`, as a step of the system. -/
theorem step_run {s s' : System V} {n : ℕ} {choice : Choice}
    (h : step s (.run n choice) = some s') :
    ∃ pc pc' store, s.calls[n]? = some pc ∧ pc.advance choice s.store = some (pc', store) ∧
      s' = { store := store, calls := s.calls.set n pc' } := by
  simp only [step] at h
  split at h
  · cases h
  · rename_i pc hn
    split at h
    · cases h
    · rename_i pc' store hadv
      cases h
      exact ⟨pc, pc', store, hn, hadv, rfl⟩

/-- Where the points written in a run are, and what the table says about them. -/
structure Recorded (store : TimeSeriesStore V) (tr : List (System V × Label V))
    (s : System V) : Prop where
  /-- No point is lost, and none is in two places. -/
  conserved : (written tr).Perm
    (committed tr ++ (s.store.writeBuffer.pending ++ s.calls.flatMap Pc.held))
  /-- The table has the last commit of each key. -/
  table : ∀ key, s.store.table.lookup key = (lastOf key (committed tr)).or (store.table.lookup key)
  /-- The points of a key are committed in the order in which they were written. -/
  inOrder : ∀ key, ofKey key (committed tr) <+: ofKey key (written tr)

section Runs

variable {store : TimeSeriesStore V} {tr : List (System V × Label V)} {s s' : System V}

/-- A section of a call moves points between the places where they can be. -/
theorem conserved_step {n : ℕ} {choice : Choice} {pc pc' : Pc V} {t : TimeSeriesStore V}
    (h : (written tr).Perm
      (committed tr ++ (s.store.writeBuffer.pending ++ s.calls.flatMap Pc.held)))
    (hn : s.calls[n]? = some pc) (hadv : pc.advance choice s.store = some (pc', t))
    (hdrop : pc.dropped s.store = 0) :
    (written tr ++ pc.written).Perm (committed tr ++ pc.committed choice ++
      (t.writeBuffer.pending ++ (s.calls.set n pc').flatMap Pc.held)) := by
  obtain ⟨rest, hheld, hheld'⟩ := exists_perm_flatMap_set hn Pc.held
  have hsection := perm_of_advance hadv hdrop
  have hbefore : (written tr).Perm
      (committed tr ++ (s.store.writeBuffer.pending ++ pc.held) ++ rest) := by
    apply h.trans
    rw [append_assoc, append_assoc]
    exact (hheld.append_left _).append_left _
  have hafter : (committed tr ++ (pc.committed choice ++ (t.writeBuffer.pending ++ pc'.held)) ++
      rest).Perm (committed tr ++ pc.committed choice ++
        (t.writeBuffer.pending ++ (s.calls.set n pc').flatMap Pc.held)) := by
    simp only [append_assoc]
    exact (((hheld' pc').symm.append_left _).append_left _).append_left _
  refine ((hbefore.append_right pc.written).trans ?_).trans hafter
  -- the written point joins the others of the section
  have hjoin : (committed tr ++ (s.store.writeBuffer.pending ++ pc.held) ++ rest ++
      pc.written).Perm (committed tr ++ (s.store.writeBuffer.pending ++ pc.held ++ pc.written) ++
        rest) := by
    have hswap : (rest ++ pc.written).Perm (pc.written ++ rest) := perm_append_comm
    simp only [append_assoc]
    exact ((hswap.append_left _).append_left _).append_left _
  exact hjoin.trans ((hsection.append_left _).append_right _)

theorem Recorded.step {a : Label V} (h : Recorded store tr s) (hdrop : dropped s a = 0)
    (horder : ∀ w ∈ commits (s, a),
      ofKey w.key (committed tr ++ commits (s, a)) <+: ofKey w.key (written tr))
    (hs : step s a = some s') : Recorded store ((s, a) :: tr) s' := by
  cases a with
  | call c =>
    cases hs
    have hcommitted : committed ((s, .call c) :: tr) = committed tr := append_nil _
    refine ⟨?_, ?_, ?_⟩
    · rw [hcommitted]
      have hheld : (s.calls ++ [c.start]).flatMap Pc.held = s.calls.flatMap Pc.held := by
        cases c <;> simp [Call.start, Pc.held]
      show (written tr).Perm (committed tr ++ (_ ++ (s.calls ++ [c.start]).flatMap Pc.held))
      rw [hheld]
      exact h.conserved
    · rw [hcommitted]
      exact h.table
    · rw [hcommitted]
      exact h.inOrder
  | run n choice =>
    obtain ⟨pc, pc', t, hn, hadv, rfl⟩ := step_run hs
    have hcommits : commits (s, .run n choice) = pc.committed choice := by
      simp [commits, hn]
    have hcommitted : committed ((s, .run n choice) :: tr) =
        committed tr ++ pc.committed choice := by
      rw [committed, hcommits]
    have hwritten : written ((s, .run n choice) :: tr) = written tr ++ pc.written := by
      simp [written, hn]
    have hnone : pc.dropped s.store = 0 := by
      simpa [dropped, hn] using hdrop
    rw [hcommits] at horder
    refine ⟨?_, ?_, ?_⟩
    · rw [hcommitted, hwritten]
      exact conserved_step h.conserved hn hadv hnone
    · intro key
      show t.table.lookup key = _
      rw [hcommitted, table_of_advance hadv, lookup_insertAll, h.table, lastOf_append,
        Option.or_assoc]
    · intro key
      rw [hcommitted, hwritten, ofKey_append key (written tr)]
      by_cases hkey : ofKey key (pc.committed choice) = []
      · rw [ofKey_append, hkey, append_nil]
        exact (h.inOrder key).trans (prefix_append _ _)
      · -- some point of this key is committed, in its turn
        obtain ⟨w, hw⟩ := exists_mem_of_ne_nil _ hkey
        obtain ⟨hmem, hwkey⟩ := mem_filter.mp hw
        have hwkey : w.key = key := of_decide_eq_true hwkey
        have hturn := horder w hmem
        rw [hwkey] at hturn
        exact hturn.trans (prefix_append _ _)

theorem recorded_idle (store : TimeSeriesStore V) (hempty : store.writeBuffer.pending = []) :
    Recorded store [] (System.idle store) where
  conserved := by
    show [].Perm ([] ++ (store.writeBuffer.pending ++ []))
    rw [hempty]
    exact List.Perm.nil
  table := fun _ => rfl
  inOrder := fun _ => prefix_rfl

theorem recorded_of_run (hempty : store.writeBuffer.pending = [])
    (hrun : Run step (System.idle store) tr s) (hdrop : Within (fun s a => dropped s a = 0) tr)
    (horder : CommitsInOrder tr) : Recorded store tr s := by
  induction hrun with
  | nil => exact recorded_idle store hempty
  | snoc hrun hs ih =>
    rw [within_cons] at hdrop
    exact (ih hdrop.2 horder.2).step hdrop.1 horder.1 hs

/-- Once the buffer is empty, no flush holds a point and none was dropped, the table has
for each key the value of its last write, and has every key that was written, if no
transaction committed a point before an older one of the same key. -/
theorem table_has_last_write (hempty : store.writeBuffer.pending = [])
    (hrun : Run step (System.idle store) tr s) (hdrop : Within (fun s a => dropped s a = 0) tr)
    (horder : CommitsInOrder tr) (hdrained : s.Drained) :
    (∀ key, s.store.table.lookup key = (lastOf key (written tr)).or (store.table.lookup key)) ∧
    ∀ w ∈ written tr, (s.store.table.lookup w.key).isSome = true := by
  have hinv := recorded_of_run hempty hrun hdrop horder
  have hheld : s.calls.flatMap Pc.held = [] := flatMap_eq_nil_iff.mpr hdrained.2
  have hperm : (written tr).Perm (committed tr) := by
    have hconserved := hinv.conserved
    rwa [hdrained.1, hheld, append_nil, append_nil] at hconserved
  -- a prefix of the same length is the whole
  have hsame : ∀ key, ofKey key (committed tr) = ofKey key (written tr) := by
    intro key
    exact (hinv.inOrder key).eq_of_length (hperm.filter _).length_eq.symm
  have htable : ∀ key, s.store.table.lookup key =
      (lastOf key (written tr)).or (store.table.lookup key) := by
    intro key
    rw [hinv.table key, lastOf, lastOf, hsame key]
  refine ⟨htable, ?_⟩
  intro w hw
  have hmem : w ∈ ofKey w.key (written tr) := mem_filter.mpr ⟨hw, by simp⟩
  have hlast : (lastOf w.key (written tr)).isSome = true := by
    unfold lastOf
    rw [Option.isSome_map, getLast?_isSome]
    exact ne_nil_of_mem hmem
  rw [htable, Option.isSome_or, hlast, Bool.true_or]

end Runs

/-! ## Samples -/

namespace Sample

def store : TimeSeriesStore ℤ where
  writeBuffer := ⟨[], 10⟩
  table := ∅
  metricsInfo := ∅
  metricsInitialized := false
  stats := ⟨0, 0⟩

def point (value : ℤ) : DataPoint ℤ := ⟨1000, value, none, none⟩

/-- A write of a value for the one key of the sample. -/
def write (value : ℤ) : Label ℤ := .call (.write "d1" "temp" (point value))

/-- The next section of call `n`; its transaction, if it has one, commits. -/
def run (n : ℕ) : Label ℤ := .run n ⟨false, [("d1", "temp")], false, 0⟩

/-- The next section of call `n`; its transaction, if it has one, fails. -/
def runFailing (n : ℕ) : Label ℤ := .run n ⟨true, [("d1", "temp")], false, 0⟩

/-- A flush whose transactions all fail queues the point again; the value is overwritten
after the next flush. -/
def retried : List (Label ℤ) :=
  [write 1, run 0, .call .flushBuffer, run 1, runFailing 1, runFailing 1, runFailing 1,
    run 1, run 1, run 1, .call .flushBuffer, run 2, run 2, run 2, write 2, run 3,
    .call .flushBuffer, run 4, run 4, run 4]

/-- The same, but the value is overwritten while the first flush is failing. -/
def overtaken : List (Label ℤ) :=
  [write 1, run 0, .call .flushBuffer, run 1, write 2, run 2, runFailing 1, runFailing 1,
    runFailing 1, run 1, run 1, run 1, .call .flushBuffer, run 3, run 3, run 3]

end Sample

/-- A failed flush does no harm if the point is written before its key is written again. -/
theorem table_has_last_write_retried :
    ∃ tr s, Run step (System.idle Sample.store) tr s ∧ s.Drained ∧
      s.store.table.lookup ("d1", "temp", 1000) = some (Sample.point 2) := by
  obtain ⟨tr, s, hrun, hdrop, horder, hdrained, hlast⟩ := exists_run step (System.idle Sample.store)
    Sample.retried
    (fun tr s => Within (fun s a => dropped s a = 0) tr ∧ CommitsInOrder tr ∧
      s.Drained ∧ lastOf ("d1", "temp", 1000) (written tr) = some (Sample.point 2))
    (by decide)
  refine ⟨tr, s, hrun, hdrained, ?_⟩
  rw [(table_has_last_write rfl hrun hdrop horder hdrained).1, hlast, Option.some_or]

/-- A point that is queued again goes behind the newer one and overwrites it. -/
theorem requeued_point_overwrites :
    ∃ tr s, Run step (System.idle Sample.store) tr s ∧
      Within (fun s a => dropped s a = 0) tr ∧ s.Drained ∧
      lastOf ("d1", "temp", 1000) (written tr) = some (Sample.point 2) ∧
      s.store.table.lookup ("d1", "temp", 1000) = some (Sample.point 1) := by
  obtain ⟨tr, s, hrun, hdrop, hdrained, hlast, htable⟩ := exists_run step (System.idle Sample.store)
    Sample.overtaken
    (fun tr s => Within (fun s a => dropped s a = 0) tr ∧ s.Drained ∧
      lastOf ("d1", "temp", 1000) (written tr) = some (Sample.point 2) ∧
      s.store.table.lookup ("d1", "temp", 1000) = some (Sample.point 1))
    (by decide)
  exact ⟨tr, s, hrun, hdrop, hdrained, hlast, htable⟩

end HeraMind.Storage
