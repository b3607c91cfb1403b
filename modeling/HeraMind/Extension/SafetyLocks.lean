/-
# Waiting for the locks of the safety manager

No call should wait for a guard that excludes one of its own, and the three locks should be
nested in one order.  Two branches break this.  `is_allowed` calls `enable_extension` within its
`if let`, whose guard of `disabled` is still there, when an extension is to recover; and
`enable_extension` asks for `breakers` under `disabled`, where `unregister_extension` and
`get_status` ask for `disabled` under `breakers`.
-/
import HeraMind.Extension.Safety
import HeraMind.Lib.LockOrder

namespace HeraMind.Safety

open List
open Transition FairLock LockOrder

/-! ## The claim -/

namespace SafetyManager

variable (s : SafetyManager)

/-- Some call has a guard of the one lock while it requests the other. -/
def Nested (k l : Lock) : Prop :=
  ∃ (n : TaskId) (pc : Pc), s.tasks[n]? = some pc ∧ (∃ m, (k, m) ∈ pc.holds) ∧
    ∃ m, pc.awaits = some (l, m)

/-- A call requests a guard that excludes one of its own. -/
def WaitsForItself : Prop :=
  ∃ (n : TaskId) (pc : Pc), s.tasks[n]? = some pc ∧
    ∃ k m m', (k, m) ∈ pc.holds ∧ pc.awaits = some (k, m') ∧ m.Conflicts m'

/-- A call that has not returned. -/
def Pending (n : TaskId) : Prop := ∃ pc, s.tasks[n]? = some pc ∧ pc.awaits.isSome = true

/-- If a call has not returned, one of them can go on. -/
def GoesOn : Prop := (∃ n, s.Pending n) → ∃ n s', step s (.run n) = some s'

end SafetyManager

open SafetyManager

variable {tr : List (SafetyManager × Label)} {s s' : SafetyManager} {a : Label} {n : TaskId}
  {pc : Pc} {k : Lock} {m : Mode}

/-- In some state of a run. -/
def Sometime (tr : List (SafetyManager × Label)) (s : SafetyManager) (P : SafetyManager → Prop) :
    Prop :=
  P s ∨ ∃ e ∈ tr, P e.1

/-- No call waits for itself, the locks are nested in one order, and there is no deadlock. -/
structure DeadlockFree (tr : List (SafetyManager × Label)) (s : SafetyManager) : Prop where
  other : ¬ Sometime tr s WaitsForItself
  order : Acyclic fun k l => Sometime tr s fun t => t.Nested k l
  progress : ¬ Sometime tr s fun t => ¬ t.GoesOn

/-- An `is_allowed` that finds a disabled extension that is to recover. -/
def recovers (s : SafetyManager) : Label → Bool
  | .run n =>
    match s.tasks[n]? with
    | some (.isAllowedDisabled id) =>
      (s.data.disabled.lookup id).any fun info => info.recovers s.data.now
    | _ => false
  | _ => false

/-- An `enable_extension` that finds its extension disabled. -/
def enables (s : SafetyManager) : Label → Bool
  | .run n =>
    match s.tasks[n]? with
    | some (.enableDisabled id _) => (s.data.disabled.lookup id).isSome
    | _ => false
  | _ => false

/-- An `unregister_extension` or `get_status` that has its first lock. -/
def takesAll (s : SafetyManager) : Label → Bool
  | .run n =>
    match s.tasks[n]? with
    | some (.unregisterBreakers _) | some .statusBreakers => true
    | _ => false
  | _ => false

/-! ## Guards in scope -/

namespace Pc

/-- The guard is in scope, or awaited. -/
def Has (pc : Pc) (k : Lock) (m : Mode) : Prop := (k, m) ∈ pc.holds ∨ pc.awaits = some (k, m)

theorem not_mem_holds_of_awaits (h : pc.awaits = some (k, m)) : (k, m) ∉ pc.holds := by
  cases pc with
  | enableDisabled id recovering | enableBreakers id recovering | enablePanicCounts id recovering =>
    cases h
    cases recovering <;> simp [holds, caller]
  | returned answer => cases h
  | _ =>
    cases h
    simp [holds]

/-- Where a section leads. -/
inductive Leads (d : Data) : Pc → Pc → Prop where
  | returns (pc : Pc) (answer : Answer) : Leads d pc (.returned answer)
  | recovers (id : String) (info : DisabledInfo) (h : d.disabled.lookup id = some info)
      (hrecovers : info.recovers d.now = true) :
      Leads d (.isAllowedDisabled id) (.enableDisabled id true)
  | allowed (id : String) : Leads d (.isAllowedDisabled id) (.isAllowedBreakers id)
  | panics (id reason : String) : Leads d (.recordPanic id) (.disable id reason false)
  | enables (id : String) (recovering : Bool) (info : DisabledInfo)
      (h : d.disabled.lookup id = some info) :
      Leads d (.enableDisabled id recovering) (.enableBreakers id recovering)
  | resets (id : String) (recovering : Bool) :
      Leads d (.enableBreakers id recovering) (.enablePanicCounts id recovering)
  | unregisters (id : String) : Leads d (.unregisterBreakers id) (.unregisterDisabled id)
  | unregistersLast (id : String) : Leads d (.unregisterDisabled id) (.unregisterPanicCounts id)
  | collects : Leads d .statusBreakers .statusDisabled
  | collectsLast : Leads d .statusDisabled .statusPanicCounts

theorem leads_resume (d : Data) (pc : Pc) : Leads d pc (pc.resume d).1 := by
  cases pc with
  | isAllowedDisabled id =>
    simp only [resume]
    split
    · rename_i info hinfo
      split
      · rename_i hrecovers
        exact .recovers id info hinfo hrecovers
      · exact .returns _ _
    · exact .allowed id
  | isAllowedBreakers id =>
    simp only [resume]
    split
    · exact .returns _ _
    · exact .returns _ _
  | recordPanic id =>
    simp only [resume]
    split
    · exact .panics id _
    · exact .returns _ _
  | enableDisabled id recovering =>
    simp only [resume]
    split
    · rename_i info hinfo
      exact .enables id recovering info hinfo
    · exact .returns _ _
  | enableBreakers id recovering => exact .resets id recovering
  | unregisterBreakers id => exact .unregisters id
  | unregisterDisabled id => exact .unregistersLast id
  | statusBreakers => exact .collects
  | statusDisabled => exact .collectsLast
  | _ => exact .returns _ _

/-- A section drops guards, or keeps them; a new one is the one that was awaited. -/
theorem Leads.has_of_mem_holds {d : Data} {pc' : Pc} (h : Leads d pc pc')
    (hmem : (k, m) ∈ pc'.holds) : pc.Has k m := by
  cases h with
  | returns pc answer => cases hmem
  | recovers id info h hrecovers =>
    cases mem_singleton.mp hmem
    exact Or.inr rfl
  | allowed id | panics id reason => cases hmem
  | enables id recovering info h =>
    rcases mem_cons.mp hmem with hmem | hmem
    · cases hmem
      exact Or.inr rfl
    · exact Or.inl hmem
  | resets id recovering => exact Or.inl hmem
  | unregisters id | collects =>
    cases mem_singleton.mp hmem
    exact Or.inr rfl
  | unregistersLast id | collectsLast =>
    rcases mem_cons.mp hmem with hmem | hmem
    · cases hmem
      exact Or.inl mem_cons_self
    · cases mem_singleton.mp hmem
      exact Or.inr rfl

end Pc

/-! ## What the locks know -/

/-- A lock knows the guards that are in scope or awaited, and who waits awaits. -/
structure Tracks (tasks : List Pc) (k : Lock) (l : RwLock TaskId) : Prop where
  nodup : l.all.Nodup
  mem : ∀ n m, (n, m) ∈ l.all ↔ ∃ pc, tasks[n]? = some pc ∧ pc.Has k m
  waits : ∀ n m, (n, m) ∈ l.waiting → ∃ pc, tasks[n]? = some pc ∧ pc.awaits = some (k, m)

theorem Tracks.not_mem_waiting {tasks : List Pc} {l : RwLock TaskId} (h : Tracks tasks k l)
    (hheld : (n, m) ∈ l.held) : (n, m) ∉ l.waiting := by
  intro hwaiting
  have hdisjoint := (nodup_append.mp h.nodup).2.2
  exact hdisjoint _ hheld _ hwaiting rfl

/-! ## Steps of one lock -/

section Relock

variable {l : RwLock TaskId} {before after : Pc}

/-- The guard goes out of scope. -/
def Dropped (before after : Pc) (k : Lock) (m : Mode) : Prop :=
  before.Has k m ∧ (k, m) ∉ after.holds

theorem drops_of_dropped (h : Dropped before after k m) :
    drops before after l n k m = l.release n m :=
  if_pos h

theorem drops_of_not_dropped (h : ¬ Dropped before after k m) :
    drops before after l n k m = l :=
  if_neg h

theorem nodup_drops (hnodup : l.all.Nodup) (hw : (n, m) ∉ l.waiting) :
    (drops before after l n k m).all.Nodup := by
  by_cases hdropped : Dropped before after k m
  · rw [drops_of_dropped hdropped, (RwLock.all_release hw).nodup_iff]
    exact hnodup.filter _
  · rw [drops_of_not_dropped hdropped]
    exact hnodup

theorem mem_drops (hw : (n, m) ∉ l.waiting) {g : TaskId × Mode} :
    g ∈ (drops before after l n k m).all ↔
      g ∈ l.all ∧ ¬ (g = (n, m) ∧ Dropped before after k m) := by
  by_cases hdropped : Dropped before after k m
  · rw [drops_of_dropped hdropped, (RwLock.all_release hw).mem_iff, mem_filter]
    simp [hdropped]
  · rw [drops_of_not_dropped hdropped]
    simp [hdropped]

theorem mem_waiting_drops {g : TaskId × Mode}
    (h : g ∈ (drops before after l n k m).waiting) : g ∈ l.waiting := by
  by_cases hdropped : Dropped before after k m
  · rw [drops_of_dropped hdropped] at h
    exact RwLock.mem_waiting_release h
  · rwa [drops_of_not_dropped hdropped] at h

theorem requests_of_awaits (h : after.awaits = some (k, m)) :
    requests after l n k = l.request n m := by
  unfold requests
  rw [h]
  exact if_pos rfl

theorem requests_of_not_awaits (h : ∀ m, after.awaits ≠ some (k, m)) :
    requests after l n k = l := by
  unfold requests
  split
  · rename_i k' m hawaits
    apply if_neg
    intro hk
    subst hk
    exact h m hawaits
  · rfl

theorem nodup_requests (hnodup : l.all.Nodup)
    (hnew : ∀ m, after.awaits = some (k, m) → (n, m) ∉ l.all) :
    (requests after l n k).all.Nodup := by
  by_cases hawaits : ∃ m, after.awaits = some (k, m)
  · obtain ⟨m, hm⟩ := hawaits
    rw [requests_of_awaits hm, RwLock.all_request.nodup_iff, nodup_append]
    refine ⟨hnodup, nodup_singleton _, fun g hg g' hg' heq => ?_⟩
    rw [heq, mem_singleton.mp hg'] at hg
    exact hnew m hm hg
  · rw [requests_of_not_awaits fun m hm => hawaits ⟨m, hm⟩]
    exact hnodup

variable {n' : TaskId}

theorem mem_requests : (n', m) ∈ (requests after l n k).all ↔
    (n', m) ∈ l.all ∨ (n' = n ∧ after.awaits = some (k, m)) := by
  by_cases hawaits : ∃ m, after.awaits = some (k, m)
  · obtain ⟨m', hm'⟩ := hawaits
    rw [requests_of_awaits hm', RwLock.all_request.mem_iff, mem_append, mem_singleton]
    simp only [hm', Prod.mk.injEq, Option.some.injEq, true_and]
    tauto
  · rw [requests_of_not_awaits fun m hm => hawaits ⟨m, hm⟩]
    have hno : after.awaits ≠ some (k, m) := fun hm => hawaits ⟨m, hm⟩
    simp [hno]

theorem mem_waiting_requests (h : (n', m) ∈ (requests after l n k).waiting) :
    (n', m) ∈ l.waiting ∨ (n' = n ∧ after.awaits = some (k, m)) := by
  by_cases hawaits : ∃ m, after.awaits = some (k, m)
  · obtain ⟨m', hm'⟩ := hawaits
    rw [requests_of_awaits hm'] at h
    rcases RwLock.mem_waiting_request h with h | h
    · exact Or.inl h
    · cases h
      exact Or.inr ⟨rfl, hm'⟩
  · rw [requests_of_not_awaits fun m hm => hawaits ⟨m, hm⟩] at h
    exact Or.inl h

/-- The guards of one call after a section, and those of all others. -/
theorem mem_relock (hw : ∀ m, (n, m) ∉ l.waiting) :
    (n', m) ∈ (relock before after n k l).all ↔
      ((n', m) ∈ l.all ∧ ¬ (n' = n ∧ Dropped before after k m)) ∨
        (n' = n ∧ after.awaits = some (k, m)) := by
  have hw' : (n, Mode.read) ∉ (drops before after l n k .write).waiting :=
    fun h => hw _ (mem_waiting_drops h)
  unfold relock
  rw [mem_requests, mem_drops hw', mem_drops (hw _)]
  cases m <;> simp

theorem mem_waiting_relock (h : (n', m) ∈ (relock before after n k l).waiting) :
    (n', m) ∈ l.waiting ∨ (n' = n ∧ after.awaits = some (k, m)) := by
  rcases mem_waiting_requests h with h | h
  · exact Or.inl (mem_waiting_drops (mem_waiting_drops h))
  · exact Or.inr h

/-- The step lemma for a section. -/
theorem Tracks.relock {tasks : List Pc} (h : Tracks tasks k l) (hn : tasks[n]? = some before)
    (hw : ∀ m, (n, m) ∉ l.waiting) (hholds : ∀ m, (k, m) ∈ after.holds → before.Has k m) :
    Tracks (tasks.set n after) k (relock before after n k l) := by
  have hlt : n < tasks.length := (List.getElem?_eq_some_iff.mp hn).1
  have hself : (tasks.set n after)[n]? = some after := getElem?_set_self hlt
  have hkept : ∀ m, (n, m) ∈ l.all ∧ ¬ Dropped before after k m ↔ (k, m) ∈ after.holds := by
    intro m
    rw [h.mem n m]
    constructor
    · rintro ⟨⟨pc, hpc, hhas⟩, hdropped⟩
      rw [hn] at hpc
      cases hpc
      by_contra hnot
      exact hdropped ⟨hhas, hnot⟩
    · intro hmem
      exact ⟨⟨before, hn, hholds m hmem⟩, fun hdropped => hdropped.2 hmem⟩
  refine ⟨?_, fun n' m => ?_, fun n' m hwaiting => ?_⟩
  · have hw' : (n, Mode.read) ∉ (drops before after l n k .write).waiting :=
      fun hmem => hw _ (mem_waiting_drops hmem)
    apply nodup_requests
    · exact nodup_drops (nodup_drops h.nodup (hw _)) hw'
    · intro m hawaits hmem
      rw [mem_drops hw', mem_drops (hw _)] at hmem
      apply Pc.not_mem_holds_of_awaits hawaits
      rw [← hkept m]
      refine ⟨hmem.1.1, fun hdropped => ?_⟩
      cases m with
      | read => exact hmem.2 ⟨rfl, hdropped⟩
      | write => exact hmem.1.2 ⟨rfl, hdropped⟩
  · rw [mem_relock hw]
    by_cases hn' : n' = n
    · subst hn'
      rw [hself]
      simp only [true_and, Option.some.injEq, exists_eq_left']
      rw [hkept m]
      rfl
    · rw [getElem?_set_ne (fun heq => hn' heq.symm), ← h.mem]
      simp [hn']
  · rcases mem_waiting_relock hwaiting with hold | ⟨rfl, hawaits⟩
    · have hn' : n' ≠ n := by
        intro heq
        rw [heq] at hold
        exact hw m hold
      rw [getElem?_set_ne (fun heq => hn' heq.symm)]
      exact h.waits n' m hold
    · exact ⟨after, hself, hawaits⟩

/-- The step lemma for a new call. -/
theorem Tracks.call {tasks : List Pc} (h : Tracks tasks k l) (hholds : after.holds = []) :
    Tracks (tasks ++ [after]) k (requests after l tasks.length k) := by
  have hself : (tasks ++ [after])[tasks.length]? = some after := getElem?_concat_length
  have hother : ∀ n' pc, n' ≠ tasks.length →
      ((tasks ++ [after])[n']? = some pc ↔ tasks[n']? = some pc) := by
    intro n' pc hne
    rcases Nat.lt_or_ge n' tasks.length with hlt | hge
    · rw [getElem?_append_left hlt]
    · have hlen : (tasks ++ [after]).length ≤ n' := by
        rw [length_append, length_singleton]
        omega
      rw [getElem?_eq_none hge, getElem?_eq_none hlen]
  have hfresh : ∀ m, (tasks.length, m) ∉ l.all := by
    intro m hmem
    obtain ⟨pc, hpc, -⟩ := (h.mem _ _).mp hmem
    rw [getElem?_eq_none (le_refl _)] at hpc
    cases hpc
  refine ⟨nodup_requests h.nodup fun m _ => hfresh m, fun n' m => ?_, fun n' m hwaiting => ?_⟩
  · rw [mem_requests]
    by_cases hn' : n' = tasks.length
    · subst hn'
      rw [hself]
      simp [hfresh m, Pc.Has, hholds]
    · simp only [hn', false_and, or_false, hother n' _ hn']
      exact h.mem n' m
  · rcases mem_waiting_requests hwaiting with hold | ⟨rfl, hawaits⟩
    · obtain ⟨pc, hpc, hawaits⟩ := h.waits n' m hold
      have hne : n' ≠ tasks.length :=
        Nat.ne_of_lt (List.getElem?_eq_some_iff.mp hpc).1
      exact ⟨pc, (hother n' pc hne).mpr hpc, hawaits⟩
    · exact ⟨after, hself, hawaits⟩

end Relock

/-! ## Runs -/

/-- Every lock knows its guards. -/
def Tracked (s : SafetyManager) : Prop := ∀ k, Tracks s.tasks k (s.locks k)

theorem tracked_new (now wall : ℕ) : Tracked (SafetyManager.new now wall) := by
  intro k
  refine ⟨nodup_nil, fun n m => ?_, fun n m h => ?_⟩
  · refine iff_of_false (fun h => ?_) ?_
    · cases h
    · rintro ⟨pc, hpc, -⟩
      cases hpc
  · cases h

/-- A call that goes on has been granted its lock, and waits for nothing. -/
theorem step_run (h : step s (.run n) = some s') : ∃ pc, s.tasks[n]? = some pc ∧ s.Granted n pc ∧
    s' = {
      data := (pc.resume s.data).2
      locks := fun k => relock pc (pc.resume s.data).1 n k (s.locks k)
      tasks := s.tasks.set n (pc.resume s.data).1 } := by
  simp only [step] at h
  split at h
  · cases h
  · rename_i pc hn
    split at h
    · rename_i hgranted
      cases h
      exact ⟨pc, hn, hgranted, rfl⟩
    · cases h

theorem Tracked.not_waiting (h : Tracked s) (hn : s.tasks[n]? = some pc) (hg : s.Granted n pc) :
    ∀ k m, (n, m) ∉ (s.locks k).waiting := by
  intro k m hwaiting
  obtain ⟨pc', hpc', hawaits⟩ := (h k).waits n m hwaiting
  rw [hn] at hpc'
  cases hpc'
  obtain ⟨kg, hkg, hheld⟩ := hg
  rw [hawaits] at hkg
  cases hkg
  exact (h k).not_mem_waiting hheld hwaiting

theorem Tracked.step (h : Tracked s) (hs : step s a = some s') : Tracked s' := by
  cases a with
  | call c =>
    cases hs
    intro k
    exact (h k).call (by cases c <;> rfl)
  | run n =>
    obtain ⟨pc, hn, hgranted, rfl⟩ := step_run hs
    intro k
    exact (h k).relock hn (h.not_waiting hn hgranted k) fun m =>
      (Pc.leads_resume s.data pc).has_of_mem_holds
  | elapse d | setWall wall =>
    cases hs
    exact h

variable {now wall : ℕ}

theorem tracked_of_run (hrun : Run step (SafetyManager.new now wall) tr s) :
    Tracked s :=
  hrun.invariant' (tracked_new now wall) fun _ _ _ h hs => h.step hs

/-- A guard in scope is held. -/
theorem Tracked.held_of_mem_holds (h : Tracked s) (hn : s.tasks[n]? = some pc)
    (hmem : (k, m) ∈ pc.holds) : (n, m) ∈ (s.locks k).held := by
  have hall := ((h k).mem n m).mpr ⟨pc, hn, Or.inl hmem⟩
  rcases mem_append.mp hall with hheld | hwaiting
  · exact hheld
  · obtain ⟨pc', hpc', hawaits⟩ := (h k).waits n m hwaiting
    rw [hn] at hpc'
    cases hpc'
    exact absurd hmem (Pc.not_mem_holds_of_awaits hawaits)

/-! ## Going on -/

/-- No call is granted a guard that excludes one in scope. -/
theorem Tracked.not_granted (h : Tracked s) (hn : s.tasks[n]? = some pc)
    (hawaits : pc.awaits = some (k, m)) {n' : TaskId} {pc' : Pc} {m' : Mode}
    (hn' : s.tasks[n']? = some pc') (hmem : (k, m') ∈ pc'.holds) (hconflicts : m'.Conflicts m) :
    ¬ s.Granted n pc := by
  rintro ⟨kg, hkg, hheld⟩
  rw [hawaits] at hkg
  cases hkg
  refine RwLock.not_conflicts (h.held_of_mem_holds hn' hmem) hheld ?_ hconflicts
  intro heq
  cases heq
  rw [hn] at hn'
  cases hn'
  exact Pc.not_mem_holds_of_awaits hawaits hmem

/-- Every one of these calls awaits a guard that one of them has excluded. -/
def Circle (s : SafetyManager) (calls : List TaskId) : Prop :=
  ∀ n ∈ calls, ∃ pc k m, s.tasks[n]? = some pc ∧ pc.awaits = some (k, m) ∧
    ∃ n' ∈ calls, ∃ pc' m', s.tasks[n']? = some pc' ∧ (k, m') ∈ pc'.holds ∧ m'.Conflicts m

variable {calls : List TaskId}

theorem Circle.step_eq_none (hcircle : Circle s calls) (h : Tracked s)
    (hn : n ∈ calls) : SafetyManager.step s (.run n) = none := by
  obtain ⟨pc, k, m, hpc, hawaits, n', hn', pc', m', hpc', hmem, hconflicts⟩ := hcircle n hn
  have hnot := h.not_granted hpc hawaits hpc' hmem hconflicts
  simp [SafetyManager.step, hpc, hnot]

/-- A circle stays. -/
theorem Circle.step (hcircle : Circle s calls) (h : Tracked s) (hs : step s a = some s') :
    Circle s' calls ∧ ∀ n ∈ calls, s'.tasks[n]? = s.tasks[n]? := by
  have hsame : ∀ n ∈ calls, s'.tasks[n]? = s.tasks[n]? := by
    intro n hn
    obtain ⟨pc, k, m, hpc, -⟩ := hcircle n hn
    cases a with
    | call c =>
      cases hs
      exact getElem?_append_left (List.getElem?_eq_some_iff.mp hpc).1
    | run n' =>
      have hne : n' ≠ n := by
        intro heq
        rw [heq, hcircle.step_eq_none h hn] at hs
        cases hs
      obtain ⟨pc', -, -, rfl⟩ := step_run hs
      exact getElem?_set_ne hne
    | elapse d | setWall wall =>
      cases hs
      rfl
  refine ⟨fun n hn => ?_, hsame⟩
  obtain ⟨pc, k, m, hpc, hawaits, n', hn', pc', m', hpc', hmem, hconflicts⟩ := hcircle n hn
  refine ⟨pc, k, m, (hsame n hn).trans hpc, hawaits, n', hn', pc', m', ?_, hmem, hconflicts⟩
  exact (hsame n' hn').trans hpc'

/-- The calls of a circle never go on. -/
theorem Circle.of_run {post : List (SafetyManager × Label)}
    (hcircle : Circle s calls) (h : Tracked s) (hrun : Run SafetyManager.step s post s') :
    ∀ n ∈ calls, s'.tasks[n]? = s.tasks[n]? := by
  have hall : Tracked s' ∧ Circle s' calls ∧ ∀ n ∈ calls, s'.tasks[n]? = s.tasks[n]? := by
    refine hrun.invariant' (I := fun t => Tracked t ∧ Circle t calls ∧
      ∀ n ∈ calls, t.tasks[n]? = s.tasks[n]?) ⟨h, hcircle, fun _ _ => rfl⟩ ?_
    rintro t b t' ⟨htracked, hcircle', hsame⟩ hs
    obtain ⟨hnext, hsame'⟩ := hcircle'.step htracked hs
    exact ⟨htracked.step hs, hnext, fun n hn => (hsame' n hn).trans (hsame n hn)⟩
  exact hall.2.2

/-- In an order there is always a call that can go on. -/
theorem Tracked.goesOn (h : Tracked s) {rank : Lock → ℕ}
    (hrank : ∀ k l, s.Nested k l → rank k < rank l) : s.GoesOn := by
  rintro ⟨n, pc, hn, hpending⟩
  by_contra hstuck
  -- nobody has been granted what is awaited
  have hnot : ∀ n pc, s.tasks[n]? = some pc → ¬ s.Granted n pc := by
    intro n pc hn hgranted
    apply hstuck
    refine ⟨n, ?_⟩
    simp [SafetyManager.step, hn, hgranted]
  have hwaits : ∀ n pc, s.tasks[n]? = some pc → pc.awaits.isSome = true →
      ∃ k, WaitsFor s.locks n k := by
    intro n pc hn hpending
    obtain ⟨⟨k, m⟩, hawaits⟩ := Option.isSome_iff_exists.mp hpending
    have hall := ((h k).mem n m).mpr ⟨pc, hn, Or.inr hawaits⟩
    rcases mem_append.mp hall with hheld | hwaiting
    · exact absurd ⟨(k, m), hawaits, hheld⟩ (hnot n pc hn)
    · exact ⟨k, m, hwaiting⟩
  have hbelow : ∀ n m k l, (n, m) ∈ (s.locks k).held → WaitsFor s.locks n l → rank k < rank l := by
    rintro n m k l hheld ⟨m', hwaiting⟩
    obtain ⟨pc, hpc, hawaits⟩ := (h l).waits n m' hwaiting
    obtain ⟨pc', hpc', hhas⟩ := ((h k).mem n m).mp (mem_append_left _ hheld)
    rw [hpc] at hpc'
    cases hpc'
    rcases hhas with hmem | hawaits'
    · exact hrank k l ⟨n, pc, hpc, ⟨m, hmem⟩, m', hawaits⟩
    · exact absurd ⟨(k, m), hawaits', hheld⟩ (hnot n pc hpc)
  obtain ⟨k, hk⟩ := hwaits n pc hn hpending
  have hbound : ∀ l, rank l ≤ max (rank .breakers) (max (rank .disabled) (rank .panicCounts)) := by
    intro l
    cases l <;> omega
  obtain ⟨n', m', k', hheld, hfree⟩ := exists_holder hbound hbelow hk
  obtain ⟨pc', hpc', hhas⟩ := ((h k').mem n' m').mp (mem_append_left _ hheld)
  have hpending' : pc'.awaits.isSome = true := by
    rcases hhas with hmem | hawaits
    · cases pc' with
      | returned answer => cases hmem
      | _ => rfl
    · rw [hawaits]
      rfl
  obtain ⟨l, hl⟩ := hwaits n' pc' hpc' hpending'
  exact hfree l hl

/-! ## What a run nests -/

/-- Past the branch in which `enable_extension` finds its extension. -/
def Pc.isEnabling : Pc → Bool
  | .enableBreakers _ _ | .enablePanicCounts _ _ => true
  | _ => false

/-- Past the first lock of `unregister_extension` or `get_status`. -/
def Pc.isTakingAll : Pc → Bool
  | .unregisterDisabled _ | .unregisterPanicCounts _ | .statusDisabled | .statusPanicCounts => true
  | _ => false

/-- Called by `is_allowed`. -/
def Pc.isRecovering : Pc → Bool
  | .enableDisabled _ recovering | .enableBreakers _ recovering | .enablePanicCounts _ recovering =>
    recovering
  | _ => false

/-- The order of `unregister_extension` and `get_status`. -/
def breakersFirst : Lock → ℕ
  | .breakers => 0
  | .disabled => 1
  | .panicCounts => 2

/-- The order of `enable_extension`. -/
def disabledFirst : Lock → ℕ
  | .disabled => 0
  | .breakers => 1
  | .panicCounts => 2

theorem breakersFirst_lt {l : Lock} (hrecovering : pc.isRecovering = false)
    (henabling : pc.isEnabling = false) (hmem : (k, m) ∈ pc.holds) {m' : Mode}
    (hawaits : pc.awaits = some (l, m')) : breakersFirst k < breakersFirst l := by
  cases pc with
  | unregisterDisabled id | statusDisabled =>
    cases hawaits
    cases mem_singleton.mp hmem
    decide
  | unregisterPanicCounts id | statusPanicCounts =>
    cases hawaits
    rcases mem_cons.mp hmem with hmem | hmem
    · cases hmem
      decide
    · cases mem_singleton.mp hmem
      decide
  | enableDisabled id recovering =>
    cases hrecovering
    cases hmem
  | enableBreakers id recovering | enablePanicCounts id recovering => cases henabling
  | _ => cases hmem

theorem disabledFirst_lt {l : Lock} (hrecovering : pc.isRecovering = false)
    (htaking : pc.isTakingAll = false) (hmem : (k, m) ∈ pc.holds) {m' : Mode}
    (hawaits : pc.awaits = some (l, m')) : disabledFirst k < disabledFirst l := by
  cases pc with
  | unregisterDisabled id | statusDisabled | unregisterPanicCounts id | statusPanicCounts =>
    cases htaking
  | enableDisabled id recovering =>
    cases hrecovering
    cases hmem
  | enableBreakers id recovering | enablePanicCounts id recovering =>
    cases hrecovering
    cases hawaits
    cases mem_singleton.mp hmem
    decide
  | _ => cases hmem

section OfRun

variable (hrun : Run step (SafetyManager.new now wall) tr s)

include hrun

/-- A mark that a call gets only in steps that the predicate tells. -/
theorem unmarked_of_run {mark : Pc → Bool} {P : SafetyManager → Label → Bool}
    (hstart : ∀ c : Call, mark c.start = false)
    (hleads : ∀ s n pc pc', s.tasks[n]? = some pc → mark pc = false → P s (.run n) = false →
      Pc.Leads s.data pc pc' → mark pc' = false)
    (hP : Within (fun s a => P s a = false) tr) :
    ∀ (n : TaskId) (pc : Pc), s.tasks[n]? = some pc → mark pc = false := by
  refine hrun.invariant (I := fun s => ∀ (n : TaskId) (pc : Pc), s.tasks[n]? = some pc →
    mark pc = false) hP ?_ ?_
  · intro n pc hn
    cases hn
  · intro s a s' h hnot hs n pc hn
    cases a with
    | call c =>
      cases hs
      rcases mem_append.mp (mem_of_getElem? hn) with hmem | hmem
      · obtain ⟨n', hn'⟩ := getElem?_of_mem hmem
        exact h n' pc hn'
      · rw [mem_singleton.mp hmem]
        exact hstart c
    | run n' =>
      obtain ⟨pc', hn', -, rfl⟩ := step_run hs
      by_cases hne : n' = n
      · subst hne
        rw [getElem?_set_self (List.getElem?_eq_some_iff.mp hn').1] at hn
        cases hn
        exact hleads s n' pc' _ hn' (h n' pc' hn') hnot (Pc.leads_resume s.data pc')
      · rw [getElem?_set_ne hne] at hn
        exact h n pc hn
    | elapse d | setWall wall =>
      cases hs
      exact h n pc hn

theorem not_recovering_of_run (h : Within (fun s a => recovers s a = false) tr) :
    ∀ (n : TaskId) (pc : Pc), s.tasks[n]? = some pc → pc.isRecovering = false := by
  refine unmarked_of_run hrun (P := recovers) (fun c => by cases c <;> rfl) ?_ h
  intro s n pc pc' hn hpc hnot hleads
  cases hleads with
  | recovers id info h hrecovers => simp [recovers, hn, h, hrecovers] at hnot
  | enables id recovering info h | resets id recovering => exact hpc
  | _ => rfl

theorem not_enabling_of_run (h : Within (fun s a => enables s a = false) tr) :
    ∀ (n : TaskId) (pc : Pc), s.tasks[n]? = some pc → pc.isEnabling = false := by
  refine unmarked_of_run hrun (P := enables) (fun c => by cases c <;> rfl) ?_ h
  intro s n pc pc' hn hpc hnot hleads
  cases hleads with
  | enables id recovering info h => simp [enables, hn, h] at hnot
  | resets id recovering => exact hpc
  | _ => rfl

theorem not_takingAll_of_run (h : Within (fun s a => takesAll s a = false) tr) :
    ∀ (n : TaskId) (pc : Pc), s.tasks[n]? = some pc → pc.isTakingAll = false := by
  refine unmarked_of_run hrun (P := takesAll) (fun c => by cases c <;> rfl) ?_ h
  intro s n pc pc' hn hpc hnot hleads
  cases hleads with
  | unregisters id | collects => simp [takesAll, hn] at hnot
  | unregistersLast id | collectsLast => exact hpc
  | _ => rfl

/-- In a run in an order there is no deadlock. -/
theorem deadlockFree_of_rank (rank : Lock → ℕ)
    (hrank : ∀ k l, Sometime tr s (fun t => t.Nested k l) → rank k < rank l) : DeadlockFree tr s := by
  refine ⟨?_, acyclic_of_rank rank hrank, ?_⟩
  · intro h
    have hself : ∃ k, Sometime tr s fun t => t.Nested k k := by
      rcases h with ⟨n, pc, hn, k, m, m', hmem, hawaits, -⟩ |
        ⟨e, he, n, pc, hn, k, m, m', hmem, hawaits, -⟩
      · exact ⟨k, Or.inl ⟨n, pc, hn, ⟨m, hmem⟩, m', hawaits⟩⟩
      · exact ⟨k, Or.inr ⟨e, he, n, pc, hn, ⟨m, hmem⟩, m', hawaits⟩⟩
    obtain ⟨k, hk⟩ := hself
    exact lt_irrefl _ (hrank k k hk)
  · rintro (h | ⟨e, he, h⟩)
    · exact h ((tracked_of_run hrun).goesOn fun k l hkl => hrank k l (Or.inl hkl))
    · obtain ⟨post, pre, -, hpre⟩ := hrun.upTo he
      exact h ((tracked_of_run hpre).goesOn fun k l hkl => hrank k l (Or.inr ⟨e, he, hkl⟩))

/-- What holds after the prefixes of a run holds in all its states. -/
theorem sometime_of_run {P : SafetyManager → Label → Prop} (hP : Within P tr)
    {Q : SafetyManager → Prop} (h : Sometime tr s Q) :
    ∃ pre t, Run step (SafetyManager.new now wall) pre t ∧ Within P pre ∧ Q t := by
  rcases h with h | ⟨e, he, h⟩
  · exact ⟨tr, s, hrun, hP, h⟩
  · obtain ⟨post, pre, rfl, hpre⟩ := hrun.upTo he
    exact ⟨pre, e.1, hpre, (within_cons.mp (within_append.mp hP).2).2, h⟩

/-- What a step leads to is there at some time. -/
theorem sometime_next {e : SafetyManager × Label} (he : e ∈ tr)
    {Q : SafetyManager → Prop} (h : ∀ t, step e.1 e.2 = some t → Q t) : Sometime tr s Q := by
  obtain ⟨t, ht, hseen⟩ := hrun.next_of_mem he
  rcases hseen with rfl | ⟨e', he', rfl⟩
  · exact Or.inl (h _ ht)
  · exact Or.inr ⟨e', he', h _ ht⟩

end OfRun

/-- Where a section of a call leads. -/
theorem tasks_of_step (h : step s (.run n) = some s') (hn : s.tasks[n]? = some pc) :
    s'.tasks[n]? = some (pc.resume s.data).1 := by
  obtain ⟨pc', hn', -, rfl⟩ := step_run h
  rw [hn] at hn'
  cases hn'
  exact getElem?_set_self (List.getElem?_eq_some_iff.mp hn).1

theorem waitsForItself_of_recovers (ha : recovers s a = true) (hs : step s a = some s') :
    s'.WaitsForItself := by
  unfold recovers at ha
  split at ha
  · rename_i n
    split at ha
    · rename_i id hn
      rw [Option.any_eq_true] at ha
      obtain ⟨info, hinfo, hrecovers⟩ := ha
      have hafter := tasks_of_step hs hn
      have hresume : ((Pc.isAllowedDisabled id).resume s.data).1 = .enableDisabled id true := by
        unfold Pc.resume
        simp only [hinfo, hrecovers, if_true]
      rw [hresume] at hafter
      exact ⟨n, _, hafter, .disabled, .read, .write, mem_singleton_self _, rfl, Or.inr rfl⟩
    · cases ha
  · cases ha

theorem nested_of_enables (ha : enables s a = true) (hs : step s a = some s') :
    s'.Nested .disabled .breakers := by
  unfold enables at ha
  split at ha
  · rename_i n
    split at ha
    · rename_i id recovering hn
      obtain ⟨info, hinfo⟩ := Option.isSome_iff_exists.mp ha
      have hafter := tasks_of_step hs hn
      have hresume : ((Pc.enableDisabled id recovering).resume s.data).1 =
          .enableBreakers id recovering := by
        unfold Pc.resume
        simp only [hinfo]
      rw [hresume] at hafter
      exact ⟨n, _, hafter, ⟨.write, mem_cons_self⟩, .read, rfl⟩
    · cases ha
  · cases ha

theorem nested_of_takesAll (ha : takesAll s a = true) (hs : step s a = some s') :
    s'.Nested .breakers .disabled := by
  unfold takesAll at ha
  split at ha
  · rename_i n
    split at ha
    · rename_i id hn
      exact ⟨n, _, tasks_of_step hs hn, ⟨.write, mem_singleton_self _⟩, .write, rfl⟩
    · rename_i hn
      exact ⟨n, _, tasks_of_step hs hn, ⟨.read, mem_singleton_self _⟩, .read, rfl⟩
    · cases ha
  · cases ha

/-- In every run of any calls, no call waits for itself, the locks are nested in one order and
some call can always go on, if and only if no `is_allowed` finds an extension that is to recover,
and no `enable_extension` finds its extension disabled in a run in which `unregister_extension`
or `get_status` gets its first lock. -/
theorem deadlockFree_iff (now wall : ℕ) (tr : List (SafetyManager × Label)) (s : SafetyManager)
    (hrun : Run step (SafetyManager.new now wall) tr s) :
    DeadlockFree tr s ↔ Within (fun s a => recovers s a = false) tr ∧
      (Within (fun s a => enables s a = false) tr ∨ Within (fun s a => takesAll s a = false) tr) := by
  constructor
  · intro h
    refine ⟨fun e he => ?_, ?_⟩
    · by_contra hrecovers
      apply h.other
      refine sometime_next hrun he fun t ht => ?_
      exact waitsForItself_of_recovers (Bool.eq_true_of_not_eq_false hrecovers) ht
    · by_contra hboth
      rw [not_or] at hboth
      obtain ⟨henables, htakes⟩ := hboth
      unfold Within at henables htakes
      push Not at henables htakes
      obtain ⟨e, he, henables⟩ := henables
      obtain ⟨e', he', htakes⟩ := htakes
      apply h.order .disabled
      refine (Relation.TransGen.single ?_).tail (b := Lock.breakers) ?_
      · refine sometime_next hrun he fun t ht => ?_
        exact nested_of_enables (Bool.eq_true_of_not_eq_false henables) ht
      · refine sometime_next hrun he' fun t ht => ?_
        exact nested_of_takesAll (Bool.eq_true_of_not_eq_false htakes) ht
  · rintro ⟨hrecovers, henables | htakes⟩
    · apply deadlockFree_of_rank hrun breakersFirst
      intro k l hkl
      have hboth : Within (fun s a => recovers s a = false ∧ enables s a = false) tr :=
        fun e he => ⟨hrecovers e he, henables e he⟩
      obtain ⟨pre, t, hpre, hP, n, pc, hn, ⟨m, hmem⟩, m', hawaits⟩ :=
        sometime_of_run hrun hboth hkl
      exact breakersFirst_lt (not_recovering_of_run hpre (hP.mono fun _ _ h => h.1) n pc hn)
        (not_enabling_of_run hpre (hP.mono fun _ _ h => h.2) n pc hn) hmem hawaits
    · apply deadlockFree_of_rank hrun disabledFirst
      intro k l hkl
      have hboth : Within (fun s a => recovers s a = false ∧ takesAll s a = false) tr :=
        fun e he => ⟨hrecovers e he, htakes e he⟩
      obtain ⟨pre, t, hpre, hP, n, pc, hn, ⟨m, hmem⟩, m', hawaits⟩ :=
        sometime_of_run hrun hboth hkl
      exact disabledFirst_lt (not_recovering_of_run hpre (hP.mono fun _ _ h => h.1) n pc hn)
        (not_takingAll_of_run hpre (hP.mono fun _ _ h => h.2) n pc hn) hmem hawaits

/-! ## Calls that wait for ever -/

namespace Sample

/-- An extension is disabled, and asked for five minutes later. -/
def disabledLong : List Label :=
  [.call (.disable "weather" "crashed" true), .run 0, .elapse (recoveryTime + 1),
    .call (.isAllowed "weather"), .run 1]

/-- One extension is enabled while another one is unregistered. -/
def enabledAndUnregistered : List Label :=
  [.call (.disable "weather" "crashed" false), .run 0, .call (.enable "weather"),
    .call (.unregister "cameras"), .run 1, .run 2]

/-- A panic, a call that is allowed, an extension that is disabled and enabled. -/
def ordered : List Label :=
  [.call (.register "weather"), .run 0, .call (.recordPanic "weather"), .run 1,
    .call (.disable "weather" "maintenance" true), .call (.isAllowed "weather"), .run 2, .run 3,
    .call (.enable "weather"), .run 4, .run 4, .run 4, .call (.isAllowed "weather"), .run 5]

/-- The call awaits the guard, and the other one has a guard in scope. -/
def awaitsAgainst (s : SafetyManager) (n n' : TaskId) (k : Lock) (m m' : Mode) : Bool :=
  s.tasks[n]?.any (fun pc => decide (pc.awaits = some (k, m))) &&
    s.tasks[n']?.any fun pc => pc.holds.any fun g => decide (g = (k, m'))

theorem exists_of_awaitsAgainst {n' : TaskId} {m' : Mode}
    (h : awaitsAgainst s n n' k m m' = true) : ∃ pc, s.tasks[n]? = some pc ∧
      pc.awaits = some (k, m) ∧ ∃ pc', s.tasks[n']? = some pc' ∧ (k, m') ∈ pc'.holds := by
  simp only [awaitsAgainst, Bool.and_eq_true, Option.any_eq_true, any_eq_true,
    decide_eq_true_eq, exists_eq_right] at h
  obtain ⟨⟨pc, hpc, hawaits⟩, pc', hpc', hmem⟩ := h
  exact ⟨pc, hpc, hawaits, pc', hpc', hmem⟩

end Sample

/-- A run with many calls that meets the condition. -/
theorem deadlockFree_ordered : ∃ tr s, Run step (SafetyManager.new 0 0) tr s ∧
    s.tasks.length = 6 ∧ DeadlockFree tr s := by
  obtain ⟨tr, s, hrun, hlength, hrecovers, htakes⟩ := exists_run step (SafetyManager.new 0 0)
    Sample.ordered
    (fun tr s => s.tasks.length = 6 ∧ Within (fun s a => recovers s a = false) tr ∧
      Within (fun s a => takesAll s a = false) tr) (by decide)
  exact ⟨tr, s, hrun, hlength, (deadlockFree_iff 0 0 tr s hrun).mpr ⟨hrecovers, Or.inr htakes⟩⟩

/-- The recovery in `is_allowed` waits for its own guard, and never returns; an extension that
is enabled and one that is unregistered wait for each other, and neither call ever returns. -/
theorem safety_deadlocks :
    (∃ tr s, Run step (SafetyManager.new 0 0) tr s ∧ (∃ e ∈ tr, recovers e.1 e.2 = true) ∧
      s.WaitsForItself ∧ (∀ post s', Run step s post s' → s'.Pending 1) ∧ ¬ DeadlockFree tr s) ∧
    ∃ tr s, Run step (SafetyManager.new 0 0) tr s ∧
      Within (fun s a => recovers s a = false) tr ∧
      (∀ post s', Run step s post s' → s'.Pending 1 ∧ s'.Pending 2) ∧ ¬ DeadlockFree tr s := by
  refine ⟨?_, ?_⟩
  · obtain ⟨tr, s, hrun, hrecovers, hp⟩ := exists_run step (SafetyManager.new 0 0)
      Sample.disabledLong
      (fun tr s => (∃ e ∈ tr, recovers e.1 e.2 = true) ∧
        Sample.awaitsAgainst s 1 1 .disabled .write .read = true) (by decide)
    obtain ⟨pc, hpc, hawaits, pc', hpc', hmem⟩ := Sample.exists_of_awaitsAgainst hp
    have hcircle : Circle s [1] := by
      intro n hn
      cases mem_singleton.mp hn
      exact ⟨pc, _, _, hpc, hawaits, 1, hn, pc', _, hpc', hmem, Or.inr rfl⟩
    rw [hpc] at hpc'
    cases hpc'
    have hwaits : s.WaitsForItself := ⟨1, pc, hpc, _, _, _, hmem, hawaits, Or.inr rfl⟩
    refine ⟨tr, s, hrun, hrecovers, hwaits, fun post s' hpost => ?_, fun h => h.other (Or.inl hwaits)⟩
    have hsame := hcircle.of_run (tracked_of_run hrun) hpost 1 (mem_singleton_self 1)
    exact ⟨pc, hsame.trans hpc, by rw [hawaits]; rfl⟩
  · obtain ⟨tr, s, hrun, hrecovers, henable, hunregister⟩ := exists_run step
      (SafetyManager.new 0 0) Sample.enabledAndUnregistered
      (fun tr s => Within (fun s a => recovers s a = false) tr ∧
        Sample.awaitsAgainst s 1 2 .breakers .read .write = true ∧
        Sample.awaitsAgainst s 2 1 .disabled .write .write = true) (by decide)
    obtain ⟨pc, hpc, hawaits, pc₁, hpc₁, hmem⟩ := Sample.exists_of_awaitsAgainst henable
    obtain ⟨pc', hpc', hawaits', pc₂, hpc₂, hmem'⟩ := Sample.exists_of_awaitsAgainst hunregister
    have hcircle : Circle s [1, 2] := by
      intro n hn
      rcases mem_cons.mp hn with rfl | hn
      · exact ⟨pc, _, _, hpc, hawaits, 2, mem_cons_of_mem _ mem_cons_self, pc₁, _, hpc₁,
          hmem, Or.inl rfl⟩
      · cases mem_singleton.mp hn
        exact ⟨pc', _, _, hpc', hawaits', 1, mem_cons_self, pc₂, _, hpc₂, hmem', Or.inl rfl⟩
    refine ⟨tr, s, hrun, hrecovers, fun post s' hpost => ?_, fun h => ?_⟩
    · have hsame := hcircle.of_run (tracked_of_run hrun) hpost
      refine ⟨⟨pc, (hsame 1 mem_cons_self).trans hpc, by rw [hawaits]; rfl⟩, pc', ?_, ?_⟩
      · exact (hsame 2 (mem_cons_of_mem _ mem_cons_self)).trans hpc'
      · rw [hawaits']
        rfl
    · have heq₁ : pc₁ = pc' := Option.some.inj (hpc₁.symm.trans hpc')
      have heq₂ : pc₂ = pc := Option.some.inj (hpc₂.symm.trans hpc)
      rw [heq₁] at hmem
      rw [heq₂] at hmem'
      apply h.order .disabled
      refine (Relation.TransGen.single ?_).tail (b := Lock.breakers) ?_
      · exact Or.inl ⟨1, pc, hpc, ⟨_, hmem'⟩, _, hawaits⟩
      · exact Or.inl ⟨2, pc', hpc', ⟨_, hmem⟩, _, hawaits'⟩

end HeraMind.Safety
