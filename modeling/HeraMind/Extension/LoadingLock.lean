/-
# The loading locks

The sections that take the precautions are moves of a table of locks (`LockTable`), which
stays consistent.  So whoever starts a process for an extension is the only one who can
store it, and what the tasks rely on is not disturbed.  `Inv` is what holds between any two
sections, `Inv.step` its step lemma and `Inv.of_run` its run lemma.
-/
import HeraMind.Extension.Sections

namespace HeraMind.Extension

open List
open Transition LockTable
open Manager (takeLock_eq_some liveId_eq_some descriptorOf_markStopped descriptorOf_of_processes
  descriptorOf_spawn isAlive_spawn_of_lt lt_of_descriptorOf)

/-! ## The loading locks as a table of locks -/

/-- The loading locks as a table of locks. -/
def Manager.lockTable (m : Manager) (session : Client → Option (Session ExtensionId LockId)) :
    LockTable ExtensionId LockId Client where
  table id := m.loadingLocks.lookup id
  made := {l | l < m.locks.length}
  locked := {l | m.locks[l]? = some true}
  session := session

def Server.lockTable (s : Server) : LockTable ExtensionId LockId Client :=
  s.manager.lockTable (sessions s.tasks)

section Locks

variable {s : Server} {m m' : Manager} {n : TaskId} {pc pc' : Pc} {tasks : List Pc}

theorem sessions_self (hn : tasks[n]? = some pc) (r : Role) :
    sessions tasks (n, r) = pc.session r := by
  simp [sessions, hn]

/-- The sessions after a section that moves the session in one role. -/
theorem sessions_set (hn : tasks[n]? = some pc) (r : Role)
    (hr : ∀ r', r' ≠ r → pc'.session r' = pc.session r') :
    sessions (tasks.set n pc') = Function.update (sessions tasks) (n, r) (pc'.session r) := by
  have hlt := (List.getElem?_eq_some_iff.mp hn).1
  funext ⟨n', r'⟩
  by_cases hn' : n' = n
  · subst hn'
    rw [sessions_self (getElem?_set_self hlt)]
    by_cases hr' : r' = r
    · subst hr'
      rw [Function.update_self]
    · rw [Function.update_of_ne (by simp [hr']), hr r' hr', sessions_self hn]
  · rw [Function.update_of_ne (by simp [hn'])]
    unfold sessions
    rw [getElem?_set_ne (Ne.symm hn')]

/-- The sessions after a section that moves none. -/
theorem sessions_set_of_eq (hn : tasks[n]? = some pc)
    (h : ∀ r, pc'.session r = pc.session r) : sessions (tasks.set n pc') = sessions tasks := by
  rw [sessions_set hn .load fun r _ => h r, h, ← sessions_self hn, Function.update_eq_self]

/-- A move to a table with the entries, locks and sessions of the manager. -/
theorem step_congr {T T' : LockTable ExtensionId LockId Client}
    {f : Client → Option (Session ExtensionId LockId)} (hstep : Step T T')
    (htable : ∀ id, m.loadingLocks.lookup id = T'.table id)
    (hmade : {l | l < m.locks.length} = T'.made)
    (hlocked : {l | m.locks[l]? = some true} = T'.locked) (hf : f = T'.session) :
    Step T (m.lockTable f) := by
  have heq : m.lockTable f = T' := LockTable.ext (funext htable) hmade hlocked hf
  rw [heq]
  exact hstep

theorem table_insert (locks : HashMap ExtensionId LockId) (id : ExtensionId) (l : LockId)
    (id' : ExtensionId) : (locks.insert id l).lookup id' =
      Function.update (fun id => locks.lookup id) id (some l) id' := by
  by_cases h : id' = id
  · subst h
    rw [AList.lookup_insert, Function.update_self]
  · rw [AList.lookup_insert_ne h, Function.update_of_ne h]

theorem table_erase (locks : HashMap ExtensionId LockId) (id id' : ExtensionId) :
    (locks.erase id).lookup id' = Function.update (fun id => locks.lookup id) id none id' := by
  by_cases h : id' = id
  · subst h
    rw [AList.lookup_erase, Function.update_self]
  · rw [AList.lookup_erase_ne h, Function.update_of_ne h]

/-- The locks that are taken after one was taken. -/
theorem locked_set_true {locks : List Bool} {l : LockId} (hl : l < locks.length) :
    {k | (locks.set l true)[k]? = some true} = insert l {k | locks[k]? = some true} := by
  ext k
  rw [Set.mem_insert_iff, Set.mem_ofPred_eq, Set.mem_ofPred_eq, getElem?_set]
  by_cases h : l = k
  · subst h
    simp [hl]
  · simp [h, Ne.symm h]

/-- The locks that are taken after one was given back. -/
theorem locked_set_false {locks : List Bool} (l : LockId) :
    {k | (locks.set l false)[k]? = some true} = {k | locks[k]? = some true} \ {l} := by
  ext k
  rw [Set.mem_sdiff, Set.mem_singleton_iff, Set.mem_ofPred_eq, Set.mem_ofPred_eq, getElem?_set]
  by_cases h : l = k
  · subst h
    by_cases hl : l < locks.length <;> simp [hl]
  · simp [h, Ne.symm h]

/-- A lock that was just made is not taken. -/
theorem locked_append_false (locks : List Bool) :
    {k : LockId | (locks ++ [false])[k]? = some true} = {k | locks[k]? = some true} := by
  ext k
  rw [Set.mem_ofPred_eq, Set.mem_ofPred_eq, getElem?_append]
  by_cases h : k < locks.length
  · rw [if_pos h]
  · rw [if_neg h, getElem?_eq_none (Nat.le_of_not_lt h)]
    cases k - locks.length <;> simp

variable {f : Client → Option (Session ExtensionId LockId)} {c : Client}

/-- `entry(id).or_insert_with(..).clone()` is a move of the table. -/
theorem step_loadingLock (id : ExtensionId) (hc : f c = none) :
    Step (m.lockTable f) ((m.loadingLock id).2.lockTable
      (Function.update f c (some ⟨id, (m.loadingLock id).1, .waiting⟩))) := by
  unfold Manager.loadingLock
  cases hl : m.loadingLocks.lookup id with
  | some l => exact Step.clone (T := m.lockTable f) hc hl
  | none =>
    refine step_congr (Step.make hc hl (Nat.lt_irrefl m.locks.length)) (table_insert _ id _) ?_
      (locked_append_false m.locks) rfl
    ext l
    simp only [length_append, length_singleton, Set.mem_ofPred_eq, Set.mem_insert_iff,
      Manager.lockTable]
    exact Nat.lt_succ_iff_lt_or_eq.trans or_comm

/-- `lock().await` is a move of the table. -/
theorem step_takeLock {g : LoadingLock} (hm : m.takeLock g.lock = some m')
    (hc : f c = some (g.session .waiting)) :
    Step (m.lockTable f) (m'.lockTable (Function.update f c (some (g.session .holding)))) := by
  rw [takeLock_eq_some] at hm
  obtain ⟨hfree, rfl⟩ := hm
  have hlt := (List.getElem?_eq_some_iff.mp hfree).1
  exact step_congr (Step.acquire hc (by simp [Manager.lockTable, hfree])) (fun _ => rfl)
    (by simp [Manager.lockTable]) (locked_set_true hlt) rfl

/-- The guard is dropped. -/
theorem step_dropGuard {g : LoadingLock} (hc : f c = some (g.session .leaving)) :
    Step (m.lockTable f) ((m.dropGuard g.lock).lockTable (Function.update f c none)) := by
  exact step_congr (Step.release hc) (fun _ => rfl)
    (by simp [Manager.lockTable, Manager.dropGuard]) (locked_set_false g.lock) rfl

/-- An entry is removed. -/
theorem step_erase (id : ExtensionId)
    (hfree : ∀ c s, f c = some s → s.Bound → m.loadingLocks.lookup id ≠ some s.lock) :
    Step (m.lockTable f)
      (Manager.lockTable { m with loadingLocks := m.loadingLocks.erase id } f) := by
  exact step_congr (Step.remove hfree) (table_erase _ id) rfl rfl rfl

/-- No client is bound to the lock of an id, except perhaps one that has left. -/
theorem not_bound_of_free {id : ExtensionId} {except : Option Client} (h : s.Free id except)
    (hc : except ≠ some c) {session : Session ExtensionId LockId}
    (hs : sessions s.tasks c = some session) (hb : session.Bound) :
    s.manager.loadingLocks.lookup id ≠ some session.lock := by
  intro hid
  have hlt : c.1 < s.tasks.length := by
    by_contra hge
    unfold sessions at hs
    rw [getElem?_eq_none (Nat.le_of_not_lt hge), Option.bind_none] at hs
    cases hs
  refine hc (h c.1 hlt c.2 ?_)
  unfold Server.bound
  rw [hs]
  simp [hb, hid]

/-- Every section is a sequence of moves of the table of locks. -/
theorem LockMove.steps (hn : s.tasks[n]? = some pc) (hmove : LockMove s.manager pc pc' m')
    (hfail : ∀ caller g e, pc = .load caller (.removeLock g e) →
      s.Free g.id (some (n, .load)))
    (hunload : ∀ id, pc = .unload id .removeLock → s.Free id none) :
    Steps s.lockTable (m'.lockTable (sessions (s.tasks.set n pc'))) := by
  unfold Server.lockTable
  cases hmove with
  | keep hl hm hs =>
    rw [sessions_set_of_eq hn hs]
    unfold Manager.lockTable
    rw [hl, hm]
  | get r id hm hr hr' hne =>
    subst hm
    rw [sessions_set hn r hne, hr']
    exact .single (step_loadingLock id ((sessions_self hn r).trans hr))
  | take r g hm hr hr' hne =>
    rw [sessions_set hn r hne, hr']
    exact .single (step_takeLock hm ((sessions_self hn r).trans hr))
  | leave r g hl hm hr hr' hne =>
    rw [sessions_set hn r hne, hr']
    have hstep := Step.leave (T := s.manager.lockTable (sessions s.tasks))
      ((sessions_self hn r).trans hr)
    unfold Manager.lockTable at hstep ⊢
    rw [hl, hm]
    exact .single hstep
  | fail g e hpc hr' hne =>
    subst hpc
    rw [sessions_set hn .load hne, hr']
    -- the load leaves its lock, and then nobody is bound to it
    have hleave := Step.leave (T := s.manager.lockTable (sessions s.tasks)) (sessions_self hn .load)
    refine .tail (.single hleave) (step_erase g.id fun c session hc hb => ?_)
    rcases session_update (T := s.manager.lockTable (sessions s.tasks)) hc with
      ⟨-, hself⟩ | ⟨hcne, hc⟩
    · cases hself
      exact absurd rfl hb
    · refine not_bound_of_free (hfail _ g e rfl) (fun heq => ?_) hc hb
      exact hcne (Option.some.inj heq).symm
  | drop r g phase hp hr hr' hne =>
    rw [sessions_set hn r hne, hr']
    have hc := (sessions_self hn r).trans hr
    cases phase with
    | waiting => exact absurd rfl hp
    | leaving => exact .single (step_dropGuard hc)
    | holding =>
      have hleave := Step.leave (T := s.manager.lockTable (sessions s.tasks)) hc
      have hdrop := step_dropGuard (m := s.manager) (g := g)
        (Function.update_self (n, r) (some (g.session .leaving)) (sessions s.tasks))
      rw [Function.update_idem] at hdrop
      exact .tail (.single hleave) hdrop
  | unload id hpc hl hm hs =>
    rw [sessions_set_of_eq hn hs]
    have herase := step_erase (m := s.manager) (f := sessions s.tasks) id
      fun c session hc hb => not_bound_of_free (hunload id hpc) (by simp) hc hb
    unfold Manager.lockTable at herase ⊢
    rw [hl, hm]
    exact .single herase

end Locks

/-! ## The invariant -/

/-- The process that task `n` has started and not yet stored. -/
def Server.starting (s : Server) (n : TaskId) : Option ProcessId :=
  s.tasks[n]?.bind Pc.starting

section Invariant

variable {env : Env} {m m' : Manager} {n : TaskId} {pc pc' : Pc}

/-- What holds between the sections of all tasks. -/
structure Inv (env : Env) (s : Server) : Prop where
  locks : s.lockTable.Consistent
  ok : ∀ n (pc : Pc), s.tasks[n]? = some pc → pc.Ok env n s.manager
  stored : ∀ id pid, s.manager.extensions.lookup id = some pid →
    ∃ d, s.manager.descriptorOf pid = some d ∧ d.id = id
  mapped : ∀ pid id, s.manager.liveId pid = some id →
    s.manager.extensions.lookup id = some pid ∨ ∃ n, s.starting n = some pid

/-- Nothing is stored and nothing comes to life. -/
structure Calm (m m' : Manager) : Prop where
  lookup : ∀ id pid, m'.extensions.lookup id = some pid → m.extensions.lookup id = some pid
  descriptor : ∀ pid d, m.descriptorOf pid = some d → m'.descriptorOf pid = some d
  alive : ∀ pid d, m.descriptorOf pid = some d → m.isAlive pid = false → m'.isAlive pid = false

/-- The processes are the same, or one of them has stopped. -/
def Stops (m m' : Manager) : Prop :=
  m'.processes = m.processes ∨ ∃ pid, m'.processes = (m.markStopped pid).processes

theorem Stops.descriptorOf (h : Stops m m') (pid : ProcessId) :
    m'.descriptorOf pid = m.descriptorOf pid := by
  rcases h with h | ⟨pid', h⟩
  · exact descriptorOf_of_processes h pid
  · rw [descriptorOf_of_processes h pid, descriptorOf_markStopped]

variable {pid : ProcessId}

theorem Stops.isAlive (h : Stops m m') (hdead : m.isAlive pid = false) :
    m'.isAlive pid = false := by
  rcases h with h | ⟨pid', h⟩
  · rw [Manager.isAlive_of_processes h, hdead]
  · rw [Manager.isAlive_of_processes h]
    exact Manager.isAlive_markStopped_of_not hdead pid'

variable {id : ExtensionId}

theorem Stops.liveId (h : Stops m m')
    (hlive : m'.liveId pid = some id) : m.liveId pid = some id := by
  rw [liveId_eq_some] at hlive ⊢
  obtain ⟨halive, d, hd, hid⟩ := hlive
  rw [h.descriptorOf] at hd
  refine ⟨?_, d, hd, hid⟩
  by_contra hdead
  rw [Bool.not_eq_true] at hdead
  rw [h.isAlive hdead] at halive
  cases halive

theorem Stops.calm (h : Stops m m')
    (hlookup : ∀ id pid, m'.extensions.lookup id = some pid → m.extensions.lookup id = some pid) :
    Calm m m' where
  lookup := hlookup
  descriptor pid d hd := by rw [h.descriptorOf, hd]
  alive _ _ _ hdead := h.isAlive hdead

/-- Apart from the section that stores an extension, every section is calm. -/
theorem MapMove.calm_or_insert (h : MapMove n m pc pc' m') :
    Calm m m' ∨ ∃ caller path g d pid, pc = .load caller (.insert path g d pid) ∧
      m.extensionsWriter = none ∧
      m' = { m with extensions := m.extensions.insert d.id pid } := by
  cases h with
  | keep he hp hw hs | lock he hp hw hs =>
    exact Or.inl (Stops.calm (Or.inl hp) fun id pid hid => by rwa [he] at hid)
  | spawn d hs hs' =>
    refine Or.inl ⟨fun id pid hid => hid, fun pid d' hd' => descriptorOf_spawn hd',
      fun pid d' hd' hdead => ?_⟩
    rw [isAlive_spawn_of_lt d (lt_of_descriptorOf hd'), hdead]
  | insert hpc hw hs => exact Or.inr ⟨_, _, _, _, _, hpc, hw, rfl⟩
  | stop pid he hp hw hs =>
    exact Or.inl (Stops.calm (Or.inr ⟨pid, hp⟩) fun id pid hid => by rwa [he] at hid)
  | erase id hw he hp hdead hs =>
    refine Or.inl (Stops.calm hp fun id' pid hid => ?_)
    rw [he] at hid
    by_cases heq : id' = id
    · subst heq
      rw [AList.lookup_erase] at hid
      cases hid
    · rwa [AList.lookup_erase_ne heq] at hid
  | clear hw he hp hdead hs =>
    refine Or.inl (Stops.calm (Or.inl hp) fun id pid hid => ?_)
    rw [he, AList.lookup_empty] at hid
    cases hid

/-- The write guard of another task stays. -/
theorem MapMove.writer (h : MapMove n m pc pc' m') {n' : TaskId} (hne : n' ≠ n)
    (hw : m.extensionsWriter = some n') : m'.extensionsWriter = some n' := by
  have hself : m.extensionsWriter ≠ some n := by
    rw [hw]
    exact fun heq => hne (Option.some.inj heq)
  have hsome : m.extensionsWriter ≠ none := by simp [hw]
  cases h with
  | keep he hp hw' hs => rw [hw', hw]
  | lock he hp hw' hs => exact absurd hw' (by simp [hself, hsome])
  | spawn d hs hs' => exact hw
  | insert hpc hw' hs => exact absurd hw' hsome
  | stop pid he hp hw' hs => rw [hw', hw]
  | erase id hw' he hp hdead hs => exact absurd hw' hsome
  | clear hw' he hp hdead hs => exact absurd hw' hself

/-- What a task relies on still holds: nothing is stored under the ids whose locks it holds, no
process has come to life there, and what it locked has stayed. -/
theorem Pc.Ok.transport (hok : pc.Ok env n m)
    (hnone : ∀ g : LoadingLock, pc.session .load = some (g.session .holding) →
      m.extensions.lookup g.id = none → m'.extensions.lookup g.id = none)
    (hdead : ∀ g : LoadingLock, pc.session .restart = some (g.session .holding) →
      m.Dead g.id → m'.Dead g.id)
    (hdescriptor : ∀ pid d, m.descriptorOf pid = some d → m'.descriptorOf pid = some d)
    (hwriter : m.extensionsWriter = some n → m'.extensionsWriter = some n ∧
      ∀ id pid, m'.extensions.lookup id = some pid →
        m.extensions.lookup id = some pid ∧ (m.isAlive pid = false → m'.isAlive pid = false)) :
    pc.Ok env n m' := by
  cases pc with
  | load caller pc =>
    cases pc with
    | loadIsolated path g =>
      obtain ⟨held, ⟨rfl, hg⟩, hl⟩ := hok
      exact ⟨held, ⟨rfl, hg⟩, hnone held rfl hl⟩
    | register path g d pid | insert path g d pid =>
      obtain ⟨held, ⟨rfl, hg⟩, hl, hid, hd⟩ := hok
      exact ⟨held, ⟨rfl, hg⟩, hnone held rfl hl, hid, hdescriptor pid d hd⟩
    | _ => exact hok
  | lazyRestart pc =>
    cases pc with
    | stop path g | stopping path g pid | remove path g => exact hdead g rfl hok
    | _ => trivial
  | unload id pc =>
    cases pc with
    | remove => trivial
    | _ => exact (hwriter hok).1
  | stoppingAll rest =>
    obtain ⟨hw, hstays⟩ := hwriter hok.1
    refine ⟨hw, fun id pid hid => ?_⟩
    obtain ⟨hold, halive⟩ := hstays id pid hid
    rcases hok.2 id pid hold with hmem | hstopped
    · exact Or.inl hmem
    · exact Or.inr (halive hstopped)
  | _ => trivial

/-- What a task relies on is not disturbed by a calm section of another task. -/
theorem Calm.ok (h : Calm m m') (hstored : ∀ id pid, m.extensions.lookup id = some pid →
      ∃ d, m.descriptorOf pid = some d ∧ d.id = id)
    (hw : m.extensionsWriter = some n → m'.extensionsWriter = some n) (hok : pc.Ok env n m) :
    pc.Ok env n m' := by
  have hstays : ∀ id pid, m'.extensions.lookup id = some pid →
      m.extensions.lookup id = some pid ∧ (m.isAlive pid = false → m'.isAlive pid = false) := by
    intro id pid hid
    have hold := h.lookup id pid hid
    obtain ⟨d, hd, -⟩ := hstored id pid hold
    exact ⟨hold, h.alive pid d hd⟩
  refine hok.transport (fun g _ hl => ?_) (fun g _ hdead pid hid => ?_) h.descriptor
    (fun hwriter => ⟨hw hwriter, hstays⟩)
  · rw [Option.eq_none_iff_forall_ne_some]
    intro pid hid
    rw [(hstays g.id pid hid).1] at hl
    cases hl
  · obtain ⟨hold, halive⟩ := hstays g.id pid hid
    exact halive (hdead pid hold)

/-- What a task relies on is not disturbed by the storing of an extension whose lock it does
not hold. -/
theorem ok_insert (hwriter : m.extensionsWriter = none)
    (hne : ∀ r (g : LoadingLock), pc.session r = some (g.session .holding) → g.id ≠ id)
    (hok : pc.Ok env n m) :
    pc.Ok env n { m with extensions := m.extensions.insert id pid } := by
  refine hok.transport (fun g hs hl => ?_) (fun g hs hdead pid' hid => ?_) (fun _ _ hd => hd)
    (fun hw => ?_)
  · exact (AList.lookup_insert_ne (hne .load g hs)).trans hl
  · rw [AList.lookup_insert_ne (hne .restart g hs)] at hid
    exact hdead pid' hid
  · rw [hwriter] at hw
    cases hw

/-- Where a live process is after a section: stored, about to be stored by the task, or where
it was before, out of the task's reach. -/
theorem MapMove.live (h : MapMove n m pc pc' m') (hok : pc.Ok env n m)
    (hlive : m'.liveId pid = some id) :
    m'.extensions.lookup id = some pid ∨ pc'.starting = some pid ∨
      (m.liveId pid = some id ∧ m.extensions.lookup id ≠ some pid ∧ pc.starting ≠ some pid) := by
  by_cases hstored : m'.extensions.lookup id = some pid
  · exact Or.inl hstored
  by_cases hstarting : pc'.starting = some pid
  · exact Or.inr (Or.inl hstarting)
  refine Or.inr (Or.inr ?_)
  cases h with
  | keep he hp hw hs | lock he hp hw hs =>
    rw [he] at hstored
    rw [hs] at hstarting
    exact ⟨Stops.liveId (Or.inl hp) hlive, hstored, hstarting⟩
  | spawn d hs hs' =>
    rw [liveId_eq_some] at hlive
    obtain ⟨halive, d', hd', hid⟩ := hlive
    have hlt := lt_of_descriptorOf hd'
    have hne : pid ≠ m.processes.length := by
      intro heq
      rw [hs', heq] at hstarting
      exact hstarting rfl
    have hlen : (m.spawn d).processes.length = m.processes.length + 1 := by
      simp [Manager.spawn]
    have hold : pid < m.processes.length := by
      have hle := Nat.lt_succ_iff.mp (hlen ▸ hlt)
      exact Nat.lt_of_le_of_ne hle hne
    refine ⟨?_, hstored, by simp [hs]⟩
    rw [liveId_eq_some]
    rw [isAlive_spawn_of_lt d hold] at halive
    refine ⟨halive, d', ?_, hid⟩
    unfold Manager.descriptorOf Manager.spawn at hd'
    rwa [getElem?_append_left hold] at hd'
  | @insert caller path g d pid' hpc hw hs =>
    subst hpc
    obtain ⟨held, -, hl, hdid, hd⟩ := hok
    have hlive' : m.liveId pid = some id := Stops.liveId (Or.inl rfl) hlive
    refine ⟨hlive', fun hold => ?_, fun heq => ?_⟩
    · have hne : id ≠ d.id := by
        intro heq
        rw [heq, hdid, hl] at hold
        cases hold
      rw [AList.lookup_insert_ne hne] at hstored
      exact hstored hold
    · -- the process that is stored is live under the id under which it is stored
      cases heq
      obtain ⟨-, d', hd', hid⟩ := liveId_eq_some.mp hlive'
      rw [hd, Option.some.injEq] at hd'
      subst hd' hid
      exact hstored (AList.lookup_insert _)
  | stop pid' he hp hw hs =>
    rw [he] at hstored
    rw [hs] at hstarting
    exact ⟨Stops.liveId (Or.inr ⟨pid', hp⟩) hlive, hstored, hstarting⟩
  | erase id' hw he hp hdead hs =>
    rw [hs] at hstarting
    refine ⟨Stops.liveId hp hlive, fun hold => ?_, hstarting⟩
    have hid : id = id' := by
      by_contra hne
      rw [he, AList.lookup_erase_ne hne] at hstored
      exact hstored hold
    subst hid
    have halive := (liveId_eq_some.mp hlive).1
    rw [hdead pid hold] at halive
    cases halive
  | clear hw he hp hdead hs =>
    rw [hs] at hstarting
    refine ⟨Stops.liveId (Or.inl hp) hlive, fun hold => ?_, hstarting⟩
    have halive := (liveId_eq_some.mp hlive).1
    rw [Manager.isAlive_of_processes hp, hdead id pid hold] at halive
    cases halive

theorem Inv.new (env : Env) (now : ℤ) : Inv env (Server.new now) where
  locks := by
    have heq : (Server.new now).lockTable = ⟨fun _ => none, ∅, ∅, fun _ => none⟩ := by
      refine LockTable.ext (funext fun id => ?_) ?_ ?_ (funext fun c => ?_)
      · simp [Server.lockTable, Manager.lockTable, Server.new, Manager.new]
      · simp [Server.lockTable, Manager.lockTable, Server.new, Manager.new]
      · simp [Server.lockTable, Manager.lockTable, Server.new, Manager.new]
      · simp [Server.lockTable, Manager.lockTable, Server.new, sessions]
    rw [heq]
    exact Consistent.empty
  ok n pc hn := by simp [Server.new] at hn
  stored id pid hid := by simp [Server.new, Manager.new] at hid
  mapped pid id hlive := by simp [Manager.liveId, Manager.isAlive, Server.new, Manager.new] at hlive

variable {s : Server}

theorem takenBy_of_careful {choice : Choice} (hcare : Careful env s (.run n choice))
    (hn : s.tasks[n]? = some pc) (c : Precaution) : c.takenBy env s n choice pc = true := by
  have htaken := hcare c
  simp only [Precaution.taken, hn, Option.all_some] at htaken
  exact htaken

/-- Who stores an extension holds the lock of its id, and nobody else does. -/
theorem Inv.alone (h : Inv env s) {caller : Caller} {path : PathBuf}
    {g : Option LoadingLock} {d : ExtensionDescriptor}
    (hn : s.tasks[n]? = some (.load caller (.insert path g d pid))) {n' : TaskId} {r : Role}
    (hne : n' ≠ n) (hn' : s.tasks[n']? = some pc) {held : LoadingLock}
    (hsession : pc.session r = some (held.session .holding)) : held.id ≠ d.id := by
  intro hid
  obtain ⟨mine, ⟨rfl, -⟩, -, hdid, -⟩ := h.ok n _ hn
  have hmine : s.lockTable.session (n, .load) = some (mine.session .holding) :=
    sessions_self hn .load
  have htheirs : s.lockTable.session (n', r) = some (held.session .holding) :=
    (sessions_self hn' r).trans hsession
  have heq := h.locks.exclusive htheirs hmine rfl rfl (hid.trans hdid)
  exact hne (congrArg Prod.fst heq)

/-- Time passes, or a process ends. -/
theorem Inv.environment (h : Inv env s) (hp : Stops s.manager m')
    (he : m'.extensions = s.manager.extensions)
    (hl : m'.lockTable (sessions s.tasks) = s.lockTable)
    (hw : m'.extensionsWriter = s.manager.extensionsWriter) :
    Inv env { s with manager := m' } where
  locks := by
    change (m'.lockTable (sessions s.tasks)).Consistent
    rw [hl]
    exact h.locks
  ok n pc hn := by
    have hcalm : Calm s.manager m' := hp.calm fun id pid hid => by rwa [he] at hid
    exact hcalm.ok h.stored (fun hwriter => hw.trans hwriter) (h.ok n pc hn)
  stored id pid hid := by
    rw [he] at hid
    obtain ⟨d, hd, hdid⟩ := h.stored id pid hid
    exact ⟨d, (hp.descriptorOf pid).trans hd, hdid⟩
  mapped pid id hlive := by
    rw [he]
    exact h.mapped pid id (hp.liveId hlive)

/-- A call is made. -/
theorem Inv.call (h : Inv env s) (c : Call) :
    Inv env { s with tasks := s.tasks ++ [c.start] } where
  locks := by
    have hsame : sessions (s.tasks ++ [c.start]) = sessions s.tasks := by
      funext ⟨n, r⟩
      unfold sessions
      by_cases hn : n < s.tasks.length
      · rw [getElem?_append_left hn]
      · rw [getElem?_append_right (Nat.le_of_not_lt hn),
          getElem?_eq_none (Nat.le_of_not_lt hn)]
        cases n - s.tasks.length with
        | zero => cases c <;> cases r <;> rfl
        | succ k => rfl
    change (s.manager.lockTable (sessions (s.tasks ++ [c.start]))).Consistent
    rw [hsame]
    exact h.locks
  ok n pc hn := by
    rw [getElem?_append] at hn
    split at hn
    · exact h.ok n pc hn
    · rw [getElem?_singleton] at hn
      split at hn
      · cases hn
        cases c <;> trivial
      · cases hn
  stored := h.stored
  mapped pid id hlive := by
    rcases h.mapped pid id hlive with hstored | ⟨n, hn⟩
    · exact Or.inl hstored
    · refine Or.inr ⟨n, ?_⟩
      unfold Server.starting at hn ⊢
      rw [Option.bind_eq_some_iff] at hn ⊢
      obtain ⟨pc, hpc, hpid⟩ := hn
      exact ⟨pc, getElem?_append_left (List.getElem?_eq_some_iff.mp hpc).1 ▸ hpc, hpid⟩

/-- A task runs one of its sections. -/
theorem Inv.run {choice : Choice} (h : Inv env s)
    (hcare : Careful env s (.run n choice)) (hn : s.tasks[n]? = some pc)
    (hadv : Advances env n choice s.manager pc pc' m') :
    Inv env { manager := m', tasks := s.tasks.set n pc' } := by
  have htaken := takenBy_of_careful hcare hn
  have hok := h.ok n pc hn
  obtain ⟨hlocks, hmap, hok'⟩ := Pc.section_of_advances hok htaken hadv
  have hlt := (List.getElem?_eq_some_iff.mp hn).1
  have hself : (s.tasks.set n pc')[n]? = some pc' := getElem?_set_self hlt
  refine ⟨?_, fun n' q hn' => ?_, fun id pid hid => ?_, fun pid id hlive => ?_⟩
  · refine h.locks.steps (hlocks.steps hn (fun caller g e hpc => ?_) fun id hpc => ?_)
    · have hfree := htaken .failedLoad
      rw [hpc] at hfree
      exact of_decide_eq_true hfree
    · have hfree := htaken .unload
      rw [hpc] at hfree
      exact of_decide_eq_true hfree
  · by_cases heq : n' = n
    · subst heq
      rw [hself] at hn'
      cases hn'
      exact hok'
    · have hother : s.tasks[n']? = some q := by rwa [getElem?_set_ne (Ne.symm heq)] at hn'
      rcases hmap.calm_or_insert with hcalm | ⟨caller, path, g, d, pid, rfl, hw, rfl⟩
      · exact hcalm.ok h.stored (hmap.writer heq) (h.ok n' q hother)
      · exact ok_insert hw (fun r held hs => h.alone hn heq hother hs) (h.ok n' q hother)
  · rcases hmap.calm_or_insert with hcalm | ⟨caller, path, g, d, pid', rfl, hw, rfl⟩
    · obtain ⟨d, hd, hdid⟩ := h.stored id pid (hcalm.lookup id pid hid)
      exact ⟨d, hcalm.descriptor pid d hd, hdid⟩
    · change (s.manager.extensions.insert d.id pid').lookup id = some pid at hid
      by_cases heq : id = d.id
      · subst heq
        rw [AList.lookup_insert, Option.some.injEq] at hid
        subst hid
        obtain ⟨held, -, -, -, hd⟩ := hok
        exact ⟨d, hd, rfl⟩
      · rw [AList.lookup_insert_ne heq] at hid
        exact h.stored id pid hid
  · rcases hmap.live hok hlive with hstored | hstarting | ⟨hlive', hstored, hstarting⟩
    · exact Or.inl hstored
    · exact Or.inr ⟨n, by simp [Server.starting, hself, hstarting]⟩
    · rcases h.mapped pid id hlive' with hold | ⟨n', hold⟩
      · exact absurd hold hstored
      · have hne : n' ≠ n := by
          intro heq
          subst heq
          simp only [Server.starting, hn, Option.bind_some] at hold
          exact hstarting hold
        refine Or.inr ⟨n', ?_⟩
        unfold Server.starting at hold ⊢
        rw [getElem?_set_ne (Ne.symm hne)]
        exact hold

/-- The step lemma of the invariant. -/
theorem Inv.step {s s' : Server} {a : Label} (h : Inv env s) (hcare : Careful env s a)
    (hs : step env s a = some s') : Inv env s' := by
  cases a with
  | tick secs =>
    cases hs
    exact h.environment (Or.inl rfl) rfl rfl rfl
  | exit pid =>
    cases hs
    exact h.environment (Or.inr ⟨pid, rfl⟩) rfl rfl rfl
  | call c =>
    cases hs
    exact h.call c
  | run n choice =>
    obtain ⟨pc, pc', m', hn, hadv, rfl⟩ := advances_of_step hs
    exact h.run hcare hn hadv

/-- The run lemma. -/
theorem Inv.of_run {now : ℤ} {tr : List (Server × Label)}
    (hrun : Run (Extension.step env) (Server.new now) tr s) (hcare : Within (Careful env) tr) :
    Inv env s :=
  hrun.invariant hcare (Inv.new env now) fun _ _ _ hI hG hs => hI.step hG hs

end Invariant

end HeraMind.Extension
