/-
# The sections of the manager

What one section of a task does to the loading locks, to the map of the extensions and to
their processes, and what a task may rely on between two of its sections.  `LockMove`
and `MapMove` are all that matters of the branches there.

The lemma is about sections that take the precautions which the mutual exclusion of loads
needs: entries of `loading_locks` are removed while nobody else is bound to them, every load
finds the id of the process it starts in the manifest, and the death monitor removes an
extension only while it is still dead.
-/
import HeraMind.Lib.LockTable
import HeraMind.Extension.Advances
import Mathlib.Data.Fintype.Basic

namespace HeraMind.Extension

open Option
open Transition LockTable
open Manager (takeLock_eq_some)

/-! ## Where a load is -/

/-- The path that a running `load_internal` loads. -/
def LoadPc.internal : LoadPc → Option PathBuf
  | .loadIsolated path _ | .register path _ _ _ | .insert path _ _ _ | .preserve path _ _
  | .cache path _ _ _ | .readBack path _ _ => some path
  | _ => none

/-- The process that a running `load_internal` has started and not yet stored. -/
def LoadPc.starting : LoadPc → Option ProcessId
  | .register _ _ _ pid | .insert _ _ _ pid => some pid
  | _ => none

def Pc.internal : Pc → Option PathBuf
  | .load _ pc => pc.internal
  | _ => none

def Pc.starting : Pc → Option ProcessId
  | .load _ pc => pc.starting
  | _ => none

/-! ## The loading locks -/

/-- The guards that a task can have of loading locks: that of `load`, and that of the
`try_lazy_restart` which called it. -/
inductive Role : Type where
  | load
  | restart
  deriving DecidableEq

instance : Fintype Role := ⟨{.load, .restart}, fun r => by cases r <;> decide⟩

def LoadingLock.session (g : LoadingLock) (phase : Phase) : Session ExtensionId LockId :=
  ⟨g.id, g.lock, phase⟩

def LoadPc.session : LoadPc → Option (Session ExtensionId LockId)
  | .fastPath _ | .fastInfo _ _ | .getLock _ _ => none
  | .lock _ g => some (g.session .waiting)
  | .recheck _ g | .recheckInfo g => some (g.session .holding)
  | .loadIsolated _ g | .register _ g _ _ | .insert _ g _ _ | .preserve _ g _ | .cache _ g _ _
  | .readBack _ g _ => g.map (LoadingLock.session · .holding)
  | .removeLock g _ => some (g.session .holding)
  | .returning g _ => g.map (LoadingLock.session · .leaving)

def LazyPc.session : LazyPc → Option (Session ExtensionId LockId)
  | .policy _ | .readPath _ | .getLock _ _ => none
  | .lock _ g => some (g.session .waiting)
  | .recheck _ g | .stop _ g | .stopping _ g _ | .remove _ g | .track g | .get g | .returning g _ =>
    some (g.session .holding)

/-- What a task does with the loading lock it has in a role. -/
def Pc.session : Role → Pc → Option (Session ExtensionId LockId)
  | .load, .load _ pc => pc.session
  | .restart, .load (.lazyRestart g) _ => some (g.session .holding)
  | .restart, .lazyRestart pc => pc.session
  | _, _ => none

/-- The clients of the loading locks. -/
abbrev Client := TaskId × Role

/-- What the tasks do with the loading locks they have. -/
def sessions (tasks : List Pc) (c : Client) : Option (Session ExtensionId LockId) :=
  tasks[c.1]?.bind (Pc.session c.2)

namespace Server

variable (s : Server)

/-- The lock in the table is the one that the client waits for or holds. -/
def bound (id : ExtensionId) (c : Client) : Bool :=
  (sessions s.tasks c).any fun session =>
    decide session.Bound && decide (s.manager.loadingLocks.lookup id = some session.lock)

/-- Nobody waits for the lock in the table or holds it, except perhaps one client. -/
def Free (id : ExtensionId) (except : Option Client) : Prop :=
  ∀ n < s.tasks.length, ∀ r : Role, s.bound id (n, r) = true → except = some (n, r)

instance (id : ExtensionId) (except : Option Client) : Decidable (s.Free id except) :=
  inferInstanceAs (Decidable
    (∀ n < s.tasks.length, ∀ r : Role, s.bound id (n, r) = true → except = some (n, r)))

end Server

/-! ## Precautions -/

/-- What the mutual exclusion needs of a step. -/
inductive Precaution : Type where
  /-- The path of a load has a manifest with an id. -/
  | manifest
  /-- The process that a load starts has the id of the manifest, if there is one. -/
  | descriptor
  /-- A load that fails removes its lock while nobody else waits for it or holds it. -/
  | failedLoad
  /-- `unload` removes a lock while nobody waits for it or holds it. -/
  | unload
  /-- The death monitor removes an extension that is still dead. -/
  | monitor
  deriving DecidableEq

instance : Fintype Precaution :=
  ⟨{.manifest, .descriptor, .failedLoad, .unload, .monitor}, fun c => by cases c <;> decide⟩

/-- Task `n`, whose next section is `pc`, takes the precaution in state `s`. -/
def Precaution.takenBy (env : Env) (s : Server) (n : TaskId) (choice : Choice) :
    Precaution → Pc → Bool
  | .manifest, .load _ (.fastPath path) => (readExtensionIdFromManifest env path).isSome
  | .descriptor, .load _ (.loadIsolated path _) =>
    match choice.started, readExtensionIdFromManifest env path with
    | .ok (some id), some manifestId => decide (id = manifestId)
    | _, _ => true
  | .failedLoad, .load _ (.removeLock g _) => decide (s.Free g.id (some (n, .load)))
  | .unload, .unload id .removeLock => decide (s.Free id none)
  | .monitor, .monitor id _ (.remove _) =>
    !(s.manager.extensions.lookup id).any s.manager.isAlive
  | _, _ => true

/-- The precaution is taken in a step. -/
def Precaution.taken (env : Env) (s : Server) (c : Precaution) : Label → Bool
  | .run n choice => s.tasks[n]?.all (c.takenBy env s n choice)
  | _ => true

/-- All precautions are taken. -/
def Careful (env : Env) (s : Server) (a : Label) : Prop :=
  ∀ c : Precaution, c.taken env s a = true

instance (env : Env) (s : Server) (a : Label) : Decidable (Careful env s a) :=
  inferInstanceAs (Decidable (∀ c : Precaution, c.taken env s a = true))

/-! ## What a section does to the loading locks -/

/-- A section moves the loading locks and the sessions of its task. -/
inductive LockMove (m : Manager) (pc : Pc) : Pc → Manager → Prop
  | keep {pc' : Pc} {m' : Manager} : m'.loadingLocks = m.loadingLocks → m'.locks = m.locks →
      (∀ r, pc'.session r = pc.session r) → LockMove m pc pc' m'
  | get {pc' : Pc} {m' : Manager} (r : Role) (id : ExtensionId) :
      m' = (m.loadingLock id).2 → pc.session r = none →
      pc'.session r = some ⟨id, (m.loadingLock id).1, .waiting⟩ →
      (∀ r', r' ≠ r → pc'.session r' = pc.session r') → LockMove m pc pc' m'
  | take {pc' : Pc} {m' : Manager} (r : Role) (g : LoadingLock) :
      m.takeLock g.lock = some m' → pc.session r = some (g.session .waiting) →
      pc'.session r = some (g.session .holding) →
      (∀ r', r' ≠ r → pc'.session r' = pc.session r') → LockMove m pc pc' m'
  | leave {pc' : Pc} {m' : Manager} (r : Role) (g : LoadingLock) :
      m'.loadingLocks = m.loadingLocks → m'.locks = m.locks →
      pc.session r = some (g.session .holding) → pc'.session r = some (g.session .leaving) →
      (∀ r', r' ≠ r → pc'.session r' = pc.session r') → LockMove m pc pc' m'
  | fail {caller : Caller} {pc' : Pc} (g : LoadingLock) (e : IsolatedExtensionError) :
      pc = .load caller (.removeLock g e) → pc'.session .load = some (g.session .leaving) →
      (∀ r', r' ≠ .load → pc'.session r' = pc.session r') →
      LockMove m pc pc' { m with loadingLocks := m.loadingLocks.erase g.id }
  | drop {pc' : Pc} (r : Role) (g : LoadingLock) (phase : Phase) : phase ≠ .waiting →
      pc.session r = some (g.session phase) → pc'.session r = none →
      (∀ r', r' ≠ r → pc'.session r' = pc.session r') →
      LockMove m pc pc' (m.dropGuard g.lock)
  | unload {pc' : Pc} {m' : Manager} (id : ExtensionId) : pc = .unload id .removeLock →
      m'.loadingLocks = m.loadingLocks.erase id → m'.locks = m.locks →
      (∀ r, pc'.session r = pc.session r) → LockMove m pc pc' m'

/-! ## What a section does to the extensions -/

/-- A section moves the map of the extensions and the processes in it. -/
inductive MapMove (n : TaskId) (m : Manager) (pc : Pc) : Pc → Manager → Prop
  | keep {pc' : Pc} {m' : Manager} : m'.extensions = m.extensions →
      m'.processes = m.processes → m'.extensionsWriter = m.extensionsWriter →
      pc'.starting = pc.starting → MapMove n m pc pc' m'
  | lock {pc' : Pc} {m' : Manager} : m'.extensions = m.extensions →
      m'.processes = m.processes → m.extensionsWriter = none ∨ m.extensionsWriter = some n →
      pc'.starting = pc.starting → MapMove n m pc pc' m'
  | spawn {pc' : Pc} (d : ExtensionDescriptor) : pc.starting = none →
      pc'.starting = some m.processes.length → MapMove n m pc pc' (m.spawn d)
  | insert {pc' : Pc} {caller : Caller} {path : PathBuf} {g : Option LoadingLock}
      {d : ExtensionDescriptor} {pid : ProcessId} : pc = .load caller (.insert path g d pid) →
      m.extensionsWriter = none → pc'.starting = none →
      MapMove n m pc pc' { m with extensions := m.extensions.insert d.id pid }
  | stop {pc' : Pc} {m' : Manager} (pid : ProcessId) : m'.extensions = m.extensions →
      m'.processes = (m.markStopped pid).processes →
      m'.extensionsWriter = m.extensionsWriter → pc'.starting = pc.starting →
      MapMove n m pc pc' m'
  | erase {pc' : Pc} {m' : Manager} (id : ExtensionId) : m.extensionsWriter = none →
      m'.extensions = m.extensions.erase id →
      (m'.processes = m.processes ∨ ∃ pid, m'.processes = (m.markStopped pid).processes) →
      (∀ pid, m.extensions.lookup id = some pid → m'.isAlive pid = false) →
      pc'.starting = pc.starting → MapMove n m pc pc' m'
  | clear {pc' : Pc} {m' : Manager} : m.extensionsWriter = some n → m'.extensions = ∅ →
      m'.processes = m.processes →
      (∀ id pid, m.extensions.lookup id = some pid → m.isAlive pid = false) →
      pc'.starting = pc.starting → MapMove n m pc pc' m'

/-! ## What a task may rely on -/

/-- The extension is not in the map, or its process is not alive. -/
def Manager.Dead (m : Manager) (id : ExtensionId) : Prop :=
  ∀ pid, m.extensions.lookup id = some pid → m.isAlive pid = false

/-- The lock that a load holds is that of its manifest id. -/
def Guarded (env : Env) (path : PathBuf) (g : Option LoadingLock) (h : LoadingLock) : Prop :=
  g = some h ∧ readExtensionIdFromManifest env path = some h.id

def LoadPc.Ok (env : Env) (m : Manager) : LoadPc → Prop
  | .fastInfo path id | .getLock path id => readExtensionIdFromManifest env path = some id
  | .lock path g | .recheck path g => readExtensionIdFromManifest env path = some g.id
  | .loadIsolated path g => ∃ h, Guarded env path g h ∧ m.extensions.lookup h.id = none
  | .register path g d pid | .insert path g d pid =>
    ∃ h, Guarded env path g h ∧ m.extensions.lookup h.id = none ∧
      d.id = h.id ∧ m.descriptorOf pid = some d
  | .preserve path g _ | .cache path g _ _ | .readBack path g _ => ∃ h, Guarded env path g h
  | _ => True

def LazyPc.Ok (m : Manager) : LazyPc → Prop
  | .stop _ g | .stopping _ g _ | .remove _ g => m.Dead g.id
  | _ => True

def UnloadPc.Ok (n : TaskId) (m : Manager) : UnloadPc → Prop
  | .remove => True
  | _ => m.extensionsWriter = some n

/-- What task `n` relies on between two of its sections. -/
def Pc.Ok (env : Env) (n : TaskId) (m : Manager) : Pc → Prop
  | .load _ pc => pc.Ok env m
  | .lazyRestart pc => pc.Ok m
  | .unload _ pc => pc.Ok n m
  | .stoppingAll rest => m.extensionsWriter = some n ∧
      ∀ id pid, m.extensions.lookup id = some pid → id ∈ rest ∨ m.isAlive pid = false
  | _ => True

/-- All that matters of a section. -/
structure Section (env : Env) (n : TaskId) (m : Manager) (pc pc' : Pc) (m' : Manager) :
    Prop where
  locks : LockMove m pc pc' m'
  map : MapMove n m pc pc' m'
  ok : pc'.Ok env n m'

/-! ## The sections -/

theorem session_eq {pc pc' : Pc} (hload : pc'.session .load = pc.session .load)
    (hrestart : pc'.session .restart = pc.session .restart) (r : Role) :
    pc'.session r = pc.session r := by
  cases r with
  | load => exact hload
  | restart => exact hrestart

theorem session_load {caller : Caller} {pc pc' : LoadPc} (h : pc'.session = pc.session)
    (r : Role) : (Pc.load caller pc').session r = (Pc.load caller pc).session r := by
  have hload : (Pc.load caller pc').session .load = (Pc.load caller pc).session .load := h
  exact session_eq hload (by cases caller <;> rfl) r

theorem session_load_ne {caller : Caller} {pc pc' : LoadPc} {r : Role} (hr : r ≠ .load) :
    (Pc.load caller pc').session r = (Pc.load caller pc).session r := by
  cases r with
  | load => exact absurd rfl hr
  | restart => cases caller <;> rfl

@[simp] theorem session_monitorNext (rest : List ExtensionId) (r : Role) :
    (monitorNext rest).session r = none := by
  cases rest <;> cases r <;> rfl

@[simp] theorem starting_monitorNext (rest : List ExtensionId) :
    (monitorNext rest).starting = none := by
  cases rest <;> rfl

theorem ok_monitorNext (env : Env) (n : TaskId) (m : Manager) (rest : List ExtensionId) :
    (monitorNext rest).Ok env n m := by
  cases rest <;> trivial

/-- What a load returns to its caller is nothing that this development looks at, apart from
the guard of `try_lazy_restart`. -/
theorem session_resume_load (caller : Caller) (result : LoadResult) :
    (caller.resume result).session .load = none := by
  cases caller with
  | external => rfl
  | lazyRestart held => cases result <;> rfl
  | monitor id rest =>
    cases result with
    | ok _ => rfl
    | error _ => exact session_monitorNext rest .load

theorem session_resume_restart (caller : Caller) (result : LoadResult) (pc : LoadPc) :
    (caller.resume result).session .restart = (Pc.load caller pc).session .restart := by
  cases caller with
  | external => rfl
  | lazyRestart held => cases result <;> rfl
  | monitor id rest =>
    cases result with
    | ok _ => rfl
    | error _ => exact session_monitorNext rest .restart

theorem starting_resume (caller : Caller) (result : LoadResult) :
    (caller.resume result).starting = none := by
  cases caller with
  | external => rfl
  | lazyRestart held => cases result <;> rfl
  | monitor id rest =>
    cases result with
    | ok _ => rfl
    | error _ => exact starting_monitorNext rest

theorem ok_resume (env : Env) (n : TaskId) (m : Manager) (caller : Caller)
    (result : LoadResult) : (caller.resume result).Ok env n m := by
  cases caller with
  | external => trivial
  | lazyRestart held => cases result <;> trivial
  | monitor id rest =>
    cases result with
    | ok _ => trivial
    | error _ => exact ok_monitorNext env n m rest

section Advance

variable {env : Env} {n : TaskId} {choice : Choice} {m m' : Manager} {pc pc' : Pc}

/-- A section that leaves the locks, the map and the processes alone. -/
theorem Section.stay (hs : ∀ r, pc'.session r = pc.session r) (hok : pc'.Ok env n m')
    (hp : pc'.starting = pc.starting := by rfl)
    (hl : m'.loadingLocks = m.loadingLocks := by rfl) (hk : m'.locks = m.locks := by rfl)
    (he : m'.extensions = m.extensions := by rfl) (hr : m'.processes = m.processes := by rfl)
    (hw : m'.extensionsWriter = m.extensionsWriter := by rfl) : Section env n m pc pc' m' :=
  ⟨.keep hl hk hs, .keep he hr hw hp, hok⟩

/-- A section of `load` that only goes on. -/
theorem Section.goOn {caller : Caller} {pc pc' : LoadPc} (hs : pc'.session = pc.session)
    (hp : pc'.starting = pc.starting) (hok : pc'.Ok env m) :
    Section env n m (.load caller pc) (.load caller pc') m :=
  .stay (session_load hs) hok hp

/-- `load_internal` has failed. -/
theorem Section.failed {caller : Caller} {pc : LoadPc} {g : Option LoadingLock}
    {e : IsolatedExtensionError} (hs : pc.session = g.map (LoadingLock.session · .holding))
    (hp : pc.starting = none) :
    Section env n m (.load caller pc) (.load caller (loadFailed g e)) m := by
  refine .goOn ?_ ?_ ?_
  · rw [hs]
    cases g <;> rfl
  · rw [hp]
    cases g <;> rfl
  · cases g <;> trivial

theorem session_lazyRestart_ne {pc pc' : LazyPc} {r : Role} (hr : r ≠ .restart) :
    (Pc.lazyRestart pc').session r = (Pc.lazyRestart pc).session r := by
  cases r with
  | load => rfl
  | restart => exact absurd rfl hr

/-- A task that goes on with the next extension has no loading lock. -/
theorem Section.next {id : ExtensionId} {pc : MonitorPc} (rest : List ExtensionId)
    (hl : m'.loadingLocks = m.loadingLocks := by rfl) (hk : m'.locks = m.locks := by rfl)
    (he : m'.extensions = m.extensions := by rfl) (hr : m'.processes = m.processes := by rfl)
    (hw : m'.extensionsWriter = m.extensionsWriter := by rfl) :
    Section env n m (.monitor id rest pc) (monitorNext rest) m' := by
  refine .stay (fun r => ?_) (ok_monitorNext env n _ rest) (starting_monitorNext rest) hl hk he hr hw
  rw [session_monitorNext]
  cases r <;> rfl

/-- One section of a task, in a state in which it can rely on what it has seen. -/
theorem Pc.section_of_advances {s : Server} (hok : pc.Ok env n s.manager)
    (hcare : ∀ c : Precaution, c.takenBy env s n choice pc = true)
    (h : Advances env n choice s.manager pc pc' m') : Section env n s.manager pc pc' m' := by
  cases h with
  | legacy hnone =>
    have hid := hcare .manifest
    simp [Precaution.takenBy, hnone] at hid
  | listed hid | unlisted hid => exact .goOn rfl rfl hid
  | cached | recheckListed => exact .goOn rfl rfl trivial
  | uncached => exact .goOn rfl rfl hok
  | getLock id =>
    exact ⟨.get .load id rfl rfl rfl fun r hr => session_load_ne hr,
      .keep (Manager.extensions_loadingLock id) (Manager.processes_loadingLock id)
        (Manager.extensionsWriter_loadingLock id) rfl, hok⟩
  | @lock caller path g m' hm =>
    have hmove : LockMove s.manager (.load caller (.lock path g)) (.load caller (.recheck path g))
        m' := .take .load g hm rfl rfl fun r hr => session_load_ne hr
    rw [takeLock_eq_some] at hm
    obtain ⟨-, rfl⟩ := hm
    exact ⟨hmove, .keep rfl rfl rfl rfl, hok⟩
  | recheckUnlisted hnone => exact .goOn rfl rfl ⟨_, ⟨rfl, hok⟩, hnone⟩
  | recheckInfo g =>
    exact ⟨.leave .load g rfl rfl rfl rfl fun r hr => session_load_ne hr, .keep rfl rfl rfl rfl,
      trivial⟩
  | spawnFailed =>
    obtain ⟨held, ⟨rfl, -⟩, -⟩ := hok
    exact .failed rfl rfl
  | spawned hstarted =>
    obtain ⟨held, ⟨rfl, hid⟩, hnone⟩ := hok
    have hd := hcare .descriptor
    simp only [Precaution.takenBy, hstarted, hid, decide_eq_true_eq] at hd
    refine ⟨.keep rfl rfl (session_load rfl), .spawn _ rfl rfl, held, ⟨rfl, hid⟩, hnone, hd, ?_⟩
    simp [Manager.descriptorOf, Manager.spawn]
  | register | preserve | cache => exact .stay (session_load rfl) hok
  | insert hwriter =>
    obtain ⟨held, hg, -⟩ := hok
    exact ⟨.keep rfl rfl (session_load rfl), .insert rfl hwriter rfl, held, hg⟩
  | readBack =>
    obtain ⟨held, ⟨rfl, -⟩⟩ := hok
    exact ⟨.leave .load held rfl rfl rfl rfl fun r hr => session_load_ne hr,
      .keep rfl rfl rfl rfl, trivial⟩
  | readBackFailed => exact .failed rfl rfl
  | removeLock g e =>
    exact ⟨.fail g e rfl rfl fun r hr => session_load_ne hr, .keep rfl rfl rfl rfl, trivial⟩
  | returned caller result =>
    exact .stay (session_eq (session_resume_load caller result)
      (session_resume_restart caller result _)) (ok_resume env n _ caller result)
      (starting_resume caller result)
  | returnedLocked caller g result =>
    refine ⟨.drop .load g .leaving (by simp) rfl (session_resume_load caller result)
      fun r hr => ?_, .keep rfl rfl rfl (starting_resume caller result),
      ok_resume env n _ caller result⟩
    cases r with
    | load => exact absurd rfl hr
    | restart => exact session_resume_restart caller result _
  | lazyGetLock id =>
    exact ⟨.get .restart id rfl rfl rfl fun r hr => session_lazyRestart_ne hr,
      .keep (Manager.extensions_loadingLock id) (Manager.processes_loadingLock id)
        (Manager.extensionsWriter_loadingLock id) rfl, trivial⟩
  | @lazyLock path g m' hm =>
    have hmove : LockMove s.manager (.lazyRestart (.lock path g)) (.lazyRestart (.recheck path g))
        m' := .take .restart g hm rfl rfl fun r hr => session_lazyRestart_ne hr
    rw [takeLock_eq_some] at hm
    obtain ⟨-, rfl⟩ := hm
    exact ⟨hmove, .keep rfl rfl rfl rfl, trivial⟩
  | lazyDead halive =>
    refine .stay (session_eq rfl rfl) fun pid hpid => ?_
    rw [hpid] at halive
    simpa using halive
  | lazyStop | lazyUnlisted => exact .stay (session_eq rfl rfl) hok
  | lazyStopping pid =>
    exact ⟨.keep rfl rfl (session_eq rfl rfl), .stop pid rfl rfl rfl rfl,
      fun pid' hpid' => Manager.isAlive_markStopped_of_not (hok pid' hpid') pid⟩
  | lazyRemove g hwriter =>
    exact ⟨.keep rfl rfl (session_eq rfl rfl), .erase g.id hwriter rfl (Or.inl rfl) hok rfl,
      trivial⟩
  | lazyTrack g =>
    unfold Manager.trackRestart
    split <;> exact .stay (session_eq rfl rfl) trivial
  | lazyReturned g restarted =>
    have hload : ∀ pc' : Pc, pc'.session .load = none → ∀ r, r ≠ .restart →
        pc'.session r = (Pc.lazyRestart (.returning g restarted)).session r := by
      intro pc' hpc' r hr
      cases r with
      | load => exact hpc'
      | restart => exact absurd rfl hr
    cases restarted with
    | true | false =>
      exact ⟨.drop .restart g .holding (by simp) rfl rfl (hload _ rfl), .keep rfl rfl rfl rfl,
        trivial⟩
  | refused rest | pathUncached rest => exact .next rest
  | remove id hwriter =>
    refine ⟨.keep rfl rfl (session_eq rfl rfl),
      .erase id hwriter rfl (Or.inl rfl) (fun pid hpid => ?_) rfl, trivial⟩
    have hdead := hcare .monitor
    simp only [Precaution.takenBy, hpid, any_some, Bool.not_eq_true'] at hdead
    exact hdead
  | track id rest =>
    unfold Manager.trackRestart
    split <;> exact .next rest
  | unload pid hpid hwriter =>
    refine ⟨.keep rfl rfl (session_eq rfl rfl),
      .erase _ hwriter rfl (Or.inr ⟨pid, rfl⟩) (fun pid' hpid' => ?_) rfl, rfl⟩
    rw [hpid, some.injEq] at hpid'
    subst hpid'
    exact s.manager.isAlive_markStopped_self pid
  | unloadUnlisted hnone hwriter =>
    exact ⟨.keep rfl rfl (session_eq rfl rfl), .lock rfl rfl (Or.inl hwriter) rfl, rfl⟩
  | unloadStop pid =>
    exact ⟨.keep rfl rfl (session_eq rfl rfl), .stop pid rfl rfl rfl rfl, hok⟩
  | unloadInfo | unloadEvents => exact .stay (session_eq rfl rfl) hok
  | unloaded id =>
    exact ⟨.unload id rfl rfl rfl (session_eq rfl rfl), .lock rfl rfl (Or.inr hok) rfl, trivial⟩
  | stopAll hperm hwriter =>
    refine ⟨.keep rfl rfl (session_eq rfl rfl), .lock rfl rfl (Or.inl hwriter) rfl, rfl,
      fun id pid hid => Or.inl ?_⟩
    rw [hperm.mem_iff, ← AList.mem_keys, ← AList.lookup_isSome]
    exact isSome_of_eq_some hid
  | stopNext pid hpid =>
    obtain ⟨hwriter, hrest⟩ := hok
    refine ⟨.keep rfl rfl (session_eq rfl rfl), .stop pid rfl rfl rfl rfl, hwriter,
      fun id' pid' hid' => ?_⟩
    rcases hrest id' pid' hid' with hmem | hdead
    · rcases List.mem_cons.mp hmem with rfl | hmem
      · obtain rfl : pid = pid' := some.inj (hpid.symm.trans hid')
        exact Or.inr (Manager.isAlive_markStopped_self _ pid)
      · exact Or.inl hmem
    · exact Or.inr (Manager.isAlive_markStopped_of_not hdead pid)
  | stopUnlisted hnone =>
    obtain ⟨hwriter, hrest⟩ := hok
    refine .stay (session_eq rfl rfl) ⟨hwriter, fun id' pid' hid' => ?_⟩
    rcases hrest id' pid' hid' with hmem | hdead
    · rcases List.mem_cons.mp hmem with rfl | hmem
      · rw [hnone] at hid'
        cases hid'
      · exact Or.inl hmem
    · exact Or.inr hdead
  | stopped =>
    refine ⟨.keep rfl rfl (session_eq rfl rfl),
      .clear hok.1 rfl rfl (fun id pid hid => ?_) rfl, trivial⟩
    rcases hok.2 id pid hid with hmem | hdead
    · cases hmem
    · exact hdead
  | scan =>
    exact .stay (session_eq (session_monitorNext _ .load) (session_monitorNext _ .restart))
      (ok_monitorNext env n _ _) (starting_monitorNext _)
  | _ => exact .stay (session_eq rfl rfl) trivial

end Advance

end HeraMind.Extension
