/-
# The manager of isolated extensions

The state of `IsolatedExtensionManager`
(`crates/heramind-core/src/extension/isolated/manager.rs`): the extensions that run, each in
a process of its own, what is cached about them, and the locks that loads take.

A process is what the manager sees of it, a handle with a `running` flag: it is there once
`load_isolated` has returned it, and alive until the flag is cleared.  How the process itself
works is the matter of `process.rs`.  The descriptor is reduced to the id, which is all of it
that the manager looks at.
-/
import HeraMind.Lib.KeyedMap
import Mathlib.Algebra.Group.Nat.Defs
import Mathlib.Data.List.Basic

namespace HeraMind.Extension

abbrev ExtensionId := String

/-- A loading lock, by the order in which the locks were made. -/
abbrev LockId := ℕ

/-- A process, by the order in which the processes were started. -/
abbrev ProcessId := ℕ

abbrev TaskId := ℕ

/-! ## Paths and manifests -/

/-- A path, as its components below the root, the last one first. -/
abbrev PathBuf := List String

/-- The directory of a path. -/
def PathBuf.parent (path : PathBuf) : Option PathBuf := path.tail?

/-- The configuration of the manager, and what it finds outside: the files, and the answers
of the operating system. -/
structure Env where
  /-- The `id` of a manifest file, if the file exists, can be read and has one. -/
  manifestId : PathBuf → Option ExtensionId
  restartOnCrash : Bool
  maxRestartAttempts : ℕ
  restartCooldownSecs : ℕ

/-- The id in the manifest of a package, or in one beside the binary.  A path that is too
short to be in a package has no id. -/
def readExtensionIdFromManifest (env : Env) (path : PathBuf) : Option ExtensionId :=
  match path.parent with
  | none => none
  | some dir =>
    match dir.parent.bind PathBuf.parent with
    | none => none
    | some root =>
      (env.manifestId ("manifest.json" :: root)).orElse
        fun _ => env.manifestId ("manifest.json" :: dir)

/-! ## Errors and descriptors -/

inductive IsolatedExtensionError : Type where
  | spawnFailed (reason : String)
  | ipcError (reason : String)
  | crashed (reason : String)
  | timeout (ms : ℕ)
  | invalidResponse (reason : String)
  | notInitialized
  | alreadyRunning
  | notRunning
  | tooManyRequests (limit : ℕ)
  | loadError (reason : String)
  | unexpectedResponse
  | channelClosed
  | extensionError (reason : String)
  | executionFailed (reason : String)
  deriving DecidableEq

structure ExtensionMetadata where
  id : ExtensionId
  deriving DecidableEq

structure ExtensionDescriptor where
  metadata : ExtensionMetadata
  deriving DecidableEq

def ExtensionDescriptor.id (descriptor : ExtensionDescriptor) : ExtensionId :=
  descriptor.metadata.id

abbrev LoadResult := Except IsolatedExtensionError ExtensionMetadata

/-- The counters of the crash loop. -/
structure ExtensionRuntimeState where
  restartCount : ℕ
  lastRestartAt : Option ℤ
  deriving DecidableEq

/-- A new extension. -/
def ExtensionRuntimeState.isolated : ExtensionRuntimeState := ⟨0, none⟩

structure IsolatedExtensionInfo where
  descriptor : ExtensionDescriptor
  path : PathBuf
  runtime : ExtensionRuntimeState
  deriving DecidableEq

/-- The handle of a process. -/
structure IsolatedExtension where
  descriptor : ExtensionDescriptor
  running : Bool
  deriving DecidableEq

/-! ## The restart policy -/

/-- `as i64`. -/
def asI64 (n : ℕ) : ℤ := (n : ℤ).bmod (2 ^ 64)

section Policy

variable (env : Env) (now : ℤ) (info : IsolatedExtensionInfo)

/-- The last restart is long enough ago. -/
def pastCooldown : Bool :=
  match info.runtime.lastRestartAt with
  | some lastRestart => decide (asI64 env.restartCooldownSecs ≤ now - lastRestart)
  | none => true

/-- The restarts that count for the death monitor: after an hour without one, none. -/
def budgetCount : ℕ :=
  match info.runtime.lastRestartAt with
  | some t => if 3600 ≤ now - t then 0 else info.runtime.restartCount
  | none => info.runtime.restartCount

/-- The policy of the death monitor. -/
def monitorShouldRestart : Bool :=
  env.restartOnCrash && decide (budgetCount now info < env.maxRestartAttempts)
    && pastCooldown env now info

/-- The policy of `try_lazy_restart`, which has no fresh budget. -/
def lazyShouldRestart : Bool :=
  env.restartOnCrash && decide (info.runtime.restartCount < env.maxRestartAttempts)
    && pastCooldown env now info

/-- One restart more. -/
def IsolatedExtensionInfo.restarted : IsolatedExtensionInfo :=
  { info with runtime := ⟨info.runtime.restartCount + 1, some now⟩ }

end Policy

/-! ## The shared state -/

/-- The state of the manager.  The lock of `extensions` is explicit, since a task may hold it
while it waits for a process; the others are taken for one access only.  `locks` has every
loading lock ever made, `true` if it is taken. -/
structure Manager where
  extensions : HashMap ExtensionId ProcessId
  extensionsReaders : List TaskId
  extensionsWriter : Option TaskId
  infoCache : HashMap ExtensionId IsolatedExtensionInfo
  eventDispatcher : List ExtensionId
  loadingLocks : HashMap ExtensionId LockId
  locks : List Bool
  processes : List IsolatedExtension
  now : ℤ

namespace Manager

variable (m : Manager)

/-- `IsolatedExtensionManager::new`. -/
def new (now : ℤ) : Manager where
  extensions := ∅
  extensionsReaders := []
  extensionsWriter := none
  infoCache := ∅
  eventDispatcher := []
  loadingLocks := ∅
  locks := []
  processes := []
  now := now

/-- A section that reads `extensions`: it waits while a task writes. -/
def readExtensions {α : Type} (result : α) : Option α :=
  if m.extensionsWriter = none then some result else none

/-- A section that writes `extensions`: it waits while another task reads or writes. -/
def writeExtensions {α : Type} (result : α) : Option α :=
  if m.extensionsWriter = none ∧ m.extensionsReaders = [] then some result else none

/-- `is_alive`. -/
def isAlive (pid : ProcessId) : Bool :=
  m.processes[pid]?.any IsolatedExtension.running

/-- The descriptor of a process, also after its end. -/
def descriptorOf (pid : ProcessId) : Option ExtensionDescriptor :=
  m.processes[pid]?.map IsolatedExtension.descriptor

/-- The extension that a live process runs. -/
def liveId (pid : ProcessId) : Option ExtensionId :=
  if m.isAlive pid then (m.descriptorOf pid).map ExtensionDescriptor.id else none

/-- The process has ended, or is taken for ended. -/
def markStopped (pid : ProcessId) : Manager :=
  { m with processes := m.processes.modify pid fun p => { p with running := false } }

/-- A process has started. -/
def spawn (descriptor : ExtensionDescriptor) : Manager :=
  { m with processes := m.processes ++ [⟨descriptor, true⟩] }

/-- `entry(id).or_insert_with(..).clone()`. -/
def loadingLock (id : ExtensionId) : LockId × Manager :=
  match m.loadingLocks.lookup id with
  | some l => (l, m)
  | none => (m.locks.length, { m with
      loadingLocks := m.loadingLocks.insert id m.locks.length
      locks := m.locks ++ [false] })

/-- `lock().await`: it waits while the lock is taken. -/
def takeLock (l : LockId) : Option Manager :=
  if m.locks[l]? = some false then some { m with locks := m.locks.set l true } else none

/-- The guard of a lock is dropped. -/
def dropGuard (l : LockId) : Manager := { m with locks := m.locks.set l false }

/-- The ids of the extensions in the map that are not alive. -/
def deadExtensions : List ExtensionId :=
  (m.extensions.entries.filter fun e => !m.isAlive e.2).map Sigma.fst

/-- The counters that a load keeps: those of the same extension at the same path. -/
def preserved (id : ExtensionId) (path : PathBuf) : Option ExtensionRuntimeState :=
  match m.infoCache.lookup id with
  | some prev => if prev.path = path then some prev.runtime else none
  | none => none

/-- The metadata in the cache, which a load returns. -/
def cachedMetadata (id : ExtensionId) : LoadResult :=
  match m.infoCache.lookup id with
  | some info => .ok info.descriptor.metadata
  | none => .error (.ipcError
      ("Extension " ++ id ++ " metadata not found in cache after load"))

/-- The counters after a restart. -/
def trackRestart (id : ExtensionId) : Manager :=
  match m.infoCache.lookup id with
  | some info => { m with infoCache := m.infoCache.insert id (info.restarted m.now) }
  | none => m

variable {m}

theorem readExtensions_eq_some {α : Type} {x y : α} :
    m.readExtensions x = some y ↔ m.extensionsWriter = none ∧ x = y := by
  unfold readExtensions
  split
  · simp [*]
  · simp [*]

theorem writeExtensions_eq_some {α : Type} {x y : α} :
    m.writeExtensions x = some y ↔
      (m.extensionsWriter = none ∧ m.extensionsReaders = []) ∧ x = y := by
  unfold writeExtensions
  split
  · simp [*]
  · simp [*]

/-- What a section does that had the read lock. -/
theorem of_readExtensions {α : Type} {x y : α} (h : m.readExtensions x = some y) : x = y :=
  (readExtensions_eq_some.mp h).2

theorem takeLock_eq_some {m' : Manager} {l : LockId} :
    m.takeLock l = some m' ↔
      m.locks[l]? = some false ∧ m' = { m with locks := m.locks.set l true } := by
  unfold takeLock
  split
  · simp [*, eq_comm]
  · simp [*]

/-- What is alive depends on the processes only. -/
theorem isAlive_of_processes {m' : Manager} (h : m'.processes = m.processes) (pid : ProcessId) :
    m'.isAlive pid = m.isAlive pid := by
  unfold isAlive
  rw [h]

theorem isAlive_markStopped (m : Manager) (pid pid' : ProcessId) :
    (m.markStopped pid).isAlive pid' = (m.isAlive pid' && decide (pid ≠ pid')) := by
  unfold isAlive markStopped
  rw [List.getElem?_modify]
  by_cases h : pid = pid'
  · cases m.processes[pid']? <;> simp [h]
  · simp [h]

theorem isAlive_markStopped_self (m : Manager) (pid : ProcessId) :
    (m.markStopped pid).isAlive pid = false := by
  simp [isAlive_markStopped]

variable {pid : ProcessId}

theorem isAlive_markStopped_of_not (h : m.isAlive pid = false)
    (pid' : ProcessId) : (m.markStopped pid').isAlive pid = false := by
  simp [isAlive_markStopped, h]

theorem liveId_eq_some {id : ExtensionId} :
    m.liveId pid = some id ↔
      m.isAlive pid = true ∧ ∃ d, m.descriptorOf pid = some d ∧ d.id = id := by
  unfold liveId
  split
  · simp [*]
  · simp [*]

theorem descriptorOf_markStopped (m : Manager) (pid pid' : ProcessId) :
    (m.markStopped pid).descriptorOf pid' = m.descriptorOf pid' := by
  unfold descriptorOf markStopped
  rw [List.getElem?_modify]
  by_cases h : pid = pid'
  · cases m.processes[pid']? <;> simp [h]
  · simp [h]

theorem descriptorOf_of_processes {m' : Manager} (h : m'.processes = m.processes)
    (pid : ProcessId) : m'.descriptorOf pid = m.descriptorOf pid := by
  unfold descriptorOf
  rw [h]

theorem descriptorOf_spawn {d d' : ExtensionDescriptor}
    (h : m.descriptorOf pid = some d') : (m.spawn d).descriptorOf pid = some d' := by
  unfold descriptorOf at h ⊢
  rw [Option.map_eq_some_iff] at h ⊢
  obtain ⟨p, hp, hd⟩ := h
  refine ⟨p, ?_, hd⟩
  exact List.getElem?_append_left (List.getElem?_eq_some_iff.mp hp).1 ▸ hp

theorem isAlive_spawn_of_lt (d : ExtensionDescriptor)
    (h : pid < m.processes.length) : (m.spawn d).isAlive pid = m.isAlive pid := by
  unfold isAlive spawn
  rw [List.getElem?_append_left h]

theorem lt_of_descriptorOf {d : ExtensionDescriptor}
    (h : m.descriptorOf pid = some d) : pid < m.processes.length := by
  unfold descriptorOf at h
  rw [Option.map_eq_some_iff] at h
  obtain ⟨p, hp, -⟩ := h
  exact (List.getElem?_eq_some_iff.mp hp).1

@[simp] theorem extensions_loadingLock (id : ExtensionId) :
    (m.loadingLock id).2.extensions = m.extensions := by
  unfold loadingLock
  split <;> rfl

@[simp] theorem processes_loadingLock (id : ExtensionId) :
    (m.loadingLock id).2.processes = m.processes := by
  unfold loadingLock
  split <;> rfl

@[simp] theorem infoCache_loadingLock (id : ExtensionId) :
    (m.loadingLock id).2.infoCache = m.infoCache := by
  unfold loadingLock
  split <;> rfl

@[simp] theorem eventDispatcher_loadingLock (id : ExtensionId) :
    (m.loadingLock id).2.eventDispatcher = m.eventDispatcher := by
  unfold loadingLock
  split <;> rfl

@[simp] theorem extensionsWriter_loadingLock (id : ExtensionId) :
    (m.loadingLock id).2.extensionsWriter = m.extensionsWriter := by
  unfold loadingLock
  split <;> rfl

end Manager

end HeraMind.Extension
