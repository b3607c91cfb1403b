/-
# The operations of the manager

`load`, `unload`, `execute_command` with its `try_lazy_restart`, `stop_all` and the passes of
the death monitor (`crates/heramind-core/src/extension/isolated/manager.rs`) as tasks that run
concurrently.  A task moves from one access to the shared state to the next; in between any
other task may run.  `Pc.advance` is one such section of one task, `step` is one step of the
whole manager: a section of some task, a new call, a process that ends, or time that passes.

What the source leaves to code outside of it is the `Choice` made for a step: whether a
process starts and which id its descriptor has, what a command answers, and the order in
which a hash map is iterated.  The death monitor is a single task that makes one pass after
the other; here any number of passes may overlap.
-/
import HeraMind.Lib.Run
import HeraMind.Extension.IsolatedManager

namespace HeraMind.Extension

/-! ## Calls and replies -/

/-- The calls of the manager. -/
inductive Call : Type where
  | load (path : PathBuf)
  | unload (id : ExtensionId)
  | executeCommand (id : ExtensionId)
  | stopAll
  | deathNotification

/-- The result of a command. -/
abbrev CommandResult := Except IsolatedExtensionError String

/-- What a call answers. -/
inductive Reply : Type where
  | loaded (result : LoadResult)
  | unloaded
  | executed (result : CommandResult)
  | stopped
  | checked

/-- What code outside the source decides in a step: how the start of a process ends, with
the id of the descriptor it sends, the result of a command, and the order of a hash map. -/
structure Choice where
  started : Except IsolatedExtensionError (Option ExtensionId)
  outcome : CommandResult
  order : List ExtensionId

/-! ## Program counters -/

/-- The loading lock of an extension. -/
structure LoadingLock where
  id : ExtensionId
  lock : LockId
  deriving DecidableEq

/-- Who called `load`: a caller of the manager, `try_lazy_restart`, which holds a loading
lock meanwhile, or the death monitor, with the extensions it has yet to look at. -/
inductive Caller : Type where
  | external
  | lazyRestart (held : LoadingLock)
  | monitor (id : ExtensionId) (rest : List ExtensionId)

/-- The next section of `load`; from `loadIsolated` to `readBack` it is in `load_internal`,
with the loading lock that it holds, if it has one. -/
inductive LoadPc : Type where
  | fastPath (path : PathBuf)
  | fastInfo (path : PathBuf) (id : ExtensionId)
  | getLock (path : PathBuf) (id : ExtensionId)
  | lock (path : PathBuf) (g : LoadingLock)
  | recheck (path : PathBuf) (g : LoadingLock)
  | recheckInfo (g : LoadingLock)
  | loadIsolated (path : PathBuf) (g : Option LoadingLock)
  | register (path : PathBuf) (g : Option LoadingLock) (d : ExtensionDescriptor)
      (pid : ProcessId)
  | insert (path : PathBuf) (g : Option LoadingLock) (d : ExtensionDescriptor)
      (pid : ProcessId)
  | preserve (path : PathBuf) (g : Option LoadingLock) (d : ExtensionDescriptor)
  | cache (path : PathBuf) (g : Option LoadingLock) (d : ExtensionDescriptor)
      (preserved : Option ExtensionRuntimeState)
  | readBack (path : PathBuf) (g : Option LoadingLock) (id : ExtensionId)
  | removeLock (g : LoadingLock) (e : IsolatedExtensionError)
  | returning (g : Option LoadingLock) (result : LoadResult)

/-- The next section of `try_lazy_restart`, before and after its call of `load`. -/
inductive LazyPc : Type where
  | policy (id : ExtensionId)
  | readPath (id : ExtensionId)
  | getLock (path : PathBuf) (id : ExtensionId)
  | lock (path : PathBuf) (g : LoadingLock)
  | recheck (path : PathBuf) (g : LoadingLock)
  | stop (path : PathBuf) (g : LoadingLock)
  | stopping (path : PathBuf) (g : LoadingLock) (pid : ProcessId)
  | remove (path : PathBuf) (g : LoadingLock)
  | track (g : LoadingLock)
  | get (g : LoadingLock)
  | returning (g : LoadingLock) (restarted : Bool)

/-- The next section of a pass of the death monitor, before and after its call of `load`. -/
inductive MonitorPc : Type where
  | policy
  | readPath
  | remove (path : PathBuf)
  | healthCheck
  | checking
  | track

/-- The next section of `unload`. -/
inductive UnloadPc : Type where
  | remove
  | stop (pid : ProcessId)
  | info
  | events
  | removeLock
  deriving DecidableEq

/-- The next section of a task. -/
inductive Pc : Type where
  | load (caller : Caller) (pc : LoadPc)
  | unload (id : ExtensionId) (pc : UnloadPc)
  | execute (id : ExtensionId)
  | executing
  | lazyRestart (pc : LazyPc)
  | executeAgain
  | stopAll
  | stoppingAll (rest : List ExtensionId)
  | scan
  | monitor (id : ExtensionId) (rest : List ExtensionId) (pc : MonitorPc)
  | answered (reply : Reply)

/-- The manager and every task it ever started. -/
structure Server where
  manager : Manager
  tasks : List Pc

/-- The first section of a call. -/
def Call.start : Call → Pc
  | .load path => .load .external (.fastPath path)
  | .unload id => .unload id .remove
  | .executeCommand id => .execute id
  | .stopAll => .stopAll
  | .deathNotification => .scan

/-! ## Sections -/

/-- The next extension of a pass of the death monitor, or its end. -/
def monitorNext : List ExtensionId → Pc
  | [] => .answered .checked
  | id :: rest => .monitor id rest .policy

/-- `try_lazy_restart` gave no process: the command failed as it did at first. -/
def notRestarted : Pc := .answered (.executed (.error .notRunning))

/-- After `load` has returned to its caller. -/
def Caller.resume : Caller → LoadResult → Pc
  | .external, result => .answered (.loaded result)
  | .lazyRestart held, .ok _ => .lazyRestart (.track held)
  | .lazyRestart held, .error _ => .lazyRestart (.returning held false)
  | .monitor id rest, .ok _ => .monitor id rest .healthCheck
  | .monitor _ rest, .error _ => monitorNext rest

/-- `load_internal` has failed: with a loading lock, its entry is removed first. -/
def loadFailed (g : Option LoadingLock) (e : IsolatedExtensionError) : LoadPc :=
  match g with
  | some g => .removeLock g e
  | none => .returning none (.error e)

section Advance

variable (env : Env)

/-- One section of `load`. -/
def LoadPc.advance (choice : Choice) (m : Manager) (caller : Caller) :
    LoadPc → Option (Pc × Manager)
  | .fastPath path =>
    match readExtensionIdFromManifest env path with
    -- the legacy path takes no lock
    | none => some (.load caller (.loadIsolated path none), m)
    | some id =>
      if id ∈ m.extensions then m.readExtensions (.load caller (.fastInfo path id), m)
      else m.readExtensions (.load caller (.getLock path id), m)
  | .fastInfo path id =>
    match m.infoCache.lookup id with
    | some info => some (.load caller (.returning none (.ok info.descriptor.metadata)), m)
    | none => some (.load caller (.getLock path id), m)
  | .getLock path id =>
    match m.loadingLock id with
    | (l, m') => some (.load caller (.lock path ⟨id, l⟩), m')
  | .lock path g => (m.takeLock g.lock).map fun m' => (.load caller (.recheck path g), m')
  | .recheck path g =>
    if g.id ∈ m.extensions then m.readExtensions (.load caller (.recheckInfo g), m)
    else m.readExtensions (.load caller (.loadIsolated path (some g)), m)
  | .recheckInfo g => some (.load caller (.returning (some g) (m.cachedMetadata g.id)), m)
  | .loadIsolated path g =>
    match choice.started with
    | .error e => some (.load caller (loadFailed g e), m)
    | .ok none =>
      some (.load caller (loadFailed g (.spawnFailed "Failed to get extension descriptor")), m)
    | .ok (some id) =>
      some (.load caller (.register path g ⟨⟨id⟩⟩ m.processes.length), m.spawn ⟨⟨id⟩⟩)
  | .register path g d pid =>
    some (.load caller (.insert path g d pid),
      { m with eventDispatcher := m.eventDispatcher.insert d.id })
  | .insert path g d pid =>
    m.writeExtensions (.load caller (.preserve path g d),
      { m with extensions := m.extensions.insert d.id pid })
  | .preserve path g d =>
    some (.load caller (.cache path g d (m.preserved d.id path)), m)
  | .cache path g d preserved =>
    some (.load caller (.readBack path g d.id),
      { m with infoCache := m.infoCache.insert d.id ⟨d, path, preserved.getD .isolated⟩ })
  | .readBack _ g id =>
    match m.cachedMetadata id with
    | .ok metadata => some (.load caller (.returning g (.ok metadata)), m)
    | .error e => some (.load caller (loadFailed g e), m)
  | .removeLock g e =>
    some (.load caller (.returning (some g) (.error e)),
      { m with loadingLocks := m.loadingLocks.erase g.id })
  | .returning none result => some (caller.resume result, m)
  | .returning (some g) result => some (caller.resume result, m.dropGuard g.lock)

/-- One section of `try_lazy_restart`. -/
def LazyPc.advance (n : TaskId) (m : Manager) : LazyPc → Option (Pc × Manager)
  | .policy id =>
    if (m.infoCache.lookup id).any (lazyShouldRestart env m.now) then
      some (.lazyRestart (.readPath id), m)
    else some (notRestarted, m)
  | .readPath id =>
    match m.infoCache.lookup id with
    | some info => some (.lazyRestart (.getLock info.path id), m)
    | none => some (notRestarted, m)
  | .getLock path id =>
    match m.loadingLock id with
    | (l, m') => some (.lazyRestart (.lock path ⟨id, l⟩), m')
  | .lock path g => (m.takeLock g.lock).map fun m' => (.lazyRestart (.recheck path g), m')
  | .recheck path g =>
    if (m.extensions.lookup g.id).any m.isAlive then
      m.readExtensions (.lazyRestart (.returning g true), m)
    else m.readExtensions (.lazyRestart (.stop path g), m)
  -- the read guard is held until the old process has stopped
  | .stop path g =>
    match m.extensions.lookup g.id with
    | some pid => m.readExtensions (.lazyRestart (.stopping path g pid),
        { m with extensionsReaders := n :: m.extensionsReaders })
    | none => m.readExtensions (.lazyRestart (.remove path g), m)
  | .stopping path g pid =>
    some (.lazyRestart (.remove path g),
      { m.markStopped pid with extensionsReaders := m.extensionsReaders.erase n })
  -- `load` is called while the guard of the loading lock is held
  | .remove path g =>
    m.writeExtensions (.load (.lazyRestart g) (.fastPath path),
      { m with extensions := m.extensions.erase g.id })
  | .track g => some (.lazyRestart (.get g), m.trackRestart g.id)
  | .get g => m.readExtensions (.lazyRestart (.returning g (decide (g.id ∈ m.extensions))), m)
  | .returning g restarted =>
    some (if restarted then .executeAgain else notRestarted, m.dropGuard g.lock)

/-- One section of the death monitor for the extension `id`. -/
def MonitorPc.advance (n : TaskId) (m : Manager) (id : ExtensionId) (rest : List ExtensionId) :
    MonitorPc → Option (Pc × Manager)
  | .policy =>
    if (m.infoCache.lookup id).any (monitorShouldRestart env m.now) then
      some (.monitor id rest .readPath, m)
    else some (monitorNext rest, m)
  | .readPath =>
    match m.infoCache.lookup id with
    | some info => some (.monitor id rest (.remove info.path), m)
    | none => some (monitorNext rest, m)
  -- whatever is in the map now
  | .remove path =>
    m.writeExtensions (.load (.monitor id rest) (.fastPath path),
      { m with extensions := m.extensions.erase id })
  | .healthCheck =>
    m.readExtensions (.monitor id rest .checking,
      { m with extensionsReaders := n :: m.extensionsReaders })
  | .checking =>
    some (.monitor id rest .track, { m with extensionsReaders := m.extensionsReaders.erase n })
  | .track => some (monitorNext rest, m.trackRestart id)

/-- One section of `unload`; once it has the write guard of `extensions`, it keeps it. -/
def UnloadPc.advance (n : TaskId) (m : Manager) (id : ExtensionId) :
    UnloadPc → Option (Pc × Manager)
  | .remove =>
    match m.extensions.lookup id with
    | some pid => m.writeExtensions (.unload id (.stop pid),
        { m.markStopped pid with
          extensions := m.extensions.erase id
          extensionsWriter := some n })
    | none => m.writeExtensions (.unload id .removeLock, { m with extensionsWriter := some n })
  | .stop pid => some (.unload id .info, m.markStopped pid)
  | .info => some (.unload id .events, { m with infoCache := m.infoCache.erase id })
  | .events =>
    some (.unload id .removeLock, { m with eventDispatcher := m.eventDispatcher.erase id })
  | .removeLock =>
    some (.answered .unloaded, { m with
      loadingLocks := m.loadingLocks.erase id
      extensionsWriter := none })

/-- One section of task `n`. -/
def Pc.advance (n : TaskId) (choice : Choice) (m : Manager) : Pc → Option (Pc × Manager)
  | .load caller pc => pc.advance env choice m caller
  | .unload id pc => pc.advance n m id
  | .execute id =>
    match m.extensions.lookup id with
    | none => m.readExtensions (.answered (.executed (.error (.ipcError
        ("Extension " ++ id ++ " not found")))), m)
    | some pid =>
      -- the read guard is held while the command runs
      if m.isAlive pid then m.readExtensions (.executing,
        { m with extensionsReaders := n :: m.extensionsReaders })
      else m.readExtensions (.lazyRestart (.policy id), m)
  | .executing =>
    some (.answered (.executed choice.outcome),
      { m with extensionsReaders := m.extensionsReaders.erase n })
  | .lazyRestart pc => pc.advance env n m
  | .executeAgain => some (.answered (.executed choice.outcome), m)
  | .stopAll =>
    if choice.order.Perm m.extensions.keys then
      m.writeExtensions (.stoppingAll choice.order, { m with extensionsWriter := some n })
    else none
  | .stoppingAll (id :: rest) =>
    match m.extensions.lookup id with
    | some pid => some (.stoppingAll rest, m.markStopped pid)
    | none => some (.stoppingAll rest, m)
  | .stoppingAll [] =>
    some (.answered .stopped, { m with
      extensions := ∅
      infoCache := ∅
      extensionsWriter := none })
  | .scan =>
    if choice.order.Perm m.deadExtensions then m.readExtensions (monitorNext choice.order, m)
    else none
  | .monitor id rest pc => pc.advance env n m id rest
  | .answered _ => none

/-! ## The server -/

/-- What can happen next. -/
inductive Label : Type where
  | tick (secs : ℕ)
  | exit (pid : ProcessId)
  | call (c : Call)
  | run (n : TaskId) (choice : Choice)

/-- One step of the server. -/
def step (s : Server) : Label → Option Server
  | .tick secs => some { s with manager := { s.manager with now := s.manager.now + secs } }
  | .exit pid => some { s with manager := s.manager.markStopped pid }
  | .call c => some { s with tasks := s.tasks ++ [c.start] }
  | .run n choice =>
    match s.tasks[n]? with
    | none => none
    | some pc =>
      match pc.advance env n choice s.manager with
      | none => none
      | some (pc', m) => some { manager := m, tasks := s.tasks.set n pc' }

end Advance

/-- The manager before the first call. -/
def Server.new (now : ℤ) : Server := ⟨Manager.new now, []⟩

end HeraMind.Extension
