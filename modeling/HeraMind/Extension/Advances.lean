/-
# The branches of a section

What a section of a task can do, branch by branch, with what it has seen of the shared state.
Whatever is proved of all sections is proved by cases on `Advances`; `Pc.advance` is unfolded
in this file only.
-/
import HeraMind.Extension.Operations

namespace HeraMind.Extension

open Option
open Manager (readExtensions_eq_some writeExtensions_eq_some of_readExtensions)

section Inversion

variable (env : Env) (n : TaskId) (choice : Choice) (m : Manager)

inductive Advances : Pc → Pc → Manager → Prop
  | legacy {caller path} : readExtensionIdFromManifest env path = none →
      Advances (.load caller (.fastPath path)) (.load caller (.loadIsolated path none)) m
  | listed {caller path id} : readExtensionIdFromManifest env path = some id →
      Advances (.load caller (.fastPath path)) (.load caller (.fastInfo path id)) m
  | unlisted {caller path id} : readExtensionIdFromManifest env path = some id →
      Advances (.load caller (.fastPath path)) (.load caller (.getLock path id)) m
  | cached {caller path id result} :
      Advances (.load caller (.fastInfo path id)) (.load caller (.returning none result)) m
  | uncached {caller path id} :
      Advances (.load caller (.fastInfo path id)) (.load caller (.getLock path id)) m
  | getLock {caller path} (id) : Advances (.load caller (.getLock path id))
      (.load caller (.lock path ⟨id, (m.loadingLock id).1⟩)) (m.loadingLock id).2
  | lock {caller path g m'} : m.takeLock g.lock = some m' →
      Advances (.load caller (.lock path g)) (.load caller (.recheck path g)) m'
  | recheckListed {caller path g} :
      Advances (.load caller (.recheck path g)) (.load caller (.recheckInfo g)) m
  | recheckUnlisted {caller path g} : m.extensions.lookup g.id = none →
      Advances (.load caller (.recheck path g)) (.load caller (.loadIsolated path (some g))) m
  | recheckInfo {caller} (g) {result} :
      Advances (.load caller (.recheckInfo g)) (.load caller (.returning (some g) result)) m
  | spawnFailed {caller path g e} :
      Advances (.load caller (.loadIsolated path g)) (.load caller (loadFailed g e)) m
  | spawned {caller path g id} : choice.started = .ok (some id) →
      Advances (.load caller (.loadIsolated path g))
        (.load caller (.register path g ⟨⟨id⟩⟩ m.processes.length)) (m.spawn ⟨⟨id⟩⟩)
  | register {caller path g d pid} :
      Advances (.load caller (.register path g d pid)) (.load caller (.insert path g d pid))
        { m with eventDispatcher := m.eventDispatcher.insert d.id }
  | insert {caller path g d pid} : m.extensionsWriter = none →
      Advances (.load caller (.insert path g d pid)) (.load caller (.preserve path g d))
        { m with extensions := m.extensions.insert d.id pid }
  | preserve {caller path g d} : Advances (.load caller (.preserve path g d))
      (.load caller (.cache path g d (m.preserved d.id path))) m
  | cache {caller path g d preserved} :
      Advances (.load caller (.cache path g d preserved)) (.load caller (.readBack path g d.id))
        { m with infoCache := m.infoCache.insert d.id ⟨d, path, preserved.getD .isolated⟩ }
  | readBack {caller path g id result} :
      Advances (.load caller (.readBack path g id)) (.load caller (.returning g result)) m
  | readBackFailed {caller path g id e} :
      Advances (.load caller (.readBack path g id)) (.load caller (loadFailed g e)) m
  | removeLock {caller} (g e) :
      Advances (.load caller (.removeLock g e)) (.load caller (.returning (some g) (.error e)))
        { m with loadingLocks := m.loadingLocks.erase g.id }
  | returned (caller result) :
      Advances (.load caller (.returning none result)) (caller.resume result) m
  | returnedLocked (caller g result) :
      Advances (.load caller (.returning (some g) result)) (caller.resume result)
        (m.dropGuard g.lock)
  | lazyPolicy {id} : Advances (.lazyRestart (.policy id)) (.lazyRestart (.readPath id)) m
  | lazyRefused {id} : Advances (.lazyRestart (.policy id)) notRestarted m
  | lazyPath {id info} : m.infoCache.lookup id = some info →
      Advances (.lazyRestart (.readPath id)) (.lazyRestart (.getLock info.path id)) m
  | lazyUncached {id} : Advances (.lazyRestart (.readPath id)) notRestarted m
  | lazyGetLock {path} (id) : Advances (.lazyRestart (.getLock path id))
      (.lazyRestart (.lock path ⟨id, (m.loadingLock id).1⟩)) (m.loadingLock id).2
  | lazyLock {path g m'} : m.takeLock g.lock = some m' →
      Advances (.lazyRestart (.lock path g)) (.lazyRestart (.recheck path g)) m'
  | lazyAlive {path g} :
      Advances (.lazyRestart (.recheck path g)) (.lazyRestart (.returning g true)) m
  | lazyDead {path g} : ¬ (m.extensions.lookup g.id).any m.isAlive = true →
      Advances (.lazyRestart (.recheck path g)) (.lazyRestart (.stop path g)) m
  | lazyStop {path g pid} :
      Advances (.lazyRestart (.stop path g)) (.lazyRestart (.stopping path g pid))
        { m with extensionsReaders := n :: m.extensionsReaders }
  | lazyUnlisted {path g} :
      Advances (.lazyRestart (.stop path g)) (.lazyRestart (.remove path g)) m
  | lazyStopping {path g} (pid) :
      Advances (.lazyRestart (.stopping path g pid)) (.lazyRestart (.remove path g))
        { m.markStopped pid with extensionsReaders := m.extensionsReaders.erase n }
  | lazyRemove {path} (g) : m.extensionsWriter = none →
      Advances (.lazyRestart (.remove path g)) (.load (.lazyRestart g) (.fastPath path))
        { m with extensions := m.extensions.erase g.id }
  | lazyTrack (g) :
      Advances (.lazyRestart (.track g)) (.lazyRestart (.get g)) (m.trackRestart g.id)
  | lazyGet {g restarted} :
      Advances (.lazyRestart (.get g)) (.lazyRestart (.returning g restarted)) m
  | lazyReturned (g restarted) : Advances (.lazyRestart (.returning g restarted))
      (if restarted then .executeAgain else notRestarted) (m.dropGuard g.lock)
  | policy {id rest} : Advances (.monitor id rest .policy) (.monitor id rest .readPath) m
  | refused {id} (rest) : Advances (.monitor id rest .policy) (monitorNext rest) m
  | path {id rest info} : m.infoCache.lookup id = some info →
      Advances (.monitor id rest .readPath) (.monitor id rest (.remove info.path)) m
  | pathUncached {id} (rest) : Advances (.monitor id rest .readPath) (monitorNext rest) m
  | remove (id) {rest path} : m.extensionsWriter = none →
      Advances (.monitor id rest (.remove path)) (.load (.monitor id rest) (.fastPath path))
        { m with extensions := m.extensions.erase id }
  | healthCheck {id rest} : Advances (.monitor id rest .healthCheck) (.monitor id rest .checking)
      { m with extensionsReaders := n :: m.extensionsReaders }
  | checking {id rest} : Advances (.monitor id rest .checking) (.monitor id rest .track)
      { m with extensionsReaders := m.extensionsReaders.erase n }
  | track (id rest) :
      Advances (.monitor id rest .track) (monitorNext rest) (m.trackRestart id)
  | unload {id} (pid) : m.extensions.lookup id = some pid → m.extensionsWriter = none →
      Advances (.unload id .remove) (.unload id (.stop pid))
        { m.markStopped pid with
          extensions := m.extensions.erase id
          extensionsWriter := some n }
  | unloadUnlisted {id} : m.extensions.lookup id = none → m.extensionsWriter = none →
      Advances (.unload id .remove) (.unload id .removeLock) { m with extensionsWriter := some n }
  | unloadStop {id} (pid) :
      Advances (.unload id (.stop pid)) (.unload id .info) (m.markStopped pid)
  | unloadInfo (id) : Advances (.unload id .info) (.unload id .events)
      { m with infoCache := m.infoCache.erase id }
  | unloadEvents (id) : Advances (.unload id .events) (.unload id .removeLock)
      { m with eventDispatcher := m.eventDispatcher.erase id }
  | unloaded (id) : Advances (.unload id .removeLock) (.answered .unloaded) { m with
      loadingLocks := m.loadingLocks.erase id
      extensionsWriter := none }
  | notFound {id reply} : Advances (.execute id) (.answered reply) m
  | execute {id} : Advances (.execute id) .executing
      { m with extensionsReaders := n :: m.extensionsReaders }
  | executeDead {id} : Advances (.execute id) (.lazyRestart (.policy id)) m
  | executed {reply} : Advances .executing (.answered reply)
      { m with extensionsReaders := m.extensionsReaders.erase n }
  | executedAgain {reply} : Advances .executeAgain (.answered reply) m
  | stopAll : choice.order.Perm m.extensions.keys → m.extensionsWriter = none →
      Advances .stopAll (.stoppingAll choice.order) { m with extensionsWriter := some n }
  | stopNext {id rest} (pid) : m.extensions.lookup id = some pid →
      Advances (.stoppingAll (id :: rest)) (.stoppingAll rest) (m.markStopped pid)
  | stopUnlisted {id rest} : m.extensions.lookup id = none →
      Advances (.stoppingAll (id :: rest)) (.stoppingAll rest) m
  | stopped : Advances (.stoppingAll []) (.answered .stopped) { m with
      extensions := ∅
      infoCache := ∅
      extensionsWriter := none }
  | scan : choice.order.Perm m.deadExtensions → Advances .scan (monitorNext choice.order) m

variable {env n choice m}
variable {pc' : Pc} {m' : Manager}

theorem LoadPc.advances_of_advance {caller : Caller} {pc : LoadPc}
    (h : pc.advance env choice m caller = some (pc', m')) :
    Advances env n choice m (.load caller pc) pc' m' := by
  cases pc with
  | fastPath path =>
    simp only [LoadPc.advance] at h
    split at h
    · rename_i hid
      cases h
      exact .legacy hid
    · rename_i id hid
      split at h
      · cases of_readExtensions h
        exact .listed hid
      · cases of_readExtensions h
        exact .unlisted hid
  | fastInfo path id =>
    simp only [LoadPc.advance] at h
    split at h
    · cases h
      exact .cached
    · cases h
      exact .uncached
  | lock path g =>
    simp only [LoadPc.advance, map_eq_some_iff] at h
    obtain ⟨m₁, hm, h⟩ := h
    cases h
    exact .lock hm
  | recheck path g =>
    simp only [LoadPc.advance] at h
    split at h
    · cases of_readExtensions h
      exact .recheckListed
    · rename_i hmem
      cases of_readExtensions h
      exact .recheckUnlisted (AList.lookup_eq_none.mpr hmem)
  | loadIsolated path g =>
    simp only [LoadPc.advance] at h
    split at h
    · cases h
      exact .spawnFailed
    · cases h
      exact .spawnFailed
    · rename_i id hstarted
      cases h
      exact .spawned hstarted
  | insert path g d pid =>
    simp only [LoadPc.advance, writeExtensions_eq_some] at h
    obtain ⟨⟨hwriter, -⟩, h⟩ := h
    cases h
    exact .insert hwriter
  | readBack path g id =>
    simp only [LoadPc.advance] at h
    split at h
    · cases h
      exact .readBack
    · cases h
      exact .readBackFailed
  | returning g result =>
    cases g with
    | none | some g =>
      cases h
      constructor
  | getLock | recheckInfo | register | preserve | cache | removeLock =>
    cases h
    constructor

theorem LazyPc.advances_of_advance {pc : LazyPc} (h : pc.advance env n m = some (pc', m')) :
    Advances env n choice m (.lazyRestart pc) pc' m' := by
  cases pc with
  | policy id =>
    simp only [LazyPc.advance] at h
    split at h
    · cases h
      exact .lazyPolicy
    · cases h
      exact .lazyRefused
  | readPath id =>
    simp only [LazyPc.advance] at h
    split at h
    · rename_i info hinfo
      cases h
      exact .lazyPath hinfo
    · cases h
      exact .lazyUncached
  | lock path g =>
    simp only [LazyPc.advance, map_eq_some_iff] at h
    obtain ⟨m₁, hm, h⟩ := h
    cases h
    exact .lazyLock hm
  | recheck path g =>
    simp only [LazyPc.advance] at h
    split at h
    · cases of_readExtensions h
      exact .lazyAlive
    · rename_i hdead
      cases of_readExtensions h
      exact .lazyDead hdead
  | stop path g =>
    simp only [LazyPc.advance] at h
    split at h
    · cases of_readExtensions h
      exact .lazyStop
    · cases of_readExtensions h
      exact .lazyUnlisted
  | remove path g =>
    simp only [LazyPc.advance, writeExtensions_eq_some] at h
    obtain ⟨⟨hwriter, -⟩, h⟩ := h
    cases h
    exact .lazyRemove g hwriter
  | get g =>
    cases of_readExtensions h
    exact .lazyGet
  | getLock | stopping | track | returning =>
    cases h
    constructor

theorem MonitorPc.advances_of_advance {id : ExtensionId} {rest : List ExtensionId}
    {pc : MonitorPc} (h : pc.advance env n m id rest = some (pc', m')) :
    Advances env n choice m (.monitor id rest pc) pc' m' := by
  cases pc with
  | policy =>
    simp only [MonitorPc.advance] at h
    split at h
    · cases h
      exact .policy
    · cases h
      exact .refused rest
  | readPath =>
    simp only [MonitorPc.advance] at h
    split at h
    · rename_i info hinfo
      cases h
      exact .path hinfo
    · cases h
      exact .pathUncached rest
  | remove path =>
    simp only [MonitorPc.advance, writeExtensions_eq_some] at h
    obtain ⟨⟨hwriter, -⟩, h⟩ := h
    cases h
    exact .remove id hwriter
  | healthCheck =>
    cases of_readExtensions h
    exact .healthCheck
  | checking | track =>
    cases h
    constructor

theorem UnloadPc.advances_of_advance {id : ExtensionId} {pc : UnloadPc}
    (h : pc.advance n m id = some (pc', m')) :
    Advances env n choice m (.unload id pc) pc' m' := by
  cases pc with
  | remove =>
    simp only [UnloadPc.advance] at h
    split at h
    · rename_i pid hpid
      rw [writeExtensions_eq_some] at h
      obtain ⟨⟨hwriter, -⟩, h⟩ := h
      cases h
      exact .unload pid hpid hwriter
    · rename_i hnone
      rw [writeExtensions_eq_some] at h
      obtain ⟨⟨hwriter, -⟩, h⟩ := h
      cases h
      exact .unloadUnlisted hnone hwriter
  | stop | info | events | removeLock =>
    cases h
    constructor

/-- A section takes one of the branches. -/
theorem Pc.advances_of_advance {pc : Pc} (h : pc.advance env n choice m = some (pc', m')) :
    Advances env n choice m pc pc' m' := by
  cases pc with
  | load caller pc => exact LoadPc.advances_of_advance h
  | unload id pc => exact UnloadPc.advances_of_advance h
  | lazyRestart pc => exact LazyPc.advances_of_advance h
  | monitor id rest pc => exact MonitorPc.advances_of_advance h
  | execute id =>
    simp only [Pc.advance] at h
    split at h
    · cases of_readExtensions h
      exact .notFound
    · split at h
      · cases of_readExtensions h
        exact .execute
      · cases of_readExtensions h
        exact .executeDead
  | executing | executeAgain =>
    cases h
    constructor
  | stopAll =>
    simp only [Pc.advance] at h
    split at h
    · rename_i hperm
      rw [writeExtensions_eq_some] at h
      obtain ⟨⟨hwriter, -⟩, h⟩ := h
      cases h
      exact .stopAll hperm hwriter
    · cases h
  | stoppingAll rest =>
    cases rest with
    | nil =>
      cases h
      exact .stopped
    | cons id rest =>
      simp only [Pc.advance] at h
      split at h
      · rename_i pid hpid
        cases h
        exact .stopNext pid hpid
      · rename_i hnone
        cases h
        exact .stopUnlisted hnone
  | scan =>
    simp only [Pc.advance] at h
    split at h
    · rename_i hperm
      cases of_readExtensions h
      exact .scan hperm
    · cases h
  | answered reply => cases h

/-- A step in which a task runs is one of its sections. -/
theorem advances_of_step {s s' : Server} (hs : step env s (.run n choice) = some s') :
    ∃ pc pc' m', s.tasks[n]? = some pc ∧ Advances env n choice s.manager pc pc' m' ∧
      s' = ⟨m', s.tasks.set n pc'⟩ := by
  simp only [step] at hs
  split at hs
  · cases hs
  · rename_i pc hn
    split at hs
    · cases hs
    · rename_i pc' m' hadv
      cases hs
      exact ⟨pc, pc', m', hn, Pc.advances_of_advance hadv, rfl⟩

/-- A task after a section of task `n`. -/
theorem task_of_set {tasks : List Pc} {n' : TaskId} {q : Pc}
    (h : (tasks.set n pc')[n']? = some q) :
    (n' = n ∧ q = pc') ∨ (n' ≠ n ∧ tasks[n']? = some q) := by
  by_cases hn : n' = n
  · subst hn
    obtain ⟨hlt, hq⟩ := List.getElem?_eq_some_iff.mp h
    rw [List.getElem_set_self] at hq
    exact Or.inl ⟨rfl, hq.symm⟩
  · rw [List.getElem?_set_ne (Ne.symm hn)] at h
    exact Or.inr ⟨hn, h⟩

end Inversion

end HeraMind.Extension
