/-
# One process for each extension

Loads of the same extension exclude each other by a loading lock, which is kept in a table
and removed from it by loads that fail and by `unload`.  Whoever still waits for a removed
lock and whoever asks for a new one then load at the same time, and the process of one of
them is lost from the map while it runs.

As long as the precautions are taken this cannot happen.  Each of them is needed.
-/
import HeraMind.Extension.LoadingLock

namespace HeraMind.Extension

open Option
open Transition LockTable
open Manager (liveId_eq_some)

/-! ## The claim -/

namespace Server

variable (env : Env) (s : Server)

/-- The manifest id for which task `n` executes `load_internal`. -/
def loading (n : TaskId) : Option ExtensionId :=
  (s.tasks[n]?.bind Pc.internal).bind (readExtensionIdFromManifest env)

/-- No two loads of an extension overlap, and it has at most one live process: the one in
the map, or the one that a load is about to store there. -/
structure OneProcess : Prop where
  exclusive : ∀ n n' id, s.loading env n = some id → s.loading env n' = some id → n = n'
  unique : ∀ pid pid' id, s.manager.liveId pid = some id → s.manager.liveId pid' = some id →
    pid = pid'
  mapped : ∀ pid id, s.manager.liveId pid = some id →
    s.manager.extensions.lookup id = some pid ∨ ∃ n, s.starting n = some pid

end Server

/-! ## One process -/

section Careful

variable {env : Env} {m : Manager} {n : TaskId} {pc : Pc}

/-- A running `load_internal` holds the lock of its manifest id. -/
theorem session_of_internal {path : PathBuf} (hok : pc.Ok env n m)
    (h : pc.internal = some path) :
    ∃ g : LoadingLock, readExtensionIdFromManifest env path = some g.id ∧
      pc.session .load = some (g.session .holding) := by
  cases pc with
  | load caller pc =>
    cases pc with
    | loadIsolated path g | register path g d pid | insert path g d pid =>
      cases h
      obtain ⟨held, ⟨rfl, hid⟩, -⟩ := hok
      exact ⟨held, hid, rfl⟩
    | preserve path g d | cache path g d preserved | readBack path g id =>
      cases h
      obtain ⟨held, ⟨rfl, hid⟩⟩ := hok
      exact ⟨held, hid, rfl⟩
    | _ => cases h
  | _ => cases h

/-- A process that is about to be stored runs under the id whose lock the task holds, and
nothing is stored under it. -/
theorem session_of_starting {pid : ProcessId} (hok : pc.Ok env n m)
    (h : pc.starting = some pid) :
    ∃ (g : LoadingLock) (d : ExtensionDescriptor), d.id = g.id ∧ m.descriptorOf pid = some d ∧
      m.extensions.lookup g.id = none ∧ pc.session .load = some (g.session .holding) := by
  cases pc with
  | load caller pc =>
    cases pc with
    | register path g d pid' | insert path g d pid' =>
      cases h
      obtain ⟨held, ⟨rfl, hid⟩, hl, hdid, hd⟩ := hok
      exact ⟨held, d, hdid, hd, hl, rfl⟩
    | _ => cases h
  | _ => cases h

theorem Inv.exclusive {s : Server} (h : Inv env s) {n n' : TaskId} {id : ExtensionId}
    (hn : s.loading env n = some id) (hn' : s.loading env n' = some id) : n = n' := by
  simp only [Server.loading, bind_eq_some_iff] at hn hn'
  obtain ⟨path, ⟨pc, hpc, hpath⟩, hid⟩ := hn
  obtain ⟨path', ⟨pc', hpc', hpath'⟩, hid'⟩ := hn'
  obtain ⟨g, hg, hsession⟩ := session_of_internal (h.ok n pc hpc) hpath
  obtain ⟨g', hg', hsession'⟩ := session_of_internal (h.ok n' pc' hpc') hpath'
  have hkey : g.id = g'.id := by
    rw [hg, some.injEq] at hid
    rw [hg', some.injEq] at hid'
    rw [hid, hid']
  have heq := h.locks.exclusive ((sessions_self hpc .load).trans hsession)
    ((sessions_self hpc' .load).trans hsession') rfl rfl hkey
  exact congrArg Prod.fst heq

/-- What is known of a live process that is about to be stored. -/
theorem Inv.starting {s : Server} (h : Inv env s) {pid : ProcessId} {id : ExtensionId}
    (hlive : s.manager.liveId pid = some id) (hn : s.starting n = some pid) :
    ∃ (pc : Pc) (g : LoadingLock), s.tasks[n]? = some pc ∧ pc.starting = some pid ∧ g.id = id ∧
      s.manager.extensions.lookup id = none ∧ pc.session .load = some (g.session .holding) := by
  simp only [Server.starting, bind_eq_some_iff] at hn
  obtain ⟨pc, hpc, hpid⟩ := hn
  obtain ⟨g, d, hdid, hd, hl, hsession⟩ := session_of_starting (h.ok n pc hpc) hpid
  obtain ⟨-, d', hd', hid⟩ := liveId_eq_some.mp hlive
  rw [hd, some.injEq] at hd'
  subst hd'
  have hgid : g.id = id := by rw [← hdid, hid]
  subst hgid
  exact ⟨pc, g, hpc, hpid, rfl, hl, hsession⟩

theorem Inv.oneProcess {s : Server} (h : Inv env s) : s.OneProcess env where
  exclusive _ _ _ hn hn' := h.exclusive hn hn'
  unique pid pid' id hlive hlive' := by
    rcases h.mapped pid id hlive with hstored | ⟨n, hn⟩
    · rcases h.mapped pid' id hlive' with hstored' | ⟨n', hn'⟩
      · rw [hstored, some.injEq] at hstored'
        exact hstored'
      · obtain ⟨-, -, -, -, -, hnone, -⟩ := h.starting hlive' hn'
        rw [hstored] at hnone
        cases hnone
    · obtain ⟨pc, g, hpc, hpid, hg, hnone, hsession⟩ := h.starting hlive hn
      rcases h.mapped pid' id hlive' with hstored' | ⟨n', hn'⟩
      · rw [hstored'] at hnone
        cases hnone
      · -- both are about to be stored, by one task, which stores one process
        obtain ⟨pc', g', hpc', hpid', hg', -, hsession'⟩ := h.starting hlive' hn'
        have heq := h.locks.exclusive ((sessions_self hpc .load).trans hsession)
          ((sessions_self hpc' .load).trans hsession') rfl rfl (hg.trans hg'.symm)
        have hsame : n = n' := congrArg Prod.fst heq
        subst hsame
        rw [hpc, some.injEq] at hpc'
        subst hpc'
        rw [hpid, some.injEq] at hpid'
        exact hpid'
  mapped := h.mapped

end Careful

/-! ## What the precautions are for -/

namespace Sample

/-- A package `weather`, and a package `beta` with another id in its manifest. -/
def env : Env where
  manifestId := fun path =>
    if path = ["manifest.json", "weather"] then some "weather"
    else if path = ["manifest.json", "beta"] then some "weather-beta"
    else none
  restartOnCrash := true
  maxRestartAttempts := 3
  restartCooldownSecs := 5

def weather : PathBuf := ["extension.so", "linux_x86_64", "binaries", "weather"]

def beta : PathBuf := ["extension.so", "linux_x86_64", "binaries", "beta"]

/-- A binary without a manifest. -/
def legacy : PathBuf := ["extension.so"]

/-- The next sections of task `n`; if it starts a process, that one says it is `weather`. -/
def run (n : TaskId) (sections : ℕ) : List Label :=
  List.replicate sections (.run n ⟨.ok (some "weather"), .ok "", ["weather"]⟩)

/-- The next section of task `n`, which fails to start a process. -/
def fail (n : TaskId) : Label := .run n ⟨.error (.spawnFailed "no runner"), .ok "", []⟩

/-- The first load fails while the second waits for its lock; the third gets a new one. -/
def failedLoad : List Label :=
  [.call (.load weather), .call (.load weather), .call (.load weather)]
    ++ run 0 4 ++ run 1 2 ++ [fail 0] ++ run 0 1 ++ run 2 4 ++ run 0 1 ++ run 1 2

/-- For each precaution a run in which it is the only one that is not taken. -/
def careless : Precaution → List Label
  | .manifest => [.call (.load legacy), .call (.load weather)] ++ run 0 2 ++ run 1 5
  | .descriptor => [.call (.load beta), .call (.load weather)] ++ run 0 5 ++ run 1 5
  | .failedLoad => failedLoad ++ run 1 1 ++ run 2 1
  | .unload =>
    [.call (.load weather), .call (.unload "weather"), .call (.load weather)]
      ++ run 0 4 ++ run 1 2 ++ run 2 5 ++ run 0 1
  | .monitor =>
    [.call (.load weather), .call .deathNotification, .call (.unload "weather"),
      .call (.load weather)]
      ++ run 0 11 ++ [.exit 0] ++ run 1 3 ++ run 2 5 ++ run 3 11 ++ run 1 6

end Sample

/-- Each precaution is needed: there is a run in which it is the only one not taken and which
ends with two live processes of one extension. -/
theorem precaution_needed (c : Precaution) :
    ∃ tr s, Run (step Sample.env) (Server.new 0) tr s ∧
      Within (fun s a => ∀ c', c' ≠ c → c'.taken Sample.env s a = true) tr ∧
      ¬ s.OneProcess Sample.env := by
  obtain ⟨tr, s, hrun, ⟨pid, hlive, hlive'⟩, hwithin⟩ := exists_run (step Sample.env)
    (Server.new 0) (Sample.careless c)
    (fun tr s => (∃ pid : Fin 2, s.manager.liveId pid = some "weather" ∧
        s.manager.liveId (pid.val + 1) = some "weather") ∧
      Within (fun s a => ∀ c', c' ≠ c → c'.taken Sample.env s a = true) tr)
    (by cases c <;> decide)
  refine ⟨tr, s, hrun, hwithin, fun h => ?_⟩
  have heq := h.unique pid (pid + 1) "weather" hlive hlive'
  exact absurd heq (Nat.succ_ne_self pid).symm

end HeraMind.Extension
