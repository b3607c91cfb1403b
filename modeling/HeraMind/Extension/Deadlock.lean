/-
# Waiting for locks

Which locks a task of the manager holds and which one it requests, section by section: the
loading locks, the lock of `extensions`, and that of the table `loading_locks`, which nobody
keeps from one section to the next.  `unload` requests the table while it holds `extensions`,
and `load` requests either while it holds a loading lock, so a loading lock comes before
`extensions` and `extensions` before the table.

What has no place in this order is the call of `load` in `try_lazy_restart`: it requests a
loading lock while its caller holds one.  As a rule it is the same one, since the path is that
of the extension the caller has locked, and then the task waits for itself.
-/
import HeraMind.Lib.LockOrder
import HeraMind.Extension.OneProcess
import Mathlib.Data.Prod.Lex

namespace HeraMind.Extension

open List
open Transition LockOrder

/-! ## Locks that are held and requested -/

/-- The locks of the manager. -/
inductive Lock : Type where
  | loading (l : LockId)
  | extensions
  | loadingLocks

/-- The guard that the caller of `load` holds. -/
def Caller.guard : Caller → Option LoadingLock
  | .external => none
  | .lazyRestart held => some held
  | .monitor _ _ => none

/-- The guard that `load` holds itself. -/
def LoadPc.guard : LoadPc → Option LoadingLock
  | .fastPath _ | .fastInfo _ _ | .getLock _ _ | .lock _ _ => none
  | .recheck _ g | .recheckInfo g => some g
  | .loadIsolated _ g | .register _ g _ _ | .insert _ g _ _ | .preserve _ g _ | .cache _ g _ _
  | .readBack _ g _ => g
  | .removeLock g _ => some g
  | .returning g _ => g

/-- The guard that `try_lazy_restart` holds. -/
def LazyPc.guard : LazyPc → Option LoadingLock
  | .policy _ | .readPath _ | .getLock _ _ | .lock _ _ => none
  | .recheck _ g | .stop _ g | .stopping _ g _ | .remove _ g | .track g | .get g | .returning g _ =>
    some g

/-- The guards of loading locks that a task holds. -/
def Pc.guards : Pc → List LoadingLock
  | .load caller pc => caller.guard.toList ++ pc.guard.toList
  | .lazyRestart pc => pc.guard.toList
  | _ => []

/-- The task holds a guard of `extensions`, to read or to write. -/
def Pc.inExtensions : Pc → Bool
  | .lazyRestart (.stopping _ _ _) => true
  | .unload _ .remove => false
  | .unload _ _ | .executing | .stoppingAll _ | .monitor _ _ .checking => true
  | _ => false

/-- The locks that a task holds before its next section. -/
def Pc.holds (pc : Pc) : List Lock :=
  pc.guards.map (fun g => .loading g.lock) ++ if pc.inExtensions then [.extensions] else []

section Requests

variable (env : Env)

def LoadPc.request : LoadPc → Option Lock
  | .fastPath path => (readExtensionIdFromManifest env path).map fun _ => .extensions
  | .fastInfo _ _ => none
  | .getLock _ _ => some .loadingLocks
  | .lock _ g => some (.loading g.lock)
  | .recheck _ _ => some .extensions
  | .recheckInfo _ | .loadIsolated _ _ | .register _ _ _ _ => none
  | .insert _ _ _ _ => some .extensions
  | .preserve _ _ _ | .cache _ _ _ _ | .readBack _ _ _ => none
  | .removeLock _ _ => some .loadingLocks
  | .returning _ _ => none

def LazyPc.request : LazyPc → Option Lock
  | .policy _ | .readPath _ => none
  | .getLock _ _ => some .loadingLocks
  | .lock _ g => some (.loading g.lock)
  | .recheck _ _ | .stop _ _ => some .extensions
  | .stopping _ _ _ => none
  | .remove _ _ => some .extensions
  | .track _ => none
  | .get _ => some .extensions
  | .returning _ _ => none

/-- The lock that a task requests in its next section. -/
def Pc.request : Pc → Option Lock
  | .load _ pc => pc.request env
  | .unload _ .remove => some .extensions
  | .unload _ .removeLock => some .loadingLocks
  | .unload _ _ => none
  | .execute _ => some .extensions
  | .executing => none
  | .lazyRestart pc => pc.request
  | .executeAgain => none
  | .stopAll => some .extensions
  | .stoppingAll _ => none
  | .scan | .monitor _ _ (.remove _) | .monitor _ _ .healthCheck => some .extensions
  | .monitor _ _ _ | .answered _ => none

/-- Some task holds the one lock while it requests the other. -/
def Server.Waits (s : Server) (k l : Lock) : Prop :=
  ∃ (n : TaskId) (pc : Pc), s.tasks[n]? = some pc ∧ k ∈ pc.holds ∧ pc.request env = some l

/-- In some state of a run a task holds the one lock while it requests the other. -/
def HeldWhileRequested (tr : List (Server × Label)) (s : Server) (k l : Lock) : Prop :=
  s.Waits env k l ∨ ∃ e ∈ tr, e.1.Waits env k l

/-- No task ever requests a lock that it holds, and the locks that are held and those that are
requested meanwhile form no circle. -/
structure NeverWaitsForItself (tr : List (Server × Label)) (s : Server) : Prop where
  other : ∀ k, ¬ HeldWhileRequested env tr s k k
  acyclic : Acyclic (HeldWhileRequested env tr s)

end Requests

/-! ## The call of `load` in `try_lazy_restart` -/

section Ascending

variable (rank : LockId → ℕ)

/-- A section of the `load` that `try_lazy_restart` calls asks for a loading lock that ranks
higher than the one of its caller. -/
def Pc.ascends (m : Manager) : Pc → Bool
  | .load caller (.getLock _ id) =>
    caller.guard.all fun held => decide (rank held.lock < rank (m.loadingLock id).1)
  | _ => true

/-- Every section of such a `load` does. -/
def Ascending (s : Server) : Label → Prop
  | .run n _ => s.tasks[n]?.all (Pc.ascends rank s.manager) = true
  | _ => True

instance (s : Server) (a : Label) : Decidable (Ascending rank s a) := by
  cases a <;> unfold Ascending <;> infer_instance

/-- What `Ascending` comes to while the task waits. -/
def Pc.Ordered : Pc → Prop
  | .load caller (.lock _ g) => ∀ held ∈ caller.guard, rank held.lock < rank g.lock
  | _ => True

end Ascending

/-- The rank of all locks. -/
def lockRank (rank : LockId → ℕ) : Lock → ℕ ×ₗ ℕ
  | .loading l => toLex (0, rank l)
  | .extensions => toLex (1, 0)
  | .loadingLocks => toLex (2, 0)

section Waits

variable {env : Env} {rank : LockId → ℕ} {pc : Pc}

@[simp] theorem mem_holds {k : Lock} :
    k ∈ pc.holds ↔
      (∃ g ∈ pc.guards, .loading g.lock = k) ∨ (pc.inExtensions = true ∧ k = .extensions) := by
  unfold Pc.holds
  cases pc.inExtensions <;> simp

/-- Nobody requests `extensions` twice. -/
theorem inExtensions_of_request (h : pc.request env = some .extensions) :
    pc.inExtensions = false := by
  cases pc with
  | load caller pc => rfl
  | unload id pc | lazyRestart pc | monitor id rest pc => cases pc <;> first | rfl | cases h
  | executing | stoppingAll rest => cases h
  | _ => rfl

/-- Only the `load` that `try_lazy_restart` calls requests a loading lock while a guard of one
is held. -/
theorem load_of_request_loading {l : LockId} (h : pc.request env = some (.loading l)) :
    pc.inExtensions = false ∧ ∀ held ∈ pc.guards, ∃ path g,
      pc = .load (.lazyRestart held) (.lock path g) ∧ g.lock = l := by
  cases pc with
  | load caller pc =>
    cases pc with
    | fastPath path =>
      simp only [Pc.request, LoadPc.request, Option.map_eq_some_iff] at h
      obtain ⟨-, -, h⟩ := h
      cases h
    | lock path g =>
      cases h
      refine ⟨rfl, fun held hheld => ⟨path, g, ?_, rfl⟩⟩
      cases caller with
      | lazyRestart held' => simp_all [Pc.guards, Caller.guard, LoadPc.guard]
      | _ => simp [Pc.guards, Caller.guard, LoadPc.guard] at hheld
    | _ => cases h
  | lazyRestart pc =>
    cases pc with
    | lock path g => exact ⟨rfl, fun held hheld => by simp [Pc.guards, LazyPc.guard] at hheld⟩
    | _ => cases h
  | unload id pc | monitor id rest pc => cases pc <;> cases h
  | _ => cases h

theorem lockRank_lt_of_ordered {k l : Lock} (h : pc.Ordered rank) (hk : k ∈ pc.holds)
    (hl : pc.request env = some l) : lockRank rank k < lockRank rank l := by
  rw [mem_holds] at hk
  cases l with
  | loading l =>
    obtain ⟨hin, hguards⟩ := load_of_request_loading hl
    rcases hk with ⟨held, hheld, rfl⟩ | ⟨hin', -⟩
    · obtain ⟨path, g, rfl, rfl⟩ := hguards held hheld
      exact Prod.Lex.toLex_lt_toLex.mpr (Or.inr ⟨rfl, h held rfl⟩)
    · rw [hin] at hin'
      cases hin'
  | extensions =>
    rcases hk with ⟨held, -, rfl⟩ | ⟨hin, -⟩
    · exact Prod.Lex.toLex_lt_toLex.mpr (Or.inl (Nat.zero_lt_succ _))
    · rw [inExtensions_of_request hl] at hin
      cases hin
  | loadingLocks =>
    rcases hk with ⟨held, -, rfl⟩ | ⟨-, rfl⟩
    · exact Prod.Lex.toLex_lt_toLex.mpr (Or.inl (Nat.zero_lt_succ _))
    · exact Prod.Lex.toLex_lt_toLex.mpr (Or.inl (Nat.lt_succ_self 1))

theorem ordered_monitorNext (rest : List ExtensionId) : (monitorNext rest).Ordered rank := by
  cases rest <;> trivial

theorem ordered_resume (caller : Caller) (result : LoadResult) :
    (caller.resume result).Ordered rank := by
  cases caller with
  | external => trivial
  | lazyRestart held => cases result <;> trivial
  | monitor id rest =>
    cases result with
    | ok _ => trivial
    | error _ => exact ordered_monitorNext rest

theorem ordered_loadFailed (caller : Caller) (g : Option LoadingLock)
    (e : IsolatedExtensionError) : (Pc.load caller (loadFailed g e)).Ordered rank := by
  cases g <;> trivial

variable {n : TaskId} {choice : Choice} {m m' : Manager} {pc' : Pc}

/-- A task comes to wait for a loading lock by asking for it in the section before. -/
theorem Pc.ordered_of_advances (hasc : pc.ascends rank m = true)
    (h : Advances env n choice m pc pc' m') : pc'.Ordered rank := by
  cases h with
  | getLock id =>
    intro held hheld
    simp only [Pc.ascends, Option.all_eq_true, decide_eq_true_eq] at hasc
    exact hasc held hheld
  | spawnFailed | readBackFailed => exact ordered_loadFailed _ _ _
  | returned caller result | returnedLocked caller g result => exact ordered_resume caller result
  | lazyReturned g restarted => cases restarted <;> trivial
  | refused rest | pathUncached rest | track id rest => exact ordered_monitorNext rest
  | scan => exact ordered_monitorNext _
  | _ => trivial

end Waits

/-! ## Runs -/

section Runs

variable {env : Env} {rank : LockId → ℕ} {now : ℤ} {tr : List (Server × Label)} {s s' : Server}

/-- Every task that waits for a loading lock does so in order. -/
def Server.Ordered (rank : LockId → ℕ) (s : Server) : Prop :=
  ∀ (n : TaskId) (pc : Pc), s.tasks[n]? = some pc → pc.Ordered rank

theorem Server.Ordered.step {a : Label} (h : s.Ordered rank) (hasc : Ascending rank s a)
    (hs : step env s a = some s') : s'.Ordered rank := by
  cases a with
  | tick secs | exit pid =>
    cases hs
    exact h
  | call c =>
    cases hs
    intro n pc hn
    rw [getElem?_append] at hn
    split at hn
    · exact h n pc hn
    · rw [getElem?_singleton] at hn
      split at hn
      · cases hn
        cases c <;> trivial
      · cases hn
  | run n choice =>
    obtain ⟨pc, pc', m', hn, hadv, rfl⟩ := advances_of_step hs
    simp only [Ascending, hn, Option.all_some] at hasc
    intro n' q hn'
    rcases task_of_set hn' with ⟨rfl, rfl⟩ | ⟨-, hold⟩
    · exact Pc.ordered_of_advances hasc hadv
    · exact h n' q hold

theorem ordered_of_run (hrun : Run (step env) (Server.new now) tr s)
    (hasc : Within (Ascending rank) tr) : s.Ordered rank := by
  apply hrun.invariant hasc
  · intro n pc hn
    cases hn
  · intro s a s' h hasc hs
    exact h.step hasc hs

theorem Server.Ordered.lt_of_waits (h : s.Ordered rank) {k l : Lock} (hw : s.Waits env k l) :
    lockRank rank k < lockRank rank l := by
  obtain ⟨n, pc, hn, hk, hl⟩ := hw
  exact lockRank_lt_of_ordered (h n pc hn) hk hl

theorem lt_of_heldWhileRequested (hrun : Run (step env) (Server.new now) tr s)
    (hasc : Within (Ascending rank) tr) {k l : Lock} (h : HeldWhileRequested env tr s k l) :
    lockRank rank k < lockRank rank l := by
  rcases h with h | ⟨e, he, h⟩
  · exact (ordered_of_run hrun hasc).lt_of_waits h
  · obtain ⟨post, pre, rfl, hpre⟩ := hrun.upTo he
    have hasc' := (within_cons.mp (within_append.mp hasc).2).2
    exact (ordered_of_run hpre hasc').lt_of_waits h

/-- Only finitely many locks are held in a run. -/
theorem finite_heldWhileRequested (env : Env) (tr : List (Server × Label)) (s : Server) :
    {k | ∃ l, HeldWhileRequested env tr s k l}.Finite := by
  apply (finite_toSet ((s :: tr.map Prod.fst).flatMap fun t => t.tasks.flatMap Pc.holds)).subset
  rintro k ⟨l, h⟩
  simp only [Set.mem_ofPred_eq, mem_flatMap, mem_cons, mem_map]
  rcases h with ⟨n, pc, hn, hk, -⟩ | ⟨e, he, n, pc, hn, hk, -⟩
  · exact ⟨s, Or.inl rfl, pc, mem_of_getElem? hn, hk⟩
  · exact ⟨e.1, Or.inr ⟨e, he, rfl⟩, pc, mem_of_getElem? hn, hk⟩

/-- Where the `load` of a `try_lazy_restart` asks for a loading lock, it waits for it in the
next state. -/
theorem heldWhileRequested_of_getLock (hrun : Run (step env) (Server.new now) tr s)
    {t : Server} {n : TaskId} {choice : Choice} (he : (t, .run n choice) ∈ tr) {caller : Caller}
    {path : PathBuf} {id : ExtensionId} (hn : t.tasks[n]? = some (.load caller (.getLock path id)))
    {held : LoadingLock} (hheld : held ∈ caller.guard) :
    HeldWhileRequested env tr s (.loading held.lock) (.loading (t.manager.loadingLock id).1) := by
  obtain ⟨t', ht', hseen⟩ := hrun.next_of_mem he
  simp only [step, hn, Pc.advance, LoadPc.advance, Option.some.injEq] at ht'
  have hwaits : t'.Waits env (.loading held.lock) (.loading (t.manager.loadingLock id).1) := by
    subst ht'
    refine ⟨n, .load caller (.lock path ⟨id, (t.manager.loadingLock id).1⟩), ?_, ?_, rfl⟩
    · exact getElem?_set_self (List.getElem?_eq_some_iff.mp hn).1
    · rw [mem_holds]
      left
      exact ⟨held, mem_append_left _ (Option.mem_toList.mpr hheld), rfl⟩
  rcases hseen with rfl | ⟨e, he', rfl⟩
  · exact Or.inl hwaits
  · exact Or.inr ⟨e, he', hwaits⟩

/-- No task of a run waits for itself, alone or in a circle, exactly when the loading locks
can be ranked so that the `load` a `try_lazy_restart` calls always asks for a higher one than
its caller holds. -/
theorem neverWaitsForItself_iff (env : Env) (now : ℤ) (tr : List (Server × Label)) (s : Server)
    (hrun : Run (step env) (Server.new now) tr s) :
    NeverWaitsForItself env tr s ↔ ∃ rank : LockId → ℕ, Within (Ascending rank) tr := by
  constructor
  · intro h
    obtain ⟨rank, hrank⟩ := h.acyclic.exists_rank (finite_heldWhileRequested env tr s)
    refine ⟨fun l => rank (.loading l), fun e he => ?_⟩
    obtain ⟨t, a⟩ := e
    cases a with
    | run n choice =>
      simp only [Ascending, Option.all_eq_true]
      intro pc hn
      cases pc with
      | load caller pc =>
        cases pc with
        | getLock path id =>
          simp only [Pc.ascends, Option.all_eq_true, decide_eq_true_eq]
          intro held hheld
          exact hrank _ _ (heldWhileRequested_of_getLock hrun he hn hheld)
        | _ => rfl
      | _ => rfl
    | _ => trivial
  · rintro ⟨rank, hasc⟩
    have hlt := fun k l => lt_of_heldWhileRequested (k := k) (l := l) hrun hasc
    exact ⟨fun k hk => lt_irrefl _ (hlt k k hk), acyclic_of_rank (lockRank rank) hlt⟩

end Runs

/-! ## A task that waits for itself -/

namespace Sample

/-- A command for an extension that has crashed, up to where the task asks for the loading
lock that it has. -/
def crashed : List Label :=
  [.call (.load weather), .call (.executeCommand "weather")] ++ run 0 11 ++ [.exit 0] ++ run 1 11

/-- The same for a binary without a manifest, which is loaded without a lock. -/
def crashedLegacy : List Label :=
  [.call (.load legacy), .call (.executeCommand "weather")] ++ run 0 8 ++ [.exit 0] ++ run 1 21

/-- A restart under the loading lock 0 that asks for this lock. -/
def restartsUnderLock : Pc → Bool
  | .load (.lazyRestart held) (.lock _ g) => decide (held.lock = 0 ∧ g.lock = 0)
  | _ => false

end Sample

/-- A command that finds its extension crashed and restarts it. -/
theorem neverWaitsForItself_of_legacy :
    ∃ tr s, Run (step Sample.env) (Server.new 0) tr s ∧ s.manager.liveId 1 = some "weather" ∧
      NeverWaitsForItself Sample.env tr s := by
  obtain ⟨tr, s, hrun, hasc, hlive⟩ := exists_run (step Sample.env) (Server.new 0)
    Sample.crashedLegacy
    (fun tr s => Within (Ascending id) tr ∧ s.manager.liveId 1 = some "weather")
    (by decide)
  exact ⟨tr, s, hrun, hlive, (neverWaitsForItself_iff Sample.env 0 tr s hrun).mpr ⟨id, hasc⟩⟩

/-- The restart of a crashed extension with a manifest waits for the loading lock that it holds
itself, and cannot go on. -/
theorem lazy_restart_waits_for_itself :
    ∃ tr s, Run (step Sample.env) (Server.new 0) tr s ∧
      s.Waits Sample.env (.loading 0) (.loading 0) ∧
      (∀ choice, step Sample.env s (.run 1 choice) = none) ∧
      ¬ NeverWaitsForItself Sample.env tr s := by
  obtain ⟨tr, s, hrun, hp, htaken⟩ := exists_run (step Sample.env) (Server.new 0) Sample.crashed
    (fun _ s => s.tasks[1]?.any Sample.restartsUnderLock = true ∧
      s.manager.locks[0]? = some true) (by decide)
  rw [Option.any_eq_true] at hp
  obtain ⟨pc, hn, hpc⟩ := hp
  unfold Sample.restartsUnderLock at hpc
  split at hpc
  · rename_i held path g
    obtain ⟨hheld, hg⟩ := of_decide_eq_true hpc
    have hwaits : s.Waits Sample.env (.loading 0) (.loading 0) := by
      refine ⟨1, _, hn, mem_holds.mpr (Or.inl ⟨held, by simp [Pc.guards, Caller.guard], ?_⟩), ?_⟩
      · rw [hheld]
      · show some (Lock.loading g.lock) = _
        rw [hg]
    refine ⟨tr, s, hrun, hwaits, fun choice => ?_, fun h => h.other _ (Or.inl hwaits)⟩
    simp [step, hn, Pc.advance, LoadPc.advance, Manager.takeLock, hg, htaken]
  · cases hpc

end HeraMind.Extension
