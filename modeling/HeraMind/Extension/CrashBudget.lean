/-
# The crash budget

After a crash the death monitor restarts an extension unless the budget of restarts is used
up.  The counters of the restarts are kept in the info cache, where a reload of the same path
finds them again; after an hour without a restart the monitor takes the count for zero, but
it does not set it back, so that the restart it then makes is counted on top of all others.
The policy of `try_lazy_restart` does not know the hour.

A restart is one that the death monitor or `try_lazy_restart` notes, whatever runs beside it.  A
crash that sends a notification starts a pass of the death monitor, and a pass comes to every
extension that it found dead; a crash without a notification starts nothing.
-/
import HeraMind.Extension.OneProcess

namespace HeraMind.Extension

open Option
open AList
open List
open Transition
open Manager (takeLock_eq_some)

/-! ## Restarts -/

section Restarts

variable (id : ExtensionId)

/-- A restart is noted. -/
def Pc.tracks : Pc → Bool
  | .monitor id' _ .track => decide (id' = id)
  | .lazyRestart (.track g) => decide (g.id = id)
  | _ => false

/-- The counters are dropped, or new ones are made: the extension is unloaded, or it is not a
reload of the same path. -/
def Pc.forgets : Pc → Bool
  | .unload id' .info => decide (id' = id)
  | .stoppingAll [] => true
  | .load _ (.cache _ _ d none) => decide (d.id = id)
  | _ => false

/-- A load has read the counters, and writes them next. -/
def Pc.caches : Pc → Bool
  | .load _ (.cache _ _ d _) => decide (d.id = id)
  | _ => false

/-- The section writes the counters. -/
def Pc.writes (pc : Pc) : Bool := pc.tracks id || pc.forgets id || pc.caches id

/-- The policy for the extension is applied, after a crash or for a command. -/
def Pc.decides : Pc → Bool
  | .monitor id' _ .policy => decide (id' = id)
  | .lazyRestart (.policy id') => decide (id' = id)
  | _ => false

/-- The death monitor looks at the extension. -/
def Pc.looks : Pc → Bool
  | .monitor id' _ .policy => decide (id' = id)
  | _ => false

/-- A pass of the death monitor that has yet to look at the extension. -/
def Pc.attends : Pc → Bool
  | .monitor id' rest .policy => decide (id' = id) || decide (id ∈ rest)
  | .monitor _ rest _ | .load (.monitor _ rest) _ => decide (id ∈ rest)
  | _ => false

/-- The section that a step runs. -/
def Server.section? (s : Server) : Label → Option Pc
  | .run n _ => s.tasks[n]?
  | _ => none

/-- The times of the restarts since the counters were made, the last one first. -/
def restarts : List (Server × Label) → List ℤ
  | [] => []
  | (s, a) :: tr =>
    if (s.section? a).any (Pc.tracks id) then s.manager.now :: restarts tr
    else if (s.section? a).any (Pc.forgets id) then []
    else restarts tr

/-- No other task writes the counters while a load has read them and not yet written them. -/
def Undisturbed (s : Server) : Label → Prop
  | .run n _ => s.tasks[n]?.any (Pc.writes id) = true →
      ∀ n' < s.tasks.length, n' ≠ n → s.tasks[n']?.any (Pc.caches id) = false
  | _ => True

instance (s : Server) : (a : Label) → Decidable (Undisturbed id s a)
  | .run n _ => inferInstanceAs (Decidable (s.tasks[n]?.any (Pc.writes id) = true →
      ∀ n' < s.tasks.length, n' ≠ n → s.tasks[n']?.any (Pc.caches id) = false))
  | .tick _ | .exit _ | .call _ => isTrue trivial

/-- The step applies the policy to an extension that is loaded. -/
def Applies (s : Server) (a : Label) : Prop :=
  s.manager.infoCache.lookup id ≠ none ∧ (s.section? a).any (Pc.decides id) = true

/-- The death monitor would restart the extension now. -/
def Manager.monitorRestarts (env : Env) (m : Manager) (now : ℤ) : Bool :=
  (m.infoCache.lookup id).any (monitorShouldRestart env now)

/-- `try_lazy_restart` would restart the extension now. -/
def Manager.lazyRestarts (env : Env) (m : Manager) (now : ℤ) : Bool :=
  (m.infoCache.lookup id).any (lazyShouldRestart env now)

/-- After the crash of its process the death monitor has looked at the extension, or will in a pass
that goes on; or the process is no longer the one of the extension. -/
def Noticed (pid : ProcessId) (post : List (Server × Label)) (s : Server) : Prop :=
  (∃ e ∈ post, (e.1.section? e.2).any (Pc.looks id) = true) ∨
  (∃ e ∈ post, e.1.manager.extensions.lookup id ≠ some pid) ∨
  s.manager.extensions.lookup id ≠ some pid ∨
  ∃ (n : TaskId) (pc : Pc), s.tasks[n]? = some pc ∧ (pc = .scan ∨ pc.attends id = true)

end Restarts

/-! ## The budget -/

/-- The restarts since the last hour without one. -/
def sinceQuietHour (now : ℤ) : List ℤ → ℕ
  | [] => 0
  | t :: ts => if 3600 ≤ now - t then 0 else sinceQuietHour t ts + 1

section Budget

variable (env : Env) (now : ℤ) (ts : List ℤ)

/-- The cooldown is over. -/
def CooledDown : Prop := ∀ t ∈ ts.head?, env.restartCooldownSecs ≤ now - t

/-- A restart is due. -/
structure Due : Prop where
  onCrash : env.restartOnCrash = true
  cooled : CooledDown env now ts
  budget : sinceQuietHour now ts < env.maxRestartAttempts

/-- The manager decides right: the death monitor restarts the extension if a restart is due,
and `try_lazy_restart` would do the same. -/
structure Decides (id : ExtensionId) (m : Manager) : Prop where
  monitor : m.monitorRestarts id env now = true ↔ Due env now ts
  lazy : m.lazyRestarts id env now = m.monitorRestarts id env now

/-- The restarts before the last quiet hour do not use up the budget of those after it, and
the cooldown is not so long that `as i64` turns it negative. -/
structure Remembers : Prop where
  budget : env.restartOnCrash = true → CooledDown env now ts →
    sinceQuietHour now ts < env.maxRestartAttempts → ts.length < env.maxRestartAttempts
  cooldown : env.restartOnCrash = true → ∀ t ∈ ts.head?,
    ((3600 ≤ now - t ∧ 0 < env.maxRestartAttempts) ∨ ts.length < env.maxRestartAttempts) →
      asI64 env.restartCooldownSecs ≤ now - t → env.restartCooldownSecs ≤ now - t

end Budget

section Decisions

variable {env : Env} {now : ℤ} {ts : List ℤ} {id : ExtensionId} {m : Manager}

theorem sinceQuietHour_le_length (now : ℤ) (ts : List ℤ) : sinceQuietHour now ts ≤ ts.length := by
  induction ts generalizing now with
  | nil => exact Nat.le_refl 0
  | cons t ts ih =>
    simp only [sinceQuietHour, length_cons]
    have hle := ih t
    split <;> omega

theorem asI64_le (n : ℕ) : asI64 n ≤ n := by
  unfold asI64
  rw [Int.bmod_def]
  split <;> omega

/-- The decision at a crash, with the counters of the restarts so far. -/
theorem decides_iff {info : IsolatedExtensionInfo} (hinfo : m.infoCache.lookup id = some info)
    (hruntime : info.runtime = ⟨ts.length, ts.head?⟩) :
    Decides env now ts id m ↔ Remembers env now ts := by
  have hmonitor : m.monitorRestarts id env now = monitorShouldRestart env now info := by
    simp [Manager.monitorRestarts, hinfo]
  have hlazy : m.lazyRestarts id env now = lazyShouldRestart env now info := by
    simp [Manager.lazyRestarts, hinfo]
  have hle := asI64_le env.restartCooldownSecs
  cases ts with
  | nil =>
    have hsame : lazyShouldRestart env now info = monitorShouldRestart env now info := by
      simp [lazyShouldRestart, monitorShouldRestart, budgetCount, hruntime]
    constructor
    · intro h
      exact ⟨fun _ _ hbudget => hbudget, nofun⟩
    · intro h
      refine ⟨?_, by rw [hlazy, hmonitor, hsame]⟩
      rw [hmonitor]
      simp only [monitorShouldRestart, budgetCount, pastCooldown, hruntime, head?_nil,
        length_nil, Bool.and_true, Bool.and_eq_true, decide_eq_true_eq]
      exact ⟨fun ⟨hcrash, hlt⟩ => ⟨hcrash, (fun t ht => nomatch ht), hlt⟩,
        fun hdue => ⟨hdue.onCrash, hdue.budget⟩⟩
  | cons t ts =>
    have hlen := sinceQuietHour_le_length t ts
    have hmon : m.monitorRestarts id env now = true ↔ env.restartOnCrash = true ∧
        (if 3600 ≤ now - t then 0 else ts.length + 1) < env.maxRestartAttempts ∧
          asI64 env.restartCooldownSecs ≤ now - t := by
      rw [hmonitor]
      simp [monitorShouldRestart, budgetCount, pastCooldown, hruntime, and_assoc]
    have hlz : m.lazyRestarts id env now = true ↔ env.restartOnCrash = true ∧
        ts.length + 1 < env.maxRestartAttempts ∧ asI64 env.restartCooldownSecs ≤ now - t := by
      rw [hlazy]
      simp [lazyShouldRestart, pastCooldown, hruntime, and_assoc]
    have hdue : Due env now (t :: ts) ↔ env.restartOnCrash = true ∧
        (if 3600 ≤ now - t then 0 else sinceQuietHour t ts + 1) < env.maxRestartAttempts ∧
          env.restartCooldownSecs ≤ now - t :=
      ⟨fun h => ⟨h.onCrash, h.budget, h.cooled t rfl⟩,
        fun h => ⟨h.1, fun _ ht => by cases ht; exact h.2.2, h.2.1⟩⟩
    have hremembers : Remembers env now (t :: ts) ↔ (env.restartOnCrash = true →
        (env.restartCooldownSecs ≤ now - t →
          (if 3600 ≤ now - t then 0 else sinceQuietHour t ts + 1) < env.maxRestartAttempts →
            ts.length + 1 < env.maxRestartAttempts) ∧
        (((3600 ≤ now - t ∧ 0 < env.maxRestartAttempts) ∨ ts.length + 1 < env.maxRestartAttempts) →
          asI64 env.restartCooldownSecs ≤ now - t → env.restartCooldownSecs ≤ now - t)) := by
      constructor
      · intro h hcrash
        exact ⟨fun hcool => h.budget hcrash fun _ ht => by cases ht; exact hcool,
          h.cooldown hcrash t rfl⟩
      · intro h
        exact ⟨fun hcrash hcool => (h hcrash).1 (hcool t rfl),
          fun hcrash _ ht => by cases ht; exact (h hcrash).2⟩
    rw [hremembers]
    constructor
    · rintro ⟨hmonitor', hlazy'⟩ hcrash
      rw [Bool.eq_iff_iff] at hlazy'
      rw [hmon, hdue] at hmonitor'
      rw [hmon, hlz] at hlazy'
      split at hmonitor' <;> grind
    · intro h
      refine ⟨?_, ?_⟩
      · rw [hmon, hdue]
        split <;> grind
      · rw [Bool.eq_iff_iff, hmon, hlz]
        split <;> grind

end Decisions

/-! ## What a section does to the counters -/

section Moves

variable {env : Env} {n : TaskId} {choice : Choice} {id id' : ExtensionId} {m m' : Manager}
  {pc pc' : Pc}

structure Moves (id : ExtensionId) (m : Manager) (pc pc' : Pc) (m' : Manager) : Prop where
  processes : Stops m m' ∨ ∃ d, m' = m.spawn d := by exact Or.inl (Or.inl rfl)
  info : pc.writes id = false → m'.infoCache.lookup id = m.infoCache.lookup id
  track : pc.tracks id = true → m'.infoCache = (m.trackRestart id).infoCache := by
    exact fun h => by cases h
  forget : pc.forgets id = true → ∀ info, m'.infoCache.lookup id = some info →
    info.runtime = .isolated := by exact fun h => by cases h
  cache : ∀ caller path g d r, pc = .load caller (.cache path g d (some r)) → d.id = id →
    ∃ info, m'.infoCache.lookup id = some info ∧ info.runtime = r := by
    exact fun _ _ _ _ _ h => by cases h
  caches : pc'.caches id = true → ∃ caller path g d, pc = .load caller (.preserve path g d) ∧
    pc' = .load caller (.cache path g d (m.preserved d.id path)) := by exact fun h => by cases h
  attends : pc.attends id = true → pc.looks id = true ∨ pc'.attends id = true

/-- A section that writes no counters. -/
theorem Moves.keep (hw : pc.writes id = false) (hp : Stops m m' ∨ ∃ d, m' = m.spawn d)
    (hi : m'.infoCache = m.infoCache) (hc : pc'.caches id = false)
    (ha : pc.attends id = true → pc.looks id = true ∨ pc'.attends id = true) :
    Moves id m pc pc' m' where
  processes := hp
  info _ := by rw [hi]
  track h := by
    unfold Pc.writes at hw
    simp [h] at hw
  forget h := by
    unfold Pc.writes at hw
    simp [h] at hw
  cache caller path g d r hpc hid := by
    unfold Pc.writes at hw
    simp [hpc, Pc.caches, hid] at hw
  caches h := by
    rw [hc] at h
    cases h
  attends := ha

/-- A section of a task that is no pass, or goes on with it. -/
theorem Moves.plain (hw : pc.writes id = false) (hc : pc'.caches id = false)
    (ha : pc.attends id = true → pc'.attends id = true)
    (hi : m'.infoCache = m.infoCache := by rfl)
    (hp : m'.processes = m.processes := by rfl) : Moves id m pc pc' m' :=
  .keep hw (Or.inl (Or.inl hp)) hi hc fun h => Or.inr (ha h)

theorem attends_monitorNext {rest : List ExtensionId} (h : id ∈ rest) :
    (monitorNext rest).attends id = true := by
  cases rest with
  | nil => cases h
  | cons id' rest =>
    rcases mem_cons.mp h with rfl | h
    · simp [monitorNext, Pc.attends]
    · simp [monitorNext, Pc.attends, h]

@[simp] theorem caches_monitorNext (rest : List ExtensionId) :
    (monitorNext rest).caches id = false := by
  cases rest <;> rfl

theorem caches_resume (caller : Caller) (result : LoadResult) :
    (caller.resume result).caches id = false := by
  cases caller with
  | external => rfl
  | lazyRestart held => cases result <;> rfl
  | monitor id' rest =>
    cases result with
    | ok _ => rfl
    | error _ => exact caches_monitorNext rest

theorem attends_resume {caller : Caller} {pc : LoadPc} {result : LoadResult}
    (h : (Pc.load caller pc).attends id = true) : (caller.resume result).attends id = true := by
  cases caller with
  | external | lazyRestart held => cases h
  | monitor id' rest =>
    cases result with
    | ok _ => exact h
    | error _ => exact attends_monitorNext (of_decide_eq_true h)

theorem attends_load {caller : Caller} {pc pc' : LoadPc}
    (h : (Pc.load caller pc).attends id = true) : (Pc.load caller pc').attends id = true := by
  cases caller with
  | external | lazyRestart held => cases h
  | monitor id' rest => exact h

theorem caches_loadFailed (caller : Caller) (g : Option LoadingLock)
    (e : IsolatedExtensionError) : (Pc.load caller (loadFailed g e)).caches id = false := by
  cases g <;> rfl

/-- A section that notes a restart. -/
theorem Moves.note (ht : ∀ id, pc.tracks id = decide (id' = id)) (hf : pc.forgets id = false)
    (hpc : ∀ caller q, pc ≠ .load caller q) (hc : pc'.caches id = false)
    (ha : pc.attends id = true → pc'.attends id = true) :
    Moves id m pc pc' (m.trackRestart id') where
  processes := by
    unfold Manager.trackRestart
    split <;> exact Or.inl (Or.inl rfl)
  info hw := by
    have hne : id ≠ id' := by
      rintro rfl
      unfold Pc.writes at hw
      simp [ht] at hw
    unfold Manager.trackRestart
    split
    · exact lookup_insert_ne hne
    · rfl
  track h := by
    rw [ht, decide_eq_true_eq] at h
    rw [h]
  forget h := by
    rw [hf] at h
    cases h
  cache _ _ _ _ _ h := absurd h (hpc _ _)
  caches h := by
    rw [hc] at h
    cases h
  attends h := Or.inr (ha h)

theorem Pc.moves_of_advances (id : ExtensionId) (h : Advances env n choice m pc pc' m') :
    Moves id m pc pc' m' := by
  cases h with
  | legacy | listed | unlisted | cached | uncached | recheckListed | recheckUnlisted | recheckInfo
    | register | insert | readBack | removeLock => exact .plain rfl rfl attends_load
  | getLock id' =>
    exact .plain rfl rfl attends_load (Manager.infoCache_loadingLock id')
      (Manager.processes_loadingLock id')
  | lazyGetLock id' =>
    exact .plain rfl rfl (fun ha => by cases ha) (Manager.infoCache_loadingLock id')
      (Manager.processes_loadingLock id')
  | lock hm =>
    rw [takeLock_eq_some] at hm
    obtain ⟨-, rfl⟩ := hm
    exact .plain rfl rfl attends_load
  | lazyLock hm =>
    rw [takeLock_eq_some] at hm
    obtain ⟨-, rfl⟩ := hm
    exact .plain rfl rfl fun ha => by cases ha
  | spawnFailed | readBackFailed => exact .plain rfl (caches_loadFailed _ _ _) attends_load
  | spawned => exact .keep rfl (Or.inr ⟨_, rfl⟩) rfl rfl fun ha => Or.inr (attends_load ha)
  | preserve =>
    exact {
      info := fun _ => rfl
      caches := fun _ => ⟨_, _, _, _, rfl, rfl⟩
      attends := fun ha => Or.inr (attends_load ha) }
  | @cache caller path g d preserved =>
    exact {
      info := fun hw => by
        have hne : id ≠ d.id := by
          rintro rfl
          unfold Pc.writes at hw
          simp [Pc.caches] at hw
        exact lookup_insert_ne hne
      forget := fun hf info hinfo => by
        cases preserved with
        | some r => cases hf
        | none =>
          obtain rfl : d.id = id := of_decide_eq_true hf
          rw [lookup_insert] at hinfo
          cases hinfo
          rfl
      cache := fun _ _ _ _ r hpc hid => by
        cases hpc
        subst hid
        exact ⟨_, lookup_insert _, rfl⟩
      attends := fun ha => Or.inr (attends_load ha) }
  | returned caller result | returnedLocked caller g result =>
    exact .plain rfl (caches_resume caller result) attends_resume
  | lazyStopping pid | unload pid | unloadStop pid | stopNext pid =>
    exact .keep rfl (Or.inl (Or.inr ⟨pid, rfl⟩)) rfl rfl fun ha => by cases ha
  | lazyTrack g =>
    exact .note (fun _ => rfl) rfl (fun _ _ hpc => by cases hpc) rfl fun ha => by cases ha
  | lazyReturned g restarted => cases restarted <;> exact .plain rfl rfl fun ha => by cases ha
  | policy =>
    refine .keep rfl (Or.inl (Or.inl rfl)) rfl rfl fun ha => ?_
    simp only [Pc.attends, Bool.or_eq_true, decide_eq_true_eq] at ha
    exact ha.imp decide_eq_true decide_eq_true
  | refused rest =>
    refine .keep rfl (Or.inl (Or.inl rfl)) rfl (caches_monitorNext rest) fun ha => ?_
    simp only [Pc.attends, Bool.or_eq_true, decide_eq_true_eq] at ha
    exact ha.imp decide_eq_true attends_monitorNext
  | pathUncached rest =>
    exact .plain rfl (caches_monitorNext rest) fun ha => attends_monitorNext (of_decide_eq_true ha)
  | path | remove | healthCheck | checking => exact .plain rfl rfl fun ha => ha
  | track id' rest =>
    exact .note (fun _ => rfl) rfl (fun _ _ hpc => by cases hpc) (caches_monitorNext rest)
      fun ha => attends_monitorNext (of_decide_eq_true ha)
  | unloadInfo id' =>
    exact {
      info := fun hw => by
        have hne : id ≠ id' := by
          rintro rfl
          unfold Pc.writes at hw
          simp [Pc.forgets] at hw
        exact AList.lookup_erase_ne hne
      forget := fun hf info hinfo => by
        obtain rfl : id' = id := of_decide_eq_true hf
        rw [AList.lookup_erase] at hinfo
        cases hinfo
      attends := fun ha => by cases ha }
  | stopped =>
    exact {
      info := fun hw => by cases hw
      forget := fun _ info hinfo => by
        rw [AList.lookup_empty] at hinfo
        cases hinfo
      attends := fun ha => by cases ha }
  | scan => exact .plain rfl (caches_monitorNext choice.order) fun ha => by cases ha
  | _ => exact .plain rfl rfl fun ha => by cases ha

end Moves

/-! ## Runs -/

section Runs

variable {env : Env} {id : ExtensionId} {n : TaskId} {choice : Choice} {s s' : Server} {a : Label}
  {tr post pre : List (Server × Label)} {ts : List ℤ} {pid : ProcessId}

/-- The counters in the cache are those of the restarts, and so are those that a load has read. -/
structure Counts (id : ExtensionId) (s : Server) (ts : List ℤ) : Prop where
  entry : ∀ info, s.manager.infoCache.lookup id = some info →
    info.runtime = ⟨ts.length, ts.head?⟩
  cached : ∀ (n : TaskId) caller path g d r,
    s.tasks[n]? = some (.load caller (.cache path g d (some r))) → d.id = id →
    r = ⟨ts.length, ts.head?⟩

/-- What a load reads before it caches. -/
theorem Counts.cached_of_caches (h : Counts id s ts) {pc pc' : Pc} {m' : Manager}
    (hmoves : Moves id s.manager pc pc' m') {caller : Caller} {path : PathBuf}
    {g : Option LoadingLock} {d : ExtensionDescriptor} {r : ExtensionRuntimeState}
    (hpc' : pc' = .load caller (.cache path g d (some r))) (hid : d.id = id) :
    r = ⟨ts.length, ts.head?⟩ := by
  subst hpc' hid
  obtain ⟨caller', path', g', d', -, heq⟩ := hmoves.caches (decide_eq_true rfl)
  simp only [Pc.load.injEq, LoadPc.cache.injEq] at heq
  obtain ⟨-, -, -, rfl, hr⟩ := heq
  unfold Manager.preserved at hr
  split at hr
  · rename_i prev hprev
    split at hr
    · cases hr
      exact h.entry prev hprev
    · cases hr
  · cases hr

theorem cache_of_writes {pc : Pc} (hw : pc.writes id = true) (ht : pc.tracks id = false)
    (hf : pc.forgets id = false) :
    ∃ caller path g d r, pc = .load caller (.cache path g d (some r)) ∧ d.id = id := by
  have hc : pc.caches id = true := by
    unfold Pc.writes at hw
    simpa [ht, hf] using hw
  unfold Pc.caches at hc
  split at hc
  · rename_i caller path g d preserved
    cases preserved with
    | some r => exact ⟨caller, path, g, d, r, rfl, of_decide_eq_true hc⟩
    | none =>
      have hf' : decide (d.id = id) = false := hf
      rw [hc] at hf'
      cases hf'
  · cases hc

/-- The step lemma: a restart is counted, and nothing else is. -/
theorem Counts.run {pc pc' : Pc} {m' : Manager} (h : Counts id s (restarts id tr))
    (hundisturbed : Undisturbed id s (.run n choice)) (hn : s.tasks[n]? = some pc)
    (hadv : Advances env n choice s.manager pc pc' m') :
    Counts id ⟨m', s.tasks.set n pc'⟩ (restarts id ((s, .run n choice) :: tr)) := by
  have hmoves := Pc.moves_of_advances id hadv
  have hsection : s.section? (.run n choice) = some pc := hn
  -- what is counted after a section that writes the counters, in no task but this one
  have hwrite : ∀ ts' : List ℤ, pc.writes id = true →
      (∀ info, m'.infoCache.lookup id = some info → info.runtime = ⟨ts'.length, ts'.head?⟩) →
      pc'.caches id = false → Counts id ⟨m', s.tasks.set n pc'⟩ ts' := by
    intro ts' hw hentry hcaches
    refine ⟨hentry, fun n' caller path g d r hn' hid => ?_⟩
    rcases task_of_set hn' with ⟨-, rfl⟩ | ⟨hne, hold⟩
    · simp [Pc.caches, hid] at hcaches
    · have hquiet := hundisturbed (by rw [hn]; exact hw) n' (List.getElem?_eq_some_iff.mp hold).1 hne
      rw [hold] at hquiet
      simp [Pc.caches, hid] at hquiet
  have hnot : ∀ {q : Prop}, (∃ caller path g d, pc = .load caller (.preserve path g d) ∧
      pc' = .load caller (.cache path g d (s.manager.preserved d.id path))) →
      pc.writes id = true → q := by
    rintro q ⟨caller, path, g, d, rfl, -⟩ hw
    cases hw
  by_cases hw : pc.writes id = true
  · have hcaches : pc'.caches id = false :=
      (Bool.not_eq_true _).mp fun hc => hnot (hmoves.caches hc) hw
    cases ht : pc.tracks id with
    | true =>
      have hts : restarts id ((s, .run n choice) :: tr) = s.manager.now :: restarts id tr := by
        rw [restarts, hsection, any_some, if_pos ht]
      rw [hts]
      refine hwrite _ hw (fun info hinfo => ?_) hcaches
      rw [hmoves.track ht] at hinfo
      unfold Manager.trackRestart at hinfo
      split at hinfo
      · rename_i prev hprev
        rw [lookup_insert] at hinfo
        cases hinfo
        unfold IsolatedExtensionInfo.restarted
        rw [h.entry prev hprev]
        rfl
      · rename_i hnone
        rw [hnone] at hinfo
        cases hinfo
    | false =>
      cases hf : pc.forgets id with
      | true =>
        have hts : restarts id ((s, .run n choice) :: tr) = [] := by
          rw [restarts, hsection, any_some, any_some, ht, hf]
          rfl
        rw [hts]
        exact hwrite _ hw (hmoves.forget hf) hcaches
      | false =>
        have hts : restarts id ((s, .run n choice) :: tr) = restarts id tr := by
          rw [restarts, hsection, any_some, any_some, ht, hf]
          rfl
        rw [hts]
        refine hwrite _ hw (fun info hinfo => ?_) hcaches
        obtain ⟨caller, path, g, d, r, rfl, hid⟩ := cache_of_writes hw ht hf
        obtain ⟨info', hinfo', hr⟩ := hmoves.cache caller path g d r rfl hid
        rw [hinfo'] at hinfo
        cases hinfo
        rw [hr]
        exact h.cached n caller path g d r hn hid
  · rw [Bool.not_eq_true] at hw
    have hnone := hw
    unfold Pc.writes at hnone
    rw [Bool.or_eq_false_iff, Bool.or_eq_false_iff] at hnone
    have hts : restarts id ((s, .run n choice) :: tr) = restarts id tr := by
      rw [restarts, hsection, any_some, any_some, hnone.1.1, hnone.1.2]
      rfl
    rw [hts]
    refine ⟨fun info hinfo => h.entry info (hmoves.info hw ▸ hinfo), ?_⟩
    intro n' caller path g d r hn' hid
    rcases task_of_set hn' with ⟨-, hpc'⟩ | ⟨-, hold⟩
    · exact h.cached_of_caches hmoves hpc'.symm hid
    · exact h.cached n' caller path g d r hold hid

theorem Counts.step (h : Counts id s (restarts id tr)) (hundisturbed : Undisturbed id s a)
    (hs : step env s a = some s') : Counts id s' (restarts id ((s, a) :: tr)) := by
  cases a with
  | tick secs | exit pid =>
    cases hs
    exact ⟨h.entry, h.cached⟩
  | call c =>
    cases hs
    refine ⟨h.entry, fun n caller path g d r hn hid => ?_⟩
    rw [getElem?_append] at hn
    split at hn
    · exact h.cached n caller path g d r hn hid
    · rw [getElem?_singleton] at hn
      split at hn
      · cases c <;> cases hn
      · cases hn
  | run n choice =>
    obtain ⟨pc, pc', m', hn, hadv, rfl⟩ := advances_of_step hs
    exact h.run hundisturbed hn hadv

theorem counts_of_run {now : ℤ} (hrun : Run (Extension.step env) (Server.new now) tr s)
    (hundisturbed : Within (Undisturbed id) tr) : Counts id s (restarts id tr) := by
  refine hrun.traceInvariant (I := fun tr s => Counts id s (restarts id tr)) hundisturbed
    ⟨fun info hinfo => ?_, fun n caller path g d r hn => ?_⟩
    fun _ _ _ _ _ h hundisturbed hs => h.step hundisturbed hs
  · have hempty : (∅ : HashMap ExtensionId IsolatedExtensionInfo).lookup id = some info := hinfo
    rw [AList.lookup_empty] at hempty
    cases hempty
  · cases hn

/-! ## Crashes -/

/-- A process that has ended has ended. -/
structure Ended (pid : ProcessId) (s : Server) : Prop where
  lt : pid < s.manager.processes.length
  dead : s.manager.isAlive pid = false

theorem Ended.of_stops (h : Ended pid s) (hp : Stops s.manager s'.manager) : Ended pid s' := by
  refine ⟨?_, hp.isAlive h.dead⟩
  rcases hp with hp | ⟨pid', hp⟩
  · rw [hp]
    exact h.lt
  · rw [hp]
    show pid < (s.manager.processes.modify pid' _).length
    rw [length_modify]
    exact h.lt

theorem Ended.step (h : Ended pid s) (hs : Extension.step env s a = some s') : Ended pid s' := by
  cases a with
  | tick secs | call c =>
    cases hs
    exact ⟨h.lt, h.dead⟩
  | exit pid' =>
    cases hs
    exact h.of_stops (Or.inr ⟨pid', rfl⟩)
  | run n choice =>
    obtain ⟨pc, pc', m', hn, hadv, rfl⟩ := advances_of_step hs
    rcases (Pc.moves_of_advances "" hadv).processes with hp | ⟨d, rfl⟩
    · exact h.of_stops hp
    · refine ⟨?_, (Manager.isAlive_spawn_of_lt d h.lt).trans h.dead⟩
      show pid < (s.manager.processes ++ [_]).length
      rw [length_append]
      exact Nat.lt_add_right _ h.lt

/-- A pass finds what has ended. -/
theorem attends_of_scan {pc' : Pc} {m' : Manager} (hended : Ended pid s)
    (hlookup : s.manager.extensions.lookup id = some pid)
    (hadv : Advances env n choice s.manager .scan pc' m') :
    pc'.attends id = true := by
  cases hadv with
  | scan hperm =>
    refine attends_monitorNext (hperm.mem_iff.mpr ?_)
    unfold Manager.deadExtensions
    refine List.mem_map.mpr ⟨⟨id, pid⟩, mem_filter.mpr ⟨?_, ?_⟩, rfl⟩
    · exact mem_lookup_iff.mp hlookup
    · rw [hended.dead]
      rfl

theorem Noticed.step (h : Noticed id pid post s) (hended : Ended pid s)
    (hs : Extension.step env s a = some s') : Noticed id pid ((s, a) :: post) s' := by
  have hgone : s.manager.extensions.lookup id ≠ some pid → Noticed id pid ((s, a) :: post) s' :=
    fun hgone => Or.inr (Or.inl ⟨_, mem_cons_self, hgone⟩)
  rcases h with ⟨e, he, hlooked⟩ | ⟨e, he, hearlier⟩ | hnow | ⟨n, pc, hn, hpc⟩
  · exact Or.inl ⟨e, mem_cons_of_mem _ he, hlooked⟩
  · exact Or.inr (Or.inl ⟨e, mem_cons_of_mem _ he, hearlier⟩)
  · exact hgone hnow
  · by_cases hlookup : s.manager.extensions.lookup id = some pid
    · have hstays : s'.tasks[n]? = some pc → Noticed id pid ((s, a) :: post) s' := fun hn =>
        Or.inr (Or.inr (Or.inr ⟨n, pc, hn, hpc⟩))
      cases a with
      | tick secs | exit pid' =>
        cases hs
        exact hstays hn
      | call c =>
        cases hs
        exact hstays ((getElem?_append_left (List.getElem?_eq_some_iff.mp hn).1).trans hn)
      | run n' choice =>
        obtain ⟨pc₀, pc', m', hn', hadv, rfl⟩ := advances_of_step hs
        by_cases hne : n' = n
        · subst hne
          rw [hn] at hn'
          cases hn'
          have hself : (s.tasks.set n' pc')[n']? = some pc' :=
            List.getElem?_set_self (List.getElem?_eq_some_iff.mp hn).1
          have hgoes : pc'.attends id = true →
              Noticed id pid ((s, .run n' choice) :: post) ⟨m', s.tasks.set n' pc'⟩ := fun ha =>
            Or.inr (Or.inr (Or.inr ⟨n', pc', hself, Or.inr ha⟩))
          rcases hpc with rfl | hattends
          · exact hgoes (attends_of_scan hended hlookup hadv)
          · rcases (Pc.moves_of_advances id hadv).attends hattends with hlooks | ha
            · refine Or.inl ⟨_, mem_cons_self, ?_⟩
              show (s.tasks[n']?).any _ = true
              rw [hn]
              exact hlooks
            · exact hgoes ha
        · exact hstays ((getElem?_set_ne hne).trans hn)
    · exact hgone hlookup

/-- A crash that sends a notification is noticed. -/
theorem noticed_of_run (hrun : Run (Extension.step env) s post s') (hended : Ended pid s)
    (hnotified : ∃ e ∈ post, e.2 = .call .deathNotification) : Noticed id pid post s' := by
  have hall : Ended pid s' ∧ ((∃ e ∈ post, e.2 = .call .deathNotification) →
      Noticed id pid post s') := by
    refine hrun.traceInvariant (I := fun post s' => Ended pid s' ∧
      ((∃ e ∈ post, e.2 = Label.call .deathNotification) → Noticed id pid post s'))
      (G := fun _ _ => True) (fun _ _ => trivial) ⟨hended, by simp⟩ ?_
    rintro post s a s' - ⟨hended, hnoticed⟩ - hs
    refine ⟨hended.step hs, fun ⟨e, he, hcall⟩ => ?_⟩
    rcases mem_cons.mp he with rfl | he
    · -- the notification starts a pass
      dsimp only at hcall
      subst hcall
      cases hs
      refine Or.inr (Or.inr (Or.inr ⟨s.tasks.length, .scan, ?_, Or.inl rfl⟩))
      exact getElem?_concat_length
    · exact (hnoticed ⟨e, he, hcall⟩).step hended hs
  exact hall.2 hnotified

end Runs

/-! ## A quiet hour -/

namespace Sample

/-- The process crashes after some time, and task `n` is the pass that restarts the extension. -/
def crash (n : TaskId) (pid : ProcessId) (secs : ℕ) : List Label :=
  [.tick secs, .exit pid, .call .deathNotification] ++ run n 18

/-- Three crashes. -/
def crashes : List Label :=
  [.call (.load weather)] ++ run 0 11 ++ crash 1 0 100 ++ crash 2 1 100 ++ crash 3 2 100

/-- One crash more after a quiet hour, and another soon after that. -/
def quietHour : List Label :=
  crashes ++ crash 4 3 9700 ++ [.tick 100, .exit 4, .call .deathNotification] ++ run 5 1

/-- The last section looks at the extension. -/
def look : Label := .run 5 ⟨.ok none, .ok "", []⟩

/-- Whenever the policy is applied there are fewer than three restarts. -/
def early (tr : List (Server × Label)) : Bool :=
  tr.tails.all fun
    | [] => true
    | (s, a) :: pre =>
      !(s.section? a).any (Pc.decides "weather") || decide ((restarts "weather" pre).length < 3)

end Sample

end HeraMind.Extension
