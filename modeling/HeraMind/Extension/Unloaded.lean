/-
# Unloaded stays unloaded

`unload` takes an extension out of the map, the info cache and the event dispatcher, and stops
its process.  A restart reads the path of the extension from the info cache, lets go of every
lock, and loads the path later, so an `unload` in between is undone.

What keeps an unloaded extension away is that no task brings it back: no restart of it has read
its path, and no load has started a process of it.  Then only a load that somebody asks for
starts it again.
-/
import HeraMind.Extension.OneProcess

namespace HeraMind.Extension

open Option hiding all_eq_true any_eq_true
open List
open Transition
open Manager (takeLock_eq_some liveId_eq_some)

/-! ## The claim -/

/-- Nothing is left of the extension. -/
structure Manager.Unloaded (m : Manager) (id : ExtensionId) : Prop where
  extensions : m.extensions.lookup id = none
  info : m.infoCache.lookup id = none
  events : id ∉ m.eventDispatcher
  process : ∀ pid, m.liveId pid ≠ some id

/-- The extension whose process a load starts. -/
def Choice.startedId (choice : Choice) : Option ExtensionId :=
  match choice.started with
  | .ok started => started
  | .error _ => none

/-- The extension that the caller of `load` restarts. -/
def Caller.restarts : Caller → Option ExtensionId
  | .external => none
  | .lazyRestart held => some held.id
  | .monitor id _ => some id

/-- The section of a load that somebody asked for, which starts the extension. -/
def Pc.loadsNow (id : ExtensionId) (choice : Choice) : Pc → Bool
  | .load .external (.loadIsolated _ _) => decide (choice.startedId = some id)
  | _ => false

/-- The last section of `unload`. -/
def Pc.unloadReturns (id : ExtensionId) : Pc → Bool
  | .unload id' .removeLock => decide (id' = id)
  | _ => false

/-- The section of a step has a property. -/
def Server.runs (s : Server) (p : Choice → Pc → Bool) : Label → Bool
  | .run n choice => s.tasks[n]?.any (p choice)
  | _ => false

/-- Some `unload` of the extension has returned, and since then no load that somebody asked for
has started it. -/
def unloadedSince (id : ExtensionId) : List (Server × Label) → Bool
  | [] => false
  | (s, a) :: tr => !s.runs (Pc.loadsNow id) a &&
      (s.runs (fun _ => Pc.unloadReturns id) a || unloadedSince id tr)

/-! ## Tasks that bring an extension back -/

section Brings

variable (id : ExtensionId)

/-- The load is about to start, or to store, the extension. -/
def LoadPc.brings (caller : Caller) : LoadPc → Bool
  | .fastPath _ | .fastInfo _ _ | .getLock _ _ | .lock _ _ | .recheck _ _ =>
    decide (caller.restarts = some id)
  | .recheckInfo _ => false
  | .loadIsolated _ _ => decide (caller.restarts = some id)
  | .register _ _ d _ | .insert _ _ d _ | .preserve _ _ d | .cache _ _ d _ => decide (d.id = id)
  | .readBack _ _ _ | .removeLock _ _ | .returning _ _ => false

/-- The restart has read the path of the extension. -/
def LazyPc.brings : LazyPc → Bool
  | .getLock _ id' => decide (id' = id)
  | .lock _ g | .recheck _ g | .stop _ g | .stopping _ g _ | .remove _ g => decide (g.id = id)
  | _ => false

/-- The task may bring the extension back, whatever else happens to it. -/
def Pc.brings : Pc → Bool
  | .load caller pc => pc.brings id caller
  | .lazyRestart pc => pc.brings id
  | .monitor id' _ (.remove _) => decide (id' = id)
  | _ => false

/-- The task is a restart of the extension that reads its path next. -/
def Pc.readsPath : Pc → Bool
  | .lazyRestart (.readPath id') | .monitor id' _ .readPath => decide (id' = id)
  | _ => false

/-- The section starts a process of the extension. -/
def Pc.starts (choice : Choice) : Pc → Bool
  | .load _ (.loadIsolated _ _) => decide (choice.startedId = some id)
  | _ => false

/-- The task has begun to unload the extension. -/
def Pc.unloads : Pc → Bool
  | .unload _ .remove => false
  | .unload id' _ => decide (id' = id)
  | _ => false

end Brings

namespace Server

variable (s : Server) (id : ExtensionId)

/-- Some task has begun to unload the extension. -/
def unloading : Bool := s.tasks.any (Pc.unloads id)

/-- The extension can be unloaded: no task is about to bring it back, its process is the one
in the map, and if it is not in the map, it is nowhere. -/
structure Settled : Prop where
  quiet : s.tasks.all (fun pc => !pc.brings id) = true
  process : ∀ pid < s.manager.processes.length, s.manager.liveId pid = some id →
    s.manager.extensions.lookup id = some pid
  mapped : id ∈ s.manager.extensions ∨
    s.manager.infoCache.lookup id = none ∧ id ∉ s.manager.eventDispatcher

instance : Decidable (s.Settled id) :=
  decidable_of_iff
    (s.tasks.all (fun pc => !pc.brings id) = true ∧
      (∀ pid < s.manager.processes.length, s.manager.liveId pid = some id →
        s.manager.extensions.lookup id = some pid) ∧
      (id ∈ s.manager.extensions ∨
        s.manager.infoCache.lookup id = none ∧ id ∉ s.manager.eventDispatcher))
    ⟨fun ⟨hquiet, hprocess, hmapped⟩ => ⟨hquiet, hprocess, hmapped⟩,
      fun h => ⟨h.quiet, h.process, h.mapped⟩⟩

end Server

/-- A section keeps to the order of unloads and restarts: an extension that is unloaded is
settled, a restart does not read the path of an extension that is being unloaded, no process of
it is started meanwhile, and the restart of an extension starts no other one. -/
def Pc.orderly (id : ExtensionId) (s : Server) (choice : Choice) : Pc → Bool
  | .unload id' .remove => decide (id' = id → s.Settled id)
  | .load caller (.loadIsolated _ _) => decide (choice.startedId = some id →
      s.unloading id = false ∧ ∀ r ∈ caller.restarts, r = id)
  | pc => !(pc.readsPath id && s.unloading id)

/-- A step keeps to the order of unloads and restarts. -/
def Orderly (id : ExtensionId) (s : Server) : Label → Prop
  | .run n choice => s.tasks[n]?.all (Pc.orderly id s choice) = true
  | _ => True

instance (id : ExtensionId) (s : Server) : (a : Label) → Decidable (Orderly id s a)
  | .run n choice => inferInstanceAs (Decidable (s.tasks[n]?.all (Pc.orderly id s choice) = true))
  | .tick _ | .exit _ | .call _ => isTrue trivial

/-! ## What a section does for one extension -/

section Effect

variable {env : Env} {n : TaskId} {choice : Choice} {id : ExtensionId} {m m' : Manager}

/-- Whatever a section stores of the extension, its task brings it back, and so does whoever reads
the path of the extension or starts a process of it. -/
structure Effect (id : ExtensionId) (choice : Choice) (m : Manager) (pc pc' : Pc) (m' : Manager) :
    Prop where
  extensions : pc.brings id = false → m.extensions.lookup id = none →
    m'.extensions.lookup id = none := by exact fun _ hnone => hnone
  info : pc.brings id = false → m.infoCache.lookup id = none →
    m'.infoCache.lookup id = none := by exact fun _ hnone => hnone
  events : pc.brings id = false → id ∉ m.eventDispatcher →
    id ∉ m'.eventDispatcher := by exact fun _ hnone => hnone
  nodup : m.eventDispatcher.Nodup → m'.eventDispatcher.Nodup := by exact fun hnodup => hnodup
  process : ∀ pid, m'.liveId pid = some id →
    m.liveId pid = some id ∨ pc.starts id choice = true := by exact fun _ hlive => Or.inl hlive
  brings : pc'.brings id = true → pc.brings id = true ∨ pc.starts id choice = true ∨
    pc.readsPath id = true ∧ m.infoCache.lookup id ≠ none

variable {pc pc' : Pc}

/-- A section that stores nothing. -/
theorem Effect.keep (he : m'.extensions = m.extensions)
    (hi : m'.infoCache = m.infoCache) (hd : m'.eventDispatcher = m.eventDispatcher)
    (hp : Stops m m') (hb : pc'.brings id = true → pc.brings id = true) :
    Effect id choice m pc pc' m' where
  extensions _ hnone := by rw [he, hnone]
  info _ hnone := by rw [hi, hnone]
  events _ hnone := by rwa [hd]
  nodup h := by rwa [hd]
  process _ hlive := Or.inl (hp.liveId hlive)
  brings h := Or.inl (hb h)

/-- A section that leaves the tables and the processes alone. -/
theorem Effect.stay (hb : pc'.brings id = true → pc.brings id = true)
    (he : m'.extensions = m.extensions := by rfl) (hi : m'.infoCache = m.infoCache := by rfl)
    (hd : m'.eventDispatcher = m.eventDispatcher := by rfl)
    (hp : m'.processes = m.processes := by rfl) : Effect id choice m pc pc' m' :=
  .keep he hi hd (Or.inl hp) hb

/-- A section after which the task does not bring the extension back. -/
theorem Effect.done (hb : pc'.brings id = false)
    (he : m'.extensions = m.extensions := by rfl) (hi : m'.infoCache = m.infoCache := by rfl)
    (hd : m'.eventDispatcher = m.eventDispatcher := by rfl)
    (hp : m'.processes = m.processes := by rfl) : Effect id choice m pc pc' m' :=
  .stay (fun h => by rw [hb] at h; cases h) he hi hd hp

/-- A section that counts a restart. -/
theorem Effect.track (id' : ExtensionId) (hb : pc'.brings id = false) :
    Effect id choice m pc pc' (m.trackRestart id') := by
  unfold Manager.trackRestart
  split
  · rename_i info hinfo
    exact {
      info := fun _ hnone => by
        have hne : id ≠ id' := by
          rintro rfl
          rw [hnone] at hinfo
          cases hinfo
        exact (AList.lookup_insert_ne hne).trans hnone
      brings := fun h => by rw [hb] at h; cases h }
  · exact .done hb

theorem brings_monitorNext (id : ExtensionId) (rest : List ExtensionId) :
    (monitorNext rest).brings id = false := by
  cases rest <;> rfl

/-- What a load returns to its caller brings nothing back. -/
theorem brings_resume (id : ExtensionId) (caller : Caller) (result : LoadResult) :
    (caller.resume result).brings id = false := by
  cases caller with
  | external => rfl
  | lazyRestart held => cases result <;> rfl
  | monitor id' rest =>
    cases result with
    | ok _ => rfl
    | error _ => exact brings_monitorNext id rest

theorem brings_loadFailed (id : ExtensionId) (caller : Caller) (g : Option LoadingLock)
    (e : IsolatedExtensionError) : (Pc.load caller (loadFailed g e)).brings id = false := by
  cases g <;> rfl

/-- A process that was not there before. -/
theorem liveId_spawn {d : ExtensionDescriptor} {pid : ProcessId}
    (h : (m.spawn d).liveId pid = some id) : m.liveId pid = some id ∨ d.id = id := by
  rw [liveId_eq_some] at h
  obtain ⟨halive, d', hd', hid⟩ := h
  by_cases hlt : pid < m.processes.length
  · rw [Manager.isAlive_spawn_of_lt d hlt] at halive
    unfold Manager.descriptorOf Manager.spawn at hd'
    rw [getElem?_append_left hlt] at hd'
    exact Or.inl (liveId_eq_some.mpr ⟨halive, d', hd', hid⟩)
  · have hlen := Manager.lt_of_descriptorOf hd'
    have heq : pid = m.processes.length := by
      simp only [Manager.spawn, length_append, length_singleton] at hlen
      exact Nat.le_antisymm (Nat.lt_succ_iff.mp hlen) (Nat.le_of_not_lt hlt)
    subst heq
    simp only [Manager.descriptorOf, Manager.spawn, getElem?_concat_length,
      map_some, some.injEq] at hd'
    subst hd'
    exact Or.inr hid

theorem Pc.effect_of_advances (h : Advances env n choice m pc pc' m') :
    Effect id choice m pc pc' m' := by
  cases h with
  | legacy | listed | unlisted | uncached | recheckUnlisted | preserve | lazyDead | lazyStop
    | lazyUnlisted => exact .stay fun hb => hb
  | getLock id' | lazyGetLock id' =>
    exact .keep (Manager.extensions_loadingLock id') (Manager.infoCache_loadingLock id')
      (Manager.eventDispatcher_loadingLock id') (Or.inl (Manager.processes_loadingLock id'))
      fun hb => hb
  | lock hm | lazyLock hm =>
    rw [takeLock_eq_some] at hm
    obtain ⟨-, rfl⟩ := hm
    exact .stay fun hb => hb
  | spawnFailed | readBackFailed => exact .done (brings_loadFailed id _ _ _)
  | @spawned caller path g id' hstarted =>
    have hstarts : ∀ d : ExtensionDescriptor, d.id = id → d = ⟨⟨id'⟩⟩ →
        (Pc.load caller (.loadIsolated path g)).starts id choice = true := by
      rintro d rfl rfl
      simp [Pc.starts, Choice.startedId, hstarted, ExtensionDescriptor.id]
    exact {
      process := fun pid hlive => (liveId_spawn hlive).imp_right fun hid => hstarts _ hid rfl
      brings := fun hb => Or.inr (Or.inl (hstarts _ (of_decide_eq_true hb) rfl)) }
  | register =>
    exact {
      events := fun hb hnone hmem => by
        rcases mem_insert_iff.mp hmem with heq | hmem
        · exact absurd heq.symm (of_decide_eq_false hb)
        · exact hnone hmem
      nodup := fun hnodup => hnodup.insert
      brings := Or.inl }
  | insert =>
    exact {
      extensions := fun hb hnone =>
        (AList.lookup_insert_ne (Ne.symm (of_decide_eq_false hb))).trans hnone
      brings := Or.inl }
  | cache =>
    exact {
      info := fun hb hnone =>
        (AList.lookup_insert_ne (Ne.symm (of_decide_eq_false hb))).trans hnone
      brings := fun hb => by cases hb }
  | returned caller result | returnedLocked caller g result =>
    exact .done (brings_resume id caller result)
  | lazyPath hinfo | path hinfo =>
    exact {
      brings := fun hb => by
        obtain rfl := of_decide_eq_true hb
        exact Or.inr (Or.inr ⟨hb, by simp [hinfo]⟩) }
  | lazyStopping pid => exact .keep rfl rfl rfl (Or.inr ⟨pid, rfl⟩) fun hb => hb
  | lazyRemove g hwriter | remove id' hwriter =>
    exact {
      extensions := fun _ hnone => HashMap.lookup_erase_eq_none hnone _
      brings := fun hb => Or.inl (decide_eq_true (some.inj (of_decide_eq_true hb))) }
  | lazyTrack g => exact .track g.id rfl
  | lazyReturned g restarted => cases restarted <;> exact .done rfl
  | refused rest | pathUncached rest => exact .done (brings_monitorNext id rest)
  | track id' rest => exact .track id' (brings_monitorNext id rest)
  | unload pid =>
    exact {
      extensions := fun _ hnone => HashMap.lookup_erase_eq_none hnone _
      process := fun _ hlive => Or.inl (Stops.liveId (Or.inr ⟨pid, rfl⟩) hlive)
      brings := fun hb => by cases hb }
  | unloadStop pid | stopNext pid =>
    exact .keep rfl rfl rfl (Or.inr ⟨pid, rfl⟩) fun hb => by cases hb
  | unloadInfo id' =>
    exact {
      info := fun _ hnone => HashMap.lookup_erase_eq_none hnone id'
      brings := fun hb => by cases hb }
  | unloadEvents id' =>
    exact {
      events := fun _ hnone hmem => hnone (mem_of_mem_erase hmem)
      nodup := fun hnodup => hnodup.erase id'
      brings := fun hb => by cases hb }
  | stopped =>
    exact {
      extensions := fun _ _ => AList.lookup_empty id
      info := fun _ _ => AList.lookup_empty id
      brings := fun hb => by cases hb }
  | scan => exact .done (brings_monitorNext id choice.order)
  | _ => exact .done rfl

theorem monitorNext_ne_unload {rest : List ExtensionId} {q : UnloadPc} :
    monitorNext rest ≠ .unload id q := by
  cases rest <;> simp [monitorNext]

theorem resume_ne_unload {caller : Caller} {result : LoadResult} {q : UnloadPc} :
    caller.resume result ≠ .unload id q := by
  cases caller <;> cases result <;> simp [Caller.resume, monitorNext_ne_unload]

/-- Only an `unload` goes on with `unload`. -/
theorem Pc.unload_of_advances {q : UnloadPc} (h : Advances env n choice m pc pc' m')
    (hq : pc' = .unload id q) : ∃ p, pc = .unload id p := by
  cases h with
  | unload | unloadUnlisted | unloadStop | unloadInfo | unloadEvents =>
    cases hq
    exact ⟨_, rfl⟩
  | returned | returnedLocked => exact absurd hq resume_ne_unload
  | refused | pathUncached | track | scan => exact absurd hq monitorNext_ne_unload
  | lazyReturned g restarted => cases restarted <;> cases hq
  | _ => cases hq

end Effect

/-! ## While an extension is unloaded -/

section Unload

variable {env : Env} {n : TaskId} {choice : Choice} {id : ExtensionId} {s s' : Server}
  {m' : Manager} {pc pc' : Pc}

/-- The extension does not run, and no task is about to bring it back. -/
structure Server.Away (id : ExtensionId) (s : Server) : Prop where
  quiet : ∀ (n : TaskId) (pc : Pc), s.tasks[n]? = some pc → pc.brings id = false
  extensions : s.manager.extensions.lookup id = none
  process : ∀ pid, s.manager.liveId pid ≠ some id

/-- Nothing is left of the extension, and no task is about to bring it back. -/
structure Server.Gone (id : ExtensionId) (s : Server) : Prop where
  away : s.Away id
  info : s.manager.infoCache.lookup id = none
  events : id ∉ s.manager.eventDispatcher

theorem Server.Gone.unloaded (h : s.Gone id) : s.manager.Unloaded id :=
  ⟨h.away.extensions, h.info, h.events, h.away.process⟩

/-- Without a start, and without a path, a section brings nothing back. -/
theorem Server.Away.run (h : s.Away id) (hn : s.tasks[n]? = some pc)
    (hadv : Advances env n choice s.manager pc pc' m')
    (hstarts : pc.starts id choice = false)
    (hpath : pc.readsPath id = true → s.manager.infoCache.lookup id = none) :
    Server.Away id ⟨m', s.tasks.set n pc'⟩ := by
  have heff : Effect id choice s.manager pc pc' m' := Pc.effect_of_advances hadv
  have hquiet := h.quiet n pc hn
  refine ⟨fun n' q hq => ?_, heff.extensions hquiet h.extensions, fun pid hlive => ?_⟩
  · rcases task_of_set hq with ⟨rfl, rfl⟩ | ⟨-, hq⟩
    · by_contra hb
      rw [Bool.not_eq_false] at hb
      rcases heff.brings hb with hb | hb | ⟨hb, hinfo⟩
      · rw [hquiet] at hb
        cases hb
      · rw [hstarts] at hb
        cases hb
      · exact hinfo (hpath hb)
    · exact h.quiet n' q hq
  · rcases heff.process pid hlive with hlive | hs
    · exact h.process pid hlive
    · rw [hstarts] at hs
      cases hs

theorem Server.Gone.run (h : s.Gone id) (hn : s.tasks[n]? = some pc)
    (hadv : Advances env n choice s.manager pc pc' m')
    (hstarts : pc.starts id choice = false) : Server.Gone id ⟨m', s.tasks.set n pc'⟩ := by
  have heff : Effect id choice s.manager pc pc' m' := Pc.effect_of_advances hadv
  have hquiet := h.away.quiet n pc hn
  exact ⟨h.away.run hn hadv hstarts fun _ => h.info, heff.info hquiet h.info,
    heff.events hquiet h.events⟩

/-- While the extension is being unloaded, nothing starts it and nobody reads its path. -/
theorem Pc.idle_of_orderly (h : pc.orderly id s choice = true) (hu : s.unloading id = true) :
    pc.starts id choice = false ∧ pc.readsPath id = false := by
  cases pc with
  | unload id' p => exact ⟨rfl, rfl⟩
  | load caller pc =>
    cases pc with
    | loadIsolated path g =>
      have hnot := of_decide_eq_true h
      simp only [hu, Bool.true_eq_false, false_and, imp_false] at hnot
      exact ⟨decide_eq_false hnot, rfl⟩
    | _ => exact ⟨rfl, rfl⟩
  | _ =>
    refine ⟨rfl, ?_⟩
    simpa [Pc.orderly, hu] using h

theorem unloading_of_task {p : UnloadPc} (hn : s.tasks[n]? = some (.unload id p))
    (hp : p ≠ .remove) : s.unloading id = true := by
  unfold Server.unloading
  rw [any_eq_true]
  refine ⟨_, mem_of_getElem? hn, ?_⟩
  cases p with
  | remove => exact absurd rfl hp
  | _ => exact decide_eq_true rfl

/-- What holds of an extension while it is unloaded: first it does not run any more, then its
cached information is gone, then its subscription to events. -/
structure Leaving (id : ExtensionId) (s : Server) : Prop where
  nodup : s.manager.eventDispatcher.Nodup
  away : ∀ (n : TaskId) p, s.tasks[n]? = some (.unload id p) → p ≠ .remove → s.Away id
  info : ∀ (n : TaskId) p, s.tasks[n]? = some (.unload id p) → p = .events ∨ p = .removeLock →
    s.manager.infoCache.lookup id = none
  events : ∀ n : TaskId, s.tasks[n]? = some (.unload id .removeLock) → id ∉ s.manager.eventDispatcher

/-- The first section of `unload`: the only process of the extension was the one in the map. -/
theorem Server.Settled.away (h : s.Settled id) (hn : s.tasks[n]? = some (.unload id .remove))
    (hadv : Advances env n choice s.manager (.unload id .remove) pc' m') :
    Server.Away id ⟨m', s.tasks.set n pc'⟩ := by
  have heff : Effect id choice s.manager (.unload id .remove) pc' m' :=
    Pc.effect_of_advances hadv
  have hquiet : ∀ (n' : TaskId) (q : Pc), (s.tasks.set n pc')[n']? = some q →
      q.brings id = false := by
    intro n' q hq
    rcases task_of_set hq with ⟨rfl, rfl⟩ | ⟨-, hq⟩
    · by_contra hb
      rw [Bool.not_eq_false] at hb
      rcases heff.brings hb with hb | hb | ⟨hb, -⟩ <;> cases hb
    · have hall := all_eq_true.mp h.quiet q (mem_of_getElem? hq)
      simpa using hall
  have hold : ∀ pid, m'.liveId pid = some id → s.manager.extensions.lookup id = some pid := by
    intro pid hlive
    rcases heff.process pid hlive with hlive | hs
    · obtain ⟨-, d, hd, -⟩ := liveId_eq_some.mp hlive
      exact h.process pid (Manager.lt_of_descriptorOf hd) hlive
    · cases hs
  cases hadv with
  | unload pid hpid =>
    refine ⟨hquiet, AList.lookup_erase _ _, fun pid' hlive => ?_⟩
    have heq : pid = pid' := some.inj (hpid.symm.trans (hold pid' hlive))
    subst heq
    have halive := (liveId_eq_some.mp hlive).1
    have hstopped : Manager.isAlive _ pid = false := s.manager.isAlive_markStopped_self pid
    exact absurd halive (by rw [Bool.not_eq_true]; exact hstopped)
  | unloadUnlisted hnone =>
    refine ⟨hquiet, hnone, fun pid' hlive => ?_⟩
    rw [hold pid' hlive] at hnone
    cases hnone

/-- An `unload` that finds nothing in the map: of a settled extension there is nothing else. -/
theorem Server.Settled.nowhere {q : UnloadPc} (h : s.Settled id)
    (hadv : Advances env n choice s.manager (.unload id .remove) (.unload id q) m')
    (hq : q = .events ∨ q = .removeLock) :
    m'.infoCache.lookup id = none ∧ id ∉ m'.eventDispatcher := by
  cases hadv with
  | unload => rcases hq with hq | hq <;> cases hq
  | unloadUnlisted hnone =>
    rcases h.mapped with hmem | hnowhere
    · exact absurd hmem (AList.lookup_eq_none.mp hnone)
    · exact hnowhere

/-- A step of no task: time passes, a process ends, or a call is made. -/
structure Outside (s s' : Server) : Prop where
  tasks : ∀ (n : TaskId) (pc : Pc), s'.tasks[n]? = some pc →
    s.tasks[n]? = some pc ∨ ∃ c : Call, pc = c.start
  extensions : s'.manager.extensions = s.manager.extensions
  info : s'.manager.infoCache = s.manager.infoCache
  events : s'.manager.eventDispatcher = s.manager.eventDispatcher
  process : Stops s.manager s'.manager

variable {a : Label}

theorem step_cases (h : step env s a = some s') :
    Outside s s' ∨ ∃ n choice pc pc' m', a = .run n choice ∧ s.tasks[n]? = some pc ∧
      Advances env n choice s.manager pc pc' m' ∧ s' = ⟨m', s.tasks.set n pc'⟩ := by
  cases a with
  | tick secs =>
    cases h
    exact Or.inl ⟨fun n pc hn => Or.inl hn, rfl, rfl, rfl, Or.inl rfl⟩
  | exit pid =>
    cases h
    exact Or.inl ⟨fun n pc hn => Or.inl hn, rfl, rfl, rfl, Or.inr ⟨pid, rfl⟩⟩
  | call c =>
    cases h
    refine Or.inl ⟨fun n pc hn => ?_, rfl, rfl, rfl, Or.inl rfl⟩
    rw [getElem?_append] at hn
    split at hn
    · exact Or.inl hn
    · rw [getElem?_singleton] at hn
      split at hn
      · cases hn
        exact Or.inr ⟨c, rfl⟩
      · cases hn
  | run n choice =>
    obtain ⟨pc, pc', m', hn, hadv, rfl⟩ := advances_of_step h
    exact Or.inr ⟨n, choice, pc, pc', m', rfl, hn, hadv, rfl⟩

theorem Server.Away.outside (h : s.Away id) (hs : Outside s s') : s'.Away id where
  quiet n pc hn := by
    rcases hs.tasks n pc hn with hn | ⟨c, rfl⟩
    · exact h.quiet n pc hn
    · cases c <;> rfl
  extensions := by rw [hs.extensions, h.extensions]
  process pid hlive := h.process pid (hs.process.liveId hlive)

theorem Server.Gone.outside (h : s.Gone id) (hs : Outside s s') : s'.Gone id where
  away := h.away.outside hs
  info := by rw [hs.info, h.info]
  events := by rw [hs.events]; exact h.events

theorem Leaving.new (id : ExtensionId) (now : ℤ) : Leaving id (Server.new now) where
  nodup := nodup_nil
  away n p hn := by simp [Server.new] at hn
  info n p hn := by simp [Server.new] at hn
  events n hn := by simp [Server.new] at hn

/-- A task runs one of its sections. -/
theorem Leaving.run (h : Leaving id s) (hn : s.tasks[n]? = some pc)
    (horder : pc.orderly id s choice = true)
    (hadv : Advances env n choice s.manager pc pc' m') :
    Leaving id ⟨m', s.tasks.set n pc'⟩ := by
  have heff : Effect id choice s.manager pc pc' m' := Pc.effect_of_advances hadv
  have haway : ∀ (n' : TaskId) p, s.tasks[n']? = some (.unload id p) → p ≠ .remove →
      pc.brings id = false ∧ Server.Away id ⟨m', s.tasks.set n pc'⟩ := by
    intro n' p hn' hp
    have hidle := Pc.idle_of_orderly horder (unloading_of_task hn' hp)
    have hs := h.away n' p hn' hp
    refine ⟨hs.quiet n pc hn, hs.run hn hadv hidle.1 fun hpath => ?_⟩
    rw [hidle.2] at hpath
    cases hpath
  refine ⟨heff.nodup h.nodup, fun n' q hq hne => ?_, fun n' q hq hphase => ?_,
    fun n' hq => ?_⟩
  · rcases task_of_set hq with ⟨rfl, rfl⟩ | ⟨-, hq⟩
    · obtain ⟨p, rfl⟩ := Pc.unload_of_advances hadv rfl
      by_cases hp : p = .remove
      · subst hp
        exact (of_decide_eq_true horder rfl).away hn hadv
      · exact (haway n' p hn hp).2
    · exact (haway n' q hq hne).2
  · rcases task_of_set hq with ⟨rfl, rfl⟩ | ⟨-, hq⟩
    · obtain ⟨p, rfl⟩ := Pc.unload_of_advances hadv rfl
      cases p with
      | remove => exact ((of_decide_eq_true horder rfl).nowhere hadv hphase).1
      | stop pid =>
        cases hadv
        rcases hphase with hq | hq <;> cases hq
      | info =>
        cases hadv
        exact AList.lookup_erase _ _
      | events =>
        cases hadv
        exact h.info n' .events hn (Or.inl rfl)
      | removeLock => cases hadv
    · have hne : q ≠ .remove := by
        rcases hphase with rfl | rfl
        · exact fun hq => by cases hq
        · exact fun hq => by cases hq
      exact heff.info (haway n' q hq hne).1 (h.info n' q hq hphase)
  · rcases task_of_set hq with ⟨rfl, rfl⟩ | ⟨-, hq⟩
    · obtain ⟨p, rfl⟩ := Pc.unload_of_advances hadv rfl
      cases p with
      | remove => exact ((of_decide_eq_true horder rfl).nowhere hadv (Or.inr rfl)).2
      | stop pid | info => cases hadv
      | events =>
        cases hadv
        exact h.nodup.not_mem_erase
      | removeLock => cases hadv
    · exact heff.events (haway n' .removeLock hq (by simp)).1 (h.events n' hq)

theorem Leaving.outside (h : Leaving id s) (hs : Outside s s') : Leaving id s' where
  nodup := by rw [hs.events]; exact h.nodup
  away n p hn hp := by
    rcases hs.tasks n _ hn with hn | ⟨c, hc⟩
    · exact (h.away n p hn hp).outside hs
    · cases c <;> cases hc
      exact absurd rfl hp
  info n p hn hp := by
    rcases hs.tasks n _ hn with hn | ⟨c, hc⟩
    · rw [hs.info]
      exact h.info n p hn hp
    · cases c <;> cases hc
      rcases hp with hp | hp <;> cases hp
  events n hn := by
    rcases hs.tasks n _ hn with hn | ⟨c, hc⟩
    · rw [hs.events]
      exact h.events n hn
    · cases c <;> cases hc

/-- The step lemma while the extension is unloaded. -/
theorem Leaving.step (h : Leaving id s) (horder : Orderly id s a)
    (hs : step env s a = some s') : Leaving id s' := by
  rcases step_cases hs with hs | ⟨n, choice, pc, pc', m', rfl, hn, hadv, rfl⟩
  · exact h.outside hs
  · simp only [Orderly, hn, all_some] at horder
    exact h.run hn horder hadv

/-- The step lemma once it is unloaded. -/
theorem Server.Gone.step (h : s.Gone id) (horder : Orderly id s a)
    (hload : s.runs (Pc.loadsNow id) a = false) (hs : step env s a = some s') : s'.Gone id := by
  rcases step_cases hs with hs | ⟨n, choice, pc, pc', m', rfl, hn, hadv, rfl⟩
  · exact h.outside hs
  · simp only [Orderly, hn, all_some] at horder
    simp only [Server.runs, hn, any_some] at hload
    refine h.run hn hadv ?_
    cases pc with
    | load caller pc =>
      cases pc with
      | loadIsolated path g =>
        refine decide_eq_false fun hid => ?_
        have hrestarts := (of_decide_eq_true horder hid).2
        have hquiet := of_decide_eq_false (h.away.quiet n _ hn)
        cases caller with
        | external => exact of_decide_eq_false hload hid
        | lazyRestart held => exact hquiet (congrArg some (hrestarts held.id rfl))
        | monitor id' rest => exact hquiet (congrArg some (hrestarts id' rfl))
      | _ => rfl
    | _ => rfl

/-- The last section of `unload`. -/
theorem Leaving.gone (h : Leaving id s) (horder : Orderly id s a)
    (hreturns : s.runs (fun _ => Pc.unloadReturns id) a = true)
    (hs : Extension.step env s a = some s') : s'.Gone id := by
  cases a with
  | run n choice =>
    simp only [Server.runs, any_eq_true_iff_get] at hreturns
    obtain ⟨hsome, hreturns⟩ := hreturns
    obtain ⟨pc, hn⟩ := isSome_iff_exists.mp hsome
    simp only [hn, get_some] at hreturns
    cases pc with
    | unload id' p =>
      cases p with
      | removeLock =>
        have hid : id' = id := of_decide_eq_true hreturns
        subst hid
        have hgone : s.Gone id' := ⟨h.away n _ hn (by simp), h.info n _ hn (Or.inr rfl),
          h.events n hn⟩
        exact hgone.step horder (by simp [Server.runs, hn, Pc.loadsNow]) hs
      | _ => cases hreturns
    | _ => cases hreturns
  | _ => cases hreturns

end Unload

/-! ## What the order is for -/

namespace Sample

/-- The extension is restarted by the death monitor, then unloaded, then called. -/
def unloadedInOrder : List Label :=
  [.call (.load weather), .call .deathNotification, .call (.unload "weather"),
    .call (.executeCommand "weather")]
    ++ run 0 11 ++ [.exit 0] ++ run 1 18 ++ run 2 5 ++ run 3 1

/-- The extension is unloaded after the death monitor has read its path. -/
def unloadedInMonitor : List Label :=
  [.call (.load weather), .call .deathNotification, .call (.unload "weather")]
    ++ run 0 11 ++ [.exit 0] ++ run 1 3 ++ run 2 5 ++ run 1 10

/-- The extension is unloaded after the lazy restart has seen that it is dead. -/
def unloadedInLazyRestart : List Label :=
  [.call (.load weather), .call (.executeCommand "weather"), .call (.unload "weather")]
    ++ run 0 11 ++ [.exit 0] ++ run 1 6 ++ run 2 5 ++ run 1 12

end Sample

/-- The extension was unloaded, and it is in the map again and runs. -/
def Resurrected (r : List (Server × Label) × Server) : Prop :=
  unloadedSince "weather" r.1 = true ∧ r.2.manager.liveId 1 = some "weather" ∧
    r.2.manager.extensions.lookup "weather" = some 1

instance (r : List (Server × Label) × Server) : Decidable (Resurrected r) :=
  inferInstanceAs (Decidable (_ ∧ _ ∧ _))

/-- The extension was unloaded by the replay of some actions, and it is there again. -/
structure UndoneBy (as : List Label) (tr : List (Server × Label)) (s : Server) : Prop where
  replayed : replay (step Sample.env) (Server.new 0) as = some (tr, s)
  run : Run (step Sample.env) (Server.new 0) tr s
  since : unloadedSince "weather" tr = true
  live : s.manager.liveId 1 = some "weather"
  back : ¬ s.manager.Unloaded "weather"

theorem exists_undoneBy {as : List Label}
    (h : (replay (step Sample.env) (Server.new 0) as).any
      (fun r => decide (Resurrected r)) = true) : ∃ tr s, UndoneBy as tr s := by
  cases hr : replay (step Sample.env) (Server.new 0) as with
  | none => simp [hr] at h
  | some r =>
    rw [hr, any_some] at h
    obtain ⟨hsince, hlive, hmapped⟩ := of_decide_eq_true h
    refine ⟨r.1, r.2, hr, run_of_replay hr, hsince, hlive, fun h => ?_⟩
    rw [h.extensions] at hmapped
    cases hmapped

end HeraMind.Extension
