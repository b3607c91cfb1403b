/-
# Tasks and their handles

A task that nobody has stopped is behind the handle of its target, whatever the calls do and however
they interleave: its handle is inserted once, and the one that it replaces is dropped.  So when
nothing is left to do, the tasks that run are those behind the handles, one for an id.
-/
import HeraMind.Push.Lifecycle

namespace HeraMind.Push

open List Option Function
open Transition

/-! ## The end of a run -/

/-- The call has returned. -/
def PushCall.isReturned {Json : Type} : PushCall Json → Bool
  | .returned _ => true
  | _ => false

/-- The task whose handle the call is to insert. -/
def PushCall.inserts {Json : Type} : PushCall Json → Option (PushTarget Json × ℕ)
  | .insert t k _ => some (t, k)
  | _ => none

namespace PushManager

section

variable {Json : Type}

/-- A task that runs. -/
def IsLive (s : PushManager Json) (k : ℕ) (task : ScheduledTask Json) : Prop :=
  s.tasks[k]? = some task ∧ task.ended = false

/-- All calls have returned, and all tasks that have to end have ended. -/
structure Quiescent (b : Backend Json) (s : PushManager Json) : Prop where
  returned : ∀ call ∈ s.calls, call.isReturned = true
  ended : ∀ task ∈ s.tasks, (task.cancelled || b.isDoomed task.target) = true → task.ended = true

end

/-! ## What a step does -/

section Branches

variable {Json : Type} (b : Backend Json) (s : PushManager Json) (uuid : String) (now : ℤ)

/-- What a section does, branch by branch. -/
inductive Branch : PushCall Json → PushManager Json → PushCall Json → Prop
  | invalid {request e} : Branch (.create request) s (.returned (.error e))
  | create {request t} : request.target b uuid now = .ok t → uuid ∉ s.ids → Branch (.create request)
      { s with store := s.store.put t, ids := uuid :: s.ids } (startIfEnabled t)
  | refused {id change e} : Branch (.load id change) s (.returned (.error e))
  | load {id change loaded t} : s.store.lookup id = some loaded →
      change.apply b loaded now = .ok t → Branch (.load id change) s (.save t change)
  | save {t change} :
      Branch (.save t change) { s with store := s.store.put t } (.stop (change.after t))
  | list : Branch .list s (AfterStart.startAll (s.listTargets.filter fun t => t.enabled)).next
  | free {after} : s.handles.lookup after.id = none →
      Branch (.stop after) (s.resume after).1 (s.resume after).2
  | stop {after} (k) : s.handles.lookup after.id = some k → Branch (.stop after)
      { s.cancel k with handles := s.handles.erase after.id } (.join k after)
  | join {k after} : Branch (.join k after) (s.resume after).1 (s.resume after).2
  | insert {t k after} : Branch (.insert t k after)
      { s.dropHandle t.id with handles := s.handles.insert t.id k } after.next
  | missing {id} : s.store.lookup id = none →
      Branch (.delete id) s (.returned (.ok (.deleted false)))
  | delete {id t} : s.store.lookup id = some t → Branch (.delete id)
      { s with store := s.store.erase id, deleted := id :: s.deleted }
      (.returned (.ok (.deleted true)))

variable {b s uuid now} {s' : PushManager Json}

theorem branch_of_runSection {call call' : PushCall Json}
    (h : s.runSection b uuid now call = some (s', call')) :
    Branch b s uuid now call s' call' := by
  cases call with
  | create request =>
    simp only [runSection] at h
    split at h
    · cases h
      exact .invalid
    · rename_i t ht
      split at h
      · cases h
      · rename_i hfresh
        cases h
        exact .create ht hfresh
  | load id change =>
    simp only [runSection] at h
    split at h
    · cases h
      exact .refused
    · rename_i loaded hloaded
      split at h
      · cases h
        exact .refused
      · rename_i t ht
        cases h
        exact .load hloaded ht
  | stop after =>
    simp only [runSection] at h
    split at h
    · rename_i hfree
      obtain ⟨rfl, rfl⟩ := Prod.ext_iff.mp (some.inj h)
      exact .free hfree
    · rename_i k hk
      cases h
      exact .stop k hk
  | join k after =>
    simp only [runSection] at h
    split at h
    · obtain ⟨rfl, rfl⟩ := Prod.ext_iff.mp (some.inj h)
      exact .join
    · cases h
  | delete id =>
    simp only [runSection] at h
    split at h
    · rename_i hnone
      cases h
      exact .missing hnone
    · rename_i t ht
      cases h
      exact .delete ht
  | save | list | insert =>
    cases h
    constructor
  | returned result => cases h

theorem branch_of_step {n : ℕ} (h : s.step b (.run n uuid now) = some s') :
    ∃ call s₁ call', s.calls[n]? = some call ∧ Branch b s uuid now call s₁ call' ∧
      s' = { s₁ with calls := s₁.calls.set n call' } := by
  simp only [step] at h
  split at h
  · cases h
  · rename_i call hn
    obtain ⟨⟨s₁, call'⟩, hr, rfl⟩ := map_eq_some_iff.mp h
    exact ⟨call, s₁, call', hn, branch_of_runSection hr, rfl⟩

theorem task_of_step {k : ℕ} (h : s.step b (.taskEnds k) = some s') :
    ∃ task, s.tasks[k]? = some task ∧ (task.cancelled || b.isDoomed task.target) = true ∧
      s' = { s with tasks := s.tasks.set k { task with ended := true } } := by
  simp only [step] at h
  split at h
  · cases h
  · rename_i task hk
    split at h
    · rename_i hends
      cases h
      exact ⟨task, hk, hends, rfl⟩
    · cases h

end Branches

/-! ## Tasks and handles -/

section Tracked

variable {Json : Type}

/-- A task that is not cancelled, and has not ended if it can run. -/
def Runs (b : Backend Json) (tasks : List (ScheduledTask Json)) (k : ℕ) (t : PushTarget Json) :
    Prop :=
  ∃ ended, tasks[k]? = some ⟨t, false, ended⟩ ∧ (ended = true → b.isDoomed t = true)

/-- A task that is not cancelled is behind a handle, or its handle is about to be inserted. -/
structure Tracked (b : Backend Json) (handles : String → Option ℕ)
    (tasks : List (ScheduledTask Json)) (inserting : ℕ → Option (PushTarget Json × ℕ)) :
    Prop where
  pending : ∀ i t k, inserting i = some (t, k) → Runs b tasks k t
  once : ∀ i j t u k, inserting i = some (t, k) → inserting j = some (u, k) → i = j
  apart : ∀ i t k id, inserting i = some (t, k) → handles id ≠ some k
  handled : ∀ id k, handles id = some k → ∃ t, Runs b tasks k t ∧ t.id = id
  live : ∀ k task, tasks[k]? = some task → task.cancelled = false → task.ended = false →
    handles task.target.id = some k ∨ ∃ i, inserting i = some (task.target, k)

variable {b : Backend Json} {handles : String → Option ℕ} {tasks : List (ScheduledTask Json)}
  {inserting : ℕ → Option (PushTarget Json × ℕ)} {id : String} {k : ℕ} {t : PushTarget Json}

theorem Runs.lt (h : Runs b tasks k t) : k < tasks.length := by
  obtain ⟨ended, hk, -⟩ := h
  exact (List.getElem?_eq_some_iff.mp hk).1

theorem Runs.append (h : Runs b tasks k t) (more : List (ScheduledTask Json)) :
    Runs b (tasks ++ more) k t := by
  have hlt := h.lt
  obtain ⟨ended, hk, hdoomed⟩ := h
  refine ⟨ended, ?_, hdoomed⟩
  rw [getElem?_append_left hlt]
  exact hk

theorem Runs.modify (h : Runs b tasks k t) {l : ℕ} (hne : l ≠ k) :
    Runs b (tasks.modify l ScheduledTask.cancel) k t := by
  obtain ⟨ended, hk, hdoomed⟩ := h
  refine ⟨ended, ?_, hdoomed⟩
  rw [getElem?_modify, hk]
  simp [hne]

theorem Runs.target (h : Runs b tasks k t) :
    (tasks[k]?).map ScheduledTask.target = some t := by
  obtain ⟨ended, hk, -⟩ := h
  rw [hk, map_some]

theorem Runs.target_eq {u : PushTarget Json} (h : Runs b tasks k t) (h' : Runs b tasks k u) :
    t = u :=
  some.inj (h.target.symm.trans h'.target)

namespace Tracked

/-- Two handles are not those of the same task. -/
theorem handles_inj (h : Tracked b handles tasks inserting) {id' : String}
    (hk : handles id = some k) (hk' : handles id' = some k) : id = id' := by
  obtain ⟨t, ht, hid⟩ := h.handled id k hk
  obtain ⟨u, hu, hid'⟩ := h.handled id' k hk'
  rw [← hid, ← hid', ht.target_eq hu]

/-- A handle is taken, and its task is cancelled. -/
theorem take (h : Tracked b handles tasks inserting) (hk : handles id = some k) :
    Tracked b (Function.update handles id none) (tasks.modify k ScheduledTask.cancel) inserting where
  pending i t l hi := by
    have hne : k ≠ l := by
      intro heq
      exact h.apart i t l id hi (heq ▸ hk)
    exact (h.pending i t l hi).modify hne
  once := h.once
  apart i t l id' hi hl := by
    by_cases hid : id' = id
    · rw [hid, update_self] at hl
      cases hl
    · rw [update_of_ne hid] at hl
      exact h.apart i t l id' hi hl
  handled id' l hl := by
    by_cases hid : id' = id
    · rw [hid, update_self] at hl
      cases hl
    · rw [update_of_ne hid] at hl
      have hne : k ≠ l := by
        intro heq
        exact hid (h.handles_inj hl (heq ▸ hk))
      obtain ⟨t, ht, hid'⟩ := h.handled id' l hl
      exact ⟨t, ht.modify hne, hid'⟩
  live l task hl hcancelled hended := by
    rw [getElem?_modify] at hl
    by_cases hkl : k = l
    · obtain ⟨t, ⟨ended, ht, -⟩, -⟩ := h.handled id k hk
      rw [← hkl, ht] at hl
      simp only [if_pos, Option.map_eq_map, map_some, some.injEq] at hl
      rw [← hl] at hcancelled
      cases hcancelled
    · have hlookup : tasks[l]? = some task := by simpa [hkl] using hl
      rcases h.live l task hlookup hcancelled hended with hhandle | hinserting
      · left
        have hid : task.target.id ≠ id := by
          intro heq
          rw [heq, hk] at hhandle
          exact hkl (some.inj hhandle)
        rw [update_of_ne hid]
        exact hhandle
      · exact Or.inr hinserting

/-- A task is spawned. -/
theorem spawn (h : Tracked b handles tasks inserting) {n : ℕ} (hn : inserting n = none)
    (t : PushTarget Json) :
    Tracked b handles (tasks ++ [⟨t, false, false⟩])
      (Function.update inserting n (some (t, tasks.length))) where
  pending i u l hi := by
    by_cases hin : i = n
    · rw [hin, update_self] at hi
      cases hi
      exact ⟨false, getElem?_concat_length, fun hended => by cases hended⟩
    · rw [update_of_ne hin] at hi
      exact (h.pending i u l hi).append _
  once i j u v l hi hj := by
    by_cases hin : i = n
    · by_cases hjn : j = n
      · rw [hin, hjn]
      · rw [hin, update_self] at hi
        rw [update_of_ne hjn] at hj
        cases hi
        exact absurd (h.pending j v _ hj).lt (Nat.lt_irrefl _)
    · rw [update_of_ne hin] at hi
      by_cases hjn : j = n
      · rw [hjn, update_self] at hj
        cases hj
        exact absurd (h.pending i u _ hi).lt (Nat.lt_irrefl _)
      · rw [update_of_ne hjn] at hj
        exact h.once i j u v l hi hj
  apart i u l id' hi hl := by
    obtain ⟨v, hv, -⟩ := h.handled id' l hl
    by_cases hin : i = n
    · rw [hin, update_self] at hi
      cases hi
      exact Nat.lt_irrefl _ hv.lt
    · rw [update_of_ne hin] at hi
      exact h.apart i u l id' hi hl
  handled id' l hl := by
    obtain ⟨u, hu, hid⟩ := h.handled id' l hl
    exact ⟨u, hu.append _, hid⟩
  live l task hl hcancelled hended := by
    by_cases hlen : l < tasks.length
    · rw [getElem?_append_left hlen] at hl
      rcases h.live l task hl hcancelled hended with hhandle | ⟨i, hi⟩
      · exact Or.inl hhandle
      · right
        refine ⟨i, ?_⟩
        have hin : i ≠ n := by
          intro heq
          rw [heq, hn] at hi
          cases hi
        rw [update_of_ne hin]
        exact hi
    · right
      have hbound := (List.getElem?_eq_some_iff.mp hl).1
      rw [length_append, length_singleton] at hbound
      have hlast : l = tasks.length := by omega
      rw [hlast, getElem?_concat_length] at hl
      cases hl
      exact ⟨n, by rw [update_self, hlast]⟩

/-- The handle of a task is inserted where there is none. -/
theorem insert (h : Tracked b handles tasks inserting) {n : ℕ}
    (hn : inserting n = some (t, k)) (hfree : handles t.id = none) :
    Tracked b (Function.update handles t.id (some k)) tasks
      (Function.update inserting n none) where
  pending i u l hi := by
    by_cases hin : i = n
    · rw [hin, update_self] at hi
      cases hi
    · rw [update_of_ne hin] at hi
      exact h.pending i u l hi
  once i j u v l hi hj := by
    by_cases hin : i = n
    · rw [hin, update_self] at hi
      cases hi
    · by_cases hjn : j = n
      · rw [hjn, update_self] at hj
        cases hj
      · rw [update_of_ne hin] at hi
        rw [update_of_ne hjn] at hj
        exact h.once i j u v l hi hj
  apart i u l id' hi hl := by
    by_cases hin : i = n
    · rw [hin, update_self] at hi
      cases hi
    · rw [update_of_ne hin] at hi
      by_cases hid : id' = t.id
      · rw [hid, update_self] at hl
        cases hl
        exact hin (h.once i n u t k hi hn)
      · rw [update_of_ne hid] at hl
        exact h.apart i u l id' hi hl
  handled id' l hl := by
    by_cases hid : id' = t.id
    · rw [hid, update_self] at hl
      cases hl
      exact ⟨t, h.pending n t k hn, hid.symm⟩
    · rw [update_of_ne hid] at hl
      exact h.handled id' l hl
  live l task hl hcancelled hended := by
    rcases h.live l task hl hcancelled hended with hhandle | ⟨i, hi⟩
    · left
      have hid : task.target.id ≠ t.id := by
        intro heq
        rw [heq, hfree] at hhandle
        cases hhandle
      rw [update_of_ne hid]
      exact hhandle
    · by_cases hin : i = n
      · left
        rw [hin, hn] at hi
        cases hi
        exact update_self _ _ _
      · right
        exact ⟨i, by rw [update_of_ne hin, hi]⟩

/-- A task ends that is cancelled, or that cannot run. -/
theorem ends (h : Tracked b handles tasks inserting) {task : ScheduledTask Json}
    (hk : tasks[k]? = some task) (hends : (task.cancelled || b.isDoomed task.target) = true) :
    Tracked b handles (tasks.set k { task with ended := true }) inserting := by
  have hset : ∀ l t, Runs b tasks l t →
      Runs b (tasks.set k { task with ended := true }) l t := by
    rintro l t ⟨ended, hl, hdoomed⟩
    by_cases hkl : k = l
    · rw [← hkl, hk] at hl
      cases hl
      refine ⟨true, ?_, fun _ => hends⟩
      rw [← hkl, getElem?_set_self (List.getElem?_eq_some_iff.mp hk).1]
    · refine ⟨ended, ?_, hdoomed⟩
      rw [getElem?_set_ne hkl]
      exact hl
  refine ⟨fun i t l hi => hset l t (h.pending i t l hi), h.once, h.apart, ?_, ?_⟩
  · intro id' l hl
    obtain ⟨t, ht, hid⟩ := h.handled id' l hl
    exact ⟨t, hset l t ht, hid⟩
  · intro l task' hl hcancelled hended
    by_cases hkl : k = l
    · have hbound := (List.getElem?_eq_some_iff.mp hk).1
      rw [← hkl, getElem?_set_self hbound] at hl
      cases hl
      cases hended
    · rw [getElem?_set_ne hkl] at hl
      exact h.live l task' hl hcancelled hended

end Tracked

end Tracked

/-! ## The scheduler -/

section Scheduler

variable {Json : Type}

/-- The handles that are about to be inserted. -/
def inserting (s : PushManager Json) (i : ℕ) : Option (PushTarget Json × ℕ) :=
  (s.calls[i]?).bind PushCall.inserts

/-- The tasks and the handles of the scheduler. -/
def Scheduled (b : Backend Json) (s : PushManager Json) : Prop :=
  Tracked b s.handles.lookup s.tasks s.inserting

variable {b : Backend Json} {s : PushManager Json} {n k : ℕ} {call call' : PushCall Json}
  {after : AfterStop Json}

theorem inserting_set (hn : s.calls[n]? = some call) :
    inserting { s with calls := s.calls.set n call' } =
      Function.update s.inserting n call'.inserts := by
  funext i
  unfold inserting
  by_cases hin : i = n
  · rw [hin, update_self]
    dsimp only
    rw [getElem?_set_self (List.getElem?_eq_some_iff.mp hn).1, bind_some]
  · rw [update_of_ne hin]
    dsimp only
    rw [getElem?_set_ne (Ne.symm hin)]

theorem inserting_eq (hn : s.calls[n]? = some call) : s.inserting n = call.inserts := by
  rw [inserting, hn, bind_some]

theorem inserting_set_none (hn : s.calls[n]? = some call) (hinserts : call.inserts = none)
    (hinserts' : call'.inserts = none) :
    inserting { s with calls := s.calls.set n call' } = s.inserting := by
  rw [inserting_set hn, hinserts', ← hinserts, ← inserting_eq hn, update_eq_self]

theorem inserting_append (h : call.inserts = none) :
    inserting { s with calls := s.calls ++ [call] } = s.inserting := by
  funext i
  unfold inserting
  dsimp only
  by_cases hi : i < s.calls.length
  · rw [getElem?_append_left hi]
  · rw [getElem?_eq_none (by omega : s.calls.length ≤ i),
      getElem?_append_right (by omega)]
    rcases Nat.eq_zero_or_pos (i - s.calls.length) with hzero | hpos
    · rw [hzero]
      exact h
    · rw [getElem?_eq_none (by rw [length_singleton]; omega)]
theorem inserts_startIfEnabled (t : PushTarget Json) : (startIfEnabled t).inserts = none := by
  unfold startIfEnabled
  split
  · rfl
  · rfl

theorem inserts_next (after : AfterStart Json) : after.next.inserts = none := by
  match after with
  | .reply r | .startAll [] | .startAll (t :: targets) => rfl

theorem inserts_call (op : Operation Json) : op.call.inserts = none := by
  cases op with
  | createTarget request | updateTarget id request | deleteTarget id | startTarget id
  | stopTarget id | startEnabledTargets => rfl

namespace Scheduled

/-- A section that is not one of the scheduler. -/
theorem setCall (h : Scheduled b s) (hn : s.calls[n]? = some call)
    (hinserts : call.inserts = none) (hinserts' : call'.inserts = none) :
    Scheduled b { s with calls := s.calls.set n call' } := by
  unfold Scheduled
  rw [inserting_set_none hn hinserts hinserts']
  exact h

/-- `stop` is over, and its caller goes on. -/
theorem resume (h : Scheduled b s) (hn : s.calls[n]? = some call)
    (hinserts : call.inserts = none) (after : AfterStop Json) :
    Scheduled b
      { (s.resume after).1 with calls := (s.resume after).1.calls.set n (s.resume after).2 } := by
  cases after with
  | spawn t next =>
    show Tracked b s.handles.lookup (s.tasks ++ [⟨t, false, false⟩])
      (PushManager.inserting { s with calls := s.calls.set n (.insert t s.tasks.length next) })
    rw [inserting_set hn]
    exact h.spawn (by rw [inserting_eq hn, hinserts]) t
  | restart t => exact h.setCall hn hinserts (inserts_startIfEnabled t)
  | done t | delete id => exact h.setCall hn hinserts rfl

/-- The handle is taken. -/
theorem take (h : Scheduled b s) (hn : s.calls[n]? = some (.stop after))
    (hk : s.handles.lookup after.id = some k) :
    Scheduled b
      { s.cancel k with
        handles := s.handles.erase after.id
        calls := s.calls.set n (.join k after) } := by
  show Tracked b (s.handles.erase after.id).lookup (s.tasks.modify k ScheduledTask.cancel)
    (PushManager.inserting { s with calls := s.calls.set n (.join k after) })
  rw [inserting_set_none hn rfl rfl, HashMap.lookup_erase_eq_update]
  exact Tracked.take h hk

/-- A handle is inserted.  If there is one, it is dropped first. -/
theorem insert {t : PushTarget Json} {next : AfterStart Json} (h : Scheduled b s)
    (hn : s.calls[n]? = some (.insert t k next)) :
    Scheduled b
      { s.dropHandle t.id with
        handles := s.handles.insert t.id k
        calls := (s.dropHandle t.id).calls.set n next.next } := by
  have hpending : s.inserting n = some (t, k) := inserting_eq hn
  have hset : inserting { s with calls := s.calls.set n next.next } =
      Function.update s.inserting n none := by
    rw [inserting_set hn, inserts_next]
  show Tracked b (s.handles.insert t.id k).lookup (s.dropHandle t.id).tasks
    (PushManager.inserting { s with calls := (s.dropHandle t.id).calls.set n next.next })
  rw [HashMap.lookup_insert_eq_update]
  unfold dropHandle
  split
  · rename_i hfree
    rw [hset]
    exact Tracked.insert h hpending hfree
  · rename_i old hold
    have hinsert := (Tracked.take h hold).insert hpending (update_self _ _ _)
    rw [update_idem] at hinsert
    show Tracked b _ _ (PushManager.inserting { s with calls := s.calls.set n next.next })
    rw [hset]
    exact hinsert

/-- A section of a call. -/
theorem branch {s' : PushManager Json} {uuid : String} {now : ℤ} (h : Scheduled b s)
    (hn : s.calls[n]? = some call) (hs : Branch b s uuid now call s' call') :
    Scheduled b { s' with calls := s'.calls.set n call' } := by
  cases hs with
  | create => exact h.setCall hn rfl (inserts_startIfEnabled _)
  | list => exact h.setCall hn rfl (inserts_next _)
  | free | join => exact h.resume hn rfl _
  | stop k hk => exact h.take hn hk
  | insert => exact h.insert hn
  | invalid | refused | load | save | missing | delete => exact h.setCall hn rfl rfl

theorem step {s' : PushManager Json} {a : ManagerLabel Json} (h : Scheduled b s)
    (hs : s.step b a = some s') : Scheduled b s' := by
  cases a with
  | call op =>
    cases hs
    unfold Scheduled
    rw [inserting_append (inserts_call op)]
    exact h
  | run n uuid now =>
    obtain ⟨call, s₁, call', hn, hbranch, rfl⟩ := branch_of_step hs
    exact h.branch hn hbranch
  | taskEnds k =>
    obtain ⟨task, hk, hends, rfl⟩ := task_of_step hs
    exact Tracked.ends h hk hends

/-- Nothing runs when the server boots. -/
theorem boot (b : Backend Json) (store : KeyedMap String (PushTarget Json) PushTarget.id) :
    Scheduled b (PushManager.boot store) := by
  have hnone : (PushManager.boot store).inserting = fun _ => none := by
    funext i
    cases i with
    | zero | succ i => rfl
  unfold Scheduled
  rw [hnone]
  refine ⟨?_, ?_, ?_, ?_, ?_⟩
  · intro i t k hi
    cases hi
  · intro i j t u k hi
    cases hi
  · intro i t k id hi
    cases hi
  · intro id k hk
    cases hk
  · intro k task hk
    cases hk

theorem of_run {store : KeyedMap String (PushTarget Json) PushTarget.id}
    {tr : List (PushManager Json × ManagerLabel Json)}
    (hr : Run (PushManager.step b) (PushManager.boot store) tr s) : Scheduled b s :=
  hr.invariant' (boot b store) fun _ _ _ h hs => h.step hs

/-- When nothing is left to do, a task that runs is behind the handle of its target. -/
theorem reachable (h : Scheduled b s) (hq : s.Quiescent b) {k : ℕ} {task : ScheduledTask Json}
    (hlive : s.IsLive k task) : s.handles.lookup task.target.id = some k := by
  obtain ⟨hk, hended⟩ := hlive
  have hcancelled : task.cancelled = false := by
    cases hc : task.cancelled with
    | false => rfl
    | true =>
      have hended' := hq.ended task (mem_of_getElem? hk) (by rw [hc, Bool.true_or])
      rw [hended] at hended'
      cases hended'
  rcases h.live k task hk hcancelled hended with hhandle | ⟨i, hi⟩
  · exact hhandle
  · unfold inserting at hi
    obtain ⟨call, hcall, hinserts⟩ := bind_eq_some_iff.mp hi
    have hreturned := hq.returned call (mem_of_getElem? hcall)
    cases call with
    | insert t k next => cases hreturned
    | create request | load id change | save t change | list | stop after | join k after
    | delete id | returned result => cases hinserts

/-- Two tasks that run are not those of one id. -/
theorem single (h : Scheduled b s) (hq : s.Quiescent b) {k l : ℕ}
    {task task' : ScheduledTask Json} (hlive : s.IsLive k task) (hlive' : s.IsLive l task')
    (hid : task.target.id = task'.target.id) : k = l := by
  have hk := h.reachable hq hlive
  rw [hid, h.reachable hq hlive'] at hk
  exact (some.inj hk).symm

end Scheduled

end Scheduler

end PushManager

end HeraMind.Push
