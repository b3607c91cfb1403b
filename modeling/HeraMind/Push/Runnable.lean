/-
# Runnable targets

`create_target` and `update_target` (`crates/heramind-data-push/src/manager.rs`) check the
configuration that a request has.  An update that has a type and no configuration is not checked,
and no request has its schedule checked: the task of a target with an interval of no length panics
when it makes its timer (`spawn_interval`, `scheduler.rs`).
-/
import HeraMind.Push.LifecycleRuns

namespace HeraMind.Push

open List Option
open Transition

variable {Json : Type} (b : Backend Json)

/-! ## The property and the condition -/

/-- An interval has at least one second. -/
def PushSchedule.hasSecond : PushSchedule → Bool
  | .eventDriven _ => true
  | .interval secs => 1 ≤ secs

/-- The destination is made and takes the configuration, and the timer is made. -/
def Backend.isRunnable (t : PushTarget Json) : Bool :=
  (b.check t.targetType t.config).isOk && t.schedule.hasSecond

/-- The old configuration of the target is one of the type that it gets, and so is the schedule. -/
def UpdateTargetRequest.isChecked (request : UpdateTargetRequest Json) (t : PushTarget Json) :
    Bool :=
  (request.config.isSome ||
    match request.targetType.map parseTargetType with
    | some (.ok targetType) => (b.check targetType t.config).isOk
    | _ => true) &&
  request.schedule.all PushSchedule.hasSecond

/-- What the next section of a call makes of a request that it takes. -/
def PushCall.isChecked (s : PushManager Json) : PushCall Json → Bool
  | .create request => request.schedule.hasSecond
  | .load id (.update request) => (s.store.lookup id).all (request.isChecked b)
  | _ => true

/-- The request that is taken is checked. -/
def PushManager.Checked (s : PushManager Json) : ManagerLabel Json → Prop
  | .run n _ _ => (s.calls[n]?).all (PushCall.isChecked b s) = true
  | _ => True

instance (s : PushManager Json) : ∀ a, Decidable (s.Checked b a)
  | .run n _ _ => inferInstanceAs (Decidable ((s.calls[n]?).all (PushCall.isChecked b s) = true))
  | .call _ | .taskEnds _ => isTrue trivial

section

variable {b} {t t' : PushTarget Json}

/-! ## Single requests -/

/-- A target that is created is runnable exactly when its interval has a second. -/
theorem isRunnable_target {request : CreateTargetRequest Json} {uuid : String} {now : ℤ}
    (h : request.target b uuid now = .ok t) :
    b.isRunnable t = request.schedule.hasSecond := by
  unfold CreateTargetRequest.target at h
  cases htype : parseTargetType request.targetType with
  | error e =>
    rw [htype] at h
    cases h
  | ok targetType =>
    rw [htype] at h
    cases hcheck : b.check targetType request.config with
    | error e =>
      dsimp only [bind, Except.bind] at h
      rw [hcheck] at h
      cases h
    | ok _ =>
      dsimp only [bind, Except.bind] at h
      rw [hcheck] at h
      cases h
      unfold Backend.isRunnable
      dsimp only
      rw [hcheck]
      rfl

/-- What an update that is accepted makes of the type, the configuration and the schedule. -/
theorem apply_spec {request : UpdateTargetRequest Json} {now : ℤ}
    (h : request.apply b t now = .ok t') :
    (request.targetType.map parseTargetType = none ∧ t'.targetType = t.targetType ∨
      request.targetType.map parseTargetType = some (.ok t'.targetType)) ∧
    (∀ config, request.config = some config → b.check t'.targetType config = .ok ()) ∧
    t'.config = request.config.getD t.config ∧
    t'.schedule = request.schedule.getD t.schedule := by
  unfold UpdateTargetRequest.apply at h
  have hsaved : ∀ targetType : PushTargetType,
      UpdateTargetRequest.apply b { request with targetType := none } { t with targetType } now =
        .ok t' →
      t'.targetType = targetType ∧
        (∀ config, request.config = some config → b.check t'.targetType config = .ok ()) ∧
        t'.config = request.config.getD t.config ∧
        t'.schedule = request.schedule.getD t.schedule := by
    intro targetType h
    unfold UpdateTargetRequest.apply at h
    dsimp only at h
    cases hconfig : request.config with
    | none =>
      rw [hconfig] at h
      cases h
      refine ⟨rfl, ?_, rfl, rfl⟩
      intro config hsome
      cases hsome
    | some config =>
      rw [hconfig] at h
      dsimp only [bind, Except.bind, pure, Except.pure] at h
      cases hcheck : b.check targetType config with
      | error e =>
        rw [hcheck] at h
        cases h
      | ok _ =>
        rw [hcheck] at h
        cases h
        refine ⟨rfl, ?_, rfl, rfl⟩
        intro config' hsome
        rw [← some.inj hsome]
        exact hcheck
  cases hname : request.targetType with
  | none =>
    rw [hname] at h
    obtain ⟨htype, hrest⟩ := hsaved t.targetType h
    exact ⟨Or.inl ⟨rfl, htype⟩, hrest⟩
  | some name =>
    rw [hname] at h
    cases hparse : parseTargetType name with
    | error e =>
      dsimp only [bind, Except.bind] at h
      rw [hparse] at h
      cases h
    | ok targetType =>
      dsimp only [bind, Except.bind] at h
      rw [hparse] at h
      obtain ⟨htype, hrest⟩ := hsaved targetType h
      rw [map_some, hparse, htype]
      exact ⟨Or.inr rfl, htype ▸ hrest⟩

/-- A runnable target stays so exactly when the update is checked. -/
theorem isRunnable_apply {request : UpdateTargetRequest Json} {now : ℤ}
    (h : request.apply b t now = .ok t') (ht : b.isRunnable t = true) :
    b.isRunnable t' = request.isChecked b t := by
  obtain ⟨hcheck, hsecond⟩ := Bool.and_eq_true_iff.mp ht
  obtain ⟨htype, hconfig, hconfig', hschedule⟩ := apply_spec h
  unfold Backend.isRunnable UpdateTargetRequest.isChecked
  rw [hconfig', hschedule]
  congr 1
  · cases hsome : request.config with
    | some config =>
      rw [getD_some, hconfig config hsome]
      rfl
    | none =>
      rw [getD_none, isSome_none, Bool.false_or]
      rcases htype with ⟨hnone, hsame⟩ | hparsed
      · rw [hnone, hsame]
        exact hcheck
      · rw [hparsed]
  · cases request.schedule with
    | none => exact hsecond
    | some schedule => rfl

/-- The task of a runnable target does not end by itself when there is an event bus. -/
theorem isDoomed_of_isRunnable (h : b.isRunnable t = true) : b.isDoomed t = !b.eventBus := by
  obtain ⟨hcheck, hsecond⟩ := Bool.and_eq_true_iff.mp h
  have hcreate : (b.createDestination t.targetType t.config).isOk = true := by
    unfold Backend.check at hcheck
    cases hcreate : b.createDestination t.targetType t.config with
    | error e =>
      rw [hcreate] at hcheck
      cases hcheck
    | ok _ => rfl
  have hstart : (PushTask.start t 0).isNone = false := by
    unfold PushTask.start
    cases hschedule : t.schedule with
    | eventDriven types => rfl
    | interval secs =>
      rw [hschedule] at hsecond
      have hone : 1 ≤ secs := of_decide_eq_true hsecond
      dsimp only
      rw [if_neg (by omega)]
      rfl
  unfold Backend.isDoomed
  rw [hcreate, hstart, Bool.not_true, Bool.or_false, Bool.or_false]

end

/-! ## All targets -/

/-- The targets that a call has to do with after a stop. -/
def AfterStop.targets : AfterStop Json → List (PushTarget Json)
  | .spawn t after => t :: after.toStart
  | .restart t | .done t => [t]
  | .delete _ => []

/-- The targets that a call is to save or to start. -/
def PushCall.targets : PushCall Json → List (PushTarget Json)
  | .save t _ => [t]
  | .stop after | .join _ after => after.targets
  | .insert t _ after => t :: after.toStart
  | _ => []

theorem mem_targets_startIfEnabled {t u : PushTarget Json} (h : u ∈ (startIfEnabled t).targets) :
    u ∈ [t] := by
  unfold startIfEnabled at h
  split at h
  · exact h
  · cases h

namespace PushManager

/-- The targets in the store, of the tasks and in the calls are runnable. -/
structure AllRunnable (s : PushManager Json) : Prop where
  stored : ∀ id t, s.store.lookup id = some t → b.isRunnable t = true
  tasks : ∀ task ∈ s.tasks, b.isRunnable task.target = true
  calls : ∀ call ∈ s.calls, ∀ t ∈ call.targets, b.isRunnable t = true

namespace AllRunnable

variable {b} {s : PushManager Json} {call call' : PushCall Json} {n : ℕ}

theorem setCall (h : AllRunnable b s) (hcall : ∀ t ∈ call'.targets, b.isRunnable t = true) :
    AllRunnable b { s with calls := s.calls.set n call' } where
  stored := h.stored
  tasks := h.tasks
  calls := Calls.forall_mem_set h.calls hcall

theorem put {t : PushTarget Json} (h : AllRunnable b s) (ht : b.isRunnable t = true) :
    AllRunnable b { s with store := s.store.put t } where
  stored id u hu := by
    rw [KeyedMap.lookup_put] at hu
    split at hu
    · rw [← some.inj hu]
      exact ht
    · exact h.stored id u hu
  tasks := h.tasks
  calls := h.calls

theorem cancel (h : AllRunnable b s) (k : ℕ) : AllRunnable b (s.cancel k) where
  stored := h.stored
  tasks task htask := by
    obtain ⟨i, hi⟩ := mem_iff_getElem?.mp htask
    -- a task that is cancelled keeps its target
    have htarget := target_modify s.tasks k i
    have hi : (s.tasks.modify k ScheduledTask.cancel)[i]? = some task := hi
    rw [hi, map_some] at htarget
    obtain ⟨old, hold, hsame⟩ := map_eq_some_iff.mp htarget.symm
    rw [← hsame]
    exact h.tasks old (mem_of_getElem? hold)
  calls := h.calls

theorem resume {after : AfterStop Json} (h : AllRunnable b s)
    (hafter : ∀ t ∈ after.targets, b.isRunnable t = true) :
    AllRunnable b
      { (s.resume after).1 with calls := (s.resume after).1.calls.set n (s.resume after).2 } := by
  cases after with
  | spawn t next =>
    have hspawned : AllRunnable b { s with tasks := s.tasks ++ [⟨t, false, false⟩] } := by
      refine ⟨h.stored, ?_, h.calls⟩
      intro task htask
      rcases mem_append.mp htask with htask | htask
      · exact h.tasks task htask
      · rw [mem_singleton.mp htask]
        exact hafter t mem_cons_self
    exact hspawned.setCall hafter
  | restart t =>
    exact h.setCall fun u hu => hafter u (mem_targets_startIfEnabled hu)
  | done t | delete id => exact h.setCall fun u hu => by cases hu

theorem branch {s' : PushManager Json} {uuid : String} {now : ℤ} (h : AllRunnable b s)
    (hn : s.calls[n]? = some call) (hok : call.isChecked b s = true)
    (hs : Branch b s uuid now call s' call') :
    AllRunnable b { s' with calls := s'.calls.set n call' } := by
  have hcall := h.calls call (mem_of_getElem? hn)
  cases hs with
  | invalid | refused | missing => exact h.setCall fun t ht => by cases ht
  | @create request t ht =>
    have hrunnable : b.isRunnable t = true := (isRunnable_target ht).trans hok
    have hids : AllRunnable b { s with store := s.store.put t, ids := uuid :: s.ids } :=
      ⟨(h.put hrunnable).stored, h.tasks, h.calls⟩
    refine hids.setCall ?_
    intro u hu
    rw [mem_singleton.mp (mem_targets_startIfEnabled hu)]
    exact hrunnable
  | @load id change loaded t hloaded ht =>
    have hold := h.stored id loaded hloaded
    refine h.setCall ?_
    intro u hu
    rw [mem_singleton.mp hu]
    cases change with
    | update request =>
      rw [isRunnable_apply ht hold]
      have hall : (s.store.lookup id).all (request.isChecked b) = true := hok
      rw [hloaded] at hall
      exact hall
    | start | stop =>
      cases ht
      exact hold
  | @save t change =>
    have ht : b.isRunnable t = true := hcall t mem_cons_self
    refine (h.put ht).setCall ?_
    intro u hu
    cases change with
    | update request | start | stop => exact hcall u hu
  | list =>
    refine h.setCall ?_
    have hall : ∀ t ∈ s.listTargets.filter (fun t => t.enabled), b.isRunnable t = true := by
      intro t ht
      have hmem := (mem_filter.mp ht).1
      rw [listTargets, mem_insertionSort, KeyedMap.mem_values] at hmem
      exact h.stored t.id t hmem
    intro t ht
    cases hlist : s.listTargets.filter (fun t => t.enabled) with
    | nil =>
      rw [hlist] at ht
      cases ht
    | cons u targets =>
      rw [hlist] at ht hall
      exact hall t ht
  | free | join => exact h.resume hcall
  | @stop after k =>
    exact AllRunnable.setCall (s := { s.cancel k with handles := s.handles.erase after.id })
      ⟨h.stored, (h.cancel k).tasks, h.calls⟩ hcall
  | @insert t k next =>
    have hdropped : AllRunnable b { s.dropHandle t.id with
        handles := s.handles.insert t.id k } := by
      unfold dropHandle
      split
      · exact ⟨h.stored, h.tasks, h.calls⟩
      · exact ⟨h.stored, (h.cancel _).tasks, h.calls⟩
    refine hdropped.setCall ?_
    intro u hu
    cases next with
    | reply r => cases hu
    | startAll targets =>
      cases targets with
      | nil => cases hu
      | cons u' targets => exact hcall u (mem_cons_of_mem _ hu)
  | @delete id =>
    refine AllRunnable.setCall (s := { s with
      store := s.store.erase id, deleted := id :: s.deleted }) ⟨?_, h.tasks, h.calls⟩
      fun t ht => by cases ht
    intro id' t ht
    rw [KeyedMap.lookup_erase] at ht
    split at ht
    · cases ht
    · exact h.stored id' t ht

theorem step {s' : PushManager Json} {a : ManagerLabel Json} (h : AllRunnable b s)
    (hok : s.Checked b a) (hs : s.step b a = some s') : AllRunnable b s' := by
  cases a with
  | call op =>
    cases hs
    refine ⟨h.stored, h.tasks, ?_⟩
    intro call hcall t ht
    rcases mem_append.mp hcall with hcall | hcall
    · exact h.calls call hcall t ht
    · -- a call that is made has loaded nothing
      rw [mem_singleton.mp hcall] at ht
      cases op with
      | deleteTarget id | _ => cases ht
  | run n uuid now =>
    obtain ⟨call, s₁, call', hn, hbranch, rfl⟩ := branch_of_step hs
    have hall : (s.calls[n]?).all (PushCall.isChecked b s) = true := hok
    rw [hn] at hall
    exact h.branch hn hall hbranch
  | taskEnds k =>
    obtain ⟨task, hk, -, rfl⟩ := task_of_step hs
    exact ⟨h.stored, Calls.forall_mem_set h.tasks (h.tasks task (mem_of_getElem? hk)), h.calls⟩

end AllRunnable

theorem next_ne_error (after : AfterStart Json) (e : String) :
    after.next ≠ .returned (.error e) := by
  cases after with
  | reply r => exact fun h => by cases h
  | startAll targets =>
    cases targets with
    | nil | cons t targets => exact fun h => by cases h

theorem startIfEnabled_ne_error (t : PushTarget Json) (e : String) :
    startIfEnabled t ≠ .returned (.error e) := by
  unfold startIfEnabled
  split
  · exact fun h => by cases h
  · exact fun h => by cases h

theorem resume_ne_error (s : PushManager Json) (after : AfterStop Json) (e : String) :
    (s.resume after).2 ≠ .returned (.error e) := by
  cases after with
  | spawn t next => exact fun h => by cases h
  | restart t => exact startIfEnabled_ne_error t e
  | done t | delete id => exact fun h => by cases h

/-- A request that is refused is so in its first section, and changes nothing. -/
theorem step_of_error {b : Backend Json} {s s' : PushManager Json} {n : ℕ} {uuid e : String}
    {now : ℤ} (hs : s.step b (.run n uuid now) = some s')
    (herror : s'.calls[n]? = some (.returned (.error e))) :
    s'.store = s.store ∧ s'.handles = s.handles ∧ s'.tasks = s.tasks ∧
      ∃ op : Operation Json, s.calls[n]? = some op.call := by
  obtain ⟨call, s₁, call', hn, hbranch, rfl⟩ := branch_of_step hs
  have hlt : n < s₁.calls.length := by
    by_contra hge
    have hnone : (s₁.calls.set n call')[n]? = none := by
      rw [List.getElem?_eq_none_iff, length_set]
      omega
    cases hnone.symm.trans herror
  have hcall' : call' = .returned (.error e) := by
    rw [getElem?_set_self hlt] at herror
    exact some.inj herror
  rw [hn]
  cases hbranch with
  | @invalid request => exact ⟨rfl, rfl, rfl, .createTarget request, rfl⟩
  | create => exact absurd hcall' (startIfEnabled_ne_error _ e)
  | @refused id change =>
    refine ⟨rfl, rfl, rfl, ?_⟩
    cases change with
    | update request => exact ⟨.updateTarget id request, rfl⟩
    | start => exact ⟨.startTarget id, rfl⟩
    | stop => exact ⟨.stopTarget id, rfl⟩
  | list | insert => exact absurd hcall' (next_ne_error _ e)
  | free | join => exact absurd hcall' (resume_ne_error s _ e)
  | load | save | stop | missing | delete => cases hcall'

/-- In every run from runnable targets whose requests are checked, the stored targets are runnable,
and no task ends by itself as long as there is an event bus.  In every run, a request that is
refused leaves the store, the handles and the tasks as they are. -/
theorem runnable_of_checked (b : Backend Json)
    (store : KeyedMap String (PushTarget Json) PushTarget.id)
    (hstore : ∀ id t, store.lookup id = some t → b.isRunnable t = true)
    (tr : List (PushManager Json × ManagerLabel Json)) (s : PushManager Json)
    (hr : Run (PushManager.step b) (PushManager.boot store) tr s) :
    (Within (Checked b) tr →
      (∀ id t, s.store.lookup id = some t → b.isRunnable t = true) ∧
      ∀ task ∈ s.tasks, b.isDoomed task.target = !b.eventBus) ∧
    ∀ n uuid now s' e, s.step b (.run n uuid now) = some s' →
      s'.calls[n]? = some (.returned (.error e)) →
      s'.store = s.store ∧ s'.handles = s.handles ∧ s'.tasks = s.tasks ∧
        ∃ op : Operation Json, s.calls[n]? = some op.call := by
  refine ⟨?_, fun n uuid now s' e hs herror => step_of_error hs herror⟩
  intro hok
  have hboot : AllRunnable b (PushManager.boot store) := by
    refine ⟨hstore, fun task htask => absurd htask not_mem_nil, ?_⟩
    intro call hcall t ht
    rw [mem_singleton.mp hcall] at ht
    cases ht
  have hall := hr.invariant hok hboot fun s a s' h hok hs => h.step hok hs
  exact ⟨hall.stored, fun task htask => isDoomed_of_isRunnable (hall.tasks task htask)⟩

end PushManager

namespace Sample

/-- A target with an interval is created, and renamed. -/
def polled : CreateTargetRequest String where
  name := "Poll"
  targetType := "webhook"
  config := "\x7b\"url\":\"https://poll\"\x7d"
  schedule := .interval 60
  dataFilter := ⟨[], false⟩
  template := none
  enabled := none
  retryConfig := none
  batchConfig := none

def pollCalls : List (ManagerLabel String) :=
  [.call (.createTarget polled), .run 1 "poll" 1, .run 1 "" 1, .run 1 "" 1,
    .call (.updateTarget "poll" { touch with name := some "Edge" }), .run 2 "" 2, .run 2 "" 2,
    .call (.updateTarget "poll" { touch with targetType := some "ftp" }), .run 3 "" 3]

end Sample

namespace PushManager

theorem runnable_of_checked_polled : ∃ tr s,
    Run (PushManager.step Sample.backend) Sample.booted tr s ∧
      Within (Checked Sample.backend) tr ∧ (s.store.lookup "poll").isSome = true ∧
      s.tasks.length = 1 ∧
      (∀ id t, s.store.lookup id = some t → Sample.backend.isRunnable t = true) ∧
      ∀ task ∈ s.tasks, Sample.backend.isDoomed task.target = false := by
  obtain ⟨tr, s, hrun, hok, hstored, hlength⟩ := exists_run (PushManager.step Sample.backend)
    Sample.booted Sample.pollCalls
    (fun tr s => Within (Checked Sample.backend) tr ∧
      (s.store.lookup "poll").isSome = true ∧ s.tasks.length = 1)
    (by decide +kernel)
  have hcloud : ∀ id t, ((KeyedMap.empty : KeyedMap String (PushTarget String)
      PushTarget.id).put Sample.cloud).lookup id = some t →
      Sample.backend.isRunnable t = true := by
    intro id t ht
    rw [KeyedMap.lookup_put] at ht
    split at ht
    · cases ht
      decide
    · cases ht
  obtain ⟨hall, htasks⟩ := (runnable_of_checked Sample.backend _ hcloud tr s hrun).1 hok
  exact ⟨tr, s, hrun, hok, hstored, hlength, hall, htasks⟩

/-- A target gets a type that does not go with its configuration, and one an interval of no
length. -/
theorem unrunnable_stored :
    (∃ tr s, Run (PushManager.step Sample.backend) Sample.booted tr s ∧
      ∃ t, s.store.lookup "cloud" = some t ∧
        (Sample.backend.check t.targetType t.config).isOk = false) ∧
    ∃ tr s, Run (PushManager.step Sample.backend) Sample.booted tr s ∧
      ∃ t, s.store.lookup "poll" = some t ∧ PushTask.start t 0 = none := by
  constructor
  · obtain ⟨tr, s, hrun, hp⟩ := exists_run (PushManager.step Sample.backend)
      Sample.booted
      [.call (.updateTarget "cloud" { Sample.touch with targetType := some "mqtt" }),
        .run 1 "" 1, .run 1 "" 1]
      (fun _ s => ((s.store.lookup "cloud").any fun t =>
        !(Sample.backend.check t.targetType t.config).isOk) = true)
      (by decide)
    obtain ⟨t, ht, hcheck⟩ := (Option.any_eq_true _ _).mp hp
    rw [Bool.not_eq_true'] at hcheck
    exact ⟨tr, s, hrun, t, ht, hcheck⟩
  · obtain ⟨tr, s, hrun, hp⟩ := exists_run (PushManager.step Sample.backend)
      Sample.booted
      [.call (.createTarget { Sample.polled with schedule := .interval 0 }), .run 1 "poll" 1]
      (fun _ s => ((s.store.lookup "poll").any fun t => (PushTask.start t 0).isNone) = true)
      (by decide)
    obtain ⟨t, ht, hstart⟩ := (Option.any_eq_true _ _).mp hp
    exact ⟨tr, s, hrun, t, ht, isNone_iff_eq_none.mp hstart⟩

end PushManager

end HeraMind.Push
