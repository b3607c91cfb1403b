/-
# Tasks and their targets

When all calls have returned and all tasks that have to end have ended, the tasks should be those of
the targets that are stored and enabled.  They are, as long as no call gets in between the store and
the handles of another one that works on the same target.

Which tasks are behind the handles depends on the scheduler alone.  Whether a handle has the target
that is stored depends on the calls: on those that are still to take it, and on those that are still
to start a target.
-/
import HeraMind.Lib.Calls
import HeraMind.Push.Scheduled

namespace HeraMind.Push

open List Option Function
open Transition

namespace PushManager

section

variable {Json : Type} (b : Backend Json)

/-! ## The property -/

/-- The tasks are those of the targets that are stored and enabled. -/
structure Consistent (s : PushManager Json) : Prop where
  single : ∀ k l task task', s.IsLive k task → s.IsLive l task' →
    task.target.id = task'.target.id → k = l
  runs : ∀ id, (∃ k task, s.IsLive k task ∧ task.target.id = id) ↔
    ∃ t, s.store.lookup id = some t ∧ t.enabled = true
  stored : ∀ k task, s.IsLive k task → s.store.lookup task.target.id = some task.target
  reachable : ∀ k task, s.IsLive k task → s.handles.lookup task.target.id = some k
  deleted : ∀ id ∈ s.deleted, s.store.lookup id = none

/-! ## The condition -/

/-- The store holds the target as the call left it. -/
def IsCurrent (s : PushManager Json) : AfterStop Json → Prop
  | .spawn t _ | .restart t | .done t => s.store.lookup t.id = some t
  | .delete _ => True

/-- The next section of a call finds the store as the call left it, and does not insert the handle
of a task that cannot run. -/
def CallUndisturbed (s : PushManager Json) : PushCall Json → Prop
  | .save t _ => (s.store.lookup t.id).isSome = true
  | .stop after | .join _ after => s.IsCurrent after
  | .insert t _ _ => s.store.lookup t.id = some t ∧ b.isDoomed t = false
  | .delete id => ∀ task ∈ s.tasks, task.target.id = id → (task.cancelled || task.ended) = true
  | .create _ | .load _ _ | .list | .returned _ => True

/-- No other call has got in between. -/
def Undisturbed (s : PushManager Json) : ManagerLabel Json → Prop
  | .run n _ _ => ∀ call ∈ s.calls[n]?, s.CallUndisturbed b call
  | .call _ | .taskEnds _ => True

instance [DecidableEq Json] (s : PushManager Json) : ∀ after, Decidable (s.IsCurrent after)
  | .spawn t _ | .restart t | .done t => inferInstanceAs (Decidable (s.store.lookup t.id = some t))
  | .delete _ => isTrue trivial

instance [DecidableEq Json] (s : PushManager Json) : ∀ call, Decidable (s.CallUndisturbed b call)
  | .save t _ => inferInstanceAs (Decidable ((s.store.lookup t.id).isSome = true))
  | .stop after | .join _ after => inferInstanceAs (Decidable (s.IsCurrent after))
  | .insert t _ _ =>
    inferInstanceAs (Decidable (s.store.lookup t.id = some t ∧ b.isDoomed t = false))
  | .delete id =>
    inferInstanceAs (Decidable
      (∀ task ∈ s.tasks, task.target.id = id → (task.cancelled || task.ended) = true))
  | .create _ | .load _ _ | .list | .returned _ => isTrue trivial

instance [DecidableEq Json] (s : PushManager Json) : ∀ a, Decidable (s.Undisturbed b a)
  | .run n _ _ => inferInstanceAs (Decidable (∀ call ∈ s.calls[n]?, s.CallUndisturbed b call))
  | .call _ | .taskEnds _ => isTrue trivial

end

end PushManager

/-! ## What a call still does -/

section

variable {Json : Type}

/-- The targets that are started after another one. -/
def AfterStart.toStart : AfterStart Json → List (PushTarget Json)
  | .reply _ => []
  | .startAll targets => targets

/-- The targets that are started after a stop. -/
def AfterStop.toStart : AfterStop Json → List (PushTarget Json)
  | .spawn t after => t :: after.toStart
  | .restart t => if t.enabled then [t] else []
  | .done _ | .delete _ => []

/-- The target that is left stopped. -/
def AfterStop.toStop : AfterStop Json → Option (PushTarget Json)
  | .done t => some t
  | _ => none

/-- The target whose handle is taken. -/
def AfterStop.target? : AfterStop Json → Option (PushTarget Json)
  | .spawn t _ | .restart t | .done t => some t
  | .delete _ => none

/-- The call that goes on so is to start a target that is stored, or to delete it. -/
def AfterStop.Settles (id : String) (t : PushTarget Json) : AfterStop Json → Prop
  | .delete id' => id' = id
  | after => t ∈ after.toStart

namespace PushCall

/-- The targets that the call is to start. -/
def toStart : PushCall Json → List (PushTarget Json)
  | .save t change => (change.after t).toStart
  | .stop after | .join _ after => after.toStart
  | .insert t _ after => t :: after.toStart
  | _ => []

/-- The target that the call leaves stopped. -/
def toStop : PushCall Json → Option (PushTarget Json)
  | .save t change => (change.after t).toStop
  | .stop after | .join _ after => after.toStop
  | _ => none

/-- The target whose handle the call is to take. -/
def takes : PushCall Json → Option (PushTarget Json)
  | .stop after => after.target?
  | _ => none

/-- The call is to start a target that is stored, or to delete it. -/
def Settles (id : String) (t : PushTarget Json) : PushCall Json → Prop
  | .list => True
  | .delete id' => id' = id
  | .join _ after => after.Settles id t
  | .save _ _ => False
  | call => t ∈ call.toStart

/-- What is to be started is enabled, and what is left stopped is not. -/
def WellFormed (call : PushCall Json) : Prop :=
  (∀ t ∈ call.toStart, t.enabled = true) ∧ ∀ t, call.toStop = some t → t.enabled = false

end PushCall

end

namespace PushManager
/-! ## Handles and the store -/

section Agreed

variable {Json : Type}

/-- Handles are those of stored targets or are still to be taken, and the targets that are stored
and enabled have handles, are still to be started, or are about to be deleted. -/
structure Agreed (stored registered : String → Option (PushTarget Json))
    (calls : List (PushCall Json)) : Prop where
  keyed : ∀ id t, stored id = some t → t.id = id
  current : ∀ id u, registered id = some u → ∃ t, stored id = some t ∧
    ((u = t ∧ t.enabled = true) ∨ ∃ call ∈ calls, call.takes = some t)
  started : ∀ id t, stored id = some t → t.enabled = true →
    registered id = some t ∨ ∃ call ∈ calls, call.Settles id t

variable {stored registered : String → Option (PushTarget Json)} {calls : List (PushCall Json)}
  {n : ℕ} {call call' : PushCall Json} {id : String} {t : PushTarget Json}

namespace Agreed

/-- A section that leaves the store and the handles as they are. -/
theorem set (h : Agreed stored registered calls) (hn : calls[n]? = some call)
    (htakes : ∀ t, call.takes = some t → registered t.id = none)
    (hsettles : ∀ id t, stored id = some t → t.enabled = true → call.Settles id t →
      call'.Settles id t) : Agreed stored registered (calls.set n call') where
  keyed := h.keyed
  current id u hu := by
    obtain ⟨t, ht, hcall⟩ := h.current id u hu
    refine ⟨t, ht, hcall.imp_right (Calls.exists_mem_set hn fun hold => ?_)⟩
    have hnone := htakes t hold
    rw [h.keyed id t ht, hu] at hnone
    cases hnone
  started id t ht henabled :=
    (h.started id t ht henabled).imp_right (Calls.exists_mem_set hn (hsettles id t ht henabled))

/-- A target is saved. -/
theorem put (h : Agreed stored registered calls) (hn : calls[n]? = some call)
    (htakes : call.takes = none) (hsettles : ∀ id u, ¬ call.Settles id u)
    (htaken : registered t.id = none ∨ call'.takes = some t)
    (hsettled : t.enabled = true → call'.Settles t.id t) :
    Agreed (Function.update stored t.id (some t)) registered (calls.set n call') where
  keyed id u hu := by
    by_cases hid : id = t.id
    · rw [hid, update_self] at hu
      cases hu
      exact hid.symm
    · rw [update_of_ne hid] at hu
      exact h.keyed id u hu
  current id u hu := by
    by_cases hid : id = t.id
    · refine ⟨t, by rw [hid, update_self], Or.inr ?_⟩
      rcases htaken with hnone | htaken
      · rw [hid, hnone] at hu
        cases hu
      · exact ⟨call', Calls.mem_set_self hn call', htaken⟩
    · obtain ⟨v, hv, hcall⟩ := h.current id u hu
      refine ⟨v, by rw [update_of_ne hid, hv],
        hcall.imp_right (Calls.exists_mem_set hn fun hold => ?_)⟩
      rw [htakes] at hold
      cases hold
  started id u hu henabled := by
    by_cases hid : id = t.id
    · rw [hid, update_self] at hu
      cases hu
      rw [hid]
      exact Or.inr ⟨call', Calls.mem_set_self hn call', hsettled henabled⟩
    · rw [update_of_ne hid] at hu
      exact (h.started id u hu henabled).imp_right
        (Calls.exists_mem_set hn fun hold => absurd hold (hsettles id u))

/-- A handle is taken. -/
theorem take (h : Agreed stored registered calls) (hn : calls[n]? = some call)
    (htakes : ∀ t, call.takes = some t → t.id = id)
    (hsettles : ∀ id t, stored id = some t → t.enabled = true → call.Settles id t →
      call'.Settles id t)
    (hsettled : ∀ t, stored id = some t → t.enabled = true → call'.Settles id t) :
    Agreed stored (Function.update registered id none) (calls.set n call') where
  keyed := h.keyed
  current id' u hu := by
    by_cases hid : id' = id
    · rw [hid, update_self] at hu
      cases hu
    · rw [update_of_ne hid] at hu
      obtain ⟨t, ht, hcall⟩ := h.current id' u hu
      refine ⟨t, ht, hcall.imp_right (Calls.exists_mem_set hn fun hold => ?_)⟩
      exact absurd ((h.keyed id' t ht).symm.trans (htakes t hold)) hid
  started id' t ht henabled := by
    by_cases hid : id' = id
    · rw [hid] at ht ⊢
      exact Or.inr ⟨call', Calls.mem_set_self hn call', hsettled t ht henabled⟩
    · rw [update_of_ne hid]
      exact (h.started id' t ht henabled).imp_right
        (Calls.exists_mem_set hn (hsettles id' t ht henabled))

/-- The handle of a stored target is inserted. -/
theorem insert (h : Agreed stored registered calls) (hn : calls[n]? = some call)
    (htakes : call.takes = none) (ht : stored t.id = some t) (henabled : t.enabled = true)
    (hsettles : ∀ id u, stored id = some u → id ≠ t.id → call.Settles id u →
      call'.Settles id u) :
    Agreed stored (Function.update registered t.id (some t)) (calls.set n call') where
  keyed := h.keyed
  current id u hu := by
    by_cases hid : id = t.id
    · rw [hid, update_self] at hu
      cases hu
      exact ⟨t, hid ▸ ht, Or.inl ⟨rfl, henabled⟩⟩
    · rw [update_of_ne hid] at hu
      obtain ⟨v, hv, hcall⟩ := h.current id u hu
      refine ⟨v, hv, hcall.imp_right (Calls.exists_mem_set hn fun hold => ?_)⟩
      rw [htakes] at hold
      cases hold
  started id u hu hu' := by
    by_cases hid : id = t.id
    · rw [hid, ht] at hu
      cases hu
      left
      rw [hid, update_self]
    · rw [update_of_ne hid]
      exact (h.started id u hu hu').imp_right (Calls.exists_mem_set hn (hsettles id u hu hid))

/-- A target is deleted that has no handle. -/
theorem delete (h : Agreed stored registered calls) (hn : calls[n]? = some (.delete id))
    (hfree : registered id = none) :
    Agreed (Function.update stored id none) registered (calls.set n call') where
  keyed id' t ht := by
    by_cases hid : id' = id
    · rw [hid, update_self] at ht
      cases ht
    · rw [update_of_ne hid] at ht
      exact h.keyed id' t ht
  current id' u hu := by
    have hid : id' ≠ id := by
      intro heq
      rw [heq, hfree] at hu
      cases hu
    obtain ⟨t, ht, hcall⟩ := h.current id' u hu
    exact ⟨t, by rw [update_of_ne hid, ht], hcall.imp_right (Calls.exists_mem_set hn nofun)⟩
  started id' t ht henabled := by
    by_cases hid : id' = id
    · rw [hid, update_self] at ht
      cases ht
    · rw [update_of_ne hid] at ht
      exact (h.started id' t ht henabled).imp_right
        (Calls.exists_mem_set hn fun hold => absurd hold.symm hid)

/-- A call is made. -/
theorem append (h : Agreed stored registered calls) (more : List (PushCall Json)) :
    Agreed stored registered (calls ++ more) where
  keyed := h.keyed
  current id u hu := by
    obtain ⟨t, ht, hok | ⟨call, hcall, htakes⟩⟩ := h.current id u hu
    · exact ⟨t, ht, Or.inl hok⟩
    · exact ⟨t, ht, Or.inr ⟨call, mem_append_left _ hcall, htakes⟩⟩
  started id t ht henabled := by
    rcases h.started id t ht henabled with hreg | ⟨call, hcall, hsettles⟩
    · exact Or.inl hreg
    · exact Or.inr ⟨call, mem_append_left _ hcall, hsettles⟩

end Agreed

end Agreed

/-! ## The invariant -/

section

variable {Json : Type}

/-- The target of the task behind a handle. -/
def registered (s : PushManager Json) (id : String) : Option (PushTarget Json) :=
  (s.handles.lookup id).bind fun k => (s.tasks[k]?).map ScheduledTask.target

structure Invariant (b : Backend Json) (s : PushManager Json) : Prop where
  agreed : Agreed s.store.lookup s.registered s.calls
  sound : ∀ id t, s.registered id = some t → b.isDoomed t = false
  formed : ∀ call ∈ s.calls, call.WellFormed
  ids : ∀ id t, s.store.lookup id = some t → id ∈ s.ids
  deleted : ∀ id ∈ s.deleted, id ∈ s.ids ∧ s.store.lookup id = none

variable {b : Backend Json} {s : PushManager Json} {n k : ℕ} {call call' : PushCall Json}
  {after : AfterStop Json} {id : String}

/-- A call that neither starts a target nor leaves one stopped. -/
theorem wellFormed_of_nil (hstart : call.toStart = []) (hstop : call.toStop = none) :
    call.WellFormed := by
  constructor
  · intro t ht
    rw [hstart] at ht
    cases ht
  · intro t ht
    rw [hstop] at ht
    cases ht

theorem wellFormed_returned (result : Except String (Reply Json)) :
    (PushCall.returned result).WellFormed :=
  wellFormed_of_nil rfl rfl

theorem wellFormed_next {after : AfterStart Json} (h : ∀ t ∈ after.toStart, t.enabled = true) :
    after.next.WellFormed := by
  match after, h with
  | .reply r, _ | .startAll [], _ => exact wellFormed_returned _
  | .startAll (t :: targets), h => exact ⟨h, fun u hu => by cases hu⟩

theorem wellFormed_startIfEnabled (t : PushTarget Json) : (startIfEnabled t).WellFormed := by
  unfold startIfEnabled
  split
  · rename_i henabled
    refine ⟨fun u hu => ?_, fun u hu => by cases hu⟩
    rw [mem_singleton.mp hu]
    exact henabled
  · exact wellFormed_returned _

theorem id_target {request : CreateTargetRequest Json} {uuid : String} {now : ℤ}
    {t : PushTarget Json} (h : request.target b uuid now = .ok t) : t.id = uuid := by
  unfold CreateTargetRequest.target at h
  cases htype : parseTargetType request.targetType with
  | error e =>
    rw [htype] at h
    cases h
  | ok targetType =>
    rw [htype] at h
    cases hcheck : b.check targetType request.config with
    | error e =>
      simp only [bind, Except.bind, hcheck] at h
      cases h
    | ok _ =>
      simp only [bind, Except.bind, hcheck] at h
      cases h
      rfl

/-- A target that is saved to be started is enabled, and one that is saved to be stopped is not. -/
theorem wellFormed_save {change : Change Json} {loaded t : PushTarget Json} {now : ℤ}
    (h : change.apply b loaded now = .ok t) : (PushCall.save t change).WellFormed := by
  cases change with
  | update request =>
    refine ⟨fun u hu => ?_, fun u hu => by cases hu⟩
    simp only [PushCall.toStart, Change.after, AfterStop.toStart] at hu
    split at hu
    · rename_i henabled
      rw [mem_singleton.mp hu]
      exact henabled
    · cases hu
  | start =>
    cases h
    refine ⟨fun u hu => ?_, fun u hu => by cases hu⟩
    rw [mem_singleton.mp hu]
  | stop =>
    cases h
    refine ⟨fun u hu => (by cases hu), fun u hu => ?_⟩
    cases hu
    rfl

theorem target_modify (tasks : List (ScheduledTask Json)) (k l : ℕ) :
    ((tasks.modify k ScheduledTask.cancel)[l]?).map ScheduledTask.target =
      (tasks[l]?).map ScheduledTask.target := by
  rw [getElem?_modify]
  cases tasks[l]? with
  | none => rfl
  | some task =>
    rw [Option.map_eq_map, map_some, map_some, map_some]
    split
    · rfl
    · rfl

/-- Tasks with the same targets. -/
theorem registered_congr {handles : HashMap String ℕ} {tasks tasks' : List (ScheduledTask Json)}
    (h : ∀ id k, handles.lookup id = some k →
      (tasks'[k]?).map ScheduledTask.target = (tasks[k]?).map ScheduledTask.target) :
    (fun id => (handles.lookup id).bind fun k => (tasks'[k]?).map ScheduledTask.target) =
      fun id => (handles.lookup id).bind fun k => (tasks[k]?).map ScheduledTask.target := by
  funext id
  cases hk : handles.lookup id with
  | none => rfl
  | some k => exact h id k hk

namespace Invariant

/-- Nothing is behind a handle that is not there. -/
theorem registered_eq_none (h : s.handles.lookup id = none) : s.registered id = none := by
  rw [registered, h, bind_none]

/-- A target that has a handle is stored. -/
theorem registered_eq_none_of_lookup (h : Invariant b s) (hid : s.store.lookup id = none) :
    s.registered id = none := by
  cases hreg : s.registered id with
  | none => rfl
  | some u =>
    obtain ⟨t, ht, -⟩ := h.agreed.current id u hreg
    rw [hid] at ht
    cases ht

/-- A section that changes only the place of its call. -/
theorem setCall (h : Invariant b s) (hn : s.calls[n]? = some call)
    (htakes : ∀ t, call.takes = some t → s.registered t.id = none)
    (hsettles : ∀ id t, s.store.lookup id = some t → t.enabled = true → call.Settles id t →
      call'.Settles id t) (hformed : call'.WellFormed) :
    Invariant b { s with calls := s.calls.set n call' } where
  agreed := h.agreed.set hn htakes hsettles
  sound := h.sound
  formed := Calls.forall_mem_set h.formed hformed
  ids := h.ids
  deleted := h.deleted

/-- A call returns that has nothing to do with the handles. -/
theorem returns (h : Invariant b s) (hn : s.calls[n]? = some call) (htakes : call.takes = none)
    (hsettles : ∀ id t, s.store.lookup id = some t → ¬ call.Settles id t)
    (hformed : call'.WellFormed) :
    Invariant b { s with calls := s.calls.set n call' } := by
  refine h.setCall hn ?_ ?_ hformed
  · intro t ht
    rw [htakes] at ht
    cases ht
  · intro id t ht _ hcall
    exact absurd hcall (hsettles id t ht)

/-- `stop` is over, and its caller goes on. -/
theorem resume (hsched : Scheduled b s) (h : Invariant b s) (hn : s.calls[n]? = some call)
    (htakes : ∀ t, call.takes = some t → s.registered t.id = none)
    (hsettles : ∀ id t, call.Settles id t → after.Settles id t)
    (hstarts : ∀ t ∈ after.toStart, t.enabled = true) :
    Invariant b
      { (s.resume after).1 with calls := (s.resume after).1.calls.set n (s.resume after).2 } := by
  cases after with
  | spawn t next =>
    have hsame : registered { s with tasks := s.tasks ++ [⟨t, false, false⟩] } =
        s.registered := by
      apply registered_congr
      intro id k hk
      obtain ⟨u, hu, -⟩ := hsched.handled id k hk
      rw [getElem?_append_left hu.lt]
    refine ⟨?_, ?_, ?_, h.ids, h.deleted⟩
    · show Agreed _ (registered { s with tasks := s.tasks ++ [⟨t, false, false⟩] }) _
      rw [hsame]
      exact h.agreed.set hn htakes fun id u _ _ hu => hsettles id u hu
    · intro id u hu
      exact h.sound id u (congrFun hsame id ▸ hu)
    · exact Calls.forall_mem_set h.formed ⟨hstarts, fun u hu => by cases hu⟩
  | restart t =>
    show Invariant b { s with calls := s.calls.set n (startIfEnabled t) }
    refine h.setCall hn htakes ?_ (wellFormed_startIfEnabled t)
    intro id u _ _ hu
    have hmem : u ∈ if t.enabled then [t] else [] := hsettles id u hu
    unfold startIfEnabled
    by_cases henabled : t.enabled = true
    · rw [if_pos henabled] at hmem ⊢
      exact hmem
    · rw [if_neg henabled] at hmem
      cases hmem
  | done t =>
    refine h.setCall hn htakes ?_ (wellFormed_returned _)
    intro id u _ _ hu
    cases hsettles id u hu
  | delete id =>
    exact h.setCall hn htakes (fun id' u _ _ hu => hsettles id' u hu) (wellFormed_of_nil rfl rfl)

/-- The handle is taken. -/
theorem take (h : Invariant b s) (hn : s.calls[n]? = some (.stop after))
    (hcurrent : s.IsCurrent after) :
    Invariant b
      { s.cancel k with
        handles := s.handles.erase after.id
        calls := s.calls.set n (.join k after) } := by
  have hformed := h.formed _ (mem_of_getElem? hn)
  have htaken : registered { s.cancel k with handles := s.handles.erase after.id } =
      Function.update s.registered after.id none := by
    funext id
    by_cases hid : id = after.id
    · rw [hid, update_self]
      exact registered_eq_none (AList.lookup_erase _ _)
    · rw [update_of_ne hid]
      show ((s.handles.erase after.id).lookup id).bind _ = _
      rw [AList.lookup_erase_ne hid]
      exact congrFun (registered_congr fun _ l _ => target_modify s.tasks k l) id
  refine ⟨?_, ?_, Calls.forall_mem_set h.formed hformed, h.ids, h.deleted⟩
  · show Agreed _ (registered { s.cancel k with handles := s.handles.erase after.id }) _
    rw [htaken]
    refine h.agreed.take hn ?_ ?_ ?_
    · intro t ht
      cases after with
      | spawn u next | restart u | done u => cases ht; rfl
      | delete id => cases ht
    · intro id t _ _ ht
      cases after with
      | delete id' => cases ht
      | spawn u next | restart u | done u => exact ht
    · intro t ht henabled
      cases after with
      | spawn u next =>
        have heq : u = t := some.inj (hcurrent.symm.trans ht)
        exact heq ▸ mem_cons_self
      | restart u =>
        have heq : u = t := some.inj (hcurrent.symm.trans ht)
        show t ∈ if u.enabled then [u] else []
        rw [heq, if_pos henabled]
        exact mem_cons_self
      | done u =>
        have heq : u = t := some.inj (hcurrent.symm.trans ht)
        have hdisabled := hformed.2 u rfl
        rw [heq, henabled] at hdisabled
        cases hdisabled
      | delete id => rfl
  · intro id t ht
    have hupdate := (congrFun htaken id).symm.trans ht
    by_cases hid : id = after.id
    · rw [hid, update_self] at hupdate
      cases hupdate
    · rw [update_of_ne hid] at hupdate
      exact h.sound id t hupdate

/-- A target is saved. -/
theorem put {t : PushTarget Json} {ids : List String} (h : Invariant b s)
    (hn : s.calls[n]? = some call) (htakes : call.takes = none)
    (hsettles : ∀ id u, ¬ call.Settles id u)
    (htaken : s.registered t.id = none ∨ call'.takes = some t)
    (hsettled : t.enabled = true → call'.Settles t.id t) (hformed : call'.WellFormed)
    (hids : ∀ id, id ∈ s.ids → id ∈ ids) (hid : t.id ∈ ids) (hdeleted : t.id ∉ s.deleted) :
    Invariant b
      { s with store := s.store.put t, ids := ids, calls := s.calls.set n call' } where
  agreed := by
    rw [KeyedMap.lookup_put_eq_update]
    exact h.agreed.put hn htakes hsettles htaken hsettled
  sound := h.sound
  formed := Calls.forall_mem_set h.formed hformed
  ids id u hu := by
    rw [KeyedMap.lookup_put] at hu
    split at hu
    · rename_i heq
      rw [heq]
      exact hid
    · exact hids id (h.ids id u hu)
  deleted id hmem := by
    have hne : id ≠ t.id := by
      intro heq
      exact hdeleted (heq ▸ hmem)
    rw [KeyedMap.lookup_put_ne _ hne]
    exact ⟨hids id (h.deleted id hmem).1, (h.deleted id hmem).2⟩

/-- A handle is inserted.  If there is one, it is dropped first. -/
theorem insert {t : PushTarget Json} {next : AfterStart Json} (hsched : Scheduled b s)
    (h : Invariant b s) (hn : s.calls[n]? = some (.insert t k next))
    (ht : s.store.lookup t.id = some t) (hdoomed : b.isDoomed t = false) :
    Invariant b
      { s.dropHandle t.id with
        handles := s.handles.insert t.id k
        calls := (s.dropHandle t.id).calls.set n next.next } := by
  have hformed := h.formed _ (mem_of_getElem? hn)
  have htarget : ∀ l : ℕ, ((s.dropHandle t.id).tasks[l]?).map ScheduledTask.target =
      (s.tasks[l]?).map ScheduledTask.target := by
    intro l
    unfold dropHandle
    split
    · rfl
    · exact target_modify _ _ _
  have hregistered :
      registered { s.dropHandle t.id with handles := s.handles.insert t.id k } =
        Function.update s.registered t.id (some t) := by
    funext id
    show ((s.handles.insert t.id k).lookup id).bind _ = _
    by_cases hid : id = t.id
    · rw [hid, update_self, AList.lookup_insert, bind_some, htarget]
      exact (hsched.pending n t k (inserting_eq hn)).target
    · rw [update_of_ne hid, AList.lookup_insert_ne hid]
      exact congrFun (registered_congr fun _ l _ => htarget l) id
  have hsame : (s.dropHandle t.id).store = s.store ∧ (s.dropHandle t.id).ids = s.ids ∧
      (s.dropHandle t.id).deleted = s.deleted ∧ (s.dropHandle t.id).calls = s.calls := by
    unfold dropHandle
    split
    · exact ⟨rfl, rfl, rfl, rfl⟩
    · exact ⟨rfl, rfl, rfl, rfl⟩
  obtain ⟨hstore, hids, hdeleted, hcalls⟩ := hsame
  refine ⟨?_, ?_, ?_, ?_, ?_⟩
  · show Agreed (s.dropHandle t.id).store.lookup
      (registered { s.dropHandle t.id with handles := s.handles.insert t.id k }) _
    rw [hregistered, hstore, hcalls]
    refine h.agreed.insert hn rfl ht (hformed.1 t mem_cons_self) ?_
    intro id u hu hid hsettles
    have hkey := h.agreed.keyed id u hu
    rcases mem_cons.mp hsettles with rfl | hmem
    · exact absurd hkey.symm hid
    · match next with
      | .reply r => cases hmem
      | .startAll (v :: targets) => exact hmem
  · intro id u hu
    have hupdate := (congrFun hregistered id).symm.trans hu
    by_cases hid : id = t.id
    · rw [hid, update_self] at hupdate
      cases hupdate
      exact hdoomed
    · rw [update_of_ne hid] at hupdate
      exact h.sound id u hupdate
  · show ∀ c ∈ (s.dropHandle t.id).calls.set n next.next, c.WellFormed
    rw [hcalls]
    exact Calls.forall_mem_set h.formed
      (wellFormed_next fun u hu => hformed.1 u (mem_cons_of_mem t hu))
  · intro id u hu
    rw [hids]
    exact h.ids id u (hstore ▸ hu)
  · intro id hid
    rw [hids, hstore]
    exact h.deleted id (hdeleted ▸ hid)

/-- A row is deleted whose tasks do not run. -/
theorem delete (hsched : Scheduled b s) (h : Invariant b s)
    (hn : s.calls[n]? = some (.delete id)) (hid : (s.store.lookup id).isSome = true)
    (hended : ∀ task ∈ s.tasks, task.target.id = id → (task.cancelled || task.ended) = true)
    (result : Except String (Reply Json)) :
    Invariant b
      { s with
        store := s.store.erase id
        deleted := id :: s.deleted
        calls := s.calls.set n (.returned result) } := by
  have hfree : s.registered id = none := by
    cases hk : s.handles.lookup id with
    | none => exact registered_eq_none hk
    | some k =>
      obtain ⟨t, ht, hkey⟩ := hsched.handled id k hk
      have hreg : s.registered id = some t := by
        rw [registered, hk, bind_some, ht.target]
      obtain ⟨ended, hlookup, hends⟩ := ht
      have hdone := hended _ (mem_of_getElem? hlookup) hkey
      rw [Bool.false_or] at hdone
      have hdoomed := h.sound id t hreg
      rw [hends hdone] at hdoomed
      cases hdoomed
  refine ⟨?_, h.sound, Calls.forall_mem_set h.formed (wellFormed_returned _), ?_, ?_⟩
  · show Agreed (s.store.erase id).lookup s.registered _
    rw [KeyedMap.lookup_erase_eq_update]
    exact h.agreed.delete hn hfree
  · intro id' t ht
    rw [KeyedMap.lookup_erase] at ht
    split at ht
    · cases ht
    · exact h.ids id' t ht
  · intro id' hmem
    rw [KeyedMap.lookup_erase]
    rcases mem_cons.mp hmem with rfl | hmem
    · obtain ⟨t, ht⟩ := isSome_iff_exists.mp hid
      exact ⟨h.ids id' t ht, if_pos rfl⟩
    · have hold := h.deleted id' hmem
      refine ⟨hold.1, ?_⟩
      split
      · rfl
      · exact hold.2

/-- A task ends. -/
theorem ends {task : ScheduledTask Json} (h : Invariant b s) (hk : s.tasks[k]? = some task) :
    Invariant b { s with tasks := s.tasks.set k { task with ended := true } } := by
  have hsame : registered { s with tasks := s.tasks.set k { task with ended := true } } =
      s.registered := by
    apply registered_congr
    intro id l _
    by_cases hkl : k = l
    · rw [← hkl, getElem?_set_self (List.getElem?_eq_some_iff.mp hk).1, hk]
      rfl
    · rw [getElem?_set_ne hkl]
  refine ⟨?_, ?_, h.formed, h.ids, h.deleted⟩
  · rw [hsame]
    exact h.agreed
  · rw [hsame]
    exact h.sound

/-- A call is made. -/
theorem invoke (h : Invariant b s) (op : Operation Json) :
    Invariant b { s with calls := s.calls ++ [op.call] } where
  agreed := h.agreed.append _
  sound := h.sound
  formed c hc := by
    rcases mem_append.mp hc with hc | hc
    · exact h.formed c hc
    · rw [mem_singleton.mp hc]
      cases op with
      | createTarget request | updateTarget id request | deleteTarget id | startTarget id
      | stopTarget id | startEnabledTargets => exact wellFormed_of_nil rfl rfl
  ids := h.ids
  deleted := h.deleted

/-- A section of a call that no other call disturbs. -/
theorem branch {s' : PushManager Json} {uuid : String} {now : ℤ} (hsched : Scheduled b s)
    (h : Invariant b s) (hn : s.calls[n]? = some call) (hok : s.CallUndisturbed b call)
    (hs : Branch b s uuid now call s' call') :
    Invariant b { s' with calls := s'.calls.set n call' } := by
  have hformed := h.formed call (mem_of_getElem? hn)
  cases hs with
  | invalid | refused => exact h.returns hn rfl (fun id t _ ht => by cases ht) (wellFormed_returned _)
  | @create request t ht hfresh =>
    have hid : t.id = uuid := id_target ht
    rw [← hid] at hfresh
    have hlookup : s.store.lookup t.id = none := by
      cases hlookup : s.store.lookup t.id with
      | none => rfl
      | some u => exact absurd (h.ids t.id u hlookup) hfresh
    refine h.put hn rfl (fun id u hu => by cases hu)
      (Or.inl (h.registered_eq_none_of_lookup hlookup)) ?_ (wellFormed_startIfEnabled t)
      (fun id hmem => mem_cons_of_mem _ hmem) (hid ▸ mem_cons_self)
      (fun hmem => hfresh (h.deleted t.id hmem).1)
    intro henabled
    rw [startIfEnabled, if_pos henabled]
    exact mem_cons_self
  | load _ ht => exact h.returns hn rfl (fun id t _ ht => by cases ht) (wellFormed_save ht)
  | @save t change =>
    obtain ⟨old, hold⟩ := isSome_iff_exists.mp hok
    refine h.put hn rfl (fun id u hu => hu) (Or.inr ?_) ?_ hformed (fun _ hmem => hmem)
      (h.ids t.id old hold) ?_
    · cases change with
      | update request | start | stop => rfl
    · intro henabled
      cases change with
      | update request =>
        show t ∈ if t.enabled then [t] else []
        rw [if_pos henabled]
        exact mem_cons_self
      | start => exact mem_cons_self
      | stop =>
        have hdisabled := hformed.2 t rfl
        rw [henabled] at hdisabled
        cases hdisabled
    · intro hmem
      rw [(h.deleted t.id hmem).2] at hold
      cases hold
  | list =>
    have hall : ∀ t, t ∈ s.listTargets.filter (fun t => t.enabled) ↔
        s.store.lookup t.id = some t ∧ t.enabled = true := by
      intro t
      rw [mem_filter, listTargets, mem_insertionSort, KeyedMap.mem_values]
    refine h.setCall hn (fun t ht => by cases ht) ?_
      (wellFormed_next fun t ht => ((hall t).mp ht).2)
    intro id t ht henabled _
    have hkey := h.agreed.keyed id t ht
    have hmem := (hall t).mpr ⟨hkey ▸ ht, henabled⟩
    revert hmem
    generalize s.listTargets.filter (fun t => t.enabled) = targets
    intro hmem
    cases targets with
    | nil => cases hmem
    | cons u targets => exact hmem
  | @free after hfree =>
    refine h.resume hsched hn ?_ ?_ hformed.1
    · intro t ht
      cases after with
      | spawn u next | restart u | done u =>
        cases ht
        exact registered_eq_none hfree
      | delete id => cases ht
    · intro id t ht
      cases after with
      | spawn u next | restart u | done u => exact ht
      | delete id => cases ht
  | stop => exact h.take hn hok
  | join => exact h.resume hsched hn (fun t ht => by cases ht) (fun id t ht => ht) hformed.1
  | insert => exact h.insert hsched hn hok.1 hok.2
  | missing hnone =>
    refine h.returns hn rfl ?_ (wellFormed_returned _)
    intro id' t ht hid
    cases hid
    rw [hnone] at ht
    cases ht
  | delete ht => exact h.delete hsched hn (by rw [ht]; rfl) hok _

theorem step {s' : PushManager Json} {a : ManagerLabel Json} (hsched : Scheduled b s)
    (h : Invariant b s) (hok : s.Undisturbed b a) (hs : s.step b a = some s') :
    Invariant b s' := by
  cases a with
  | call op =>
    cases hs
    exact h.invoke op
  | run n uuid now =>
    obtain ⟨call, s₁, call', hn, hbranch, rfl⟩ := branch_of_step hs
    exact h.branch hsched hn (hok call hn) hbranch
  | taskEnds k =>
    obtain ⟨task, hk, -, rfl⟩ := task_of_step hs
    exact h.ends hk

/-- The targets are about to be listed. -/
theorem boot (b : Backend Json) (store : KeyedMap String (PushTarget Json) PushTarget.id) :
    Invariant b (PushManager.boot store) where
  agreed := by
    refine ⟨fun id t ht => KeyedMap.key_of_lookup ht, ?_, ?_⟩
    · intro id u hu
      cases hu
    · intro id t _ _
      exact Or.inr ⟨.list, mem_cons_self, trivial⟩
  sound id t ht := by cases ht
  formed call hcall := by
    rw [mem_singleton.mp hcall]
    exact wellFormed_of_nil rfl rfl
  ids id t ht := by
    have hkey := KeyedMap.key_of_lookup ht
    refine mem_map.mpr ⟨t, KeyedMap.mem_values.mpr ?_, hkey⟩
    rw [hkey]
    exact ht
  deleted id hid := by cases hid

theorem of_run {store : KeyedMap String (PushTarget Json) PushTarget.id}
    {tr : List (PushManager Json × ManagerLabel Json)}
    (hr : Run (PushManager.step b) (PushManager.boot store) tr s)
    (hok : Within (Undisturbed b) tr) : Invariant b s :=
  hr.traceInvariant (I := fun _ s => Invariant b s) hok (boot b store)
    fun _ _ _ _ hr h hok hs => h.step (Scheduled.of_run hr) hok hs

/-- When nothing is left to do, the handles are those of the targets that are stored and enabled. -/
theorem registered_iff (h : Invariant b s) (hq : s.Quiescent b) (id : String)
    (t : PushTarget Json) :
    s.registered id = some t ↔ s.store.lookup id = some t ∧ t.enabled = true := by
  constructor
  · intro hreg
    obtain ⟨u, hu, ⟨rfl, henabled⟩ | ⟨call, hcall, htakes⟩⟩ := h.agreed.current id t hreg
    · exact ⟨hu, henabled⟩
    · have hreturned := hq.returned call hcall
      cases call with
      | stop after => cases hreturned
      | create request | load id change | save t change | list | join k after | insert t k next
      | delete id | returned result => cases htakes
  · rintro ⟨ht, henabled⟩
    rcases h.agreed.started id t ht henabled with hreg | ⟨call, hcall, hsettles⟩
    · exact hreg
    · have hreturned := hq.returned call hcall
      cases call with
      | returned result => cases hsettles
      | create request | load id change | save t change | list | stop after | join k after
      | insert t k next | delete id => cases hreturned

/-- The invariants, when nothing is left to do. -/
theorem consistent (hsched : Scheduled b s) (h : Invariant b s) (hq : s.Quiescent b) :
    s.Consistent := by
  have hregistered : ∀ k task, s.IsLive k task →
      s.registered task.target.id = some task.target := by
    intro k task hlive
    rw [registered, hsched.reachable hq hlive, bind_some, hlive.1, map_some]
  have hstored : ∀ k task, s.IsLive k task →
      s.store.lookup task.target.id = some task.target ∧ task.target.enabled = true :=
    fun k task hlive => (h.registered_iff hq _ _).mp (hregistered k task hlive)
  refine ⟨fun k l task task' hlive hlive' hid => hsched.single hq hlive hlive' hid, ?_,
    fun k task hlive => (hstored k task hlive).1,
    fun k task hlive => hsched.reachable hq hlive, fun id hid => (h.deleted id hid).2⟩
  intro id
  constructor
  · rintro ⟨k, task, hlive, rfl⟩
    exact ⟨task.target, hstored k task hlive⟩
  · rintro ⟨t, ht, henabled⟩
    have hreg := (h.registered_iff hq id t).mpr ⟨ht, henabled⟩
    obtain ⟨k, hk, htarget⟩ := bind_eq_some_iff.mp hreg
    obtain ⟨u, hu, hid⟩ := hsched.handled id k hk
    have hut : u = t := some.inj (hu.target.symm.trans htarget)
    obtain ⟨ended, hlookup, hends⟩ := hu
    refine ⟨k, _, ⟨hlookup, ?_⟩, hid⟩
    cases ended with
    | false => rfl
    | true =>
      have hdoomed := h.sound id t hreg
      rw [← hut, hends rfl] at hdoomed
      cases hdoomed

end Invariant

/-- In every run, when nothing is left to do, a task that runs is behind the handle of its target.
If no call got in between the store and the handles of another one, the tasks are those of the
targets that are stored and enabled. -/
theorem consistent_of_undisturbed {Json : Type} (b : Backend Json)
    (store : KeyedMap String (PushTarget Json) PushTarget.id)
    (tr : List (PushManager Json × ManagerLabel Json)) (s : PushManager Json)
    (hr : Run (PushManager.step b) (PushManager.boot store) tr s) (hq : s.Quiescent b) :
    (∀ k task, s.IsLive k task → s.handles.lookup task.target.id = some k) ∧
      (Within (Undisturbed b) tr → s.Consistent) :=
  ⟨fun _ _ hlive => (Scheduled.of_run hr).reachable hq hlive,
    fun hok => (Invariant.of_run hr hok).consistent (Scheduled.of_run hr) hq⟩

end

end PushManager

/-! ## Calls that get in between -/

namespace Sample

/-- The configuration of a webhook is not one of a broker. -/
def backend : Backend String where
  eventBus := true
  createDestination
    | .webhook, _ => .ok ()
    | .mqtt, _ => .error "Invalid MQTT config: missing field"
  validateConfig _ _ := .ok ()

def cloud : PushTarget String where
  id := "cloud"
  name := "Cloud"
  enabled := true
  targetType := .webhook
  config := "\x7b\"url\":\"https://cloud\"\x7d"
  schedule := .eventDriven []
  dataFilter := ⟨[], false⟩
  template := none
  retryConfig := RetryConfig.default
  batchConfig := BatchConfig.default
  createdAt := 0
  updatedAt := 0

/-- The server boots with one target. -/
def booted : PushManager String := PushManager.boot (KeyedMap.empty.put cloud)

/-- The target is listed and started. -/
def starts : List (ManagerLabel String) := [.run 0 "" 0, .run 0 "" 0, .run 0 "" 0]

/-- An update of nothing. -/
def touch : UpdateTargetRequest String := ⟨none, none, none, none, none, none, none, none, none⟩

/-- The target is renamed, stopped and started again. -/
def inTurn : List (ManagerLabel String) :=
  starts ++
    [.call (.updateTarget "cloud" { touch with name := some "Edge" }), .run 1 "" 1, .run 1 "" 1,
      .run 1 "" 1, .taskEnds 0, .run 1 "" 1, .run 1 "" 1, .run 1 "" 1,
      .call (.stopTarget "cloud"), .run 2 "" 2, .run 2 "" 2, .run 2 "" 2, .taskEnds 1,
      .run 2 "" 2, .call (.startTarget "cloud"), .run 3 "" 3, .run 3 "" 3, .run 3 "" 3,
      .run 3 "" 3]

/-- The target is deleted while an update of it has loaded it. -/
def deletedMeanwhile : List (ManagerLabel String) :=
  starts ++
    [.call (.updateTarget "cloud" touch), .run 1 "" 1, .call (.deleteTarget "cloud"),
      .run 2 "" 1, .taskEnds 0, .run 2 "" 1, .run 2 "" 1, .run 1 "" 1, .run 1 "" 1, .run 1 "" 1,
      .run 1 "" 1]

/-- The target is to be a broker, with its old configuration. -/
def retyped : List (ManagerLabel String) :=
  starts ++
    [.call (.updateTarget "cloud" { touch with targetType := some "mqtt" }), .run 1 "" 1,
      .run 1 "" 1, .run 1 "" 1, .taskEnds 0, .run 1 "" 1, .run 1 "" 1, .run 1 "" 1, .taskEnds 1]

end Sample

namespace PushManager

section

variable {Json : Type} (b : Backend Json) (s : PushManager Json)

instance : Decidable (s.Quiescent b) :=
  decidable_of_iff ((∀ call ∈ s.calls, call.isReturned = true) ∧
      ∀ task ∈ s.tasks, (task.cancelled || b.isDoomed task.target) = true → task.ended = true)
    ⟨fun h => ⟨h.1, h.2⟩, fun h => ⟨h.1, h.2⟩⟩

end

/-- The third task of the target runs, with its new name. -/
theorem consistent_of_undisturbed_sample : ∃ tr s,
    Run (PushManager.step Sample.backend) Sample.booted tr s ∧
      Within (Undisturbed Sample.backend) tr ∧ s.handles.lookup "cloud" = some 2 ∧
      s.Consistent := by
  obtain ⟨tr, s, hrun, hq, hok, hhandle⟩ := exists_run (PushManager.step Sample.backend)
    Sample.booted Sample.inTurn
    (fun tr s => s.Quiescent Sample.backend ∧ Within (Undisturbed Sample.backend) tr ∧
      s.handles.lookup "cloud" = some 2)
    (by decide)
  exact ⟨tr, s, hrun, hok, hhandle, (consistent_of_undisturbed Sample.backend _ tr s hrun hq).2 hok⟩

/-- An update brings back a target that was deleted meanwhile, and one that changes the type of a
target leaves it enabled without a task. -/
theorem calls_disagree :
    (∃ tr s, Run (PushManager.step Sample.backend) Sample.booted tr s ∧
      s.Quiescent Sample.backend ∧ "cloud" ∈ s.deleted ∧
      (s.store.lookup "cloud").isSome = true ∧ ¬ s.Consistent) ∧
    ∃ tr s, Run (PushManager.step Sample.backend) Sample.booted tr s ∧
      s.Quiescent Sample.backend ∧
      (s.store.lookup "cloud").any (fun t => t.enabled) = true ∧
      (∀ task ∈ s.tasks, task.ended = true) ∧ ¬ s.Consistent := by
  constructor
  · obtain ⟨tr, s, hrun, hq, hdeleted, hstored⟩ := exists_run (PushManager.step Sample.backend)
      Sample.booted Sample.deletedMeanwhile
      (fun tr s => s.Quiescent Sample.backend ∧ "cloud" ∈ s.deleted ∧
        (s.store.lookup "cloud").isSome = true)
      (by decide)
    refine ⟨tr, s, hrun, hq, hdeleted, hstored, fun h => ?_⟩
    rw [h.deleted "cloud" hdeleted] at hstored
    cases hstored
  · obtain ⟨tr, s, hrun, hq, henabled, hended⟩ := exists_run (PushManager.step Sample.backend)
      Sample.booted Sample.retyped
      (fun tr s => s.Quiescent Sample.backend ∧
        (s.store.lookup "cloud").any (fun t => t.enabled) = true ∧
        ∀ task ∈ s.tasks, task.ended = true)
      (by decide)
    refine ⟨tr, s, hrun, hq, henabled, hended, fun h => ?_⟩
    obtain ⟨t, ht, ht'⟩ := (Option.any_eq_true _ _).mp henabled
    obtain ⟨k, task, ⟨hk, hlive⟩, -⟩ := (h.runs "cloud").mpr ⟨t, ht, ht'⟩
    rw [hended task (mem_of_getElem? hk)] at hlive
    cases hlive

end PushManager

end HeraMind.Push
