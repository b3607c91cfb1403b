/-
# The rule store and the rules in memory

Every change of a rule is made in memory under the write lock, and written to the store
afterwards, as a snapshot taken under the lock.  What holds in every state is that each
rule is stored as it is in memory or some task is heading for that write, as long as a
snapshot that is no longer current is never the last one written.
-/
import HeraMind.Rules.Control

namespace HeraMind.Rules

open List Option
open Transition

variable {F : Type}

/-! ## The writes a task is heading for -/

/-- A write to the store: what is to be stored under an id, `none` to delete it. -/
abbrev StoreWrite (F : Type) := RuleId × Option (CompiledRule F)

def After.storeWrite : After F → Option (StoreWrite F)
  | .saveRule rule => some (rule.id, some rule)
  | .dropCooldown id true => some (id, none)
  | _ => none

/-- The write to the store that a task is heading for.  `set_rule_status_handler` reads
the rule again before it saves it. -/
def Pc.storeWrite (rules : RuleMap F) : Pc F → Option (StoreWrite F)
  | .firing _ _ (.sinceSave _ _ _ snapshot) | .firing _ _ (.triggerSave _ _ snapshot) =>
    some (snapshot.id, some snapshot)
  | .rebuild after | .rebuilding _ after => after.storeWrite
  | .dropCooldown id true => some (id, none)
  | .saving rule => some (rule.id, some rule)
  | .deleting id => some (id, none)
  | .statusRead id _ => (rules.lookup id).map fun rule => (id, some rule)
  | .statusSave rule _ _ => some (rule.id, some rule)
  | _ => none

/-- The write to the store that a section makes. -/
def Pc.writes : Pc F → Option (StoreWrite F)
  | .deleting id => some (id, none)
  | pc => pc.snapshot.map fun rule => (rule.id, some rule)

/-- The section changes the rules, and its call does not write the change to the store. -/
def Pc.Unsaved (id : RuleId) : Pc F → Prop
  | .insert rule origin => rule.id = id ∧ origin ≠ .handler
  | .remove id' false => id' = id
  | _ => False

variable {pc : Pc F}

theorem storeWrite_of_isPlain (rules : RuleMap F) (h : pc.isPlain = true) :
    pc.storeWrite rules = none := by
  cases pc with
  | firing caller id stage =>
    cases stage <;> first | rfl | cases h
  | _ => first | rfl | cases h

variable {rule : CompiledRule F}

theorem storeWrite_of_snapshot (rules : RuleMap F)
    (h : pc.snapshot = some rule) : pc.storeWrite rules = some (rule.id, some rule) := by
  cases pc with
  | firing caller id stage =>
    cases stage <;> cases h <;> rfl
  | _ => cases h <;> rfl

theorem storeWrite_after (after : After F) (rules : RuleMap F) :
    after.pc.storeWrite rules = after.storeWrite := by
  cases after with
  | dropCooldown id viaHandler => cases viaHandler <;> rfl
  | _ => rfl

theorem storeWrite_of_isAnswered (rules : RuleMap F) (h : pc.isAnswered = true) :
    pc.storeWrite rules = none := by
  cases pc with
  | answered reply => rfl
  | _ => cases h

/-- The write depends on the rules only at its own id. -/
theorem storeWrite_congr {rules rules' : RuleMap F} {id : RuleId}
    {r : Option (CompiledRule F)} (h : pc.storeWrite rules = some (id, r))
    (hid : rules'.lookup id = rules.lookup id) : pc.storeWrite rules' = some (id, r) := by
  cases pc with
  | statusRead id' enabled =>
    simp only [Pc.storeWrite, map_eq_some_iff, Prod.mk.injEq] at h
    obtain ⟨rule, hrule, rfl, rfl⟩ := h
    simp [Pc.storeWrite, hid, hrule]
  | firing caller id' stage => cases stage <;> exact h
  | dropCooldown id' viaHandler => cases viaHandler <;> exact h
  | _ => exact h

theorem storeWrite_of_writes (rules : RuleMap F) {id : RuleId}
    {r : Option (CompiledRule F)} (h : pc.writes = some (id, r)) :
    pc.storeWrite rules = some (id, r) := by
  cases pc with
  | deleting id' => exact h
  | _ =>
    simp only [Pc.writes, map_eq_some_iff] at h
    obtain ⟨rule, hsnap, heq⟩ := h
    rw [storeWrite_of_snapshot rules hsnap, heq]

/-! ## What a section does to rules and store -/

/-- The effect of a section, as far as rules and store are concerned. -/
inductive StoreEffect (w : World F) (pc pc' : Pc F) (w' : World F) : Prop
  | frame :
      w'.rules = w.rules → w'.ruleStore = w.ruleStore →
      pc'.storeWrite w'.rules = pc.storeWrite w.rules → StoreEffect w pc pc' w'
  /-- A rule changes, and its new state is going to be written. -/
  | change (id : RuleId) :
      (∀ i, i ≠ id → w'.rules.lookup i = w.rules.lookup i) → w'.ruleStore = w.ruleStore →
      pc.storeWrite w.rules = none →
      pc'.storeWrite w'.rules = some (id, w'.rules.lookup id) → StoreEffect w pc pc' w'
  /-- A rule changes, and nobody is going to write it. -/
  | unsaved (id : RuleId) :
      (∀ i, i ≠ id → w'.rules.lookup i = w.rules.lookup i) → w'.ruleStore = w.ruleStore →
      pc.storeWrite w.rules = none → pc'.storeWrite w'.rules = none →
      pc.Unsaved id → StoreEffect w pc pc' w'
  /-- The store is written. -/
  | write (id : RuleId) (r : Option (CompiledRule F)) :
      w'.rules = w.rules → w'.ruleStore.lookup id = r →
      (∀ i, i ≠ id → w'.ruleStore.lookup i = w.ruleStore.lookup i) →
      pc.storeWrite w.rules = some (id, r) → pc'.storeWrite w'.rules = none →
      pc.writes = some (id, r) → StoreEffect w pc pc' w'

/-- A rule that is put back under its id, with its snapshot on the way to the store. -/
theorem StoreEffect.put {w : World F} {pc pc' : Pc F} {id : RuleId}
    (hid : rule.id = id) (hpc : pc.storeWrite w.rules = none)
    (hpc' : pc'.storeWrite (w.rules.put rule) = some (id, some rule)) :
    StoreEffect w pc pc' (w.insertRule rule) := by
  have hlookup : (w.insertRule rule).rules.lookup id = some rule := by
    rw [← hid]
    exact KeyedMap.lookup_put_self _ _
  refine .change id ?_ rfl hpc ?_
  · intro i hi
    exact KeyedMap.lookup_put_ne _ (hid ▸ hi)
  · rw [hlookup]
    exact hpc'

theorem storeEffect_insert (w : World F) (rule : CompiledRule F) (origin : Origin F) :
    StoreEffect w (.insert rule origin) (.rebuild (origin.after rule)) (w.insertRule rule) := by
  have hother : ∀ i, i ≠ rule.id → (w.insertRule rule).rules.lookup i = w.rules.lookup i :=
    fun i hi => KeyedMap.lookup_put_ne _ hi
  cases origin with
  | handler => exact .put rfl rfl rfl
  | engine => exact .unsaved rule.id hother rfl rfl rfl ⟨rfl, by simp⟩
  | importer todo imported skipped errors =>
    exact .unsaved rule.id hother rfl rfl rfl ⟨rfl, by simp⟩

theorem storeEffect_remove (w : World F) (id : RuleId) (viaHandler : Bool) :
    StoreEffect w (.remove id viaHandler) (.rebuild (.dropCooldown id viaHandler))
      (w.removeRule id) := by
  have hother : ∀ i, i ≠ id → (w.removeRule id).rules.lookup i = w.rules.lookup i :=
    fun i hi => KeyedMap.lookup_erase_ne _ hi
  have hid : (w.removeRule id).rules.lookup id = none := KeyedMap.lookup_erase_self _ _
  cases viaHandler with
  | true =>
    refine .change id hother rfl rfl ?_
    rw [hid]
    rfl
  | false => exact .unsaved id hother rfl rfl rfl rfl

theorem storeEffect_save {w : World F} {pc pc' : Pc F}
    (hsnap : pc.snapshot = some rule) (hplain : pc'.isPlain = true) :
    StoreEffect w pc pc' (w.save rule) := by
  refine .write rule.id (some rule) rfl (KeyedMap.lookup_put_self _ _) ?_
    (storeWrite_of_snapshot _ hsnap) (storeWrite_of_isPlain _ hplain) ?_
  · intro i hi
    exact KeyedMap.lookup_put_ne _ hi
  · cases pc with
    | deleting id => cases hsnap
    | _ => simp [Pc.writes, hsnap]

theorem storeEffect_of_effect {n : ℕ} {w w' : World F} {pc pc' : Pc F}
    (he : Effect n w pc pc' w') : StoreEffect w pc pc' w' := by
  cases he with
  | quiet hplain hinserts hplain' =>
    refine .frame rfl rfl ?_
    rw [storeWrite_of_isPlain _ hplain, storeWrite_of_isPlain _ hplain']
  | insert hlock => exact storeEffect_insert w _ _
  | remove hlock => exact storeEffect_remove w _ _
  | setEnabled hlock hcur =>
    have hid := KeyedMap.key_of_lookup hcur
    refine .put hid rfl ?_
    simp only [Pc.storeWrite, KeyedMap.lookup_put, hid, if_true, map_some]
  | @sinceStart caller id rule cur hlock hcur hnone
  | @sinceReset caller id rule cur hlock hcur hsome | @trigger caller id rule cur p hlock hcur =>
    have hid : cur.id = id := KeyedMap.key_of_lookup hcur
    refine .put hid rfl ?_
    rw [← hid]
    rfl
  | acquire => exact .frame rfl rfl rfl
  | release => exact .frame rfl rfl (storeWrite_after _ _)
  | claim hclaim =>
    obtain ⟨rfl, -⟩ := tryClaimCooldown_eq_some.mp hclaim
    exact .frame rfl rfl rfl
  | countFailure =>
    refine .frame rfl rfl ?_
    split <;> rfl
  | clearFailures | refund => exact .frame rfl rfl rfl
  | record => exact .frame rfl rfl (storeWrite_of_isPlain _ (isPlain_finish _ _))
  | @dropCooldown id viaHandler =>
    refine .frame rfl rfl ?_
    cases viaHandler <;> rfl
  | statusRead hcur =>
    refine .frame rfl rfl ?_
    simp [Pc.storeWrite, hcur, KeyedMap.key_of_lookup hcur]
  | statusGone hcur =>
    refine .frame rfl rfl ?_
    simp [Pc.storeWrite, hcur]
  | save hsnap hplain => exact storeEffect_save hsnap hplain
  | delete =>
    refine .write _ none rfl (KeyedMap.lookup_erase_self _ _) ?_ rfl rfl rfl
    intro i hi
    exact KeyedMap.lookup_erase_ne _ hi

/-! ## The invariant

It is stated up to a view of the rules: the whole rule, or the fields of its definition. -/

section Persisted

variable {γ : Type} (view : CompiledRule F → γ)

/-- Memory and store agree on a rule. -/
def Synced (w : World F) (id : RuleId) : Prop :=
  (w.ruleStore.lookup id).map view = (w.rules.lookup id).map view

/-- Task `n` is heading for the write that makes the store agree on a rule. -/
def Pending (s : Server F) (n : ℕ) (id : RuleId) : Prop :=
  ∃ task r, s.tasks[n]? = some task ∧ task.pc.storeWrite s.world.rules = some (id, r) ∧
    r.map view = (s.world.rules.lookup id).map view

/-- Every rule is stored as it is in memory, or some task is heading for that. -/
def Persisted (s : Server F) : Prop :=
  ∀ id, Synced view s.world id ∨ ∃ n, Pending view s n id

/-- What is written to the store is current, or another task is heading for the write of
what is. -/
def NewestLast (s : Server F) : Label F → Prop
  | .run n _ => ∀ task id r, s.tasks[n]? = some task → task.pc.writes = some (id, r) →
      r.map view = (s.world.rules.lookup id).map view ∨ ∃ m, m ≠ n ∧ Pending view s m id
  | _ => True

/-- A rule that changes without being saved is already stored the way it becomes. -/
def AlreadyStored (s s' : Server F) : Label F → Prop
  | .run n _ => ∀ task id, s.tasks[n]? = some task → task.pc.Unsaved id →
      Synced view s'.world id
  | _ => True

variable {view} {w : World F}

theorem Persisted.idle (h : ∀ id, Synced view w id) :
    Persisted view (Server.idle w) :=
  fun id => Or.inl (h id)

variable {s : Server F}

/-- The other tasks keep what they are heading for, at ids whose rule does not change. -/
theorem Pending.of_ne {n m : ℕ} {task : Task F} {pc : Pc F}
    {id : RuleId} (h : Pending view s m id) (hn : s.tasks[n]? = some task) (hmn : m ≠ n)
    (hid : w.rules.lookup id = s.world.rules.lookup id) :
    Pending view { world := w, tasks := s.tasks.set n { task with pc := pc } } m id := by
  obtain ⟨t, r, ht, hwrite, hr⟩ := h
  refine ⟨t, r, (getElem?_setTask hn).mpr (Or.inr ⟨hmn, ht⟩), storeWrite_congr hwrite hid, ?_⟩
  rw [hr, hid]

/-- A section keeps the invariant at an id that it does not touch. -/
theorem Persisted.other (h : Persisted view s) {n : ℕ} {task : Task F}
    (hn : s.tasks[n]? = some task) {pc : Pc F} {id : RuleId}
    (hstore : w.ruleStore.lookup id = s.world.ruleStore.lookup id)
    (hrules : w.rules.lookup id = s.world.rules.lookup id)
    (hnot : ∀ r, task.pc.storeWrite s.world.rules ≠ some (id, r)) :
    Synced view w id ∨ ∃ m,
      Pending view { world := w, tasks := s.tasks.set n { task with pc := pc } } m id := by
  rcases h id with hsync | ⟨m, hm⟩
  · left
    rw [Synced, hstore, hrules]
    exact hsync
  · -- the task heading for the write is not the one that moves
    have hmn : m ≠ n := by
      rintro rfl
      obtain ⟨t, r, ht, hwrite, -⟩ := hm
      rw [hn, some.injEq] at ht
      subst ht
      exact hnot r hwrite
    exact Or.inr ⟨m, hm.of_ne hn hmn hrules⟩

/-- Every section keeps the invariant, if no outdated write is the last one and no rule
changes unsaved. -/
theorem Persisted.advance (h : Persisted view s) {n : ℕ} {task : Task F}
    (hn : s.tasks[n]? = some task) {pc : Pc F} (he : StoreEffect s.world task.pc pc w)
    (hlast : ∀ id r, task.pc.writes = some (id, r) →
      r.map view = (s.world.rules.lookup id).map view ∨ ∃ m, m ≠ n ∧ Pending view s m id)
    (hunsaved : ∀ id, task.pc.Unsaved id → Synced view w id) :
    Persisted view { world := w, tasks := s.tasks.set n { task with pc := pc } } := by
  intro id
  cases he with
  | frame hrules hstore hpc =>
    -- nothing is written, and the task goes on towards the write it was heading for
    rcases h id with hsync | ⟨m, hm⟩
    · left
      rw [Synced, hrules, hstore]
      exact hsync
    · right
      refine ⟨m, ?_⟩
      by_cases hmn : m = n
      · subst hmn
        obtain ⟨t, r, ht, hwrite, hr⟩ := hm
        rw [hn, some.injEq] at ht
        subst ht
        refine ⟨_, r, (getElem?_setTask hn).mpr (Or.inl ⟨rfl, rfl⟩), hpc.trans hwrite, ?_⟩
        rw [hrules]
        exact hr
      · exact hm.of_ne hn hmn (by rw [hrules])
  | change id₀ hother hstore hpc hpc' =>
    by_cases hid : id = id₀
    · -- the task that changed the rule now heads for its write
      subst hid
      right
      exact ⟨n, _, _, (getElem?_setTask hn).mpr (Or.inl ⟨rfl, rfl⟩), hpc', rfl⟩
    · exact h.other hn (by rw [hstore]) (hother id hid) fun r => by simp [hpc]
  | unsaved id₀ hother hstore hpc hpc' hpcu =>
    by_cases hid : id = id₀
    · subst hid
      exact Or.inl (hunsaved id hpcu)
    · exact h.other hn (by rw [hstore]) (hother id hid) fun r => by simp [hpc]
  | write id₀ r hrules hid₀ hother hpc hpc' hwrites =>
    by_cases hid : id = id₀
    · subst hid
      rcases hlast id r hwrites with hcur | ⟨m, hmn, hm⟩
      · left
        rw [Synced, hid₀, hrules]
        exact hcur
      · right
        exact ⟨m, hm.of_ne hn hmn (by rw [hrules])⟩
    · refine h.other hn (hother id hid) (by rw [hrules]) fun r' hwrite => ?_
      rw [hpc] at hwrite
      cases hwrite
      exact hid rfl

/-- A new call keeps the invariant. -/
theorem Persisted.call (h : Persisted view s) (c : Call F) :
    Persisted view { s with tasks := s.tasks ++ [⟨c, c.start s.world.now⟩] } := by
  intro id
  rcases h id with hsync | ⟨m, t, r, ht, hwrite, hr⟩
  · exact Or.inl hsync
  · exact Or.inr ⟨m, t, r, getElem?_addTask.mpr (Or.inl ht), hwrite, hr⟩

/-- When no call is in progress, every rule is stored as it is in memory. -/
theorem Persisted.synced (h : Persisted view s) (hq : s.Quiescent)
    (id : RuleId) : Synced view s.world id := by
  rcases h id with hsync | ⟨m, t, r, ht, hwrite, -⟩
  · exact hsync
  · rw [storeWrite_of_isAnswered _ (hq t (mem_of_getElem? ht))] at hwrite
    cases hwrite

variable [F64 F] {env : Env F}

theorem Persisted.step {s s' : Server F} {a : Label F} (h : Persisted view s)
    (hlast : NewestLast view s a) (hstored : AlreadyStored view s s' a)
    (hs : step env s a = some s') : Persisted view s' := by
  cases a with
  | tick d | provide values | register devices =>
    cases hs
    exact h
  | call c =>
    cases hs
    exact h.call c
  | run n choice =>
    obtain ⟨task, pc, w, hn, hadv, rfl⟩ := step_run hs
    exact h.advance hn (storeEffect_of_effect (effect_of_advance hadv))
      (fun id r hw => hlast task id r hn hw) (fun id hu => hstored task id hn hu)

end Persisted

/-! ## One call at a time -/

section OneAtATime

/-- What a task is heading to write is what is in memory now. -/
def Server.Fresh (s : Server F) : Prop :=
  ∀ (m : ℕ) (t : Task F) id r, s.tasks[m]? = some t → t.pc.storeWrite s.world.rules = some (id, r) →
    r = s.world.rules.lookup id

/-- A section whose task is alone keeps what it is heading to write up to date. -/
theorem fresh_advance {s : Server F} (h : s.Fresh) {n : ℕ} {task : Task F}
    (hn : s.tasks[n]? = some task) {pc : Pc F} {w : World F}
    (hothers : ∀ m t, s.tasks[m]? = some t → m ≠ n → t.pc.isAnswered = true)
    (he : StoreEffect s.world task.pc pc w) :
    Server.Fresh { world := w, tasks := s.tasks.set n { task with pc := pc } } := by
  intro m t id r ht hwrite
  rcases (getElem?_setTask hn).mp ht with ⟨-, rfl⟩ | ⟨hmn, ht⟩
  · cases he with
    | frame hrules hstore hpc =>
      show r = w.rules.lookup id
      rw [hrules]
      exact h n task id r hn (hpc.symm.trans hwrite)
    | change id₀ hother hstore hpc hpc' =>
      have heq := hpc'.symm.trans hwrite
      cases heq
      rfl
    | unsaved id₀ hother hstore hpc hpc' hpcu | write id₀ r₀ hrules hid₀ hother hpc hpc' hwrites =>
      cases hpc'.symm.trans hwrite
  · rw [storeWrite_of_isAnswered _ (hothers m t ht hmn)] at hwrite
    cases hwrite

variable [F64 F] {env : Env F}

theorem fresh_step {s s' : Server F} {a : Label F} (h : s.Fresh) (hone : s.OneActive)
    (hs : step env s a = some s') : s'.Fresh := by
  cases a with
  | tick d | provide values | register devices =>
    cases hs
    exact h
  | call c =>
    cases hs
    intro m t id r ht hwrite
    rcases getElem?_addTask.mp ht with ht | ⟨-, rfl⟩
    · exact h m t id r ht hwrite
    · cases c <;> cases hwrite
  | run n choice =>
    obtain ⟨task, pc, w, hn, hadv, rfl⟩ := step_run hs
    exact fresh_advance h hn (fun m t ht hmn => hone.others hn hadv ht hmn)
      (storeEffect_of_effect (effect_of_advance hadv))

omit [F64 F] in
theorem newestLast_of_fresh {γ : Type} {view : CompiledRule F → γ} {s : Server F}
    (h : s.Fresh) (a : Label F) : NewestLast view s a := by
  cases a with
  | run n choice =>
    intro task id r hn hwrites
    left
    rw [h n task id r hn (storeWrite_of_writes _ hwrites)]
  | _ => trivial

/-- One call after the other, nothing outdated is ever written. -/
theorem newestLast_of_oneAtATime {γ : Type} {view : CompiledRule F → γ} {w : World F}
    {tr : List (Server F × Label F)} {s : Server F}
    (hrun : Run (step env) (Server.idle w) tr s)
    (hcalls : Within (Calls fun s _ => s.Quiescent) tr) : Within (NewestLast view) tr := by
  refine (hrun.traceInvariant
    (I := fun tr s => (s.OneActive ∧ s.Fresh) ∧ Within (NewestLast view) tr) hcalls
    ⟨⟨oneActive_idle w, ?_⟩, within_nil _⟩ ?_).2
  · intro m t id r ht
    simp [Server.idle] at ht
  · rintro tr s a s' - ⟨⟨hone, hfresh⟩, htr⟩ hG hs
    refine ⟨⟨oneActive_step hone hG hs, fresh_step hfresh hone hs⟩, ?_⟩
    exact within_cons.mpr ⟨newestLast_of_fresh hfresh a, htr⟩

end OneAtATime

/-! ## Firings against the handlers -/

section Firings

/-- The calls that write what they change to the store: firings, and the handlers other
than the import. -/
def Call.persists : Call F → Bool
  | .onDataUpdate _ | .executeRule _ | .createRuleHandler _ | .updateRuleHandler _ _
  | .deleteRuleHandler _ | .setRuleStatusHandler _ _ => true
  | _ => false

theorem not_unsaved_of_persists {pc : Pc F} {c : Call F} (hc : c.persists = true)
    (hof : pc.of c) (id : RuleId) : ¬ pc.Unsaved id := by
  intro h
  cases pc with
  | insert rule origin =>
    cases origin with
    | engine => rcases hof with rfl | rfl <;> cases hc
    | handler => exact h.2 rfl
    | importer todo imported skipped errors =>
      obtain ⟨req, rfl⟩ := hof
      cases hc
  | remove id' viaHandler =>
    cases viaHandler with
    | true => exact h
    | false =>
      obtain rfl : c = .removeRule id' := hof
      cases hc
  | _ => exact h

/-- The whole record of a rule. -/
def CompiledRule.record (rule : CompiledRule F) : CompiledRule F := rule

theorem alreadyStored_of_serves {γ : Type} {view : CompiledRule F → γ} {s s' : Server F}
    (h : s.Serves fun c => c.persists = true) (a : Label F) : AlreadyStored view s s' a := by
  cases a with
  | run n choice =>
    intro task id hn hu
    obtain ⟨hc, hof⟩ := h task (mem_of_getElem? hn)
    exact absurd hu (not_unsaved_of_persists hc hof id)
  | _ => trivial

variable [F64 F] {env : Env F}

/-- However firings, creations, updates, deletions and changes of the status interleave:
if no outdated record is the last one on its way to the store, then when no call is in
progress a rule is stored exactly as it is in memory, and a deleted rule is not stored. -/
theorem stored_eq_of_newestLast {w : World F} {tr : List (Server F × Label F)}
    {s : Server F} (hrun : Run (step env) (Server.idle w) tr s)
    (h₀ : ∀ id, w.ruleStore.lookup id = w.rules.lookup id)
    (hcalls : Within (Calls fun _ c => c.persists = true) tr)
    (hlast : Within (NewestLast CompiledRule.record) tr) (hq : s.Quiescent) (id : RuleId) :
    s.world.ruleStore.lookup id = s.world.rules.lookup id := by
  have hinv : s.Serves (fun c => c.persists = true) ∧ Persisted CompiledRule.record s := by
    refine hrun.invariant
      (G := fun s a => Calls (fun _ c => c.persists = true) s a ∧
        NewestLast CompiledRule.record s a)
      (I := fun s => s.Serves (fun c => c.persists = true) ∧ Persisted CompiledRule.record s)
      (fun e he => ⟨hcalls e he, hlast e he⟩)
      ⟨serves_idle _ w, Persisted.idle fun i => by rw [Synced, h₀ i]⟩ ?_
    rintro s a s' ⟨hserves, hpers⟩ ⟨hcall, hnewest⟩ hs
    exact ⟨serves_step hserves hcall hs, hpers.step hnewest (alreadyStored_of_serves hserves a) hs⟩
  have hsync := hinv.2.synced hq id
  rw [Synced] at hsync
  have hrecord : ∀ o : Option (CompiledRule F), o.map CompiledRule.record = o := by
    intro o
    cases o <;> rfl
  rwa [hrecord, hrecord] at hsync

theorem stored_eq_of_newestLast_disabled :
    ∃ tr s, Run (step Sample.env) (Server.idle (Sample.loaded Sample.rule)) tr s ∧
      s.world.ruleStore.lookup Sample.id = s.world.rules.lookup Sample.id := by
  obtain ⟨tr, s, hrun, hcalls, hone, hq⟩ := exists_run (step Sample.env)
    (Server.idle (Sample.loaded Sample.rule))
    (.call (.onDataUpdate Sample.source) :: Sample.runs 0 10 ++
      .call (.setRuleStatusHandler Sample.id false) :: Sample.runs 1 3)
    (fun tr s => Within (Calls fun _ c => c.persists = true) tr ∧
      Within (Calls fun s _ => s.Quiescent) tr ∧ s.Quiescent) (by decide)
  exact ⟨tr, s, hrun, stored_eq_of_newestLast hrun (fun _ => rfl) hcalls
    (newestLast_of_oneAtATime hrun hone) hq Sample.id⟩

/-- A firing takes its snapshot, the rule is deleted, and the snapshot is written. -/
theorem deleted_rule_stored_again :
    ∃ tr s, Run (step Sample.env) (Server.idle (Sample.loaded Sample.rule)) tr s ∧
      Within (Calls fun _ c => c.persists = true) tr ∧ s.Quiescent ∧
      s.world.rules.lookup Sample.id = none ∧
      (s.world.ruleStore.lookup Sample.id).isSome = true := by
  obtain ⟨tr, s, hrun, hcalls, hq, hnone, hsome⟩ := exists_run (step Sample.env)
    (Server.idle (Sample.loaded Sample.rule))
    (.call (.onDataUpdate Sample.source) :: Sample.runs 0 8 ++
      .call (.deleteRuleHandler Sample.id) :: Sample.runs 1 5 ++ Sample.runs 0 2)
    (fun tr s => Within (Calls fun _ c => c.persists = true) tr ∧ s.Quiescent ∧
      (s.world.rules.lookup Sample.id).isNone = true ∧
      (s.world.ruleStore.lookup Sample.id).isSome = true) (by decide)
  exact ⟨tr, s, hrun, hcalls, hq, isNone_iff_eq_none.mp hnone, hsome⟩

end Firings

/-! ## Sequences of API operations -/

section Api

/-- What makes a rule fire: its id, whether it is enabled, trigger, condition, actions. -/
structure Definition (F : Type) where
  id : RuleId
  enabled : Bool
  trigger : RuleTrigger
  condition : Option (RuleCondition F)
  actions : List (RuleAction F)

def CompiledRule.definition (rule : CompiledRule F) : Definition F :=
  ⟨rule.id, rule.enabled, rule.trigger, rule.condition, rule.actions⟩

/-- A rule that an import adds is already stored with the same definition. -/
def ImportsStored (s : Server F) : Label F → Prop
  | .run n _ => ∀ task rule todo imported skipped errors, s.tasks[n]? = some task →
      task.pc = .insert rule (.importer todo imported skipped errors) →
      (s.world.ruleStore.lookup rule.id).map CompiledRule.definition = some rule.definition
  | _ => True

section ReadBack

variable (readBack : CompiledRule F → Option (CompiledRule F))

/-- The text of a rule reads back with the definition of the rule. -/
def ReadsBack (rule : CompiledRule F) : Prop :=
  (readBack rule).map CompiledRule.definition = some rule.definition

/-- Only rules are saved whose text reads back. -/
def SavesReadable (s : Server F) : Label F → Prop
  | .run n _ => ∀ task rule, s.tasks[n]? = some task → task.pc.snapshot = some rule →
      ReadsBack readBack rule
  | _ => True

variable {readBack}

theorem mapM_of_readsBack {rules : List (CompiledRule F)}
    (h : ∀ rule ∈ rules, ReadsBack readBack rule) : ∃ rules', rules.mapM readBack = some rules' ∧
      rules'.map CompiledRule.definition = rules.map CompiledRule.definition := by
  induction rules with
  | nil => exact ⟨[], rfl, rfl⟩
  | cons rule rules ih =>
    obtain ⟨rule', hrule', hdefinition⟩ := map_eq_some_iff.mp (h rule mem_cons_self)
    obtain ⟨rules', hrules', hrest⟩ := ih fun r hr => h r (mem_cons_of_mem _ hr)
    refine ⟨rule' :: rules', ?_, ?_⟩
    · rw [mapM_cons, hrule', hrules']
      rfl
    · rw [map_cons, map_cons, hdefinition, hrest]

/-- Every stored rule reads back, if every rule does that is saved. -/
theorem readable_of_storeEffect {w w' : World F} {pc pc' : Pc F} (he : StoreEffect w pc pc' w')
    (hsaves : ∀ rule, pc.snapshot = some rule → ReadsBack readBack rule)
    (h : ∀ id rule, w.ruleStore.lookup id = some rule → ReadsBack readBack rule) (id : RuleId)
    (rule : CompiledRule F) (hrule : w'.ruleStore.lookup id = some rule) :
    ReadsBack readBack rule := by
  cases he with
  | frame _ hstore | change _ _ hstore | unsaved _ _ hstore =>
    rw [hstore] at hrule
    exact h id rule hrule
  | write id₀ r _ hid₀ hother _ _ hwrites =>
    by_cases hid : id = id₀
    · rw [hid, hid₀] at hrule
      subst hrule
      cases pc with
      | deleting id' => cases hwrites
      | _ =>
        simp only [Pc.writes, map_eq_some_iff, Prod.mk.injEq, some.injEq] at hwrites
        obtain ⟨rule', hsnap, -, rfl⟩ := hwrites
        exact hsaves rule' hsnap
    · rw [hother id hid] at hrule
      exact h id rule hrule

end ReadBack

variable [F64 F] {env : Env F}

/-- In a sequence of API operations only an import changes a rule without saving it. -/
theorem alreadyStored_of_importsStored {s s' : Server F} {a : Label F}
    (h : s.Serves fun c => c.isApi = true) (himport : ImportsStored s a)
    (hs : step env s a = some s') : AlreadyStored CompiledRule.definition s s' a := by
  cases a with
  | run n choice =>
    intro task id hn hu
    obtain ⟨hc, hof⟩ := h task (mem_of_getElem? hn)
    obtain ⟨task', pc, w, hn', hadv, rfl⟩ := step_run hs
    rw [hn, some.injEq] at hn'
    subst hn'
    obtain ⟨call, pc₀⟩ := task
    simp only at hc hof hu hadv
    cases pc₀ with
    | insert rule origin =>
      obtain ⟨rfl, horigin⟩ := hu
      cases origin with
      | engine => rcases hof with rfl | rfl <;> cases hc
      | handler => exact absurd rfl horigin
      | importer todo imported skipped errors =>
        have hstored := himport _ rule todo imported skipped errors hn rfl
        simp only [Pc.advance, lockRules_eq_some] at hadv
        cases hadv.2
        show (s.world.ruleStore.lookup rule.id).map CompiledRule.definition = _
        rw [hstored]
        show _ = ((s.world.rules.put rule).lookup rule.id).map CompiledRule.definition
        rw [KeyedMap.lookup_put_self, map_some]
    | remove id' viaHandler =>
      cases viaHandler with
      | true => exact absurd hu (by simp [Pc.Unsaved])
      | false =>
        obtain rfl : call = .removeRule id' := hof
        cases hc
    | _ => exact absurd hu (by simp [Pc.Unsaved])
  | _ => trivial

/-- After any sequence of API operations on a new engine with an empty store, in which no
rule is imported but those already stored with the same definition, the store lists the
rules of the engine, up to the order and to what is not part of the definition, if the text of
every saved rule reads back. -/
theorem listAll_perm_rules (values : ValueProvider F) (devices : DeviceService F)
    (now : Instant) (readBack : CompiledRule F → Option (CompiledRule F))
    {tr : List (Server F × Label F)} {s : Server F}
    (hrun : Run (step env) (Server.idle (World.new .empty values devices now)) tr s)
    (hcalls : Within (Calls fun s c => s.Quiescent ∧ c.isApi = true) tr)
    (himport : Within ImportsStored tr) (hread : Within (SavesReadable readBack) tr)
    (hq : s.Quiescent) :
    ∃ rules, s.world.listAll readBack = some rules ∧ (rules.map CompiledRule.definition).Perm
      (s.world.rules.values.map CompiledRule.definition) := by
  have hone : Within (Calls fun s _ => s.Quiescent) tr := by
    refine hcalls.mono ?_
    intro s a h
    cases a with
    | call c => exact h.1
    | _ => trivial
  have hlast : Within (NewestLast CompiledRule.definition) tr :=
    newestLast_of_oneAtATime hrun hone
  have hinv : s.Serves (fun c => c.isApi = true) ∧ Persisted CompiledRule.definition s := by
    refine hrun.invariant
      (G := fun s a => Calls (fun _ c => c.isApi = true) s a ∧
        NewestLast CompiledRule.definition s a ∧ ImportsStored s a)
      (I := fun s => s.Serves (fun c => c.isApi = true) ∧ Persisted CompiledRule.definition s)
      (fun e he => ⟨?_, hlast e he, himport e he⟩)
      ⟨serves_idle _ _, Persisted.idle fun i => rfl⟩ ?_
    · have hcall := hcalls e he
      revert hcall
      cases e.2 with
      | call c => exact fun h => h.2
      | _ => exact fun _ => trivial
    · rintro s a s' ⟨hserves, hpers⟩ ⟨hcall, hnewest, hstored⟩ hs
      exact ⟨serves_step hserves hcall hs,
        hpers.step hnewest (alreadyStored_of_importsStored hserves hstored hs) hs⟩
  have hreadable : ∀ id rule, s.world.ruleStore.lookup id = some rule →
      ReadsBack readBack rule := by
    refine hrun.invariant (I := fun s => ∀ id rule, s.world.ruleStore.lookup id = some rule →
      ReadsBack readBack rule) hread (fun id rule h => nomatch h) ?_
    intro s a s' h hsaves hs
    cases a with
    | run n choice =>
      obtain ⟨task, pc, w, hn, hadv, rfl⟩ := step_run hs
      exact readable_of_storeEffect (storeEffect_of_effect (effect_of_advance hadv))
        (fun rule => hsaves task rule hn) h
    | _ =>
      cases hs
      exact h
  have hall : ∀ rule ∈ s.world.ruleStore.values, ReadsBack readBack rule := fun rule hrule =>
    hreadable rule.id rule (KeyedMap.mem_values.mp hrule)
  obtain ⟨rules, hrules, hdefinitions⟩ := mapM_of_readsBack hall
  refine ⟨rules, hrules, ?_⟩
  rw [hdefinitions]
  refine KeyedMap.perm_map_values ?_ fun id => hinv.2.synced hq id
  intro b c hbc
  exact congrArg Definition.id hbc

/-- The section adds an imported rule. -/
def Pc.imports : Pc F → Bool
  | .insert _ (.importer _ _ _ _) => true
  | _ => false

omit [F64 F] in
theorem importsStored_of_not_imports {s : Server F} {a : Label F}
    (h : ∀ task ∈ s.tasks, task.pc.imports = false) : ImportsStored s a := by
  cases a with
  | run n choice =>
    intro task rule todo imported skipped errors hn hpc
    have hno := h task (mem_of_getElem? hn)
    rw [hpc] at hno
    cases hno
  | _ => trivial

/-- A request that creates the sample rule under its own id. -/
def Sample.createRequest : Json ℤ := .object [("name", .string "hot")]

/-- A document with one rule to import. -/
def Sample.importRequest : Json ℤ :=
  .object [("rules", .array [.object [("name", .string "hot"),
    ("trigger", .object [("trigger_type", .string "manual")])]])]

theorem listAll_perm_rules_created :
    ∃ tr s, Run (step Sample.env)
        (Server.idle (World.new .empty (Sample.reading 40) Sample.noDevices 0)) tr s ∧
      s.world.rules.values.map CompiledRule.name = ["hot"] ∧
      ∃ rules, s.world.listAll some = some rules ∧ (rules.map CompiledRule.definition).Perm
        (s.world.rules.values.map CompiledRule.definition) := by
  obtain ⟨tr, s, hrun, hcalls, hno, hname, hq⟩ := exists_run (step Sample.env)
    (Server.idle Sample.fresh)
    (.call (.createRuleHandler Sample.createRequest) :: Sample.runs 0 5 ++
      .call (.setRuleStatusHandler Sample.id false) :: Sample.runs 1 3)
    (fun tr s => Within (Calls fun s c => s.Quiescent ∧ c.isApi = true) tr ∧
      (∀ e ∈ tr, ∀ task ∈ e.1.tasks, task.pc.imports = false) ∧
      s.world.rules.values.map CompiledRule.name = ["hot"] ∧ s.Quiescent) (by decide)
  refine ⟨tr, s, hrun, hname, listAll_perm_rules _ _ _ some hrun hcalls
    (fun e he => importsStored_of_not_imports (hno e he)) (fun e _ => ?_) hq⟩
  cases e.2 with
  | run n choice => exact fun _ _ _ _ => rfl
  | _ => trivial

/-- The import adds its rule to the engine and not to the store. -/
theorem imported_rule_not_stored :
    ∃ tr s, Run (step Sample.env)
        (Server.idle (World.new .empty (Sample.reading 40) Sample.noDevices 0)) tr s ∧
      Within (Calls fun s c => s.Quiescent ∧ c.isApi = true) tr ∧ s.Quiescent ∧
      ¬ ∃ rules, s.world.listAll some = some rules ∧ (rules.map CompiledRule.definition).Perm
        (s.world.rules.values.map CompiledRule.definition) := by
  obtain ⟨tr, s, hrun, hcalls, hq, hstored, hrules⟩ := exists_run (step Sample.env)
    (Server.idle Sample.fresh)
    (.call (.importRulesHandler Sample.importRequest) :: Sample.runs 0 6)
    (fun tr s => Within (Calls fun s c => s.Quiescent ∧ c.isApi = true) tr ∧
      s.Quiescent ∧ s.world.ruleStore.values.length = 0 ∧
      s.world.rules.values.length = 1) (by decide)
  refine ⟨tr, s, hrun, hcalls, hq, ?_⟩
  rintro ⟨rules, hlist, hperm⟩
  rw [World.listAll, length_eq_zero_iff.mp hstored] at hlist
  cases hlist
  have hlen := hperm.length_eq
  rw [length_map, length_map, hrules] at hlen
  cases hlen

end Api

end HeraMind.Rules
