/-
# The subscription index

`rebuild_all_subscriptions` (`crates/heramind-rules/src/engine.rs`) computes the index
from the rules.  The write of the rules and the rebuild are separate critical sections,
so the index is stale in between; what holds in every state is that whenever the index is
stale some task still has its rebuild to do, and that an index already computed cannot
go stale before it is written, because its task holds the read guard of the rules.
-/
import HeraMind.Rules.Steps

namespace HeraMind.Rules

open List
open Transition

variable {F : Type}

/-! ## What the index has to say -/

/-- The storage keys of the sources of a rule. -/
def CompiledRule.keys (rule : CompiledRule F) : List String :=
  rule.trigger.sources.map DataSourceId.storageKey

/-- How often the index has to list a rule under a key. -/
def subscriptions (rules : RuleMap F) (k : String) (id : RuleId) : ℕ :=
  match rules.lookup id with
  | some rule => rule.keys.count k
  | none => 0

/-- The rules an index lists under a key. -/
def listed (idx : HashMap String (List RuleId)) (k : String) : List RuleId :=
  (idx.lookup k).getD []

/-- The index lists every rule under every key as often as the rules say. -/
def Agrees (idx : HashMap String (List RuleId)) (rules : RuleMap F) : Prop :=
  ∀ k id, (listed idx k).count id = subscriptions rules k id

/-- An index that agrees with the rules lists a rule exactly under the keys of its sources. -/
theorem Agrees.mem_listed {idx : HashMap String (List RuleId)} {rules : RuleMap F}
    (h : Agrees idx rules) (k : String) (id : RuleId) :
    id ∈ listed idx k ↔ ∃ rule, rules.lookup id = some rule ∧ k ∈ rule.keys := by
  rw [← count_pos_iff, h k id, subscriptions]
  cases rules.lookup id with
  | none => simp
  | some rule => simp [count_pos_iff]

/-! ## The rebuild -/

theorem count_subscribe (idx : HashMap String (List RuleId)) (key k : String)
    (id i : RuleId) :
    (listed (World.subscribe idx key id) k).count i =
      (listed idx k).count i + if key = k ∧ id = i then 1 else 0 := by
  unfold World.subscribe listed
  by_cases hk : key = k
  · subst hk
    rw [AList.lookup_insert, Option.getD_some, count_append]
    by_cases hi : id = i
    · simp [hi]
    · simp [hi]
  · rw [AList.lookup_insert_ne (fun h => hk h.symm), if_neg (fun h => hk h.1)]
    rfl

/-- One rule adds itself once for every occurrence of the key among its sources. -/
theorem count_subscribeRule (idx : HashMap String (List RuleId)) (rule : CompiledRule F)
    (k : String) (i : RuleId) :
    (listed (World.subscribeRule idx rule) k).count i =
      (listed idx k).count i + if rule.id = i then rule.keys.count k else 0 := by
  unfold World.subscribeRule CompiledRule.keys
  induction rule.trigger.sources generalizing idx with
  | nil => simp
  | cons source sources ih =>
    rw [foldl_cons, ih, count_subscribe, map_cons, count_cons]
    by_cases hi : rule.id = i
    · simp only [hi, and_true, if_true, beq_iff_eq]
      omega
    · simp [hi]

/-- A rule that is not among those added is listed as before. -/
theorem count_foldl_of_forall_ne (rules : List (CompiledRule F))
    (idx : HashMap String (List RuleId)) (k : String) (i : RuleId)
    (h : ∀ rule ∈ rules, rule.id ≠ i) :
    (listed (rules.foldl World.subscribeRule idx) k).count i = (listed idx k).count i := by
  induction rules generalizing idx with
  | nil => rfl
  | cons rule rules ih =>
    have hne : rule.id ≠ i := h rule (mem_cons_self ..)
    have hrest : ∀ r ∈ rules, r.id ≠ i := fun r hr => h r (mem_cons_of_mem _ hr)
    rw [foldl_cons, ih _ hrest, count_subscribeRule, if_neg hne, Nat.add_zero]

/-- Among rules with different ids, each is listed as often as its own sources say. -/
theorem count_foldl_of_mem (rules : List (CompiledRule F))
    (hnd : (rules.map CompiledRule.id).Nodup) (idx : HashMap String (List RuleId))
    (k : String) (rule : CompiledRule F) (h : rule ∈ rules) :
    (listed (rules.foldl World.subscribeRule idx) k).count rule.id =
      (listed idx k).count rule.id + rule.keys.count k := by
  induction rules generalizing idx with
  | nil => simp at h
  | cons r rules ih =>
    rw [map_cons, nodup_cons] at hnd
    obtain ⟨hr, hnd⟩ := hnd
    rw [foldl_cons]
    rcases mem_cons.mp h with rfl | hmem
    · have hne : ∀ r ∈ rules, r.id ≠ rule.id := by
        intro r hr' heq
        exact hr (heq ▸ mem_map_of_mem hr')
      rw [count_foldl_of_forall_ne rules _ k _ hne, count_subscribeRule, if_pos rfl]
    · have hne : r.id ≠ rule.id := by
        intro heq
        exact hr (heq ▸ mem_map_of_mem hmem)
      rw [ih hnd _ hmem, count_subscribeRule, if_neg hne, Nat.add_zero]

/-- The rebuilt index agrees with the rules it was computed from. -/
theorem agrees_subscriptionsOf (rules : RuleMap F) :
    Agrees (World.subscriptionsOf rules) rules := by
  intro k id
  have hempty : (listed (∅ : HashMap String (List RuleId)) k).count id = 0 := by
    simp [listed]
  unfold World.subscriptionsOf subscriptions
  cases h : rules.lookup id with
  | none =>
    have hne : ∀ rule ∈ rules.values, rule.id ≠ id := by
      intro rule hrule heq
      rw [KeyedMap.mem_values, heq, h] at hrule
      cases hrule
    rw [count_foldl_of_forall_ne _ _ _ _ hne, hempty]
  | some rule =>
    have hid : rule.id = id := KeyedMap.key_of_lookup h
    have hmem : rule ∈ rules.values := by
      rw [KeyedMap.mem_values, hid, h]
    rw [← hid, count_foldl_of_mem _ rules.nodup_keys_values _ _ _ hmem, hid, hempty, Nat.zero_add]

/-- A new engine has an empty index and no rules. -/
theorem agrees_empty : Agrees ∅ (.empty : RuleMap F) := by
  intro k id
  simp [listed, subscriptions]

/-- A change of a rule that keeps its sources keeps the agreement. -/
theorem Agrees.put {idx : HashMap String (List RuleId)} {rules : RuleMap F}
    (h : Agrees idx rules) {id : RuleId} {cur rule : CompiledRule F}
    (hcur : rules.lookup id = some cur) (hid : rule.id = cur.id)
    (htrigger : rule.trigger = cur.trigger) : Agrees idx (rules.put rule) := by
  intro k i
  have hcid : cur.id = id := KeyedMap.key_of_lookup hcur
  rw [h k i, subscriptions, subscriptions, KeyedMap.lookup_put]
  by_cases hi : i = rule.id
  · rw [if_pos hi, hi, hid, hcid, hcur]
    simp only [CompiledRule.keys, htrigger]
  · rw [if_neg hi]

/-! ## The invariant -/

/-- A rebuild of the index is under way or still to come. -/
def Pc.rebuilds : Pc F → Bool
  | .rebuild _ | .rebuilding _ _ => true
  | _ => false

theorem rebuilds_of_isPlain {pc : Pc F} (h : pc.isPlain = true) : pc.rebuilds = false := by
  cases pc <;> first | rfl | cases h

/-- The index is consistent with the rules up to the rebuilds in progress. -/
structure Consistent (s : Server F) : Prop where
  /-- An index in the making is protected by a read guard, and it agrees. -/
  making : ∀ (m : ℕ) (t : Task F) idx after, s.tasks[m]? = some t →
    t.pc = .rebuilding idx after → m ∈ s.world.rulesReaders ∧ Agrees idx s.world.rules
  /-- A stale index is going to be rebuilt. -/
  stale : Agrees s.world.subscriptionIndex s.world.rules ∨
    ∃ (m : ℕ) (t : Task F), s.tasks[m]? = some t ∧ t.pc.rebuilds = true

namespace Consistent

variable {s : Server F} {n : ℕ} {task : Task F} {pc : Pc F} {w : World F}

/-- A section that leaves rules, index and guards alone, of a task that is not
rebuilding before or after it. -/
theorem frame (h : Consistent s) (hn : s.tasks[n]? = some task)
    (hpc : task.pc.rebuilds = false) (hpc' : pc.rebuilds = false)
    (hrules : w.rules = s.world.rules)
    (hidx : w.subscriptionIndex = s.world.subscriptionIndex)
    (hreaders : w.rulesReaders = s.world.rulesReaders) :
    Consistent { world := w, tasks := s.tasks.set n { task with pc := pc } } where
  making := by
    intro m t idx after ht hidx'
    rw [hreaders, hrules]
    rcases (getElem?_setTask hn).mp ht with ⟨-, rfl⟩ | ⟨-, ht⟩
    · simp only at hidx'
      rw [hidx'] at hpc'
      cases hpc'
    · exact h.making m t idx after ht hidx'
  stale := by
    rw [hidx, hrules]
    rcases h.stale with hagree | ⟨m, t, ht, hreb⟩
    · exact Or.inl hagree
    · -- the rebuild that is due is the business of another task
      refine Or.inr ⟨m, t, (getElem?_setTask hn).mpr (Or.inr ⟨?_, ht⟩), hreb⟩
      rintro rfl
      rw [hn, Option.some.injEq] at ht
      rw [← ht, hpc] at hreb
      cases hreb

/-- While nobody reads the rules nobody is computing an index. -/
theorem not_making (h : Consistent s) (hlock : s.world.rulesReaders = []) {m : ℕ}
    {t : Task F} (ht : s.tasks[m]? = some t) (idx : HashMap String (List RuleId))
    (after : After F) : t.pc ≠ .rebuilding idx after := by
  intro hpc
  have hmem := (h.making m t idx after ht hpc).1
  rw [hlock] at hmem
  cases hmem

/-- A write of the rules that is followed by a rebuild. -/
theorem write (h : Consistent s) (hn : s.tasks[n]? = some task)
    (hlock : s.world.rulesReaders = []) (after : After F) :
    Consistent { world := w, tasks := s.tasks.set n { task with pc := .rebuild after } } where
  making := by
    intro m t idx after' ht hidx'
    rcases (getElem?_setTask hn).mp ht with ⟨-, rfl⟩ | ⟨-, ht⟩
    · cases hidx'
    · exact absurd hidx' (h.not_making hlock ht idx after')
  stale := by
    refine Or.inr ⟨n, { task with pc := .rebuild after }, ?_, rfl⟩
    exact (getElem?_setTask hn).mpr (Or.inl ⟨rfl, rfl⟩)

/-- A change of one rule that keeps its sources. -/
theorem edit (h : Consistent s) (hn : s.tasks[n]? = some task)
    (hlock : s.world.rulesReaders = []) (hpc : task.pc.rebuilds = false)
    (hpc' : pc.rebuilds = false) {id : RuleId} {cur rule : CompiledRule F}
    (hcur : s.world.rules.lookup id = some cur) (hid : rule.id = cur.id)
    (htrigger : rule.trigger = cur.trigger) :
    Consistent { world := s.world.insertRule rule,
                 tasks := s.tasks.set n { task with pc := pc } } where
  making := by
    intro m t idx after ht hidx'
    rcases (getElem?_setTask hn).mp ht with ⟨-, rfl⟩ | ⟨-, ht⟩
    · simp only at hidx'
      rw [hidx'] at hpc'
      cases hpc'
    · exact absurd hidx' (h.not_making hlock ht idx after)
  stale := by
    rcases h.stale with hagree | ⟨m, t, ht, hreb⟩
    · exact Or.inl (hagree.put hcur hid htrigger)
    · refine Or.inr ⟨m, t, (getElem?_setTask hn).mpr (Or.inr ⟨?_, ht⟩), hreb⟩
      rintro rfl
      rw [hn, Option.some.injEq] at ht
      rw [← ht, hpc] at hreb
      cases hreb

/-- The rules are read, and the guard is kept. -/
theorem acquire (h : Consistent s) (hn : s.tasks[n]? = some task) (after : After F) :
    Consistent
      { world := { s.world with rulesReaders := n :: s.world.rulesReaders },
        tasks := s.tasks.set n
          { task with pc := .rebuilding (World.subscriptionsOf s.world.rules) after } } where
  making := by
    intro m t idx after' ht hidx'
    rcases (getElem?_setTask hn).mp ht with ⟨rfl, rfl⟩ | ⟨-, ht⟩
    · cases hidx'
      exact ⟨mem_cons_self .., agrees_subscriptionsOf _⟩
    · obtain ⟨hmem, hagree⟩ := h.making m t idx after' ht hidx'
      exact ⟨mem_cons_of_mem _ hmem, hagree⟩
  stale := Or.inr ⟨n, _, (getElem?_setTask hn).mpr (Or.inl ⟨rfl, rfl⟩), rfl⟩

/-- The index is written, and the guard released. -/
theorem release (h : Consistent s) (hn : s.tasks[n]? = some task)
    {idx : HashMap String (List RuleId)} {after : After F}
    (hpc : task.pc = .rebuilding idx after) (hpc' : pc.rebuilds = false) :
    Consistent
      { world := { s.world with
          subscriptionIndex := idx
          rulesReaders := s.world.rulesReaders.filter (· ≠ n) },
        tasks := s.tasks.set n { task with pc := pc } } where
  making := by
    intro m t idx' after' ht hidx'
    rcases (getElem?_setTask hn).mp ht with ⟨-, rfl⟩ | ⟨hmn, ht⟩
    · simp only at hidx'
      rw [hidx'] at hpc'
      cases hpc'
    · obtain ⟨hmem, hagree⟩ := h.making m t idx' after' ht hidx'
      exact ⟨mem_filter.mpr ⟨hmem, by simpa using hmn⟩, hagree⟩
  stale := Or.inl (h.making n task idx after hn hpc).2

end Consistent

theorem rebuilds_after (after : After F) : after.pc.rebuilds = false := by
  cases after <;> rfl

theorem rebuilds_start (now : Instant) (c : Call F) : (c.start now).rebuilds = false := by
  cases c <;> rfl

theorem rebuilds_of_snapshot {pc : Pc F} {rule : CompiledRule F}
    (h : pc.snapshot = some rule) : pc.rebuilds = false := by
  cases pc <;> first | rfl | cases h

variable {s : Server F}

/-- Every section of a task keeps the invariant. -/
theorem Consistent.advance (h : Consistent s) {n : ℕ} {task : Task F}
    (hn : s.tasks[n]? = some task) {pc : Pc F} {w : World F}
    (he : Effect n s.world task.pc pc w) :
    Consistent { world := w, tasks := s.tasks.set n { task with pc := pc } } := by
  generalize hpc : task.pc = pc₀ at he
  cases he with
  | quiet hplain hinserts hplain' =>
    -- a section that only reads, like all those below that leave rules and index alone
    exact h.frame hn (hpc ▸ rebuilds_of_isPlain hplain) (rebuilds_of_isPlain hplain') rfl rfl rfl
  | insert hlock | remove hlock => exact h.write hn hlock _
  | setEnabled hlock hcur | sinceStart hlock hcur | sinceReset hlock hcur | trigger hlock hcur =>
    exact h.edit hn hlock (by rw [hpc]; rfl) rfl hcur rfl rfl
  | acquire => exact h.acquire hn _
  | release => exact h.release hn hpc (rebuilds_after _)
  | claim hclaim =>
    obtain ⟨rfl, -⟩ := tryClaimCooldown_eq_some.mp hclaim
    exact h.frame hn (by rw [hpc]; rfl) rfl rfl rfl rfl
  | countFailure =>
    refine h.frame hn (by rw [hpc]; rfl) ?_ rfl rfl rfl
    split <;> rfl
  | clearFailures | refund => exact h.frame hn (by rw [hpc]; rfl) rfl rfl rfl rfl
  | record =>
    exact h.frame hn (by rw [hpc]; rfl) (rebuilds_of_isPlain (isPlain_finish _ _)) rfl rfl rfl
  | dropCooldown =>
    refine h.frame hn (by rw [hpc]; rfl) ?_ rfl rfl rfl
    split <;> rfl
  | statusRead | statusGone => exact h.frame hn (by rw [hpc]; rfl) rfl rfl rfl rfl
  | save hsnap hplain =>
    exact h.frame hn (hpc ▸ rebuilds_of_snapshot hsnap) (rebuilds_of_isPlain hplain) rfl rfl rfl
  | delete => exact h.frame hn (by rw [hpc]; rfl) rfl rfl rfl rfl

/-- A new call keeps the invariant. -/
theorem Consistent.call (h : Consistent s) (c : Call F) :
    Consistent { s with tasks := s.tasks ++ [⟨c, c.start s.world.now⟩] } where
  making := by
    intro m t idx after ht hidx
    rcases getElem?_addTask.mp ht with ht | ⟨-, rfl⟩
    · exact h.making m t idx after ht hidx
    · have hstart := rebuilds_start s.world.now c
      simp only at hidx
      rw [hidx] at hstart
      cases hstart
  stale := by
    rcases h.stale with hagree | ⟨m, t, ht, hreb⟩
    · exact Or.inl hagree
    · exact Or.inr ⟨m, t, getElem?_addTask.mpr (Or.inl ht), hreb⟩

theorem consistent_idle {w : World F} (h : Agrees w.subscriptionIndex w.rules) :
    Consistent (Server.idle w) where
  making := by
    intro m t idx after ht
    simp [Server.idle] at ht
  stale := Or.inl h

theorem Consistent.agrees (h : Consistent s) (hq : s.Quiescent) :
    Agrees s.world.subscriptionIndex s.world.rules := by
  rcases h.stale with hagree | ⟨m, t, ht, hreb⟩
  · exact hagree
  · have hans := hq t (mem_of_getElem? ht)
    cases hpc : t.pc with
    | answered reply =>
      rw [hpc] at hreb
      cases hreb
    | _ =>
      rw [hpc] at hans
      cases hans

variable [F64 F] {env : Env F}

theorem Consistent.step {s s' : Server F} {a : Label F} (h : Consistent s)
    (hs : step env s a = some s') : Consistent s' := by
  cases a with
  | tick d | provide values | register devices =>
    cases hs
    exact ⟨h.making, h.stale⟩
  | call c =>
    cases hs
    exact h.call c
  | run n choice =>
    obtain ⟨task, pc, w, hn, hadv, rfl⟩ := step_run hs
    exact h.advance hn (effect_of_advance hadv)

/-- In every state of every run the index is consistent with the rules. -/
theorem consistent_of_run {w : World F} {tr : List (Server F × Label F)}
    (h₀ : Agrees w.subscriptionIndex w.rules)
    (hrun : Run (step env) (Server.idle w) tr s) : Consistent s :=
  hrun.invariant' (consistent_idle h₀) (fun _ _ _ hI hs => hI.step hs)

/-! ## The index of a server at rest -/

/-- Whatever calls ran and however their sections interleaved, when no call is in
progress the index lists a rule under a key exactly if the rule is registered with a
data-change trigger that has a source with this key. -/
theorem mem_subscriptionIndex_iff (ruleStore : RuleMap F) (values : ValueProvider F)
    (devices : DeviceService F) (now : Instant) {tr : List (Server F × Label F)}
    {s : Server F}
    (hrun : Run (step env) (Server.idle (World.new ruleStore values devices now)) tr s)
    (hq : s.Quiescent) (k : String) (id : RuleId) :
    id ∈ (s.world.subscriptionIndex.lookup k).getD [] ↔
      ∃ rule sources source, s.world.rules.lookup id = some rule ∧
        rule.trigger = .dataChange sources ∧ source ∈ sources ∧
        source.storageKey = k := by
  have hmem := ((consistent_of_run agrees_empty hrun).agrees hq).mem_listed k id
  rw [listed] at hmem
  rw [hmem]
  constructor
  · rintro ⟨rule, hrule, hk⟩
    obtain ⟨source, hsource, hkey⟩ := mem_map.mp hk
    cases ht : rule.trigger with
    | dataChange sources =>
      rw [ht] at hsource
      exact ⟨rule, sources, source, hrule, ht, hsource, hkey⟩
    | schedule cron | manual =>
      rw [ht] at hsource
      cases hsource
  · rintro ⟨rule, sources, source, hrule, ht, hsource, hkey⟩
    refine ⟨rule, hrule, mem_map.mpr ⟨source, ?_, hkey⟩⟩
    rw [ht]
    exact hsource

theorem mem_subscriptionIndex_iff_added :
    ∃ tr s, Run (step Sample.env)
        (Server.idle (World.new .empty (Sample.reading 40) Sample.noDevices 0)) tr s ∧
      s.Quiescent ∧
      (Sample.id ∈ (s.world.subscriptionIndex.lookup "device:d1:temp").getD [] ↔
        ∃ rule sources source, s.world.rules.lookup Sample.id = some rule ∧
          rule.trigger = .dataChange sources ∧ source ∈ sources ∧
          source.storageKey = "device:d1:temp") := by
  obtain ⟨tr, s, hrun, hq⟩ := exists_run (step Sample.env)
    (Server.idle Sample.fresh)
    (.call (.addRule Sample.rule) :: Sample.runs 0 3)
    (fun tr s => s.Quiescent) (by decide)
  have hq : s.Quiescent := hq
  exact ⟨tr, s, hrun, hq, mem_subscriptionIndex_iff _ _ _ _ hrun hq _ _⟩

/-! ## No change goes unevaluated -/

section Flips

variable {isMatch : String → String → Bool} {p q : ValueProvider F} {s : DataSourceId}

/-- A change of one value that changes a condition is a change of one of its sources. -/
theorem mem_extractSources_of_flips {c : RuleCondition F} (hdiffer : ∀ s', s' ≠ s → p s' = q s')
    (hflips : c.evaluate isMatch p ≠ c.evaluate isMatch q) : s ∈ c.extractSources := by
  by_contra hnot
  refine hflips (c.evaluate_congr fun s' hs' => hdiffer s' ?_)
  rintro rfl
  exact hnot hs'

omit [F64 F] in
/-- The sources of a finalized data-change rule are those of its condition. -/
theorem CompiledRule.Finalized.sources {rule : CompiledRule F} {sources : List DataSourceId}
    {c : RuleCondition F} (h : rule.Finalized) (htrigger : rule.trigger = .dataChange sources)
    (hcondition : rule.condition = some c) : rule.trigger.sources = c.extractSources := by
  unfold CompiledRule.Finalized at h
  rw [← h, htrigger, hcondition]
  rfl

/-- A change of one value that changes the condition of a rule is found in the rebuilt index: the
key of the source lists the rule. -/
theorem subscribed_of_flips {rules : RuleMap F} {rule : CompiledRule F}
    {sources : List DataSourceId} {c : RuleCondition F}
    (hrule : rules.lookup rule.id = some rule) (hfinalized : rule.Finalized)
    (htrigger : rule.trigger = .dataChange sources) (hcondition : rule.condition = some c)
    (hdiffer : ∀ s', s' ≠ s → p s' = q s')
    (hflips : c.evaluate isMatch p ≠ c.evaluate isMatch q) :
    ∃ ids, (World.subscriptionsOf rules).lookup s.storageKey = some ids ∧ rule.id ∈ ids := by
  have hkey : s.storageKey ∈ rule.keys := by
    refine mem_map_of_mem ?_
    rw [hfinalized.sources htrigger hcondition]
    exact mem_extractSources_of_flips hdiffer hflips
  have hlisted : rule.id ∈ listed (World.subscriptionsOf rules) s.storageKey :=
    ((agrees_subscriptionsOf rules).mem_listed s.storageKey rule.id).mpr ⟨rule, hrule, hkey⟩
  unfold listed at hlisted
  cases hlookup : (World.subscriptionsOf rules).lookup s.storageKey with
  | none =>
    rw [hlookup] at hlisted
    cases hlisted
  | some ids =>
    rw [hlookup] at hlisted
    exact ⟨ids, rfl, hlisted⟩

end Flips

/-- The temperature of the sample rises from nothing to 40. -/
theorem subscribed_of_flips_heated :
    ∃ ids, (World.subscriptionsOf (KeyedMap.empty.put Sample.rule)).lookup "device:d1:temp"
      = some ids ∧ Sample.id ∈ ids := by
  have hflips : Sample.condition.evaluate (fun _ _ => false) (fun _ => none) ≠
      Sample.condition.evaluate (fun _ _ => false)
        (fun s => if s = Sample.source then some (.number 40) else none) := by decide
  have hrule : (KeyedMap.empty.put Sample.rule : RuleMap ℤ).lookup Sample.rule.id
      = some Sample.rule := by rfl
  exact subscribed_of_flips hrule rfl rfl rfl (fun s' hne => (if_neg hne).symm) hflips

end HeraMind.Rules
