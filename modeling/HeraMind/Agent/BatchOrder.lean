/-
# The order of the batches

What `build_execution_batches` of `crates/heramind-agent/src/agent/mod.rs` guarantees for all calls
and all relationships of their tools, circular and one-sided ones included: the passes place a tool
after those that it is to be called after, and what they leave over waits for a tool that is left
over as well.
-/
import HeraMind.Agent.ToolBatches

namespace HeraMind.Agent.Tools

open List

variable {N : Type} {env : ToolEnv N} {calls rest batch added : List (Call N)}
  {placed : List String} {batches : List (List (Call N))} {c : Call N}

/-- The tools of some calls. -/
abbrev toolsOf (env : ToolEnv N) (calls : List (Call N)) : List String :=
  calls.map (Call.resolved env)

/-- The tool has to be called after another tool of the calls. -/
def Awaits (env : ToolEnv N) (calls : List (Call N)) (name dep : String) : Prop :=
  ∃ after ∈ (env.relationships name).callAfter, env.resolve after = dep ∧ dep ∈ toolsOf env calls

/-- The later call does not exclude the tool of the earlier one. -/
def Compatible (env : ToolEnv N) (earlier later : Call N) : Prop :=
  ∀ excl ∈ (env.relationships (later.resolved env)).exclusiveWith,
    env.resolve excl ≠ earlier.resolved env

theorem depsSatisfied_iff {name : String} : depsSatisfied env calls placed name = true ↔
    ∀ dep, Awaits env calls name dep → dep ∈ placed := by
  simp only [depsSatisfied, all_eq_true, Bool.or_eq_true, Bool.not_eq_true',
    ← Bool.not_eq_true, contains_iff_mem, Awaits]
  constructor
  · rintro h dep ⟨after, hafter, rfl, hcalls⟩
    exact (h after hafter).resolve_left (not_not_intro hcalls)
  · intro h after hafter
    exact Classical.or_iff_not_imp_left.mpr fun hcalls =>
      h _ ⟨after, hafter, rfl, not_not.mp hcalls⟩

/-! ## One pass -/

/-- What a pass adds to the batch. -/
structure Adds (env : ToolEnv N) (calls : List (Call N)) (placed : List String)
    (batch rest added : List (Call N)) : Prop where
  sublist : added.Sublist rest
  free : ∀ c ∈ added, c.resolved env ∉ placed ∧
    depsSatisfied env calls placed (c.resolved env) = true
  compatible : batch.Pairwise (Compatible env) → (batch ++ added).Pairwise (Compatible env)

theorem exists_adds (env : ToolEnv N) (calls : List (Call N)) (placed : List String)
    (batch rest : List (Call N)) : ∃ added, fillBatch env calls placed batch rest = batch ++ added ∧
      Adds env calls placed batch rest added := by
  induction rest generalizing batch with
  | nil =>
    refine ⟨[], (append_nil batch).symm, List.Sublist.refl [], ?_, ?_⟩
    · intro c hc
      cases hc
    · rw [append_nil]
      exact id
  | cons c rest ih =>
    have hskip : ∃ added, fillBatch env calls placed batch rest = batch ++ added ∧
        Adds env calls placed batch (c :: rest) added := by
      obtain ⟨added, heq, hadds⟩ := ih batch
      exact ⟨added, heq, hadds.sublist.cons c, hadds.free, hadds.compatible⟩
    simp only [fillBatch]
    split
    · exact hskip
    · rename_i hplaced
      split
      · exact hskip
      · rename_i hdeps
        split
        · exact hskip
        · rename_i hconflicts
          obtain ⟨added, heq, hadds⟩ := ih (batch ++ [c])
          refine ⟨c :: added, by rw [heq, append_assoc]; rfl, hadds.sublist.cons_cons c, ?_, ?_⟩
          · intro d hd
            rcases mem_cons.mp hd with rfl | hd
            · exact ⟨fun hmem => hplaced (contains_iff_mem.mpr hmem), by simpa using hdeps⟩
            · exact hadds.free d hd
          · intro hbatch
            have hall := hadds.compatible (pairwise_append.mpr ⟨hbatch, pairwise_singleton _ _, ?_⟩)
            · rwa [append_assoc] at hall
            · intro d hd e he excl hexcl heq
              rw [mem_singleton.mp he] at hexcl
              apply hconflicts
              rw [conflictsWithBatch, any_eq_true]
              refine ⟨excl, hexcl, contains_iff_mem.mpr ?_⟩
              rw [heq]
              exact mem_map_of_mem hd

/-- A pass over calls of which one can be placed places one. -/
theorem fillBatch_ne_nil (hc : c ∈ rest) (hplaced : c.resolved env ∉ placed)
    (hdeps : depsSatisfied env calls placed (c.resolved env) = true) :
    fillBatch env calls placed [] rest ≠ [] := by
  induction rest with
  | nil => cases hc
  | cons d rest ih =>
    have hstays : fillBatch env calls placed ([] ++ [d]) rest ≠ [] := by
      obtain ⟨added, heq, -⟩ := exists_adds env calls placed ([] ++ [d]) rest
      rw [heq]
      exact cons_ne_nil d added
    simp only [fillBatch]
    rcases mem_cons.mp hc with rfl | hc
    · have hnot : placed.contains (c.resolved env) = false := by
        rw [← Bool.not_eq_true, contains_iff_mem]
        exact hplaced
      have hconflicts : conflictsWithBatch env [] (c.resolved env) = false := by
        simp [conflictsWithBatch]
      rw [hnot, hdeps, hconflicts]
      exact hstays
    · have hrest := ih hc
      split
      · exact hrest
      · split
        · exact hrest
        · split
          · exact hrest
          · exact hstays

/-! ## All passes -/

/-- What is left of the calls after the tools are placed. -/
def unplaced (env : ToolEnv N) (calls : List (Call N)) (placed : List String) : List (Call N) :=
  calls.filter fun c => !placed.contains (c.resolved env)

theorem mem_unplaced : c ∈ unplaced env calls placed ↔ c ∈ calls ∧ c.resolved env ∉ placed := by
  simp [unplaced]

/-- What the passes have done so far. -/
structure Passes (env : ToolEnv N) (calls : List (Call N)) (placed : List String)
    (batches : List (List (Call N))) : Prop where
  tools : ∀ name, name ∈ placed ↔ name ∈ toolsOf env batches.flatten
  /-- No call is made twice. -/
  once : (batches.flatten ++ unplaced env calls placed).Subperm calls
  ordered : ∀ pre batch post, batches = pre ++ batch :: post → ∀ c ∈ batch,
    ∀ dep, Awaits env calls (c.resolved env) dep → dep ∈ toolsOf env pre.flatten
  compatible : ∀ batch ∈ batches, batch.Pairwise (Compatible env)

theorem Passes.init : Passes env calls [] [] where
  tools name := Iff.rfl
  once := filter_sublist.subperm
  ordered pre batch post h := by
    obtain ⟨-, h⟩ := append_eq_nil_iff.mp h.symm
    cases h
  compatible _ h := by cases h

theorem Passes.pass (h : Passes env calls placed batches) :
    Passes env calls (toolsOf env (fillBatch env calls placed [] calls) ∪ placed)
      (batches ++ [fillBatch env calls placed [] calls]) := by
  obtain ⟨added, heq, hadds⟩ := exists_adds env calls placed [] calls
  rw [nil_append] at heq
  rw [heq]
  constructor
  case tools =>
    intro name
    rw [mem_union_iff, h.tools, flatten_append, flatten_singleton, or_comm,
      ← mem_append, ← map_append]
  case once =>
    let now (c : Call N) : Bool := (toolsOf env added).contains (c.resolved env)
    have hleft : unplaced env calls (toolsOf env added ∪ placed) =
        (unplaced env calls placed).filter fun c => !now c := by
      rw [unplaced, unplaced, filter_filter]
      congr 1
      funext c
      rw [← Bool.not_or, Bool.eq_iff_iff]
      simp [now]
    -- the tools of the batch were not placed, and now they are
    have hadded : added.Sublist ((unplaced env calls placed).filter now) := by
      have hsub := hadds.sublist.filter fun c => now c && !placed.contains (c.resolved env)
      rw [filter_eq_self.mpr] at hsub
      · rw [unplaced, filter_filter]
        exact hsub
      · intro c hc
        have hnow : now c = true := contains_iff_mem.mpr (mem_map_of_mem hc)
        simp [hnow, (hadds.free c hc).1]
    rw [flatten_append, flatten_singleton, append_assoc, hleft]
    refine List.Subperm.trans ((subperm_append_left _).mpr ?_) h.once
    exact (hadded.append (List.Sublist.refl _)).subperm.trans (filter_append_perm now _).subperm
  case ordered =>
    intro pre batch post hsplit c hc dep hdep
    rcases eq_nil_or_concat post with rfl | ⟨post', last, rfl⟩
    · obtain ⟨rfl, hbatch⟩ := append_inj' hsplit rfl
      obtain rfl := singleton_inj.mp hbatch
      exact (h.tools dep).mp (depsSatisfied_iff.mp (hadds.free c hc).2 dep hdep)
    · rw [concat_eq_append, ← cons_append, ← append_assoc] at hsplit
      obtain ⟨hsplit, -⟩ := append_inj' hsplit rfl
      exact h.ordered pre batch post' hsplit c hc dep hdep
  case compatible =>
    intro batch hbatch
    rcases mem_append.mp hbatch with hbatch | hbatch
    · exact h.compatible batch hbatch
    · rw [mem_singleton.mp hbatch]
      exact hadds.compatible List.Pairwise.nil

/-- A pass that places a call places a tool. -/
theorem Placed.length_pass (h : Placed env calls placed batches)
    (hc : c ∈ fillBatch env calls placed [] calls) :
    placed.length < (toolsOf env (fillBatch env calls placed [] calls) ∪ placed).length := by
  have hnot : c.resolved env ∉ placed := by
    rcases mem_fillBatch hc with hc | ⟨-, hnot⟩
    · cases hc
    · exact hnot
  have hsub : (c.resolved env :: placed) ⊆
      toolsOf env (fillBatch env calls placed [] calls) ∪ placed :=
    cons_subset.mpr ⟨mem_union_left (mem_map_of_mem hc) placed,
      fun _ hname => mem_union_right _ hname⟩
  exact (subperm_of_subset (nodup_cons.mpr ⟨hnot, h.nodup⟩) hsub).length_le

/-- The passes go on as long as a call can be placed. -/
theorem exists_passes {fuel : ℕ} (hplaced : Placed env calls placed batches)
    (h : Passes env calls placed batches) (hfuel : calls.length < placed.length + fuel) :
    ∃ placed' passes, batchLoop env calls fuel placed batches = (placed', passes) ∧
      Placed env calls placed' passes ∧ Passes env calls placed' passes ∧
      ∀ c ∈ unplaced env calls placed',
        ¬ depsSatisfied env calls placed' (c.resolved env) = true := by
  induction fuel generalizing placed batches with
  | zero =>
    refine ⟨placed, batches, rfl, hplaced, h, fun c hc => ?_⟩
    have hlt := hplaced.length_lt (mem_unplaced.mp hc).1 (mem_unplaced.mp hc).2
    omega
  | succ fuel ih =>
    rw [batchLoop]
    dsimp only
    split
    · rename_i hempty
      refine ⟨placed, batches, rfl, hplaced, h, fun c hc hdeps => ?_⟩
      obtain ⟨hc, hnot⟩ := mem_unplaced.mp hc
      exact fillBatch_ne_nil hc hnot hdeps (List.isEmpty_iff.mp hempty)
    · rename_i hbatch
      split
      · rename_i hall
        refine ⟨_, _, rfl, hplaced.pass, h.pass, fun c hc => ?_⟩
        obtain ⟨hc, hnot⟩ := mem_unplaced.mp hc
        exact absurd hall (Nat.ne_of_lt (hplaced.pass.length_lt hc hnot))
      · obtain ⟨d, hd⟩ := exists_mem_of_ne_nil _ (mt List.isEmpty_iff.mpr hbatch)
        have hgrows := hplaced.length_pass hd
        refine ih hplaced.pass h.pass ?_
        change _ < (toolsOf env _ ∪ placed).length + fuel
        omega

/-! ## The result -/

/-- The calls are made in passes, and those that are left over at last. -/
structure Dependable (env : ToolEnv N) (calls : List (Call N)) (passes : List (List (Call N)))
    (left : List (Call N)) : Prop where
  once : (passes.flatten ++ left).Subperm calls
  /-- No tool is left out. -/
  covered : ∀ c ∈ calls, c.resolved env ∈ toolsOf env (passes.flatten ++ left)
  ordered : ∀ pre batch post, passes = pre ++ batch :: post → ∀ c ∈ batch, ∀ dep,
    Awaits env calls (c.resolved env) dep → dep ∈ toolsOf env pre.flatten
  compatible : ∀ batch ∈ passes, batch.Pairwise (Compatible env)
  /-- What is left over waits for a tool that is left over. -/
  circular : ∀ c ∈ left, ∃ dep, Awaits env calls (c.resolved env) dep ∧
    dep ∈ toolsOf env left ∧ dep ∉ toolsOf env passes.flatten

theorem Passes.dependable (h : Passes env calls placed batches)
    (hstuck : ∀ c ∈ unplaced env calls placed,
      ¬ depsSatisfied env calls placed (c.resolved env) = true) :
    Dependable env calls batches (unplaced env calls placed) where
  once := h.once
  covered c hc := by
    rw [toolsOf, map_append, mem_append]
    by_cases hplaced : c.resolved env ∈ placed
    · exact Or.inl ((h.tools _).mp hplaced)
    · exact Or.inr (mem_map_of_mem (mem_unplaced.mpr ⟨hc, hplaced⟩))
  ordered := h.ordered
  compatible := h.compatible
  circular c hc := by
    have hdeps := mt depsSatisfied_iff.mpr (hstuck c hc)
    push Not at hdeps
    obtain ⟨dep, hawaits, hdep⟩ := hdeps
    have hcalls : dep ∈ toolsOf env calls := by
      obtain ⟨-, -, -, hcalls⟩ := hawaits
      exact hcalls
    obtain ⟨d, hd, rfl⟩ := mem_map.mp hcalls
    exact ⟨_, hawaits, mem_map_of_mem (mem_unplaced.mpr ⟨hd, hdep⟩),
      fun hin => hdep ((h.tools _).mpr hin)⟩

theorem withRemaining_eq (h : Placed env calls placed batches) :
    withRemaining env calls placed batches =
      batches ++ [unplaced env calls placed].filter fun batch => !batch.isEmpty := by
  change (if placed.length < calls.length ∧ (!(unplaced env calls placed).isEmpty) = true then
    batches ++ [unplaced env calls placed] else batches) = _
  rw [filter_singleton]
  cases hempty : (unplaced env calls placed).isEmpty with
  | true => simp
  | false =>
    obtain ⟨c, hc⟩ := exists_mem_of_ne_nil _ (isEmpty_eq_false_iff.mp hempty)
    obtain ⟨hc, hnot⟩ := mem_unplaced.mp hc
    rw [if_pos ⟨h.length_lt hc hnot, rfl⟩]
    rfl

/-- The only call is left over if its tool awaits itself. -/
theorem exists_dependable_singleton (env : ToolEnv N) (c : Call N) :
    ∃ passes left, [[c]] = passes ++ [left].filter (fun batch => !batch.isEmpty) ∧
      Dependable env [c] passes left := by
  by_cases hself : Awaits env [c] (c.resolved env) (c.resolved env)
  · refine ⟨[], [c], rfl, .refl _, fun _ => mem_map_of_mem, fun pre _ _ hsplit => ?_, nofun, ?_⟩
    · exact absurd hsplit.symm (append_ne_nil_of_right_ne_nil pre (cons_ne_nil _ _))
    · intro d hd
      rw [mem_singleton.mp hd]
      exact ⟨_, hself, mem_singleton_self _, not_mem_nil⟩
  · refine ⟨[[c]], [], rfl, .refl _, fun _ => mem_map_of_mem, ?_, ?_, nofun⟩
    · intro pre batch post hsplit d hd dep hdep
      obtain ⟨-, -, -, hcalls⟩ := id hdep
      rw [mem_singleton.mp hcalls] at hdep
      cases pre with
      | nil =>
        obtain ⟨rfl, -⟩ := cons.inj hsplit
        rw [mem_singleton.mp hd] at hdep
        exact absurd hdep hself
      | cons b pre => cases pre <;> cases hsplit
    · intro batch hbatch
      rw [mem_singleton.mp hbatch]
      exact pairwise_singleton _ _

/-- The batches make no call twice and leave no tool out.  A pass comes after the tools that its
tools await, and what is left over waits for itself. -/
theorem buildExecutionBatches_dependable (env : ToolEnv N) (calls : List (Call N)) :
    ∃ passes left, buildExecutionBatches env calls =
        passes ++ [left].filter (fun batch => !batch.isEmpty) ∧
      Dependable env calls passes left := by
  rw [buildExecutionBatches]
  split
  · rename_i hempty
    obtain rfl := List.isEmpty_iff.mp hempty
    exact ⟨[], [], rfl, Passes.init.dependable fun c hc => by cases hc⟩
  · rename_i hne
    split
    · rename_i hone
      obtain ⟨c, rfl⟩ := length_eq_one_iff.mp hone
      exact exists_dependable_singleton env c
    · obtain ⟨placed, passes, heq, hplaced, hpasses, hstuck⟩ :=
        @exists_passes N env calls [] [] (calls.length + 1) Placed.init Passes.init (by simp)
      have hdep := hpasses.dependable hstuck
      simp only [heq, withRemaining_eq hplaced]
      refine ⟨passes, unplaced env calls placed, if_neg ?_, hdep⟩
      -- some call is made
      obtain ⟨c, hc⟩ := exists_mem_of_ne_nil _ (mt List.isEmpty_iff.mpr hne)
      obtain ⟨d, hd, -⟩ := mem_map.mp (hdep.covered c hc)
      rw [List.isEmpty_iff, append_eq_nil_iff]
      rintro ⟨rfl, hleft⟩
      rw [filter_singleton] at hleft
      cases h : unplaced env calls placed with
      | nil =>
        rw [h] at hd
        cases hd
      | cons d left =>
        rw [h] at hleft
        cases hleft

end HeraMind.Agent.Tools
