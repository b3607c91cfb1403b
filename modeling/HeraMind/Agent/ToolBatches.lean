/-
# Batches of tool calls

`crates/heramind-agent/src/agent/mod.rs`: `process_with_llm` drops the calls that it takes for
duplicates of earlier ones, and `build_execution_batches` orders the others by the relationships of
their tools.

The arguments of a call are a JSON value, so no key of an object repeats.  How a name is resolved,
and the relationships of the tools, are parameters.
-/
import Mathlib.Data.List.Dedup
import Mathlib.Data.List.Perm.Subperm
import HeraMind.Lib.JsonWrite

namespace HeraMind.Agent.Tools

open List
open JsonText Serde

/-! ## Calls -/

/-- A parsed tool call. -/
structure Call (N : Type) where
  name : String
  arguments : Doc N
  unique : UniqueKeys arguments

structure ToolRelationships where
  callAfter : List String
  exclusiveWith : List String

instance : Inhabited ToolRelationships := ⟨⟨[], []⟩⟩

/-- What lies outside of the code modelled here. -/
structure ToolEnv (N : Type) where
  num : NumberText N
  /-- `resolve_tool_name` -/
  resolve : String → String
  /-- The relationships in the definition of a registered tool. -/
  relationships : String → ToolRelationships
  maxToolCalls : ℕ
  toolConcurrencyLimit : ℕ
  sessionId : String
  /-- Whether a call changes state.  No function of the agent reads this. -/
  changesState : Call N → Bool

variable {N : Type} {env : ToolEnv N}

namespace Call

/-- `arguments.to_string()` -/
def argsKey (env : ToolEnv N) (c : Call N) : List Char := write env.num c.arguments

/-- The key of a call in the cache. -/
def key (env : ToolEnv N) (c : Call N) : String × List Char := (c.name, c.argsKey env)

/-- The key by which duplicates are found: of the arguments, the first 100 characters. -/
def dedupKey (env : ToolEnv N) (c : Call N) : String × List Char :=
  (c.name, (c.argsKey env).take 100)

/-- The name of the tool that is executed. -/
def resolved (env : ToolEnv N) (c : Call N) : String := env.resolve c.name

/-- Name and complete arguments determine a call. -/
theorem key_injective {c d : Call N} (h : c.key env = d.key env) : c = d := by
  obtain ⟨cname, cargs, hc⟩ := c
  obtain ⟨dname, dargs, hd⟩ := d
  obtain ⟨hname, hargs⟩ := Prod.mk.inj h
  change write env.num cargs = write env.num dargs at hargs
  have hread := readText_write env.num hc (max cargs.depth dargs.depth)
  rw [hargs, readText_write env.num hd, if_pos (Nat.le_max_right _ _),
    if_pos (Nat.le_max_left _ _), Option.some.injEq] at hread
  change cname = dname at hname
  subst hname hread
  rfl

end Call

/-! ## Duplicates -/

/-- The calls whose key was not seen before. -/
def retainUnseen (env : ToolEnv N) : List (String × List Char) → List (Call N) → List (Call N)
  | _, [] => []
  | seen, c :: calls =>
    if c.dedupKey env ∈ seen then retainUnseen env seen calls
    else c :: retainUnseen env (c.dedupKey env :: seen) calls

variable {c : Call N}

/-- A call is retained if every earlier call with its key is the same call. -/
theorem mem_retainUnseen {seen : List (String × List Char)} {calls : List (Call N)}
    (hc : c ∈ calls) (hseen : c.dedupKey env ∉ seen)
    (hsame : ∀ pre d post, calls = pre ++ d :: post → c ∈ post →
      d.dedupKey env = c.dedupKey env → d = c) : c ∈ retainUnseen env seen calls := by
  induction calls generalizing seen with
  | nil => cases hc
  | cons d calls ih =>
    have hrest : ∀ pre e post, calls = pre ++ e :: post → c ∈ post →
        e.dedupKey env = c.dedupKey env → e = c := by
      intro pre e post heq
      exact hsame (d :: pre) e post (by rw [heq, cons_append])
    rw [retainUnseen]
    rcases mem_cons.mp hc with rfl | hmem
    · rw [if_neg hseen]
      exact mem_cons_self
    · split
      · exact ih hmem hseen hrest
      · by_cases hkey : d.dedupKey env = c.dedupKey env
        · rw [hsame [] d calls rfl hmem hkey]
          exact mem_cons_self
        · refine mem_cons_of_mem _ (ih hmem ?_ hrest)
          intro hmem'
          rcases mem_cons.mp hmem' with heq | hold
          · exact hkey heq.symm
          · exact hseen hold

/-! ## Batches -/

/-- Every dependency is placed or not among the calls. -/
def depsSatisfied (env : ToolEnv N) (calls : List (Call N)) (placed : List String)
    (name : String) : Bool :=
  (env.relationships name).callAfter.all fun dep =>
    !(calls.map (Call.resolved env)).contains (env.resolve dep) || placed.contains (env.resolve dep)

/-- A tool of the batch is exclusive with the tool. -/
def conflictsWithBatch (env : ToolEnv N) (batch : List (Call N)) (name : String) : Bool :=
  (env.relationships name).exclusiveWith.any fun excl =>
    (batch.map (Call.resolved env)).contains (env.resolve excl)

/-- One pass over the calls: those that can join the batch. -/
def fillBatch (env : ToolEnv N) (calls : List (Call N)) (placed : List String) :
    List (Call N) → List (Call N) → List (Call N)
  | batch, [] => batch
  | batch, c :: rest =>
    let name := c.resolved env
    if placed.contains name then fillBatch env calls placed batch rest
    else if !depsSatisfied env calls placed name then fillBatch env calls placed batch rest
    else if conflictsWithBatch env batch name then fillBatch env calls placed batch rest
    else fillBatch env calls placed (batch ++ [c]) rest

/-- The passes, until no call can be placed or as many tools as calls are. -/
def batchLoop (env : ToolEnv N) (calls : List (Call N)) :
    ℕ → List String → List (List (Call N)) → List String × List (List (Call N))
  | 0, placed, batches => (placed, batches)
  | fuel + 1, placed, batches =>
    let batch := fillBatch env calls placed [] calls
    if batch.isEmpty then (placed, batches)
    else
      let placed := batch.map (Call.resolved env) ∪ placed
      if placed.length = calls.length then (placed, batches ++ [batch])
      else batchLoop env calls fuel placed (batches ++ [batch])

/-- The calls that are left, because of circular dependencies, make one more batch. -/
def withRemaining (env : ToolEnv N) (calls : List (Call N)) (placed : List String)
    (batches : List (List (Call N))) : List (List (Call N)) :=
  let remaining := calls.filter fun c => !placed.contains (c.resolved env)
  if placed.length < calls.length ∧ !remaining.isEmpty then batches ++ [remaining] else batches

/-- `build_execution_batches` -/
def buildExecutionBatches (env : ToolEnv N) (calls : List (Call N)) : List (List (Call N)) :=
  if calls.isEmpty then []
  else if calls.length = 1 then [calls]
  else
    let (placed, batches) := batchLoop env calls (calls.length + 1) [] []
    let batches := withRemaining env calls placed batches
    if batches.isEmpty then [calls] else batches

variable {calls rest batch : List (Call N)} {placed : List String}

/-- Only calls whose tool is not placed join the batch. -/
theorem mem_fillBatch (h : c ∈ fillBatch env calls placed batch rest) :
    c ∈ batch ∨ c ∈ rest ∧ c.resolved env ∉ placed := by
  induction rest generalizing batch with
  | nil => exact Or.inl h
  | cons d rest ih =>
    simp only [fillBatch] at h
    have hlater : c ∈ batch ∨ c ∈ rest ∧ c.resolved env ∉ placed →
        c ∈ batch ∨ c ∈ d :: rest ∧ c.resolved env ∉ placed :=
      Or.imp_right (And.imp_left (mem_cons_of_mem _))
    split at h
    · exact hlater (ih h)
    · rename_i hplaced
      split at h
      · exact hlater (ih h)
      · split at h
        · exact hlater (ih h)
        · rcases ih h with hmem | hmem
          · rcases mem_append.mp hmem with hmem | hmem
            · exact Or.inl hmem
            · obtain rfl := mem_singleton.mp hmem
              refine Or.inr ⟨mem_cons_self, ?_⟩
              rwa [contains_iff_mem] at hplaced
          · exact hlater (Or.inr hmem)

/-- No tool of the calls is exclusive with another. -/
def NoConflicts (env : ToolEnv N) (calls : List (Call N)) : Prop :=
  ∀ c ∈ calls, ∀ excl ∈ (env.relationships (c.resolved env)).exclusiveWith, ∀ d ∈ calls,
    env.resolve excl ≠ d.resolved env

instance (env : ToolEnv N) (calls : List (Call N)) : Decidable (NoConflicts env calls) := by
  unfold NoConflicts
  infer_instance

/-- Without conflicts, the batch takes the calls whose tools are not placed and whose dependencies
are. -/
theorem fillBatch_eq (h : NoConflicts env calls) (hbatch : ∀ c ∈ batch, c ∈ calls)
    (hrest : ∀ c ∈ rest, c ∈ calls) :
    fillBatch env calls placed batch rest = batch ++ rest.filter fun c =>
      !placed.contains (c.resolved env) && depsSatisfied env calls placed (c.resolved env) := by
  induction rest generalizing batch with
  | nil => exact (append_nil batch).symm
  | cons c rest ih =>
    have hc : c ∈ calls := hrest c mem_cons_self
    have hrest' : ∀ d ∈ rest, d ∈ calls := fun d hd => hrest d (mem_cons_of_mem _ hd)
    have hconflict : conflictsWithBatch env batch (c.resolved env) = false := by
      rw [conflictsWithBatch, any_eq_false]
      intro excl hexcl
      rw [contains_iff_mem, mem_map]
      rintro ⟨d, hd, heq⟩
      exact h c hc excl hexcl d (hbatch d hd) heq.symm
    rw [fillBatch, hconflict, filter_cons]
    cases hplaced : placed.contains (c.resolved env) with
    | true => exact ih hbatch hrest'
    | false =>
      cases hdeps : depsSatisfied env calls placed (c.resolved env) with
      | false => exact ih hbatch hrest'
      | true =>
        refine (ih ?_ hrest').trans ?_
        · intro d hd
          rcases mem_append.mp hd with hd | hd
          · exact hbatch d hd
          · rw [mem_singleton.mp hd]
            exact hc
        · rw [append_assoc]
          rfl

/-- What the passes have placed so far. -/
structure Placed (env : ToolEnv N) (calls : List (Call N)) (placed : List String)
    (batches : List (List (Call N))) : Prop where
  nodup : placed.Nodup
  among : ∀ name ∈ placed, ∃ c ∈ calls, c.resolved env = name
  covered : NoConflicts env calls → ∀ c ∈ calls, c.resolved env ∈ placed →
    ∃ batch ∈ batches, c ∈ batch

theorem Placed.init : Placed env calls [] [] where
  nodup := nodup_nil
  among _ h := nomatch h
  covered _ _ _ h := nomatch h

variable {batches : List (List (Call N))}

/-- A pass places every call of the tools it places. -/
theorem Placed.pass (h : Placed env calls placed batches) :
    Placed env calls
      ((fillBatch env calls placed [] calls).map (Call.resolved env) ∪ placed)
      (batches ++ [fillBatch env calls placed [] calls]) where
  nodup := List.Nodup.union _ h.nodup
  among := by
    intro name hname
    rcases mem_union_iff.mp hname with hname | hname
    · obtain ⟨c, hc, rfl⟩ := mem_map.mp hname
      rcases mem_fillBatch hc with hc | ⟨hc, -⟩
      · cases hc
      · exact ⟨c, hc, rfl⟩
    · exact h.among name hname
  covered := by
    intro hno c hc hplaced
    rcases mem_union_iff.mp hplaced with hname | hold
    · obtain ⟨d, hd, heq⟩ := mem_map.mp hname
      refine ⟨_, mem_append_right _ (mem_singleton_self _), ?_⟩
      have hfill := @fillBatch_eq N env calls calls [] placed hno nofun (fun c hc => hc)
      rw [hfill, nil_append, mem_filter] at hd ⊢
      rw [← heq]
      exact ⟨hc, hd.2⟩
    · obtain ⟨batch, hbatch, hmem⟩ := h.covered hno c hc hold
      exact ⟨batch, mem_append_left _ hbatch, hmem⟩

theorem Placed.loop (h : Placed env calls placed batches) (fuel : ℕ) :
    Placed env calls (batchLoop env calls fuel placed batches).1
      (batchLoop env calls fuel placed batches).2 := by
  induction fuel generalizing placed batches with
  | zero => exact h
  | succ fuel ih =>
    rw [batchLoop]
    dsimp only
    split
    · exact h
    · split
      · exact h.pass
      · exact ih h.pass

/-- As long as a call is not placed, fewer tools than calls are. -/
theorem Placed.length_lt (h : Placed env calls placed batches)
    (hc : c ∈ calls) (hnot : c.resolved env ∉ placed) :
    placed.length < calls.length := by
  have hnodup : (c.resolved env :: placed).Nodup := nodup_cons.mpr ⟨hnot, h.nodup⟩
  have hsub : (c.resolved env :: placed) ⊆ calls.map (Call.resolved env) := by
    intro name hname
    rcases mem_cons.mp hname with rfl | hname
    · exact mem_map_of_mem hc
    · obtain ⟨d, hd, rfl⟩ := h.among name hname
      exact mem_map_of_mem hd
  have hle := (subperm_of_subset hnodup hsub).length_le
  rw [length_cons, length_map] at hle
  omega

theorem mem_withRemaining (h : Placed env calls placed batches) (hno : NoConflicts env calls)
    (hc : c ∈ calls) : ∃ batch ∈ withRemaining env calls placed batches, c ∈ batch := by
  rw [withRemaining]
  by_cases hmem : c.resolved env ∈ placed
  · obtain ⟨batch, hbatch, hin⟩ := h.covered hno c hc hmem
    refine ⟨batch, ?_, hin⟩
    split
    · exact mem_append_left _ hbatch
    · exact hbatch
  · have hremaining : c ∈ calls.filter fun c => !placed.contains (c.resolved env) := by
      refine mem_filter.mpr ⟨hc, ?_⟩
      rw [Bool.not_eq_true', ← Bool.not_eq_true, contains_iff_mem]
      exact hmem
    rw [if_pos]
    · exact ⟨_, mem_append_right _ (mem_singleton_self _), hremaining⟩
    · refine ⟨h.length_lt hc hmem, ?_⟩
      rw [Bool.not_eq_true', isEmpty_eq_false_iff]
      exact ne_nil_of_mem hremaining

/-- Without conflicts, every call is in a batch. -/
theorem exists_mem_batches (hno : NoConflicts env calls) (hc : c ∈ calls) :
    ∃ batch ∈ buildExecutionBatches env calls, c ∈ batch := by
  have hne : ¬ calls.isEmpty = true := by
    rw [List.isEmpty_iff]
    exact ne_nil_of_mem hc
  rw [buildExecutionBatches, if_neg hne]
  split
  · exact ⟨calls, mem_singleton_self _, hc⟩
  · have hplaced := (@Placed.init N env calls).loop (calls.length + 1)
    obtain ⟨batch, hbatch, hin⟩ := mem_withRemaining hplaced hno hc
    refine ⟨batch, ?_, hin⟩
    dsimp only
    rw [if_neg]
    · exact hbatch
    · rw [List.isEmpty_iff]
      exact ne_nil_of_mem hbatch

end HeraMind.Agent.Tools
