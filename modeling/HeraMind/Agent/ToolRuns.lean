/-
# Tool calls are performed

`crates/heramind-agent/src/agent/mod.rs`: the duplicate filter looks at the first 100 characters of
the arguments, the cache is consulted before anything is known about a call, and a write drops the
results of tools whose name starts with its own.  What holds of every run holds as long as no two
different calls look alike to the filter, every state-changing call names a write action, and its
name reaches every cached result.
-/
import HeraMind.Agent.ToolTurns

namespace HeraMind.Agent.Tools

open List
open JsonText Serde Transition

variable {N : Type} {env : ToolEnv N} {s s' : AgentState N}

/-! ## What should hold -/

/-- Every state-changing call of a turn that has ended was executed in it, and no result was served
that is older than the latest completed state-changing call. -/
structure AgentState.Performs (env : ToolEnv N) (s : AgentState N) : Prop where
  executed : ∀ t ∈ s.finished, ∀ c ∈ t.calls, env.changesState c = true → c ∈ t.executed
  served : ∀ e ∈ s.served, e.1 = e.2

/-- The keys of the calls of the turns that have ended, and of those that were executed. -/
def AgentState.finishedKeys (env : ToolEnv N) (s : AgentState N) :
    List (List (String × List Char) × List (String × List Char)) :=
  s.finished.map fun t => (t.calls.map (Call.key env), t.executed.map (Call.key env))

theorem AgentState.Performs.mem_executed (h : s.Performs env)
    {calls executed : List (String × List Char)} (ht : (calls, executed) ∈ s.finishedKeys env)
    {c : Call N} (hc : c.key env ∈ calls) (hchanges : env.changesState c = true) :
    c.key env ∈ executed := by
  obtain ⟨t, htmem, heq⟩ := mem_map.mp ht
  obtain ⟨rfl, rfl⟩ := Prod.mk.inj heq
  obtain ⟨d, hd, hkey⟩ := mem_map.mp hc
  rw [Call.key_injective hkey] at hd
  exact mem_map_of_mem (h.executed t htmem c hd hchanges)

/-! ## Runs in which calls are told apart -/

/-- A state-changing call is no duplicate of a different call before it. -/
def ToldApart (env : ToolEnv N) (calls : List (Call N)) : Prop :=
  calls.Pairwise fun d c => env.changesState c = true → d.dedupKey env = c.dedupKey env →
    d.key env = c.key env

/-- A state-changing call names a write action, and every cached result is that of a tool whose name
starts with that of the call. -/
def Reaches (cache : ToolResultCache) (c : Call N) : Prop :=
  isWriteAction c.arguments = true ∧ ∀ k ∈ cache.keys, c.name.toList.isPrefixOf k.1.toList = true

/-- A state-changing call that completes reaches every cached result, and no such call has completed
between the return of a tool and the storing of its result. -/
def StoresInOrder (env : ToolEnv N) (s : AgentState N) (c : Call N) : Phase → Prop
  | .returned _ epoch =>
    if env.changesState c = true then Reaches s.cache c
    else isWriteAction c.arguments = true ∨ epoch = s.epoch
  | _ => True

/-- The calls of a turn are told apart and none excludes another; the registry refuses no
state-changing call; and results are stored in order. -/
def Distinguishes (env : ToolEnv N) (s : AgentState N) : ToolAction N → Prop
  | .begin parsed => ToldApart env (parsed.take env.maxToolCalls) ∧
    NoConflicts env (retainUnseen env [] (parsed.take env.maxToolCalls))
  | .toolReturns i outcome => ∀ r ∈ s.call? i, env.changesState r.2.1 = true →
    outcome.executes = true
  | .store i => ∀ r ∈ s.call? i, StoresInOrder env s r.2.1 r.2.2
  | _ => True

instance (env : ToolEnv N) (calls : List (Call N)) : Decidable (ToldApart env calls) := by
  unfold ToldApart
  infer_instance

instance (cache : ToolResultCache) (c : Call N) : Decidable (Reaches cache c) := by
  unfold Reaches
  infer_instance

instance (env : ToolEnv N) (s : AgentState N) (c : Call N) (phase : Phase) :
    Decidable (StoresInOrder env s c phase) := by
  unfold StoresInOrder
  split <;> infer_instance

instance (env : ToolEnv N) (s : AgentState N) (a : ToolAction N) :
    Decidable (Distinguishes env s a) := by
  unfold Distinguishes
  split <;> infer_instance

/-! ## The cache -/

namespace ToolResultCache

variable {cache : ToolResultCache} {now : ℕ} {k key : String × List Char} {e e' : Entry}

theorem lookup_of_get (h : cache.get now key = some e) : cache.lookup key = some e :=
  (Option.filter_eq_some_iff.mp h).1

/-- An entry of the cache after a result is stored. -/
theorem lookup_put (h : (cache.put now key e).lookup k = some e') :
    k = key ∧ e' = e ∨ cache.lookup k = some e' := by
  rw [put, cleanup, HashMap.lookup_removeAll_filter] at h
  have hinsert := (Option.filter_eq_some_iff.mp h).1
  by_cases hk : k = key
  · rw [hk, AList.lookup_insert, Option.some.injEq] at hinsert
    exact Or.inl ⟨hk, hinsert.symm⟩
  · rw [AList.lookup_insert_ne hk] at hinsert
    exact Or.inr hinsert

/-- An entry of the cache after a write. -/
theorem lookup_invalidate {toolPrefix : String}
    (h : (cache.invalidate toolPrefix).lookup k = some e) :
    cache.lookup k = some e ∧ toolPrefix.toList.isPrefixOf k.1.toList = false := by
  rw [invalidate, HashMap.lookup_removeAll] at h
  split at h
  · cases h
  · rename_i hnot
    refine ⟨h, ?_⟩
    rw [Bool.eq_false_iff]
    intro hprefix
    refine hnot (mem_filter.mpr ⟨?_, hprefix⟩)
    rw [← AList.mem_keys, ← AList.lookup_isSome, h]
    rfl

/-- A write that reaches every result leaves none. -/
theorem invalidate_of_reaches {c : Call N} (h : Reaches cache c) :
    (cache.invalidate c.name).lookup k = none := by
  by_contra hne
  obtain ⟨e, he⟩ := Option.ne_none_iff_exists'.mp hne
  obtain ⟨hold, hprefix⟩ := lookup_invalidate he
  have hmem : k ∈ cache.keys := by
    rw [← AList.mem_keys, ← AList.lookup_isSome, hold]
    rfl
  rw [h.2 k hmem] at hprefix
  cases hprefix

end ToolResultCache

/-! ## The invariant -/

/-- The tool of the call has not returned. -/
def Phase.isOpen : Phase → Bool
  | .waiting | .executing _ _ => true
  | _ => false

/-- The call is still to be executed. -/
def Turn.Pending (t : Turn N) (c : Call N) : Prop :=
  (∃ batch ∈ t.batches, c ∈ batch) ∨ ∃ phase, phase.isOpen = true ∧ (c, phase) ∈ t.running

structure AgentState.Held (env : ToolEnv N) (s : AgentState N) : Prop where
  performs : s.Performs env
  /-- What is cached is no result of a state-changing call, and none has completed since. -/
  cache : ∀ k e, s.cache.lookup k = some e →
    e.epoch = s.epoch ∧ ∀ c : Call N, c.key env = k → env.changesState c = false
  turn : ∀ t, s.turn = some t → ∀ c ∈ t.calls, env.changesState c = true →
    c ∈ t.executed ∨ t.Pending c

theorem ToldApart.mem_retainUnseen {calls : List (Call N)} (h : ToldApart env calls) {c : Call N}
    (hc : c ∈ calls) (hchanges : env.changesState c = true) : c ∈ retainUnseen env [] calls := by
  refine Tools.mem_retainUnseen hc nofun ?_
  intro pre d post heq hpost hkey
  rw [ToldApart, heq, pairwise_append, pairwise_cons] at h
  exact Call.key_injective (h.2.1.1 c hpost hchanges hkey)

theorem AgentState.exists_of_call? {i : ℕ} {t : Turn N} {r : Call N × Phase}
    (h : s.call? i = some (t, r)) : s.turn = some t ∧ t.running[i]? = some r := by
  obtain ⟨u, hu, hr⟩ := Option.bind_eq_some_iff.mp h
  obtain ⟨r', hr', heq⟩ := Option.map_eq_some_iff.mp hr
  cases heq
  exact ⟨hu, hr'⟩

/-- A call is still to be executed after a call has gone on, if that is another one, its tool had
returned before, or its tool has not returned yet. -/
theorem Turn.Pending.set {t : Turn N} {c d : Call N} {i : ℕ} {phase phase' : Phase}
    (h : t.Pending c) (hi : t.running[i]? = some (d, phase))
    (hopen : c = d → phase.isOpen = true → phase'.isOpen = true) :
    Turn.Pending { t with running := t.running.set i (d, phase') } c := by
  rcases h with hbatch | ⟨phase₀, hphase₀, hrunning⟩
  · exact Or.inl hbatch
  · rcases Calls.mem_set_or_eq hi hrunning (d, phase') with heq | hmem
    · obtain ⟨hcd, rfl⟩ := Prod.mk.inj heq
      refine Or.inr ⟨phase', hopen hcd hphase₀, ?_⟩
      rw [hcd]
      exact Calls.mem_set_self hi _
    · exact Or.inr ⟨phase₀, hphase₀, hmem⟩

namespace AgentState.Held

variable {i : ℕ} {t : Turn N} {c : Call N}

theorem begin {parsed : List (Call N)} (h : s.Held env)
    (hG : Distinguishes env s (.begin parsed)) (hs : s.begin env parsed = some s') :
    s'.Held env := by
  rw [AgentState.begin] at hs
  split at hs
  · cases hs
  · cases hs
    refine ⟨⟨h.performs.executed, h.performs.served⟩, h.cache, ?_⟩
    intro t ht c hc hchanges
    cases ht
    have hretained := hG.1.mem_retainUnseen hc hchanges
    exact Or.inr (Or.inl (exists_mem_batches hG.2 hretained))

theorem next (h : s.Held env) (hs : s.next = some s') : s'.Held env := by
  rw [AgentState.next] at hs
  split at hs
  · cases hs
  · rename_i t hturn
    split at hs
    · rename_i hdone
      -- a call that is still to be executed is in a batch that has not started
      have hpending : ∀ c, t.Pending c → ∃ batch ∈ t.batches, c ∈ batch := by
        rintro c (hbatch | ⟨phase, hphase, hrunning⟩)
        · exact hbatch
        · have hphase' := all_eq_true.mp hdone _ hrunning
          cases phase with
          | done result => cases hphase
          | _ => cases hphase'
      split at hs
      · rename_i batch batches hbatches
        cases hs
        refine ⟨⟨h.performs.executed, h.performs.served⟩, h.cache, ?_⟩
        intro u hu c hc hchanges
        cases hu
        rcases h.turn t hturn c hc hchanges with hex | hpend
        · exact Or.inl hex
        · right
          obtain ⟨b, hb, hin⟩ := hpending c hpend
          rw [hbatches] at hb
          rcases mem_cons.mp hb with rfl | hb
          · exact Or.inr ⟨.waiting, rfl, mem_map.mpr ⟨c, hin, rfl⟩⟩
          · exact Or.inl ⟨b, hb, hin⟩
      · rename_i hbatches
        cases hs
        refine ⟨⟨?_, h.performs.served⟩, h.cache, nofun⟩
        intro u hu c hc hchanges
        rcases mem_cons.mp hu with rfl | hu
        · rcases h.turn u hturn c hc hchanges with hex | hpend
          · exact hex
          · obtain ⟨b, hb, -⟩ := hpending c hpend
            rw [hbatches] at hb
            cases hb
        · exact h.performs.executed u hu c hc hchanges
    · cases hs

/-- A call goes on without its tool, unless that has returned before or still has to. -/
theorem setPhase {phase phase' : Phase} (h : s.Held env) (hturn : s.turn = some t)
    (hi : t.running[i]? = some (c, phase))
    (hopen : env.changesState c = true → phase.isOpen = true → phase'.isOpen = true) :
    (s.setPhase t i c phase').Held env := by
  refine ⟨⟨h.performs.executed, h.performs.served⟩, h.cache, ?_⟩
  intro u hu d hd hchanges
  cases hu
  rcases h.turn t hturn d hd hchanges with hex | hpend
  · exact Or.inl hex
  · refine Or.inr (hpend.set hi ?_)
    rintro rfl
    exact hopen hchanges

theorem check (h : s.Held env) (hs : s.check env i = some s') : s'.Held env := by
  rw [AgentState.check] at hs
  split at hs
  · rename_i t c hcall
    obtain ⟨hturn, hi⟩ := exists_of_call? hcall
    split at hs
    · split at hs
      · rename_i e hget
        cases hs
        obtain ⟨hepoch, hreads⟩ := h.cache _ e (ToolResultCache.lookup_of_get hget)
        have hheld : (s.setPhase t i c (.done (.ok e.result))).Held env := by
          refine h.setPhase hturn hi ?_
          intro hchanges
          -- the result of a state-changing call is not cached
          rw [hreads c rfl] at hchanges
          cases hchanges
        refine ⟨⟨h.performs.executed, ?_⟩, h.cache, hheld.turn⟩
        intro r hr
        rcases mem_cons.mp hr with rfl | hr
        · exact hepoch
        · exact h.performs.served r hr
      · cases hs
        exact h.setPhase hturn hi (fun _ _ => rfl)
    · cases hs
  · cases hs

theorem toolReturns {outcome : Outcome} (h : s.Held env)
    (hG : Distinguishes env s (.toolReturns i outcome))
    (hs : s.toolReturns env i outcome = some s') : s'.Held env := by
  rw [AgentState.toolReturns] at hs
  split at hs
  · rename_i t c attempt start hcall
    obtain ⟨hturn, hi⟩ := exists_of_call? hcall
    have hGc := hG _ hcall
    cases hs
    refine ⟨⟨h.performs.executed, h.performs.served⟩, h.cache, ?_⟩
    intro u hu d hd hchanges
    cases hu
    dsimp only at hd hGc ⊢
    by_cases hdc : d = c
    · left
      rw [hdc] at hchanges ⊢
      rw [if_pos (hGc hchanges)]
      exact mem_cons_self
    · rcases h.turn t hturn d hd hchanges with hex | hpend
      · left
        split
        · exact mem_cons_of_mem _ hex
        · exact hex
      · exact Or.inr (hpend.set hi (fun heq => absurd heq hdc))
  · cases hs

theorem store (h : s.Held env) (hG : Distinguishes env s (.store i))
    (hs : s.store env i = some s') : s'.Held env := by
  rw [AgentState.store] at hs
  split at hs
  · rename_i t c sanitized epoch hcall
    obtain ⟨hturn, hi⟩ := exists_of_call? hcall
    have hGc := hG _ hcall
    simp only [StoresInOrder] at hGc
    cases hs
    have hheld : (s.setPhase t i c (.done (.ok sanitized))).Held env :=
      h.setPhase hturn hi (fun _ hopen => nomatch hopen)
    refine ⟨⟨h.performs.executed, h.performs.served⟩, ?_, hheld.turn⟩
    intro k e hk
    dsimp only at hk ⊢
    cases hchanges : env.changesState c with
    | true =>
      rw [hchanges, if_pos rfl] at hGc
      rw [if_pos hGc.1, ToolResultCache.invalidate_of_reaches hGc] at hk
      cases hk
    | false =>
      rw [hchanges, if_neg nofun] at hGc
      rw [if_neg nofun]
      split at hk
      · exact h.cache k e (ToolResultCache.lookup_invalidate hk).1
      · rename_i hread
        rcases ToolResultCache.lookup_put hk with ⟨rfl, rfl⟩ | hold
        · refine ⟨hGc.resolve_left hread, ?_⟩
          intro d hd
          rw [Call.key_injective hd]
          exact hchanges
        · exact h.cache k e hold
  · cases hs

end AgentState.Held

theorem AgentState.Held.step {a : ToolAction N} (h : s.Held env) (hG : Distinguishes env s a)
    (hs : toolStep env s a = some s') : s'.Held env := by
  cases a with
  | begin parsed => exact h.begin hG hs
  | next => exact h.next hs
  | check i => exact h.check hs
  | toolReturns i outcome => exact h.toolReturns hG hs
  | store i => exact h.store hG hs
  | wait d =>
    obtain rfl := Option.some.inj hs
    exact ⟨⟨h.performs.executed, h.performs.served⟩, h.cache, h.turn⟩

theorem held_init : (AgentState.init : AgentState N).Held env where
  performs := ⟨nofun, nofun⟩
  cache _ _ hk := nomatch hk
  turn _ ht := nomatch ht

/-- In a run that distinguishes the calls, state-changing calls are executed and no stale result is
served. -/
theorem performs_of_run {tr : List (AgentState N × ToolAction N)}
    (hrun : Run (toolStep env) .init tr s) (hG : Within (Distinguishes env) tr) :
    s.Performs env :=
  (hrun.invariant (I := fun s : AgentState N => s.Held env) hG held_init
    (fun _ _ _ h hGa hs => h.step hGa hs)).performs

/-! ## Examples -/

namespace Sample

/-- Arguments without numbers. -/
def noNumbers : NumberText Empty where
  read _ := none
  write n := nomatch n
  isToken_write n := nomatch n
  read_write n := nomatch n

/-- A call with string arguments. -/
def call (name : String) (fields : List (String × String))
    (h : (fields.map Prod.fst).Nodup) : Call Empty where
  name
  arguments := .object (fields.map fun f => (f.1, .string f.2))
  unique := by
    refine .object ?_ ?_
    · rw [map_map]
      exact h
    · intro f hf
      obtain ⟨g, -, rfl⟩ := mem_map.mp hf
      exact .string g.2

/-- A command for the shell tool. -/
def shell (command : String) : Call Empty := call "shell" [("command", command)] (by simp)

/-- The command of a shell call names a write action. -/
def commandWrites (c : Call Empty) : Bool :=
  match (getField c.arguments "command").bind asStr with
  | some command => writeActions.any fun a => contains command (" " ++ a ++ " ")
  | none => false

/-- The domains that are routed to the shell tool, and what changes state. -/
def chat : ToolEnv Empty where
  num := noNumbers
  resolve name :=
    if ["device", "agent", "rule", "message", "transform", "extension"].contains name then "shell"
    else name
  relationships _ := default
  maxToolCalls := 10
  toolConcurrencyLimit := 4
  sessionId := "chat"
  changesState c := isWriteAction c.arguments || commandWrites c

/-- A turn with one call that succeeds. -/
def turn (c : Call Empty) : List (ToolAction Empty) :=
  [.begin [c], .next, .check 0, .toolReturns 0 (.output []), .store 0, .next]

/-- A turn with one call whose result is cached. -/
def cachedTurn (c : Call Empty) : List (ToolAction Empty) :=
  [.begin [c], .next, .check 0, .next]

def listRules : Call Empty := call "rule" [("action", "list")] (by simp)

def getRule : Call Empty := call "rule" [("action", "get")] (by simp)

/-- A turn with two calls at the same time. -/
def bothTurn : List (ToolAction Empty) :=
  [.begin [listRules, getRule], .next, .check 0, .check 1, .toolReturns 1 (.output []),
    .toolReturns 0 (.output []), .store 0, .store 1, .next]

def listRulesShell : Call Empty := shell "heramind rule list"

def createRule : Call Empty := call "rule" [("action", "create"), ("name", "Hot")] (by simp)

def toggleLamp : Call Empty := shell "heramind device control lamp toggle"

/-- Two messages whose calls agree in the first 100 characters of their arguments. -/
def notify (pump : String) : Call Empty :=
  shell ("heramind message send --title Pumps --body 'The pump in the basement has stopped, please " ++
    "check pump " ++ pump ++ "'")

end Sample

open Tools.Sample in
/-- A rule is created, the rules are listed while one is read, and listed again, and the rule is
created anew. -/
theorem performs_of_run_rules : ∃ tr s, Run (toolStep chat) .init tr s ∧
    Within (Distinguishes chat) tr ∧ s.finished.length = 4 ∧ s.served = [(1, 1)] ∧ s.epoch = 2 ∧
    s.Performs chat := by
  obtain ⟨tr, s, hrun, hG, hfinished, hserved, hepoch⟩ := exists_run (toolStep chat) .init
    (turn createRule ++ bothTurn ++ cachedTurn listRules ++ turn createRule)
    (fun tr s => Within (Distinguishes chat) tr ∧ s.finished.length = 4 ∧
      s.served = [(1, 1)] ∧ s.epoch = 2)
    (by decide +kernel)
  exact ⟨tr, s, hrun, hG, hfinished, hserved, hepoch, performs_of_run hrun hG⟩

open Tools.Sample in
/-- The second of two messages is dropped, because it differs from the first behind the first 100
characters; a device command that is given again is served from the cache; and rules that were
listed through the shell are served after another one was created. -/
theorem calls_dropped :
    (∃ tr s, Run (toolStep chat) .init tr s ∧ chat.changesState (notify "2") = true ∧
      s.finishedKeys chat =
        [([(notify "1").key chat, (notify "2").key chat], [(notify "1").key chat])] ∧
      ¬ s.Performs chat) ∧
    (∃ tr s, Run (toolStep chat) .init tr s ∧ chat.changesState toggleLamp = true ∧
      s.finishedKeys chat =
        [([toggleLamp.key chat], []), ([toggleLamp.key chat], [toggleLamp.key chat])] ∧
      ¬ s.Performs chat) ∧
    ∃ tr s, Run (toolStep chat) .init tr s ∧ s.served = [(0, 1)] ∧ ¬ s.Performs chat := by
  refine ⟨?_, ?_, ?_⟩
  · have hchanges : chat.changesState (notify "2") = true := by decide +kernel
    have hne : (notify "2").key chat ≠ (notify "1").key chat := by decide +kernel
    obtain ⟨tr, s, hrun, hfinished⟩ := exists_run (toolStep chat) .init
      [.begin [notify "1", notify "2"], .next, .check 0, .toolReturns 0 (.output []), .store 0,
        .next]
      (fun _ s => s.finishedKeys chat =
          [([(notify "1").key chat, (notify "2").key chat], [(notify "1").key chat])])
      (by decide +kernel)
    refine ⟨tr, s, hrun, hchanges, hfinished, ?_⟩
    intro h
    have hmem := h.mem_executed (by rw [hfinished]; exact mem_singleton_self _)
      (mem_cons_of_mem _ (mem_singleton_self _)) hchanges
    exact hne (mem_singleton.mp hmem)
  · have hchanges : chat.changesState toggleLamp = true := by decide +kernel
    obtain ⟨tr, s, hrun, hfinished⟩ := exists_run (toolStep chat) .init
      (turn toggleLamp ++ [.wait second] ++ cachedTurn toggleLamp)
      (fun _ s => s.finishedKeys chat =
          [([toggleLamp.key chat], []), ([toggleLamp.key chat], [toggleLamp.key chat])])
      (by decide +kernel)
    refine ⟨tr, s, hrun, hchanges, hfinished, ?_⟩
    intro h
    have hmem := h.mem_executed (by rw [hfinished]; exact mem_cons_self)
      (mem_singleton_self _) hchanges
    cases hmem
  · obtain ⟨tr, s, hrun, hserved⟩ := exists_run (toolStep chat) .init
      (turn listRulesShell ++ turn createRule ++ cachedTurn listRulesShell)
      (fun tr s => s.served = [(0, 1)])
      (by decide +kernel)
    refine ⟨tr, s, hrun, hserved, ?_⟩
    intro h
    have heq := h.served (0, 1) (by rw [hserved]; exact mem_singleton_self _)
    cases heq

end HeraMind.Agent.Tools
