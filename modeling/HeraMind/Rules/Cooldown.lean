/-
# The cooldown of a rule

A firing claims the cooldown slot of its rule before it runs its actions; `execute_rule`
gives the slot back when all actions failed, by removing whatever the slot holds
(`crates/heramind-rules/src/engine.rs`).  First the slot on its own, with the list of the
claims made on it; then the claims of a run.
-/
import HeraMind.Rules.Control

namespace HeraMind.Rules

open List Option
open Transition

/-! ## Claims on a slot -/

/-- A claim on the cooldown slot: the task and the time of the firing, whether one of its
actions succeeded, and whether it was refunded. -/
structure Claim where
  task : ℕ
  instant : ℕ
  succeeded : Bool
  refunded : Bool
  deriving DecidableEq

/-- The newest claim of a task; the newest claims come first. -/
def newestOf (n : ℕ) (claims : List Claim) : Option Claim :=
  claims.find? fun k => k.task = n

/-- Change the newest claim of a task. -/
def updateNewest (n : ℕ) (f : Claim → Claim) : List Claim → List Claim
  | [] => []
  | k :: claims => if k.task = n then f k :: claims else k :: updateNewest n f claims

/-- An action of the firing succeeded. -/
def Claim.succeed (k : Claim) : Claim := { k with succeeded := true }

/-- The firing gave the slot back. -/
def Claim.refund (k : Claim) : Claim := { k with refunded := true }

@[simp] theorem succeed_task (k : Claim) : k.succeed.task = k.task := rfl

@[simp] theorem refund_task (k : Claim) : k.refund.task = k.task := rfl

@[simp] theorem newestOf_cons_self (n t : ℕ) (claims : List Claim) :
    newestOf n (⟨n, t, false, false⟩ :: claims) = some ⟨n, t, false, false⟩ := by
  simp [newestOf]

theorem newestOf_cons_ne {n m t : ℕ} (h : m ≠ n) (claims : List Claim) :
    newestOf m (⟨n, t, false, false⟩ :: claims) = newestOf m claims := by
  simp [newestOf, h.symm]

theorem newestOf_updateNewest_self {n : ℕ} {f : Claim → Claim} (hf : ∀ k, (f k).task = k.task)
    (claims : List Claim) :
    newestOf n (updateNewest n f claims) = (newestOf n claims).map f := by
  induction claims with
  | nil => rfl
  | cons k claims ih =>
    unfold newestOf at ih ⊢
    unfold updateNewest
    by_cases hk : k.task = n
    · simp [hk, hf]
    · simp [hk, ih]

theorem newestOf_updateNewest_ne {n m : ℕ} {f : Claim → Claim}
    (hf : ∀ k, (f k).task = k.task) (h : m ≠ n) (claims : List Claim) :
    newestOf m (updateNewest n f claims) = newestOf m claims := by
  induction claims with
  | nil => rfl
  | cons k claims ih =>
    unfold newestOf at ih ⊢
    unfold updateNewest
    by_cases hk : k.task = n
    · simp [hk, hf, h.symm]
    · by_cases hm : k.task = m
      · simp [hm, h]
      · simp [hk, hm, ih]

/-- The claims around the newest claim of a task. -/
theorem exists_append_of_newestOf {n : ℕ} {claims : List Claim} {k : Claim}
    (h : newestOf n claims = some k) (f : Claim → Claim) :
    ∃ newer older, claims = newer ++ k :: older ∧
      updateNewest n f claims = newer ++ f k :: older := by
  induction claims with
  | nil => cases h
  | cons c claims ih =>
    unfold newestOf at ih h
    by_cases hc : c.task = n
    · simp only [find?_cons, hc, decide_true, some.injEq] at h
      subst h
      exact ⟨[], claims, rfl, by simp [updateNewest, hc]⟩
    · simp only [find?_cons, hc, decide_false] at h
      obtain ⟨newer, older, rfl, hupdate⟩ := ih h
      exact ⟨c :: newer, older, rfl, by simp [updateNewest, hc, hupdate]⟩

/-! ## Claims that are spaced

The invariant of the slot.  A claim that was not refunded keeps every later claim at a
distance: either it still holds the slot, or its time is over. -/

/-- The claims on a slot with cooldown `c` are spaced. -/
structure Spaced (c now : ℕ) (slot : Option ℕ) (claims : List Claim) : Prop where
  past : ∀ k ∈ claims, k.instant ≤ now
  exclusive : ∀ k ∈ claims, k.succeeded = true → k.refunded = false
  apart : claims.Pairwise fun later earlier =>
    earlier.refunded = false → earlier.instant + c ≤ later.instant
  /-- The slot holds the claim, or its time is over. -/
  guarded : ∀ k ∈ claims, k.refunded = false →
    slot = some k.instant ∨ (∃ t, slot = some t ∧ k.instant + c ≤ t) ∨ k.instant + c ≤ now

namespace Spaced

variable {c now : ℕ} {slot : Option ℕ} {claims : List Claim}

theorem nil (c now : ℕ) (slot : Option ℕ) : Spaced c now slot [] where
  past := by simp
  exclusive := by simp
  apart := List.Pairwise.nil
  guarded := by simp

/-- Time passes. -/
theorem tick (h : Spaced c now slot claims) (d : ℕ) : Spaced c (now + d) slot claims where
  past := by
    intro k hk
    have hpast := h.past k hk
    omega
  exclusive := h.exclusive
  apart := h.apart
  guarded := by
    intro k hk hlive
    rcases h.guarded k hk hlive with hslot | hslot | hover
    · exact Or.inl hslot
    · exact Or.inr (Or.inl hslot)
    · refine Or.inr (Or.inr ?_)
      omega

/-- A slot that can be claimed holds no claim whose time is not over. -/
theorem over_of_free (h : Spaced c now slot claims)
    (hfree : ∀ last, slot = some last → c ≤ now - last) {k : Claim} (hk : k ∈ claims)
    (hlive : k.refunded = false) : k.instant + c ≤ now := by
  have hpast := h.past k hk
  rcases h.guarded k hk hlive with hslot | ⟨t, hslot, ht⟩ | hover
  · have hlast := hfree _ hslot
    omega
  · -- the slot holds a later claim, which is over itself
    have hlast := hfree t hslot
    omega
  · exact hover

/-- A new claim. -/
theorem claim (h : Spaced c now slot claims)
    (hfree : ∀ last, slot = some last → c ≤ now - last) (n : ℕ) :
    Spaced c now (some now) (⟨n, now, false, false⟩ :: claims) where
  past := by
    intro k hk
    rcases mem_cons.mp hk with rfl | hk
    · exact Nat.le_refl now
    · exact h.past k hk
  exclusive := by
    intro k hk hsucc
    rcases mem_cons.mp hk with rfl | hk
    · rfl
    · exact h.exclusive k hk hsucc
  apart := List.Pairwise.cons (fun k hk hlive => h.over_of_free hfree hk hlive) h.apart
  guarded := by
    intro k hk hlive
    rcases mem_cons.mp hk with rfl | hk
    · exact Or.inl rfl
    · exact Or.inr (Or.inr (h.over_of_free hfree hk hlive))

/-- An action of a firing that was not refunded succeeds. -/
theorem succeed (h : Spaced c now slot claims) {n : ℕ} {k₀ : Claim}
    (hnew : newestOf n claims = some k₀) (hlive : k₀.refunded = false) :
    Spaced c now slot (updateNewest n Claim.succeed claims) := by
  obtain ⟨newer, older, hclaims, hupdate⟩ := exists_append_of_newestOf hnew Claim.succeed
  have hk₀ : k₀ ∈ claims := by simp [hclaims]
  have hmem : ∀ k ∈ updateNewest n Claim.succeed claims, k = k₀.succeed ∨ k ∈ claims := by
    intro k hk
    rw [hupdate, mem_append, mem_cons] at hk
    rw [hclaims, mem_append, mem_cons]
    tauto
  refine ⟨?_, ?_, ?_, ?_⟩
  · intro k hk
    rcases hmem k hk with rfl | hk
    · exact h.past k₀ hk₀
    · exact h.past k hk
  · intro k hk hsucc
    rcases hmem k hk with rfl | hk
    · exact hlive
    · exact h.exclusive k hk hsucc
  · have hapart := h.apart
    rw [hclaims] at hapart
    rw [hupdate]
    simpa only [pairwise_append, pairwise_cons, mem_cons, Claim.succeed,
      forall_eq_or_imp] using hapart
  · intro k hk hk'
    rcases hmem k hk with rfl | hk
    · exact h.guarded k₀ hk₀ hlive
    · exact h.guarded k hk hk'

/-- A firing whose actions all failed gives back the slot, which still holds its own claim. -/
theorem refund (h : Spaced c now slot claims) {n : ℕ} {k₀ : Claim}
    (hnew : newestOf n claims = some k₀) (hlive : k₀.refunded = false)
    (hfailed : k₀.succeeded = false) (hown : slot = some k₀.instant) :
    Spaced c now none (updateNewest n Claim.refund claims) := by
  obtain ⟨newer, older, hclaims, hupdate⟩ := exists_append_of_newestOf hnew Claim.refund
  have hk₀ : k₀ ∈ claims := by simp [hclaims]
  have hpast₀ := h.past k₀ hk₀
  have hmem : ∀ k ∈ updateNewest n Claim.refund claims,
      k = k₀.refund ∨ k ∈ newer ∨ k ∈ older := by
    intro k hk
    rw [hupdate, mem_append, mem_cons] at hk
    tauto
  have hclaim : ∀ k, k ∈ newer ∨ k ∈ older → k ∈ claims := by
    intro k hk
    rw [hclaims, mem_append, mem_cons]
    tauto
  have hapart := h.apart
  rw [hclaims, pairwise_append, pairwise_cons] at hapart
  obtain ⟨hnewer, ⟨holder, hrest⟩, hbetween⟩ := hapart
  -- any other claim that was not refunded is over, since two claims cannot hold the slot
  have hover : ∀ k, k ∈ newer ∨ k ∈ older → k.refunded = false → k.instant + c ≤ now := by
    intro k hk hk'
    have hpast := h.past k (hclaim k hk)
    rcases h.guarded k (hclaim k hk) hk' with hslot | ⟨t, hslot, ht⟩ | hdone
    · have heq : k.instant = k₀.instant := by
        rw [hown, some.injEq] at hslot
        exact hslot.symm
      rcases hk with hk | hk
      · have hdist := hbetween k hk k₀ (mem_cons_self ..) hlive
        omega
      · have hdist := holder k hk hk'
        omega
    · rw [hown, some.injEq] at hslot
      omega
    · exact hdone
  refine ⟨?_, ?_, ?_, ?_⟩
  · intro k hk
    rcases hmem k hk with rfl | hk
    · exact hpast₀
    · exact h.past k (hclaim k hk)
  · intro k hk hsucc
    rcases hmem k hk with rfl | hk
    · rw [Claim.refund, hfailed] at hsucc
      cases hsucc
    · exact h.exclusive k (hclaim k hk) hsucc
  · rw [hupdate, pairwise_append, pairwise_cons]
    refine ⟨hnewer, ⟨holder, hrest⟩, ?_⟩
    intro later hlater earlier hearlier
    rcases mem_cons.mp hearlier with rfl | hearlier
    · intro hcontra
      cases hcontra
    · exact hbetween later hlater earlier (mem_cons_of_mem _ hearlier)
  · intro k hk hk'
    rcases hmem k hk with rfl | hk
    · cases hk'
    · exact Or.inr (Or.inr (hover k hk hk'))

/-- After a claim whose firing had a successful action there is none within the cooldown. -/
theorem pairwise_succeeded (h : Spaced c now slot claims) :
    claims.Pairwise fun later earlier =>
      earlier.succeeded = true → earlier.instant + c ≤ later.instant :=
  h.apart.imp_of_mem fun _ hearlier hapart hsucc =>
    hapart (h.exclusive _ hearlier hsucc)

end Spaced

/-! ## The claims of a run -/

variable {F : Type}

/-- What a section does to the claims on the slot of its rule. -/
inductive ClaimEvent : Type where
  | claimed
  | succeeded
  | refunded
  deriving DecidableEq

def Stage.claimEvent (w : World F) (choice : Choice) (id : RuleId) :
    Stage F → Option ClaimEvent
  | .claim rule => if (w.tryClaimCooldown id rule.cooldown).isSome then some .claimed else none
  | .actions _ _ (_ :: _) =>
    match choice.outcome with
    | .ok _ => some .succeeded
    | .error _ => none
  | .refund _ _ => some .refunded
  | _ => none

/-- What a section of task `n` does to the claims on the slot of rule `id`. -/
def claimEvent (id : RuleId) (s : Server F) (n : ℕ) (choice : Choice) : Option ClaimEvent :=
  match s.tasks[n]?.map Task.pc with
  | some (.firing _ i stage) => if i = id then stage.claimEvent s.world choice id else none
  | _ => none

def applyEvent (n now : ℕ) (claims : List Claim) : Option ClaimEvent → List Claim
  | some .claimed => ⟨n, now, false, false⟩ :: claims
  | some .succeeded => updateNewest n Claim.succeed claims
  | some .refunded => updateNewest n Claim.refund claims
  | none => claims

/-- The claims that the firings of rule `id` made on its cooldown slot, newest first. -/
def claims (id : RuleId) : List (Server F × Label F) → List Claim
  | [] => []
  | (s, .run n choice) :: tr =>
    applyEvent n s.world.now (claims id tr) (claimEvent id s n choice)
  | _ :: tr => claims id tr

/-- A firing gives back the slot only while the slot holds the claim of that firing. -/
def RefundsOwnClaim (id : RuleId) : List (Server F × Label F) → Prop
  | [] => True
  | (s, .run n choice) :: tr =>
    (claimEvent id s n choice = some .refunded →
      s.world.cooldowns.lookup id = (newestOf n (claims id tr)).map Claim.instant) ∧
    RefundsOwnClaim id tr
  | _ :: tr => RefundsOwnClaim id tr

instance decidableRefundsOwnClaim (id : RuleId) :
    (tr : List (Server F × Label F)) → Decidable (RefundsOwnClaim id tr)
  | [] => isTrue trivial
  | (_, .run _ _) :: tr =>
    have := decidableRefundsOwnClaim id tr
    inferInstanceAs (Decidable (_ ∧ _))
  | (_, .tick _) :: tr | (_, .provide _) :: tr | (_, .register _) :: tr | (_, .call _) :: tr =>
    decidableRefundsOwnClaim id tr

/-- The newest claim of a task that is between claiming the slot and being done with it. -/
def Stage.Holds (claim : Option Claim) : Stage F → Prop
  | .actions _ p _ | .settle _ p => ∃ k, claim = some k ∧ k.refunded = false ∧
      (k.succeeded = true → p.executed ≠ [])
  | .refund _ _ => ∃ k, claim = some k ∧ k.refunded = false ∧ k.succeeded = false
  | _ => True

/-- The claims on the slot of rule `id`, whose cooldown is `c`, and the firings in progress. -/
structure SlotInvariant (c : Duration) (id : RuleId) (tr : List (Server F × Label F))
    (s : Server F) : Prop where
  spaced : Spaced c s.world.now (s.world.cooldowns.lookup id) (claims id tr)
  cooldown : ∀ rule, s.world.rules.lookup id = some rule → rule.cooldown = c
  clones : ∀ (m : ℕ) (task : Task F) caller stage rule, s.tasks[m]? = some task →
    task.pc = .firing caller id stage → stage.rule = some rule → rule.cooldown = c
  holds : ∀ (m : ℕ) (task : Task F) caller stage, s.tasks[m]? = some task →
    task.pc = .firing caller id stage → stage.Holds (newestOf m (claims id tr))

section Step

variable [F64 F] {env : Env F} {n : ℕ} {choice : Choice} {w w' : World F} {caller : Caller}
  {id : RuleId} {stage : Stage F}

/-- A firing in progress keeps track of its own claim. -/
theorem holds_of_goes {cs : List Claim} {stage' : Stage F} (h : stage.Holds (newestOf n cs))
    (hgoes : Goes env choice w caller id stage stage') :
    stage'.Holds (newestOf n (applyEvent n w.now cs (stage.claimEvent w choice id))) := by
  cases hgoes with
  | claim hclaim =>
    simp only [Stage.claimEvent, hclaim, isSome_some, if_true, applyEvent]
    exact ⟨_, newestOf_cons_self _ _ _, rfl, by simp⟩
  | action =>
    obtain ⟨k, hk, hlive, hsucc⟩ := h
    cases houtcome : choice.outcome with
    | ok name =>
      simp only [Stage.claimEvent, houtcome, applyEvent]
      refine ⟨k.succeed, ?_, hlive, ?_⟩
      · rw [newestOf_updateNewest_self succeed_task, hk, map_some]
      · intro _
        simp [Progress.record]
    | error e =>
      simp only [Stage.claimEvent, houtcome, applyEvent]
      exact ⟨k, hk, hlive, hsucc⟩
  | executed hcaller => exact h
  | allFailed hfailed =>
    obtain ⟨k, hk, hlive, hsucc⟩ := h
    refine ⟨k, hk, hlive, ?_⟩
    cases hs : k.succeeded with
    | false => rfl
    | true => exact absurd hfailed (hsucc hs)
  | _ => trivial

/-- A section of a firing keeps the claims on the slot of its rule spaced. -/
theorem spaced_of_advance {c : Duration} {cs : List Claim} {pc : Pc F}
    (h : Spaced c w.now (w.cooldowns.lookup id) cs) (hholds : stage.Holds (newestOf n cs))
    (hrule : ∀ rule, stage.rule = some rule → rule.cooldown = c)
    (hown : stage.claimEvent w choice id = some .refunded →
      w.cooldowns.lookup id = (newestOf n cs).map Claim.instant)
    (hadv : stage.advance env choice w caller id = some (pc, w')) :
    Spaced c w'.now (w'.cooldowns.lookup id)
      (applyEvent n w.now cs (stage.claimEvent w choice id)) := by
  have hnow : w'.now = w.now := (environment_of_effect (effect_of_stage (n := n) hadv)).1
  have hcooldowns := cooldowns_of_firing (effect_of_stage (n := n) hadv)
  rw [hnow]
  cases stage with
  | claim rule =>
    cases hclaim : w.tryClaimCooldown id rule.cooldown with
    | none =>
      simp only [Stage.advance, hclaim, some.injEq, Prod.mk.injEq] at hadv
      obtain ⟨-, rfl⟩ := hadv
      have hevent : (Stage.claim rule).claimEvent w choice id = none := by
        simp [Stage.claimEvent, hclaim]
      rw [hevent]
      exact h
    | some w₁ =>
      simp only [Stage.advance, hclaim, some.injEq, Prod.mk.injEq] at hadv
      obtain ⟨-, rfl⟩ := hadv
      obtain ⟨rfl, hfree⟩ := tryClaimCooldown_eq_some.mp hclaim
      simp only [Stage.claimEvent, hclaim, isSome_some, if_true, applyEvent]
      rw [hrule rule rfl] at hfree
      have hslot : (w.cooldowns.insert id w.now).lookup id = some w.now := AList.lookup_insert _
      show Spaced c w.now ((w.cooldowns.insert id w.now).lookup id) _
      rw [hslot]
      exact h.claim hfree n
  | refund rule p =>
    -- the hypothesis on refunds enters here and nowhere else
    obtain ⟨k, hk, hlive, hfailed⟩ := hholds
    have hslot := hown rfl
    rw [hk, map_some] at hslot
    cases hadv
    show Spaced c w.now ((w.cooldowns.erase id).lookup id) (updateNewest n Claim.refund cs)
    rw [AList.lookup_erase]
    exact h.refund hk hlive hfailed hslot
  | actions rule p todo =>
    have hworld : w' = w := by
      cases todo with
      | nil => cases caller <;> cases hadv <;> rfl
      | cons action todo =>
        cases hadv
        rfl
    subst hworld
    obtain ⟨k, hk, hlive, -⟩ := hholds
    cases todo with
    | nil => exact h
    | cons action todo =>
      cases houtcome : choice.outcome with
      | ok name =>
        simp only [Stage.claimEvent, houtcome, applyEvent]
        exact h.succeed hk hlive
      | error e => simpa only [Stage.claimEvent, houtcome, applyEvent] using h
  | _ =>
    rcases hcooldowns with ⟨rule, hstage, -⟩ | ⟨rule, p, hstage, -⟩ | hsame
    · cases hstage
    · cases hstage
    · rw [hsame]
      exact h

end Step

/-! ## The slot in a run -/

section Runs

variable {c : Duration} {id : RuleId} {tr : List (Server F × Label F)} {s s' : Server F}

variable {task : Task F}

theorem claimEvent_of_firing {n : ℕ} {caller : Caller} {stage : Stage F}
    (hn : s.tasks[n]? = some task) (hpc : task.pc = .firing caller id stage)
    (choice : Choice) : claimEvent id s n choice = stage.claimEvent s.world choice id := by
  simp [claimEvent, hn, hpc]

theorem claimEvent_eq_none {n : ℕ} (hn : s.tasks[n]? = some task)
    (hpc : ∀ caller stage, task.pc ≠ .firing caller id stage) (choice : Choice) :
    claimEvent id s n choice = none := by
  unfold claimEvent
  rw [hn, map_some]
  split
  · rename_i caller i stage heq
    rw [if_neg]
    rintro rfl
    exact hpc caller stage (some.inj heq)
  · rfl

/-- A change of the runtime state keeps the cooldown of the rule. -/
theorem cooldown_of_stateless {rules rules' : RuleMap F}
    (h : (rules'.lookup id).map CompiledRule.stateless =
      (rules.lookup id).map CompiledRule.stateless)
    (hold : ∀ rule, rules.lookup id = some rule → rule.cooldown = c) :
    ∀ rule, rules'.lookup id = some rule → rule.cooldown = c := by
  intro rule hrule
  rw [hrule, map_some, eq_comm, map_eq_some_iff] at h
  obtain ⟨old, hlookup, heq⟩ := h
  have hcooldown : old.stateless.cooldown = rule.stateless.cooldown := by rw [heq]
  exact hcooldown.symm.trans (hold old hlookup)

/-- The other tasks keep their newest claim. -/
theorem newestOf_applyEvent_ne {n m : ℕ} (h : m ≠ n) (now : ℕ) (cs : List Claim)
    (event : Option ClaimEvent) : newestOf m (applyEvent n now cs event) = newestOf m cs := by
  cases event with
  | none => rfl
  | some e =>
    cases e with
    | claimed => exact newestOf_cons_ne h cs
    | succeeded => exact newestOf_updateNewest_ne succeed_task h cs
    | refunded => exact newestOf_updateNewest_ne refund_task h cs

/-- A section of a task that does not fire the rule. -/
theorem SlotInvariant.other {n : ℕ} {choice : Choice} {pc : Pc F}
    {w : World F} (h : SlotInvariant c id tr s) (hn : s.tasks[n]? = some task)
    (hpc : ∀ caller stage, task.pc ≠ .firing caller id stage)
    (hpc' : ∀ caller stage, pc = .firing caller id stage → stage = .read)
    (hnow : w.now = s.world.now)
    (hslot : w.cooldowns.lookup id = s.world.cooldowns.lookup id)
    (hrules : (w.rules.lookup id).map CompiledRule.stateless =
      (s.world.rules.lookup id).map CompiledRule.stateless) :
    SlotInvariant c id ((s, .run n choice) :: tr)
      { world := w, tasks := s.tasks.set n { task with pc := pc } } := by
  have hclaims : claims id ((s, .run n choice) :: tr) = claims id tr := by
    rw [claims, claimEvent_eq_none hn hpc]
    rfl
  refine ⟨?_, ?_, ?_, ?_⟩
  · rw [hclaims]
    show Spaced c w.now (w.cooldowns.lookup id) (claims id tr)
    rw [hnow, hslot]
    exact h.spaced
  · intro rule hrule
    exact cooldown_of_stateless hrules h.cooldown rule hrule
  · intro m t caller' stage' rule ht hpc'' hrule
    rcases (getElem?_setTask hn).mp ht with ⟨-, rfl⟩ | ⟨-, ht⟩
    · rw [hpc' caller' stage' hpc''] at hrule
      cases hrule
    · exact h.clones m t caller' stage' rule ht hpc'' hrule
  · intro m t caller' stage' ht hpc''
    rw [hclaims]
    rcases (getElem?_setTask hn).mp ht with ⟨-, rfl⟩ | ⟨-, ht⟩
    · rw [hpc' caller' stage' hpc'']
      trivial
    · exact h.holds m t caller' stage' ht hpc''

variable [F64 F] {env : Env F}

/-- A section of a firing of the rule. -/
theorem SlotInvariant.firing {n : ℕ} {choice : Choice} {caller : Caller}
    {stage : Stage F} {pc : Pc F} {w : World F} (h : SlotInvariant c id tr s)
    (hown : RefundsOwnClaim id ((s, .run n choice) :: tr)) (hn : s.tasks[n]? = some task)
    (hpc : task.pc = .firing caller id stage)
    (hadv : stage.advance env choice s.world caller id = some (pc, w)) :
    SlotInvariant c id ((s, .run n choice) :: tr)
      { world := w, tasks := s.tasks.set n { task with pc := pc } } := by
  have hevent := claimEvent_of_firing hn hpc choice
  have hclaims : claims id ((s, .run n choice) :: tr) =
      applyEvent n s.world.now (claims id tr) (stage.claimEvent s.world choice id) := by
    rw [claims, hevent]
  have hholds := h.holds n task caller stage hn hpc
  have hstateless := stateless_of_firing (effect_of_stage (n := n) hadv)
  refine ⟨?_, ?_, ?_, ?_⟩
  · rw [hclaims]
    refine spaced_of_advance h.spaced hholds ?_ ?_ hadv
    · intro rule hrule
      exact h.clones n task caller stage rule hn hpc hrule
    · intro hrefund
      exact hown.1 (hevent.trans hrefund)
  · intro rule hrule
    exact cooldown_of_stateless (hstateless id) h.cooldown rule hrule
  · intro m t caller' stage' rule ht hpc' hrule
    rcases (getElem?_setTask hn).mp ht with ⟨-, rfl⟩ | ⟨-, ht⟩
    · simp only at hpc'
      subst hpc'
      obtain ⟨rfl, -, hclone | hread⟩ := rule_of_advance hadv hrule
      · exact h.clones n task _ stage rule hn hpc hclone
      · exact h.cooldown rule hread
    · exact h.clones m t caller' stage' rule ht hpc' hrule
  · intro m t caller' stage' ht hpc'
    rw [hclaims]
    rcases (getElem?_setTask hn).mp ht with ⟨rfl, rfl⟩ | ⟨hmn, ht⟩
    · simp only at hpc'
      subst hpc'
      rcases goes_or_read hadv with ⟨-, -, hgoes⟩ | rfl
      · exact holds_of_goes hholds hgoes
      · trivial
    · rw [newestOf_applyEvent_ne hmn]
      exact h.holds m t caller' stage' ht hpc'

/-- Every step of a run that only fires rules keeps the invariant. -/
theorem SlotInvariant.step {a : Label F} (h : SlotInvariant c id tr s)
    (hserves : s.Serves fun call => call.fires = true)
    (hcall : Calls (fun _ call => call.fires = true) s a)
    (hown : RefundsOwnClaim id ((s, a) :: tr)) (hs : step env s a = some s') :
    SlotInvariant c id ((s, a) :: tr) s' := by
  cases a with
  | tick d =>
    cases hs
    exact ⟨h.spaced.tick d, h.cooldown, h.clones, h.holds⟩
  | provide values | register devices =>
    cases hs
    exact ⟨h.spaced, h.cooldown, h.clones, h.holds⟩
  | call call =>
    cases hs
    refine ⟨h.spaced, h.cooldown, ?_, ?_⟩
    · intro m t caller stage rule ht hpc hrule
      rcases getElem?_addTask.mp ht with ht | ⟨-, rfl⟩
      · exact h.clones m t caller stage rule ht hpc hrule
      · cases call <;> cases hpc
        cases hrule
    · intro m t caller stage ht hpc
      rcases getElem?_addTask.mp ht with ht | ⟨-, rfl⟩
      · exact h.holds m t caller stage ht hpc
      · cases call <;> cases hpc
        trivial
  | run n choice =>
    obtain ⟨task, pc, w, hn, hadv, rfl⟩ := step_run hs
    obtain ⟨hfires, hof⟩ := hserves task (mem_of_getElem? hn)
    rcases pc_of_fires hfires hof with ⟨source, hpc⟩ | ⟨caller, i, stage, hpc⟩ | ⟨reply, hpc⟩
    · rw [hpc] at hadv
      cases hadv
      refine h.other hn (by simp [hpc]) ?_ rfl rfl rfl
      intro caller stage hnext
      exact firing_of_evaluateNext hnext
    · rw [hpc] at hadv
      by_cases hi : i = id
      · subst hi
        exact h.firing hown hn hpc hadv
      · -- the firing of another rule leaves this slot alone
        have heffect := effect_of_stage (n := n) hadv
        refine h.other hn ?_ ?_ (environment_of_effect heffect).1 ?_ (stateless_of_firing heffect id)
        · intro caller' stage' hpc'
          rw [hpc] at hpc'
          cases hpc'
          exact hi rfl
        · intro caller' stage' hpc'
          subst hpc'
          rcases goes_or_read hadv with ⟨-, hid, -⟩ | hread
          · exact absurd hid.symm hi
          · exact hread
        · rcases cooldowns_of_firing heffect with ⟨rule, -, hclaim⟩ | ⟨rule, p, -, hsame⟩ | hsame
          · obtain ⟨rfl, -⟩ := tryClaimCooldown_eq_some.mp hclaim
            exact AList.lookup_insert_ne (fun hid => hi hid.symm)
          · rw [hsame]
            exact AList.lookup_erase_ne (fun hid => hi hid.symm)
          · rw [hsame]
    · rw [hpc] at hadv
      cases hadv

/-- However the firings of a rule overlap, if a firing gives back the cooldown slot only
while the slot still holds its own claim, then after a firing that claimed the slot and
had a successful action no other firing claims it within the cooldown. -/
theorem claims_apart_of_refundsOwnClaim {w : World F}
    (hrun : Run (HeraMind.Rules.step env) (Server.idle w) tr s)
    (hcooldown : ∀ rule, w.rules.lookup id = some rule → rule.cooldown = c)
    (hcalls : Within (Calls fun _ call => call.fires = true) tr)
    (hown : RefundsOwnClaim id tr) :
    (claims id tr).Pairwise fun later earlier =>
      earlier.succeeded = true → earlier.instant + c ≤ later.instant := by
  have hinv : (s.Serves fun call => call.fires = true) ∧
      (RefundsOwnClaim id tr → SlotInvariant c id tr s) := by
    refine hrun.traceInvariant
      (I := fun tr s => (s.Serves fun call => call.fires = true) ∧
        (RefundsOwnClaim id tr → SlotInvariant c id tr s)) hcalls
      ⟨serves_idle _ w, fun _ => ⟨Spaced.nil .., hcooldown, ?_, ?_⟩⟩ ?_
    · intro m task caller stage rule hm
      simp [Server.idle] at hm
    · intro m task caller stage hm
      simp [Server.idle] at hm
    · rintro tr s a s' - ⟨hserves, hI⟩ hcall hs
      refine ⟨serves_step hserves hcall hs, ?_⟩
      intro hown
      refine (hI ?_).step hserves hcall hown hs
      cases a with
      | run n choice => exact hown.2
      | _ => exact hown
  exact (hinv.2 hown).spaced.pairwise_succeeded

theorem claims_apart_of_refundsOwnClaim_retried :
    ∃ tr s, Run (HeraMind.Rules.step Sample.env) (Server.idle (Sample.loaded Sample.rule)) tr s ∧
      claims Sample.id tr = [⟨1, 5, true, false⟩, ⟨0, 0, false, true⟩] ∧
      (claims Sample.id tr).Pairwise fun later earlier =>
        earlier.succeeded = true → earlier.instant + 10 ≤ later.instant := by
  obtain ⟨tr, s, hrun, hcalls, hown, hclaims⟩ := exists_run (HeraMind.Rules.step Sample.env)
    (Server.idle (Sample.loaded Sample.rule))
    (.call (.executeRule Sample.id) :: Sample.runs 0 4 ++
      [Sample.runFailing 0, .tick 5] ++ Sample.runs 0 3 ++
      .call (.executeRule Sample.id) :: Sample.runs 1 10)
    (fun tr s => Within (Calls fun _ call => call.fires = true) tr ∧
      RefundsOwnClaim Sample.id tr ∧
      claims Sample.id tr = [⟨1, 5, true, false⟩, ⟨0, 0, false, true⟩]) (by decide +kernel)
  refine ⟨tr, s, hrun, hclaims, claims_apart_of_refundsOwnClaim hrun ?_ hcalls hown⟩
  intro rule hrule
  have hsame : some Sample.rule = some rule := hrule
  rw [← some.inj hsame]
  rfl

/-- The first execution claims the slot and is slow; the second claims it after the
cooldown and succeeds; the first fails and gives back the slot of the second; the third
claims it at the same time. -/
theorem refund_releases_later_claim :
    ∃ tr s, Run (HeraMind.Rules.step Sample.env) (Server.idle (Sample.loaded Sample.rule)) tr s ∧
      (∀ rule, (Sample.loaded Sample.rule).rules.lookup Sample.id = some rule →
        rule.cooldown = 10) ∧
      Within (Calls fun _ call => call.fires = true) tr ∧
      ¬ (claims Sample.id tr).Pairwise fun later earlier =>
        earlier.succeeded = true → earlier.instant + 10 ≤ later.instant := by
  obtain ⟨tr, s, hrun, hcalls, hclaims⟩ := exists_run (HeraMind.Rules.step Sample.env)
    (Server.idle (Sample.loaded Sample.rule))
    (.call (.executeRule Sample.id) :: Sample.runs 0 4 ++
      .tick 10 :: .call (.executeRule Sample.id) :: Sample.runs 1 10 ++
      Sample.runFailing 0 :: Sample.runs 0 3 ++
      .call (.executeRule Sample.id) :: Sample.runs 2 4)
    (fun tr s => Within (Calls fun _ call => call.fires = true) tr ∧
      claims Sample.id tr = [⟨2, 10, false, false⟩, ⟨1, 10, true, false⟩, ⟨0, 0, false, true⟩])
    (by decide +kernel)
  refine ⟨tr, s, hrun, ?_, hcalls, ?_⟩
  · intro rule hrule
    have hsame : some Sample.rule = some rule := hrule
    rw [← some.inj hsame]
    rfl
  · rw [hclaims]
    decide

end Runs

end HeraMind.Rules
