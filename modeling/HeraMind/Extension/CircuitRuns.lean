/-
# Runs of a circuit breaker

A breaker (`crates/heramind-core/src/extension/safety.rs`) sees requests that ask to be admitted
and the results of those that were.  A result may be late: when it arrives the breaker may be in
another state than the one that admitted the request.  The breaker is run here next to the
requests it admitted, each with the state it was admitted in, at times that do not decrease.
-/
import HeraMind.Extension.Safety

namespace HeraMind.Safety

open List
open Transition

/-- `ExtensionCircuitBreaker::new`, at a time in seconds. -/
def CircuitBreaker.new (wall failureThreshold successThreshold cooldownSecs : ℕ) :
    CircuitBreaker where
  state := .closed
  failureCount := 0
  successCount := 0
  lastStateChange := wall
  failureThreshold := failureThreshold
  successThreshold := successThreshold
  cooldownSecs := cooldownSecs

namespace Circuit

/-- What happens to a breaker.  Requests are numbered in the order they were admitted. -/
inductive Event : Type where
  | allowRequest
  | recordSuccess (request : ℕ)
  | recordFailure (request : ℕ)
  deriving DecidableEq

/-- An event with the time in seconds the breaker reads for it. -/
abbrev Timed : Type := ℕ × Event

/-- What the event makes of the breaker. -/
def Event.applyTo (b : CircuitBreaker) (wall : ℕ) : Event → CircuitBreaker
  | .allowRequest => (b.allowRequest wall).2
  | .recordSuccess _ => b.recordSuccess wall
  | .recordFailure _ => b.recordFailure wall

/-- A breaker with the requests it admitted: the state a request was admitted in, until its
result is recorded. -/
structure Watched where
  breaker : CircuitBreaker
  wall : ℕ
  requests : List (Option CircuitState)

namespace Watched

def new (b : CircuitBreaker) (wall : ℕ) : Watched := ⟨b, wall, []⟩

/-- The requests after an event; a result is that of a request that waits for one. -/
def requestsAfter (s : Watched) (wall : ℕ) : Event → Option (List (Option CircuitState))
  | .allowRequest =>
    if (s.breaker.allowRequest wall).1 then
      some (s.requests ++ [some (s.breaker.allowRequest wall).2.state])
    else some s.requests
  | .recordSuccess r | .recordFailure r =>
    if (s.requests[r]?.join).isSome then some (s.requests.set r none) else none

/-- Time does not go back. -/
def step (s : Watched) (e : Timed) : Option Watched :=
  if s.wall ≤ e.1 then
    (s.requestsAfter e.1 e.2).map fun requests => ⟨e.2.applyTo s.breaker e.1, e.1, requests⟩
  else none

end Watched

/-! ## The law -/

/-- The breaker opens at the event. -/
def Opens (e : Watched × Timed) : Prop :=
  e.1.breaker.state ≠ .open ∧ (e.2.2.applyTo e.1.breaker e.2.1).state = .open

/-- The breaker closes at the event. -/
def Closes (e : Watched × Timed) : Prop :=
  e.1.breaker.state ≠ .closed ∧ (e.2.2.applyTo e.1.breaker e.2.1).state = .closed

/-- `allow_request` returns true. -/
def Admits (e : Watched × Timed) : Prop :=
  e.2.2 = .allowRequest ∧ (e.1.breaker.allowRequest e.2.1).1

def isFailure : Event → Bool
  | .recordFailure _ => true
  | _ => false

/-- The success of a request that was admitted in the half-open state. -/
def isEarned (e : Watched × Timed) : Bool :=
  match e.2.2 with
  | .recordSuccess r => e.1.requests[r]? == some (some .halfOpen)
  | _ => false

/-- The successes of requests admitted in the half-open state since the last failure. -/
def earned (tr : List (Watched × Timed)) : ℕ :=
  (tr.takeWhile fun e => !isFailure e.2.2).countP isEarned

instance : DecidablePred Opens := fun e => by unfold Opens; infer_instance
instance : DecidablePred Admits := fun e => by unfold Admits; infer_instance

/-- After the breaker opened no request is admitted before the cooldown is over. -/
def CoolsDown (tr : List (Watched × Timed)) : Prop :=
  tr.Pairwise fun e o => Admits e → Opens o → o.2.1 + o.1.breaker.cooldownSecs ≤ e.2.1

/-- The breaker closes only after enough successes without a failure between them. -/
def Recovers (tr : List (Watched × Timed)) : Prop :=
  ∀ e pre, e :: pre <:+ tr → Closes e → e.1.breaker.successThreshold ≤ earned (e :: pre)

/-- A success arrives while the breaker is closed, or while it is half-open and for a request
that was admitted in the half-open state. -/
def Timely (s : Watched) (e : Timed) : Prop :=
  ∀ r, e.2 = .recordSuccess r → s.breaker.state ≠ .closed →
    s.breaker.state = .halfOpen ∧ s.requests[r]? = some (some .halfOpen)

/-! ## What one event does -/

section Events

variable {b : CircuitBreaker} {wall : ℕ} {e : Event}

theorem cooldownSecs_applyTo : (e.applyTo b wall).cooldownSecs = b.cooldownSecs := by
  cases e with
  | allowRequest =>
    simp only [Event.applyTo, CircuitBreaker.allowRequest]
    repeat' split
    all_goals rfl
  | recordSuccess r =>
    simp only [Event.applyTo, CircuitBreaker.recordSuccess]
    repeat' split
    all_goals rfl
  | recordFailure r =>
    simp only [Event.applyTo, CircuitBreaker.recordFailure]
    repeat' split
    all_goals rfl

/-- A breaker that was not open is opened by a failure, and notes the time. -/
theorem applyTo_of_opens (hs : b.state ≠ .open) (h : (e.applyTo b wall).state = .open) :
    (e.applyTo b wall).lastStateChange = wall := by
  cases e with
  | allowRequest =>
    cases hb : b.state <;> simp_all [Event.applyTo, CircuitBreaker.allowRequest]
  | recordSuccess r =>
    cases hb : b.state <;> simp only [Event.applyTo, CircuitBreaker.recordSuccess, hb] at h hs ⊢
    · cases h
    · exact absurd rfl hs
    · split at h <;> cases h
  | recordFailure r =>
    cases hb : b.state <;> simp only [Event.applyTo, CircuitBreaker.recordFailure, hb] at h hs ⊢
    · split
      · rfl
      · rename_i hlt
        rw [if_neg hlt] at h
        cases h
    · exact absurd rfl hs
    · rfl

/-- An open breaker stays as it is until the cooldown is over, unless a success arrives. -/
theorem applyTo_of_open (wall : ℕ) (hs : b.state = .open) (hsuccess : ∀ r, e ≠ .recordSuccess r) :
    ((e.applyTo b wall).state = .open ∧
      (e.applyTo b wall).lastStateChange = b.lastStateChange ∧
      (e = .allowRequest → (b.allowRequest wall).1 = false)) ∨
    (b.cooldownSecs ≤ wall - b.lastStateChange ∧ e = .allowRequest ∧
      (e.applyTo b wall).state = .halfOpen ∧ (e.applyTo b wall).successCount = 0) := by
  cases e with
  | allowRequest =>
    simp only [Event.applyTo, CircuitBreaker.allowRequest, hs]
    by_cases hcool : b.cooldownSecs ≤ wall - b.lastStateChange
    · rw [if_pos hcool]
      exact Or.inr ⟨hcool, by simp [CircuitBreaker.setState]⟩
    · rw [if_neg hcool]
      exact Or.inl (by simp [hs])
  | recordSuccess r => exact absurd rfl (hsuccess r)
  | recordFailure r =>
    simp only [Event.applyTo, CircuitBreaker.recordFailure, hs]
    exact Or.inl (by simp)

theorem incremented_le (n : ℕ) : CircuitBreaker.incremented n ≤ n + 1 := Nat.mod_le _ _

end Events

section Steps

variable {s s' : Watched} {e : Timed} {tr : List (Watched × Timed)}

theorem step_eq_some (h : s.step e = some s') :
    s.wall ≤ e.1 ∧ s'.breaker = e.2.applyTo s.breaker e.1 ∧ s'.wall = e.1 := by
  unfold Watched.step at h
  split at h
  · rename_i hle
    obtain ⟨requests, -, rfl⟩ := Option.map_eq_some_iff.mp h
    exact ⟨hle, rfl, rfl⟩
  · cases h

theorem earned_cons_of_not_failure (h : isFailure e.2 = false) :
    earned ((s, e) :: tr) = earned tr + if isEarned (s, e) then 1 else 0 := by
  simp [earned, h, countP_cons]

/-- What the law needs to know of the past. -/
structure Inv (tr : List (Watched × Timed)) (s : Watched) : Prop where
  coolsDown : CoolsDown tr
  recovers : Recovers tr
  /-- A breaker that opened is still open since then, or its cooldown is over. -/
  opened : ∀ o ∈ tr, Opens o → o.2.1 ≤ s.wall ∧
    o.1.breaker.cooldownSecs = s.breaker.cooldownSecs ∧
    (s.breaker.state = .open ∧ s.breaker.lastStateChange = o.2.1 ∨
      o.2.1 + s.breaker.cooldownSecs ≤ s.wall)
  counts : s.breaker.state = .halfOpen → s.breaker.successCount ≤ earned tr

/-- The successes a half-open breaker counts are earned. -/
theorem Inv.counts_step (h : Inv tr s) (hG : Timely s e)
    (hs : (e.2.applyTo s.breaker e.1).state = .halfOpen) :
    (e.2.applyTo s.breaker e.1).successCount ≤ earned ((s, e) :: tr) := by
  obtain ⟨wall, e⟩ := e
  cases e with
  | allowRequest =>
    rw [earned_cons_of_not_failure rfl]
    cases hb : s.breaker.state <;>
      simp only [Event.applyTo, CircuitBreaker.allowRequest, hb] at hs ⊢
    · exact absurd hs (by simp)
    · split at hs
      · rename_i hcool
        rw [if_pos hcool]
        exact Nat.zero_le _
      · exact absurd hs (by simp [hb])
    · exact Nat.le_add_right_of_le (h.counts hb)
  | recordSuccess r =>
    rw [earned_cons_of_not_failure rfl]
    by_cases hclosed : s.breaker.state = .closed
    · simp [Event.applyTo, CircuitBreaker.recordSuccess, hclosed] at hs
    · obtain ⟨hhalf, hadmitted⟩ := hG r rfl hclosed
      have hearned : isEarned (s, wall, .recordSuccess r) = true := by
        simp [isEarned, hadmitted]
      have hcount := h.counts hhalf
      have hle := incremented_le s.breaker.successCount
      rw [hearned, if_pos rfl]
      simp only [Event.applyTo, CircuitBreaker.recordSuccess, hhalf] at hs ⊢
      split at hs
      · cases hs
      · rename_i hlt
        rw [if_neg hlt]
        exact Nat.le_trans hle (Nat.add_le_add_right hcount 1)
  | recordFailure r =>
    cases hb : s.breaker.state <;> simp only [Event.applyTo, CircuitBreaker.recordFailure, hb] at hs
    · split at hs
      · cases hs
      · exact absurd hs (by simp)
    · exact absurd hs (by simp)
    · cases hs

/-- A half-open breaker closes when it counted enough successes. -/
theorem Inv.closes_step (h : Inv tr s) (hG : Timely s e) (hcloses : Closes (s, e)) :
    s.breaker.successThreshold ≤ earned ((s, e) :: tr) := by
  obtain ⟨hs, hafter⟩ := hcloses
  obtain ⟨wall, e⟩ := e
  cases e with
  | allowRequest =>
    cases hb : s.breaker.state <;>
      simp only [Event.applyTo, CircuitBreaker.allowRequest, hb] at hafter
    · exact absurd hb hs
    · split at hafter
      · cases hafter
      · exact absurd hafter (by simp [hb])
    · exact absurd hafter (by simp)
  | recordSuccess r =>
    obtain ⟨hhalf, hadmitted⟩ := hG r rfl hs
    have hearned : isEarned (s, wall, .recordSuccess r) = true := by
      simp [isEarned, hadmitted]
    have hcount := h.counts hhalf
    have hle := incremented_le s.breaker.successCount
    rw [earned_cons_of_not_failure rfl, hearned, if_pos rfl]
    simp only [Event.applyTo, CircuitBreaker.recordSuccess, hhalf] at hafter
    split at hafter
    · rename_i hreached
      omega
    · exact absurd hafter (by simp)
  | recordFailure r =>
    cases hb : s.breaker.state <;>
      simp only [Event.applyTo, CircuitBreaker.recordFailure, hb] at hafter
    · exact absurd hb hs
    · exact absurd hafter (by simp)
    · cases hafter

theorem Inv.step (h : Inv tr s) (hG : Timely s e) (hs : s.step e = some s') :
    Inv ((s, e) :: tr) s' := by
  obtain ⟨hle, hbreaker, hwall⟩ := step_eq_some hs
  have hcool : s'.breaker.cooldownSecs = s.breaker.cooldownSecs := by
    rw [hbreaker, cooldownSecs_applyTo]
  have hsuccess : s.breaker.state = .open → ∀ r, e.2 ≠ .recordSuccess r := by
    intro hopen r hr
    obtain ⟨hhalf, -⟩ := hG r hr (by simp [hopen])
    rw [hopen] at hhalf
    cases hhalf
  refine ⟨pairwise_cons.mpr ⟨?_, h.coolsDown⟩, ?_, ?_, ?_⟩
  · -- an admitted request, after a breaker opened
    intro o ho hadmits hopens
    show o.2.1 + o.1.breaker.cooldownSecs ≤ e.1
    obtain ⟨hpast, hsecs, ⟨hopen, hlast⟩ | hover⟩ := h.opened o ho hopens
    · obtain ⟨-, -, hrefused⟩ | ⟨hcooled, -⟩ := applyTo_of_open e.1 hopen (hsuccess hopen)
      · have hadmitted : (s.breaker.allowRequest e.1).1 = true := hadmits.2
        rw [hrefused hadmits.1] at hadmitted
        exact absurd hadmitted Bool.false_ne_true
      · omega
    · omega
  · -- the breaker closes now, or closed before
    intro e' pre hsuffix hcloses
    rcases suffix_cons_iff.mp hsuffix with heq | hbefore
    · cases heq
      exact h.closes_step hG hcloses
    · exact h.recovers e' pre hbefore hcloses
  · intro o ho hopens
    rw [hwall, hcool, hbreaker]
    rcases mem_cons.mp ho with rfl | ho
    · exact ⟨Nat.le_refl _, rfl, Or.inl ⟨hopens.2, applyTo_of_opens hopens.1 hopens.2⟩⟩
    · obtain ⟨hpast, hsecs, ⟨hopen, hlast⟩ | hover⟩ := h.opened o ho hopens
      · refine ⟨Nat.le_trans hpast hle, hsecs, ?_⟩
        obtain ⟨hstays, hsame, -⟩ | ⟨hcooled, -⟩ :=
          applyTo_of_open e.1 hopen (hsuccess hopen)
        · exact Or.inl ⟨hstays, hsame.trans hlast⟩
        · exact Or.inr (by omega)
      · exact ⟨Nat.le_trans hpast hle, hsecs, Or.inr (Nat.le_trans hover hle)⟩
  · intro hhalf
    rw [hbreaker] at hhalf ⊢
    exact h.counts_step hG hhalf

end Steps

/-- In a run whose successes are timely the breaker cools down and recovers as it should. -/
theorem safe_of_timely (wall failureThreshold successThreshold cooldownSecs : ℕ)
    {tr : List (Watched × Timed)} {s : Watched}
    (hrun : Run Watched.step
      (.new (.new wall failureThreshold successThreshold cooldownSecs) wall) tr s)
    (htimely : Within Timely tr) : CoolsDown tr ∧ Recovers tr := by
  have hinv : Inv tr s := by
    apply hrun.traceInvariant htimely
    · refine ⟨List.Pairwise.nil, ?_, ?_, ?_⟩
      · intro e pre hsuffix
        exact absurd (suffix_nil.mp hsuffix) (cons_ne_nil _ _)
      · intro o ho
        exact absurd ho not_mem_nil
      · intro hhalf
        cases hhalf
    · intro tr s e s' _ h hG hs
      exact h.step hG hs
  exact ⟨hinv.coolsDown, hinv.recovers⟩

instance (s : Watched) (e : Timed) : Decidable (Timely s e) :=
  match he : e.2 with
  | .recordSuccess r =>
    decidable_of_iff (s.breaker.state ≠ .closed →
        s.breaker.state = .halfOpen ∧ s.requests[r]? = some (some .halfOpen))
      ⟨fun h r' hr' => by cases he.symm.trans hr'; exact h, fun h => h r he⟩
  | .allowRequest | .recordFailure _ => .isTrue fun r hr => by cases he.symm.trans hr

instance : DecidablePred CoolsDown := fun tr => by unfold CoolsDown; infer_instance

/-- Six requests are admitted, five of them fail, and the breaker opens. -/
def fiveFail : List Timed :=
  List.replicate 6 (0, .allowRequest) ++ (List.range 5).map fun r => (1, .recordFailure r)

/-- The breaker is tried after the cooldown, and two successes close it. -/
theorem safe_of_timely_recovered :
    ∃ tr s, Run Watched.step (.new (.withDefaults 0) 0) tr s ∧ s.breaker.state = .closed ∧
      CoolsDown tr ∧ Recovers tr := by
  obtain ⟨tr, s, hrun, htimely, hclosed⟩ := exists_run Watched.step (.new (.withDefaults 0) 0)
    (fiveFail ++ [(61, .allowRequest), (62, .allowRequest), (63, .recordSuccess 6),
      (63, .recordSuccess 7)])
    (fun tr s => Within Timely tr ∧ s.breaker.state = .closed)
    (by decide)
  exact ⟨tr, s, hrun, hclosed, safe_of_timely 0 5 2 60 hrun htimely⟩

/-- The sixth request succeeds after the breaker opened, and the next one is admitted at once. -/
theorem late_success_ends_cooldown :
    ∃ tr s, Run Watched.step (.new (.withDefaults 0) 0) tr s ∧ ¬CoolsDown tr := by
  exact exists_run _ _ (fiveFail ++ [(2, .recordSuccess 5), (2, .allowRequest)]) _ (by decide)

end Circuit

end HeraMind.Safety
