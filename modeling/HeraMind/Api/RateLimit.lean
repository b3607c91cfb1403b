/-
# The rate limiter of the API

`crates/heramind-api/src/rate_limit.rs`: for each client the limiter remembers the instants of the
requests that it allowed during the last window, and refuses a request when there are
`max_requests` of them.  A background task removes what is too old.

An instant is a number of nanoseconds, taken just before the entry of the client is locked.
-/
import HeraMind.Lib.KeyedMap
import HeraMind.Lib.Run

namespace HeraMind.Api

open List
open Transition

structure RateLimitConfig where
  maxRequests : ℕ
  perDuration : ℤ
  /-- Minimum duration between warning logs for the same client. -/
  warnInterval : ℤ

/-- State for a single client. -/
structure ClientState where
  /-- Request timestamps, oldest first. -/
  history : List ℤ
  lastWarning : Option ℤ

structure RateLimitExceeded where
  waitSeconds : ℤ
  shouldLog : Bool

abbrev RateLimiter := HashMap String ClientState

/-- The requests in the time window that ends now. -/
def recent (config : RateLimitConfig) (now : ℤ) (history : List ℤ) : List ℤ :=
  history.filter fun timestamp => now - config.perDuration < timestamp

/-- The part of `check_rate_limit` that holds the entry of the client. -/
def ClientState.check (config : RateLimitConfig) (now : ℤ) (state : ClientState) :
    ClientState × Except RateLimitExceeded Unit :=
  let history := recent config now state.history
  let oldest := if config.maxRequests ≤ history.length then history.head? else none
  match oldest with
  | some oldest =>
    let waitTime := max 0 (config.perDuration - max 0 (now - oldest))
    let shouldWarn := state.lastWarning.all fun warned => config.warnInterval ≤ max 0 (now - warned)
    (⟨history, if shouldWarn then some now else state.lastWarning⟩,
      .error ⟨waitTime / 1000000000, shouldWarn⟩)
  -- a limit of zero finds no oldest request either
  | none => (⟨history ++ [now], none⟩, .ok ())

inductive Label where
  | check (key : String) (now : ℤ)
  | cleanup (now : ℤ)

def Label.now : Label → ℤ
  | check _ now | cleanup now => now

namespace RateLimiter

variable {config : RateLimitConfig}

def client (clients : RateLimiter) (key : String) : ClientState :=
  (clients.lookup key).getD ⟨[], none⟩

/-- `check_rate_limit` -/
def check (config : RateLimitConfig) (clients : RateLimiter) (key : String) (now : ℤ) :
    RateLimiter × Except RateLimitExceeded Unit :=
  let (state, answer) := (clients.client key).check config now
  (clients.insert key state, answer)

/-- `cleanup_old_entries` -/
def cleanup (config : RateLimitConfig) (clients : RateLimiter) (now : ℤ) : RateLimiter :=
  HashMap.insertAll ∅ clients fun _ state =>
    let history := recent config now state.history
    if history.isEmpty then none else some { state with history := history }

def step (config : RateLimitConfig) (clients : RateLimiter) : Label → Option RateLimiter
  | .check key now => some (clients.check config key now).1
  | .cleanup now => some (clients.cleanup config now)

/-- The request is allowed. -/
def allows (config : RateLimitConfig) (clients : RateLimiter) (key : String) (now : ℤ) : Bool :=
  (clients.check config key now).2.toOption.isSome

/-- The instants at which the client was allowed a request, oldest first. -/
def allowed (config : RateLimitConfig) (key : String) : List (RateLimiter × Label) → List ℤ
  | [] => []
  | (clients, .check key' now) :: tr =>
    if key' = key ∧ clients.allows config key' now = true then allowed config key tr ++ [now]
    else allowed config key tr
  | (_, .cleanup _) :: tr => allowed config key tr

/-- The instants in the window that ends at some time. -/
def window (config : RateLimitConfig) (t : ℤ) (instants : List ℤ) : List ℤ :=
  instants.filter fun u => t - config.perDuration < u ∧ u ≤ t

/-- The entries are locked in the order of the instants. -/
abbrev InOrder (tr : List (RateLimiter × Label)) : Prop :=
  tr.Pairwise fun later earlier => earlier.2.now ≤ later.2.now

/-! ## One step -/

variable {clients : RateLimiter} {key : String} {now w : ℤ} {tr : List (RateLimiter × Label)}

/-- A request is allowed if there is room in the window, and then it is remembered. -/
theorem check_spec (state : ClientState) :
    ((state.check config now).2.toOption.isSome = true ↔
      (recent config now state.history).length < max 1 config.maxRequests) ∧
    (state.check config now).1.history = recent config now state.history ++
      if (state.check config now).2.toOption.isSome = true then [now] else [] := by
  unfold ClientState.check
  cases recent config now state.history with
  | nil =>
    exact ⟨iff_of_true (by simp [Except.toOption])
      (Nat.lt_of_lt_of_le Nat.one_pos (Nat.le_max_left _ _)), by simp [Except.toOption]⟩
  | cons oldest history =>
    by_cases hfull : config.maxRequests ≤ (oldest :: history).length
    · refine ⟨iff_of_false ?_ (by simp only [length_cons] at hfull ⊢; omega), ?_⟩
      · simp only [hfull, if_true, head?_cons]
        exact Bool.false_ne_true
      · simp only [hfull, if_true, head?_cons]
        exact (append_nil _).symm
    · refine ⟨iff_of_true ?_ (by omega), ?_⟩
      · simp only [hfull, if_false]
        rfl
      · simp only [hfull, if_false]
        rfl

theorem client_check (key' : String) : ((clients.check config key now).1.client key').history =
    if key = key' then recent config now (clients.client key).history ++
      (if clients.allows config key now = true then [now] else [])
    else (clients.client key').history := by
  change ((AList.lookup key' (AList.insert key _ clients)).getD _).history = _
  by_cases hkey : key = key'
  · subst hkey
    rw [if_pos rfl, AList.lookup_insert, Option.getD_some]
    exact (check_spec _).2
  · rw [if_neg hkey, AList.lookup_insert_ne (Ne.symm hkey)]
    rfl

theorem client_cleanup (key : String) : ((clients.cleanup config now).client key).history =
    recent config now (clients.client key).history := by
  unfold cleanup client
  rw [HashMap.lookup_insertAll]
  cases clients.lookup key with
  | none => rfl
  | some state =>
    cases hrecent : recent config now state.history with
    | nil => simp [hrecent]
    | cons t history => simp [hrecent]

/-- What the window leaves out is left out later as well. -/
theorem filter_recent (h : now - config.perDuration ≤ w) (history : List ℤ) :
    (recent config now history).filter (w < ·) = history.filter (w < ·) := by
  rw [recent, filter_filter]
  apply filter_congr
  intro t _
  rw [Bool.and_eq_left_iff_imp]
  simp only [decide_eq_true_eq]
  omega

/-! ## Runs -/

/-- Of the allowed requests the limiter remembers those that can still count. -/
theorem filter_history (hrun : Run (step config) ∅ tr clients)
    (hw : ∀ e ∈ tr, e.2.now - config.perDuration ≤ w) (key : String) :
    (clients.client key).history.filter (w < ·) = (allowed config key tr).filter (w < ·) := by
  induction hrun with
  | nil => rfl
  | @snoc tr s s' a hrun hs ih =>
    have hold := ih fun e he => hw e (mem_cons_of_mem _ he)
    have hnow : a.now - config.perDuration ≤ w := hw (s, a) mem_cons_self
    cases a with
    | check key' now =>
      cases hs
      rw [client_check, allowed]
      by_cases hkey : key' = key
      · subst hkey
        cases s.allows config key' now with
        | true => simp [filter_recent (show now - _ ≤ w from hnow), hold]
        | false => simp [filter_recent (show now - _ ≤ w from hnow), hold]
      · rw [if_neg hkey, if_neg fun h => hkey h.1, hold]
    | cleanup now =>
      cases hs
      rw [client_cleanup, filter_recent (show now - _ ≤ w from hnow), hold, allowed]

/-- A request is allowed if fewer than `max_requests` of the client were allowed in the window. -/
theorem allows_iff_of_run (hrun : Run (step config) ∅ tr clients)
    (horder : ∀ e ∈ tr, e.2.now ≤ now) : clients.allows config key now = true ↔
    (recent config now (allowed config key tr)).length < max 1 config.maxRequests := by
  have hhistory := filter_history hrun (fun e he => Int.sub_le_sub_right (horder e he) _) key
  rw [allows, check, (check_spec _).1, recent, hhistory, recent]

/-- No window has more than the allowed requests. -/
theorem length_window_le (hrun : Run (step config) ∅ tr clients) (horder : InOrder tr)
    (key : String) (t : ℤ) :
    (window config t (allowed config key tr)).length ≤ max 1 config.maxRequests := by
  induction hrun with
  | nil => exact Nat.zero_le _
  | @snoc tr s s' a hrun hs ih =>
    obtain ⟨hlast, horder⟩ := pairwise_cons.mp horder
    have hold := ih horder
    cases a with
    | cleanup now => exact hold
    | check key' now =>
      rw [allowed]
      split
      · rename_i hallowed
        obtain ⟨rfl, hallows⟩ := hallowed
        rw [window, filter_append, length_append]
        by_cases ht : now ≤ t
        · -- the window lies in the one that was checked, but for the new request
          have hroom := (allows_iff_of_run hrun hlast).mp hallows
          simp only [Label.now] at hroom
          have hsub : (window config t (allowed config key' tr)).length ≤
              (recent config now (allowed config key' tr)).length := by
            apply List.Sublist.length_le
            apply monotone_filter_right
            intro u hu
            simp only [decide_eq_true_eq] at hu ⊢
            omega
          have hone := length_filter_le (fun u => t - config.perDuration < u ∧ u ≤ t) [now]
          rw [window] at hsub
          rw [length_singleton] at hone
          omega
        · simpa [window, ht] using hold
      · exact hold

/-- In no window are more than `max_requests` requests of a client allowed (one, if the limit is
zero), and none is refused that would leave it so. -/
theorem limited_of_run (config : RateLimitConfig) (tr : List (RateLimiter × Label))
    (clients : RateLimiter) (hrun : Run (step config) ∅ tr clients) (horder : InOrder tr) :
    (∀ key t, (window config t (allowed config key tr)).length ≤ max 1 config.maxRequests) ∧
    ∀ post before key now pre, tr = post ++ (before, .check key now) :: pre →
      (before.allows config key now = true ↔
        (recent config now (allowed config key pre)).length < max 1 config.maxRequests) := by
  refine ⟨length_window_le hrun horder, ?_⟩
  rintro post before key now pre rfl
  have hpre := (pairwise_append.mp horder).2.1
  exact allows_iff_of_run hrun.split.1 (pairwise_cons.mp hpre).1

/-- Two requests in a window are allowed, the third is refused; when the window has passed and the
history is cleaned up, the next one is allowed. -/
theorem limited_of_two : ∃ tr clients, Run (step ⟨2, 1, 1⟩) ∅ tr clients ∧
    allowed ⟨2, 1, 1⟩ "client1" tr = [0, 0, 2] ∧
    ∀ key t, (window ⟨2, 1, 1⟩ t (allowed ⟨2, 1, 1⟩ key tr)).length ≤ 2 := by
  obtain ⟨tr, clients, hrun, horder, hallowed⟩ := exists_run (step ⟨2, 1, 1⟩) ∅
    [.check "client1" 0, .check "client1" 0, .check "client1" 0, .cleanup 2, .check "client1" 2]
    (fun tr clients => InOrder tr ∧ allowed ⟨2, 1, 1⟩ "client1" tr = [0, 0, 2]) (by decide)
  exact ⟨tr, clients, hrun, hallowed, (limited_of_run ⟨2, 1, 1⟩ tr clients hrun horder).1⟩

end RateLimiter

end HeraMind.Api
