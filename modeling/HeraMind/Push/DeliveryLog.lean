/-
# What the log of a delivery says in the end

When a delivery is over, its record in the store should say whether a send went through and how
many there were, and the pauses should double up to their bound.  They do; but the record is left
at `Retrying`, or is missing, when the timeout of a teardown drops the loop or the last record
is not saved, and the count of the attempts wraps when there are 2^32 of them.
-/
import HeraMind.Push.Delivery

namespace HeraMind.Push

open List
open Transition

/-! ## The claim -/

variable {Json : Type}

/-- A loop as `deliver_with_retry` or `flush_batch` starts it. -/
def Started (renderer : Renderer Json) (target : Destination) (l : RetryLoop) : Prop :=
  (∃ entry logId now, deliverWithRetry renderer target entry logId now = .ok l) ∨
    ∃ buffer logId now, flushBatch renderer target buffer logId now = some l

/-- It is over. -/
def LoopPc.isOver : LoopPc → Bool
  | .returned _ | .dropped => true
  | _ => false

/-- The pauses that the configuration asks for. -/
def planned (c : RetryConfig) (n : ℕ) : List ℕ :=
  (List.range n).map fun k => min (c.backoffSecs * 2 ^ k) c.maxBackoffSecs

/-- The record of the delivery, which was saved last, tells its outcome and its sends, of which
there are not too many, and the pauses are those of the configuration. -/
structure SoundLog (c : RetryConfig) (l : RetryLoop) : Prop where
  record : ∃ log, l.saved.head? = some log ∧
    log.status = (if .ok () ∈ l.sends then .success else .failed) ∧
    log.attempts = l.sends.length
  same : ∀ log ∈ l.saved, log.id = l.log.id ∧ log.payloadSent = l.log.payloadSent
  sends : l.sends.length ≤ c.maxRetries + 1
  pauses : l.pauses.reverse = planned c l.pauses.length

/-- The step is no timeout, a last record is saved, and the attempt is not the one of number
2^32. -/
def keepsRecord (c : LoopConfig) (l : RetryLoop) : LoopLabel → Bool
  | .elapse _ => true
  | .answer (.ok _) _ saves => saves
  | .answer (.error _) _ saves => saves || decide (l.attempt < c.retry.maxRetries)
  | .wake => decide (l.attempt + 2 < 2 ^ 32)
  | .cancelled _ saves => saves
  | .timeout => false

/-! ## Pauses -/

/-- The doubled pause, which is a `u64`. -/
def ramp (c : RetryConfig) (k : ℕ) : ℕ := min (c.backoffSecs * 2 ^ k) (2 ^ 64 - 1)

theorem ramp_zero (c : RetryConfig) : ramp c 0 = c.backoffSecs := by
  have hlt := c.backoffSecs_lt
  unfold ramp
  rw [pow_zero, mul_one]
  omega

theorem saturatingDouble_ramp (c : RetryConfig) (k : ℕ) :
    saturatingDouble (ramp c k) = ramp c (k + 1) := by
  unfold saturatingDouble ramp
  rw [pow_succ 2 k, ← mul_assoc]
  generalize c.backoffSecs * 2 ^ k = n
  omega

theorem min_ramp (c : RetryConfig) (k : ℕ) :
    min (ramp c k) c.maxBackoffSecs = min (c.backoffSecs * 2 ^ k) c.maxBackoffSecs := by
  have hlt := c.maxBackoffSecs_lt
  unfold ramp
  generalize c.backoffSecs * 2 ^ k = n
  omega

theorem planned_succ (c : RetryConfig) (n : ℕ) :
    planned c (n + 1) = planned c n ++ [min (c.backoffSecs * 2 ^ n) c.maxBackoffSecs] := by
  unfold planned
  rw [range_succ, map_append]
  rfl

/-! ## Invariants -/

section Loop

variable {c : LoopConfig} {l l' : RetryLoop} {a : LoopLabel} {tr : List (RetryLoop × LoopLabel)}

/-- What is known of a loop that is not over. -/
structure Running (c : LoopConfig) (tr : List (RetryLoop × LoopLabel)) (l : RetryLoop) : Prop where
  retrying : ∀ log ∈ l.saved, log.status = .retrying
  same : ∀ log ∈ l.saved, log.id = l.log.id ∧ log.payloadSent = l.log.payloadSent
  noOk : .ok () ∉ l.sends
  attempt_le : l.attempt ≤ c.retry.maxRetries
  attempts : l.log.attempts = (l.attempt + 1) % 2 ^ 32
  pauses : l.pauses.reverse = planned c.retry l.pauses.length
  keeps : Within (fun l a => keepsRecord c l a = true) tr ↔ l.attempt + 1 < 2 ^ 32

/-- What is known at each place of the loop. -/
def Known (c : LoopConfig) (tr : List (RetryLoop × LoopLabel)) (l : RetryLoop) : Prop :=
  match l.pc with
  | .sending =>
    Running c tr l ∧ l.sends.length = l.attempt ∧ l.backoff = ramp c.retry l.pauses.length
  | .sleeping _ e =>
    Running c tr l ∧ l.sends.length = l.attempt + 1 ∧ l.attempt < c.retry.maxRetries ∧
      (if e.isRateLimited then l.backoff else saturatingDouble l.backoff) =
        ramp c.retry l.pauses.length
  | .returned _ =>
    SoundLog c.retry l ↔ Within (fun l a => keepsRecord c l a = true) tr
  | .dropped =>
    ¬ SoundLog c.retry l ∧ ¬ Within (fun l a => keepsRecord c l a = true) tr

/-- Only records of retries are no sound log. -/
theorem not_soundLog (h : ∀ log ∈ l.saved, log.status = .retrying) : ¬ SoundLog c.retry l := by
  intro hsound
  obtain ⟨log, hlog, hstatus, -⟩ := hsound.record
  rw [h log (mem_of_mem_head? hlog)] at hstatus
  split at hstatus
  · cases hstatus
  · cases hstatus

theorem known_start (c : LoopConfig) (id targetId source payload : String) (now : ℤ) :
    Known c [] (RetryLoop.start c.retry (DeliveryLog.new id targetId source payload now)) := by
  refine ⟨⟨?_, ?_, ?_, Nat.zero_le _, rfl, rfl, ?_⟩, rfl, (ramp_zero c.retry).symm⟩
  · intro log hlog
    cases hlog
  · intro log hlog
    cases hlog
  · intro hok
    cases hok
  · refine iff_of_true (within_nil _) ?_
    show 0 + 1 < 2 ^ 32
    omega

theorem known_of_started {renderer : Renderer Json} {target : Destination}
    (h : Started renderer target l) (cancel : Bool) (timeout : Option ℕ) :
    Known ⟨target.retry, cancel, timeout⟩ [] l := by
  rcases h with ⟨entry, logId, now, h⟩ | ⟨buffer, logId, now, h⟩
  · unfold deliverWithRetry at h
    split at h
    · cases h
    · cases h
      exact known_start ⟨target.retry, cancel, timeout⟩ _ _ _ _ _
  · unfold flushBatch at h
    split at h
    · cases h
    · cases h
      exact known_start ⟨target.retry, cancel, timeout⟩ _ _ _ _ _

/-- Other steps than the first ones of a step do not matter. -/
theorem within_keeps_cons : Within (fun l a => keepsRecord c l a = true) ((l, a) :: tr) ↔
    keepsRecord c l a = true ∧ Within (fun l a => keepsRecord c l a = true) tr :=
  within_cons

/-- The last record is saved, or none is. -/
theorem soundLog_finish (h : Running c tr l) {status : DeliveryStatus} (error : Option String)
    (now : ℤ) (result : Except String Unit) (saves : Bool)
    {outcome : List (Except DeliveryError Unit)} (hlength : outcome.length = l.attempt + 1)
    (hstatus : status = if .ok () ∈ outcome then .success else .failed) :
    SoundLog c.retry (RetryLoop.finish { l with sends := outcome } status error now result saves) ↔
      saves = true ∧ l.attempt + 1 < 2 ^ 32 := by
  have hattempt := h.attempt_le
  have hmax := c.retry.maxRetries_lt
  cases saves with
  | false =>
    refine iff_of_false (not_soundLog h.retrying) ?_
    rintro ⟨hsaves, -⟩
    cases hsaves
  | true =>
    have hcount : l.log.attempts = outcome.length ↔ l.attempt + 1 < 2 ^ 32 := by
      rw [h.attempts, hlength]
      omega
    constructor
    · intro hsound
      obtain ⟨log, hlog, -, hattempts⟩ := hsound.record
      cases hlog
      exact ⟨rfl, hcount.mp hattempts⟩
    · rintro ⟨-, hlt⟩
      refine ⟨⟨_, rfl, hstatus, hcount.mpr hlt⟩, fun log hlog => ?_, ?_, h.pauses⟩
      · rcases mem_cons.mp hlog with rfl | hlog
        · exact ⟨rfl, rfl⟩
        · exact h.same log hlog
      · show outcome.length ≤ _
        omega

theorem known_finish (h : Running c tr l) {status : DeliveryStatus} {error : Option String}
    {now : ℤ} {result : Except String Unit} {saves : Bool}
    {outcome : List (Except DeliveryError Unit)} (hlength : outcome.length = l.attempt + 1)
    (hstatus : status = if .ok () ∈ outcome then .success else .failed)
    {l₀ : RetryLoop} (hkeeps : keepsRecord c l₀ a = saves) :
    Known c ((l₀, a) :: tr)
      (RetryLoop.finish { l with sends := outcome } status error now result saves) := by
  subst hkeeps
  have hsound := soundLog_finish h error now result (keepsRecord c l₀ a) hlength hstatus
  rw [← h.keeps, ← within_keeps_cons] at hsound
  unfold Known RetryLoop.finish
  rw [RetryLoop.pc_save]
  exact hsound

theorem known_pause (h : Running c tr l) {e : DeliveryError} {now : ℤ} {saves : Bool}
    (hlength : l.sends.length = l.attempt)
    (hbackoff : l.backoff = ramp c.retry l.pauses.length)
    (hattempt : l.attempt < c.retry.maxRetries) :
    Known c ((l, .answer (.error e) now saves) :: tr)
      (RetryLoop.pause { l with sends := .error e :: l.sends } c.retry e saves) := by
  have hkeeps : keepsRecord c l (.answer (.error e) now saves) = true := by
    show (saves || decide _) = true
    rw [decide_eq_true hattempt, Bool.or_true]
  unfold Known RetryLoop.pause
  rw [RetryLoop.pc_save]
  refine ⟨⟨fun log hlog => ?_, fun log hlog => ?_, ?_, ?_, ?_, ?_, ?_⟩, ?_, ?_, ?_⟩
  · rcases RetryLoop.mem_saved_save hlog with rfl | hlog
    · rfl
    · exact h.retrying log hlog
  · rw [RetryLoop.log_save]
    rcases RetryLoop.mem_saved_save hlog with rfl | hlog
    · exact ⟨rfl, rfl⟩
    · exact h.same log hlog
  · rw [RetryLoop.sends_save]
    intro hok
    rcases mem_cons.mp hok with hok | hok
    · cases hok
    · exact h.noOk hok
  · rw [RetryLoop.attempt_save]
    exact h.attempt_le
  · rw [RetryLoop.log_save, RetryLoop.attempt_save]
    exact h.attempts
  · rw [RetryLoop.pauses_save]
    cases e with
    | rateLimited retryAfter => exact h.pauses
    | other message =>
      show (min l.backoff c.retry.maxBackoffSecs :: l.pauses).reverse =
        planned c.retry (l.pauses.length + 1)
      rw [reverse_cons, h.pauses, planned_succ, hbackoff, min_ramp]
  · rw [within_keeps_cons, RetryLoop.attempt_save, ← h.keeps]
    simp [hkeeps]
  · rw [RetryLoop.sends_save, RetryLoop.attempt_save]
    exact congrArg Nat.succ hlength
  · rw [RetryLoop.attempt_save]
    exact hattempt
  · rw [RetryLoop.backoff_save, RetryLoop.pauses_save]
    cases e with
    | rateLimited retryAfter => exact hbackoff
    | other message =>
      show saturatingDouble l.backoff = ramp c.retry (l.pauses.length + 1)
      rw [hbackoff, saturatingDouble_ramp]

theorem known_retry (h : Running c tr l) {e : DeliveryError}
    (hlength : l.sends.length = l.attempt + 1) (hsleeping : l.attempt < c.retry.maxRetries)
    (hbackoff : (if e.isRateLimited then l.backoff else saturatingDouble l.backoff) =
      ramp c.retry l.pauses.length) :
    Known c ((l, .wake) :: tr) (l.retry e) := by
  refine ⟨⟨h.retrying, h.same, h.noOk, hsleeping, rfl, h.pauses, ?_⟩, hlength, hbackoff⟩
  rw [within_keeps_cons, h.keeps]
  show decide (l.attempt + 2 < 2 ^ 32) = true ∧ _ ↔ l.attempt + 1 + 1 < 2 ^ 32
  rw [decide_eq_true_eq]
  omega

/-- The loop is dropped at a pause or a send. -/
theorem known_timeout (h : Running c tr l) :
    Known c ((l, .timeout) :: tr) { l with pc := .dropped } := by
  refine ⟨not_soundLog h.retrying, fun hkeeps => ?_⟩
  rw [within_keeps_cons] at hkeeps
  cases hkeeps.1

theorem soundLog_elapse {pc : LoopPc} {elapsed : ℕ} :
    SoundLog c.retry { l with pc := pc, elapsed := elapsed } ↔ SoundLog c.retry l :=
  ⟨fun h => ⟨h.record, h.same, h.sends, h.pauses⟩, fun h => ⟨h.record, h.same, h.sends, h.pauses⟩⟩

/-- Time that passes changes nothing. -/
theorem known_elapse (h : Known c tr l) (d : ℕ) :
    Known c ((l, .elapse d) :: tr) { l with elapsed := l.elapsed + d } := by
  have hkeeps : Within (fun l a => keepsRecord c l a = true) ((l, .elapse d) :: tr) ↔
      Within (fun l a => keepsRecord c l a = true) tr := by
    rw [within_keeps_cons]
    exact and_iff_right rfl
  unfold Known at h ⊢
  show match l.pc with | .sending => _ | .sleeping _ _ => _ | .returned _ => _ | .dropped => _
  cases hpc : l.pc with
  | sending | sleeping wakeAt e =>
    rw [hpc] at h
    exact ⟨{ h.1 with keeps := hkeeps.trans h.1.keeps }, h.2⟩
  | returned result =>
    rw [hpc] at h
    exact soundLog_elapse.trans (h.trans hkeeps.symm)
  | dropped =>
    rw [hpc] at h
    exact ⟨fun hsound => h.1 (soundLog_elapse.mp hsound), fun hall => h.2 (hkeeps.mp hall)⟩

theorem known_answer (hpc : l.pc = .sending) (h : Known c tr l)
    {outcome : Except DeliveryError Unit} {now : ℤ} {saves : Bool}
    (hs : l.step c (.answer outcome now saves) = some l') :
    Known c ((l, .answer outcome now saves) :: tr) l' := by
  unfold Known at h
  rw [hpc] at h
  obtain ⟨hrunning, hlength, hbackoff⟩ := h
  have hsent : (outcome :: l.sends).length = l.attempt + 1 := by
    rw [length_cons, hlength]
  simp only [RetryLoop.step, hpc, if_true] at hs
  cases outcome with
  | ok u =>
    cases hs
    exact known_finish hrunning hsent (by rw [if_pos mem_cons_self]) rfl
  | error e =>
    simp only at hs
    split at hs
    · rename_i hattempt
      cases hs
      exact known_pause hrunning hlength hbackoff hattempt
    · rename_i hattempt
      cases hs
      apply known_finish hrunning hsent
      · rw [if_neg]
        intro hok
        rcases mem_cons.mp hok with hok | hok
        · cases hok
        · exact hrunning.noOk hok
      · show (saves || decide _) = saves
        rw [decide_eq_false hattempt, Bool.or_false]

/-- The step lemma. -/
theorem known_step (h : Known c tr l) (hs : l.step c a = some l') :
    Known c ((l, a) :: tr) l' := by
  cases a with
  | elapse d =>
    cases hs
    exact known_elapse h d
  | answer outcome now saves =>
    by_cases hpc : l.pc = .sending
    · exact known_answer hpc h hs
    · simp [RetryLoop.step, hpc] at hs
  | wake =>
    simp only [RetryLoop.step] at hs
    split at hs
    · rename_i wakeAt e hpc
      split at hs
      · cases hs
        unfold Known at h
        rw [hpc] at h
        exact known_retry h.1 h.2.1 h.2.2.1 h.2.2.2
      · cases hs
    · cases hs
  | cancelled now saves =>
    simp only [RetryLoop.step] at hs
    split at hs
    · rename_i wakeAt e hpc
      split at hs
      · cases hs
        unfold Known at h
        rw [hpc] at h
        exact known_finish h.1 h.2.1 (by rw [if_neg h.1.noOk]) rfl
      · cases hs
    · cases hs
  | timeout =>
    simp only [RetryLoop.step] at hs
    split at hs
    · cases hs
    · cases hs
    · rename_i htimeout hreturned hdropped
      split at hs
      · cases hs
        unfold Known at h
        cases hpc : l.pc with
        | sending | sleeping wakeAt e =>
          rw [hpc] at h
          exact known_timeout h.1
        | returned result => exact absurd hpc (hreturned result)
        | dropped => exact absurd hpc hdropped
      · cases hs
    · cases hs

theorem known_of_run {renderer : Renderer Json} {target : Destination} {cancel : Bool}
    {timeout : Option ℕ} {l₀ : RetryLoop} (hstarted : Started renderer target l₀)
    (hrun : Run (RetryLoop.step ⟨target.retry, cancel, timeout⟩) l₀ tr l) :
    Known ⟨target.retry, cancel, timeout⟩ tr l := by
  refine hrun.traceInvariant (I := Known ⟨target.retry, cancel, timeout⟩) (G := fun _ _ => True)
    (fun _ _ => trivial) (known_of_started hstarted cancel timeout) ?_
  intro tr l a l' _ h _ hs
  exact known_step h hs

end Loop

/-- For every delivery that is over, whatever the configuration of its target, the outcomes of
its sends, the moment at which it is stopped and the calls of the store: its log is sound if and
only if no timeout drops it, its last record is saved, and it is not sent 2^32 times. -/
theorem deliveryLog_sound_iff (renderer : Renderer Json) (target : Destination) (cancel : Bool)
    (timeout : Option ℕ) (l₀ : RetryLoop) (hstarted : Started renderer target l₀)
    (tr : List (RetryLoop × LoopLabel)) (l : RetryLoop)
    (hrun : Run (RetryLoop.step ⟨target.retry, cancel, timeout⟩) l₀ tr l)
    (hover : l.pc.isOver = true) :
    SoundLog target.retry l ↔
      Within (fun l a => keepsRecord ⟨target.retry, cancel, timeout⟩ l a = true) tr := by
  have hknown := known_of_run hstarted hrun
  unfold Known at hknown
  cases hpc : l.pc with
  | sending | sleeping wakeAt e =>
    rw [hpc] at hover
    cases hover
  | returned result =>
    rw [hpc] at hknown
    exact hknown
  | dropped =>
    rw [hpc] at hknown
    exact iff_of_false hknown.1 hknown.2

/-! ## Deliveries -/

namespace Sample

def retryConfig : RetryConfig where
  maxRetries := 3
  backoffSecs := 20
  maxBackoffSecs := 300
  maxRetries_lt := by decide
  backoffSecs_lt := by decide
  maxBackoffSecs_lt := by decide

def destination : Destination where
  targetId := "cloud"
  template := none
  retry := retryConfig
  format := .flat

/-- Values are their own texts. -/
def renderer : Renderer String where
  render _ entry := .ok entry.value
  batch _ _ batch := String.intercalate ";" (batch.map Entry.value)

def entry : Entry String where
  sourceId := "device:s1:temp"
  value := "25.0"
  timestamp := 0

def unavailable : DeliveryError := .other "HTTP 500"

/-- The delivery of the entry. -/
def delivery : RetryLoop :=
  RetryLoop.start retryConfig (DeliveryLog.new "log" "cloud" "device:s1:temp" "25.0" 0)

theorem started : Started renderer destination delivery := by
  left
  exact ⟨entry, "log", 0, rfl⟩

/-- The entry as the last batch of a target. -/
theorem started_batch : flushBatch renderer destination [entry] "log" 0 = some delivery := by
  decide

/-- Two failures, a rate limit, and the send that goes through. -/
def delivered : List LoopLabel :=
  [.answer (.error unavailable) 0 true, .elapse 20000, .wake,
    .answer (.error (.rateLimited none)) 20 true, .elapse 60000, .wake,
    .answer (.error unavailable) 80 true, .elapse 40000, .wake, .answer (.ok ()) 120 true]

/-- A failure, and a pause that is longer than the teardown may be. -/
def cutShort : List LoopLabel :=
  [.answer (.error unavailable) 0 true, .elapse 20000, .wake,
    .answer (.error unavailable) 20 true, .elapse 10000, .timeout]

end Sample

/-- A delivery with two pauses, of 20 and 40 seconds, and one for a rate limit. -/
theorem deliveryLog_sound_delivered : ∃ tr l,
    Run (RetryLoop.step ⟨Sample.retryConfig, true, none⟩) Sample.delivery tr l ∧
      l.pauses = [40, 20] ∧ SoundLog Sample.retryConfig l := by
  obtain ⟨tr, l, hrun, hover, hpauses, hkeeps⟩ := exists_run
    (RetryLoop.step ⟨Sample.retryConfig, true, none⟩) Sample.delivery Sample.delivered
    (fun tr l => l.pc.isOver = true ∧ l.pauses = [40, 20] ∧
      Within (fun l a => keepsRecord ⟨Sample.retryConfig, true, none⟩ l a = true) tr)
    (by decide)
  exact ⟨tr, l, hrun, hpauses, (deliveryLog_sound_iff Sample.renderer Sample.destination true none
    Sample.delivery Sample.started tr l hrun hover).mpr hkeeps⟩

/-- The last flush of a target is dropped during a pause, and its record says `Retrying` for
ever. -/
theorem teardown_leaves_retrying : ∃ l₀ tr l,
    flushBatch Sample.renderer Sample.destination [Sample.entry] "log" 0 = some l₀ ∧
      Run (RetryLoop.step ⟨Sample.retryConfig, false, some teardownTimeout⟩) l₀ tr l ∧
      l.pc = .dropped ∧ l.saved.head?.map DeliveryLog.status = some .retrying ∧
      ¬ SoundLog Sample.retryConfig l := by
  obtain ⟨tr, l, hrun, hp⟩ := exists_run
    (RetryLoop.step ⟨Sample.retryConfig, false, some teardownTimeout⟩) Sample.delivery
    Sample.cutShort
    (fun tr l => decide (l.pc = .dropped) && decide (∀ log ∈ l.saved, log.status = .retrying) &&
      decide (l.saved.head?.map DeliveryLog.status = some .retrying) = true) (by decide)
  simp only [Bool.and_eq_true, decide_eq_true_eq] at hp
  obtain ⟨⟨hdropped, hretrying⟩, hhead⟩ := hp
  exact ⟨_, tr, l, Sample.started_batch, hrun, hdropped, hhead,
    not_soundLog (c := ⟨Sample.retryConfig, false, some teardownTimeout⟩) hretrying⟩

end HeraMind.Push
