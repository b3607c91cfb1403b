/-
# No lost update of a session's metadata

`crates/heramind-agent/src/session.rs`, `crates/heramind-api/src/handlers/summarization.rs`: every
request reads the whole metadata in one transaction and writes all of it back in another, and a
summary is written long after its messages were read.  What every request sets lasts as long as no
section writes back what it has read before another one wrote.
-/
import HeraMind.Agent.SessionRequests
import HeraMind.Lib.Calls

namespace HeraMind.Agent.Requests

open List Option
open Transition

variable {env : Env} {ans : Answers} {s s' : SessionState} {pc pc' : Section}

/-! ## What should hold -/

/-- The title that a request leaves, if it sets or removes it. -/
def titleSet : Request × Bool → Option (Option Text)
  | (.set (.title t), true) => some (titleOf t)
  | (.removeSession, true) => some none
  | _ => none

/-- Whether memory is enabled after a request, if it sets or removes that. -/
def memorySet : Request × Bool → Option Bool
  | (.set (.memory enabled), true) => some enabled
  | (.removeSession, true) => some true
  | _ => none

/-- The last request of the log that found the session. -/
def lastFound (log : List (Request × Bool)) : Option Request :=
  log.findSome? fun e => if e.2 then some e.1 else none

/-- The store has nothing of the session. -/
structure SessionState.Removed (s : SessionState) : Prop where
  session : s.sessionRow = false
  metadata : s.metadataRow = none
  history : s.historyRows = []

/-- The title and the memory setting are those of the last request that set them, the summary
describes no message that was cleared, and a session that was removed last is gone. -/
structure SessionState.NoLostUpdate (s : SessionState) : Prop where
  title : ∀ t, s.log.findSome? titleSet = some t → s.getMetadata.title = t
  memory : ∀ enabled, s.log.findSome? memorySet = some enabled →
    s.getMetadata.memoryEnabled = enabled
  summary : ∀ n ∈ s.getMetadata.described, s.clearedUpTo ≤ n
  removed : lastFound s.log = some .removeSession → s.Removed

/-! ## When a section is in time -/

/-- The section writes back what is still stored, a summary describes no message that was cleared
since it was read, and a request that has not found the session has no messages to save. -/
def Section.InTime (s : SessionState) (ans : Answers) : Section → Prop
  | .setSave _ metadata | .clearReset _ metadata | .persistPreview _ metadata _ =>
    s.getMetadata = metadata
  | .generating _ metadata _ described => ∀ summary, ans.reply = .ok summary →
    s.getMetadata = metadata ∧ ∀ n ∈ described, s.clearedUpTo ≤ n
  | .persistCached => s.sessionMessages.getD [] = []
  | _ => True

def Timely (s : SessionState) : Action → Prop
  | .run n ans => ∀ pc ∈ s.calls[n]?, pc.InTime s ans
  | _ => True

instance Answers.decidableForallReply (ans : Answers) (P : Prop) [Decidable P] :
    Decidable (∀ summary, ans.reply = .ok summary → P) :=
  match ans.reply with
  | .error _ => isTrue (fun _ hreply => nomatch hreply)
  | .ok summary => decidable_of_iff P ⟨fun hp _ _ => hp, fun hp => hp summary rfl⟩

instance Section.decidableInTime (s : SessionState) (ans : Answers) (pc : Section) :
    Decidable (pc.InTime s ans) := by
  unfold Section.InTime
  split <;> infer_instance

instance decidableTimely (s : SessionState) (a : Action) : Decidable (Timely s a) := by
  unfold Timely
  split <;> infer_instance

/-- The request has found the session. -/
def Section.found : Section → Bool
  | .setCheck _ | .setExists _ _ => false
  | .getSession _ (.summarize _ _ _) => true
  | .getSession _ _ | .persistCached => false
  | .persistSave found _ | .persistRead found _ | .persistPreview found _ _ => found
  | .agentLlm _ | .removeCheck | .removeExists _ | .done => false
  | _ => true

/-- A request that has not found the session has no messages to save. -/
def Section.Fits : Section → Prop
  | .persistSave found messages | .persistRead found messages => found = false → messages = []
  | .persistPreview found _ _ => found = true
  | _ => True

/-! ## What a section does -/

/-- The request neither sets nor removes anything. -/
def Request.Plain : Request → Prop
  | .set _ | .removeSession => False
  | _ => True

/-- What a section that is in time does to the rows and to the log. -/
inductive Effect (s : SessionState) : Section → Section → SessionState → Prop
  /-- The request goes on, and no metadata is written. -/
  | goOn {pc pc' : Section} {s' : SessionState}
      (history : s'.historyRows = s.historyRows ∨ s'.historyRows = [] ∨ pc'.found = true)
      (found : pc.found = true → pc'.found = true)
      (metadata : s'.metadataRow = s.metadataRow := by rfl)
      (session : s'.sessionRow = s.sessionRow := by rfl) (log : s'.log = s.log := by rfl)
      (cleared : s'.clearedUpTo = s.clearedUpTo := by rfl)
      (calls : s'.calls = s.calls := by rfl) : Effect s pc pc' s'
  /-- The request returns and has written no metadata. -/
  | finish {pc : Section} (r : Request) (found : Bool) (clearedUpTo : ℕ) :
      (found = true → r.Plain) → (pc.found = true → found = true) →
      (s.clearedUpTo = clearedUpTo ∨ s.getMetadata.described = []) →
      Effect s pc .done { s.complete r found with clearedUpTo }
  /-- The request writes the metadata and returns. -/
  | save {pc : Section} (r : Request) (metadata : StoredMetadata) (clearedUpTo : ℕ) :
      r ≠ .removeSession →
      metadata.title = (titleSet (r, true)).getD s.getMetadata.title →
      metadata.memoryEnabled = (memorySet (r, true)).getD s.getMetadata.memoryEnabled →
      (∀ n ∈ metadata.described, n ∈ s.getMetadata.described ∧ clearedUpTo = s.clearedUpTo ∨
        clearedUpTo ≤ n) →
      Effect s pc .done { (s.saveMetadata metadata).complete r true with clearedUpTo }
  /-- The rows are deleted. -/
  | delete {pc : Section} :
      Effect s pc .done (s.deleteSession.complete .removeSession true)

theorem Request.fits_start (r : Request) : r.start.Fits := by
  cases r <;> exact trivial

theorem described_apply (setting : Setting) (m : StoredMetadata) :
    (setting.apply m).described = m.described := by
  cases setting <;> rfl

theorem described_eq_nil {m : StoredMetadata}
    (h : (m.conversationSummary.isSome || m.summaryUpToIndex.isSome) = false) :
    m.described = [] := by
  rw [Bool.or_eq_false_iff, isSome_eq_false_iff, isSome_eq_false_iff] at h
  exact if_pos h

theorem described_summarizedMetadata (metadata : StoredMetadata) (d : Digest) (summary : Text)
    (described : List ℕ) :
    (summarizedMetadata metadata d summary described).described =
      metadata.described ++ described :=
  if_neg (by simp [summarizedMetadata, summarized])

/-- `get_session` writes no row and leaves the log and the other requests alone. -/
theorem GetSession.advance_frame (g : GetSession) (s : SessionState) :
    let s' := (g.advance s).2
    s'.metadataRow = s.metadataRow ∧ s'.sessionRow = s.sessionRow ∧ s'.log = s.log ∧
      s'.clearedUpTo = s.clearedUpTo ∧ s'.calls = s.calls ∧ s'.historyRows = s.historyRows := by
  cases g with
  | lookup | existsInDb =>
    simp only [advance]
    split <;> exact ⟨rfl, rfl, rfl, rfl, rfl, rfl⟩
  | load => exact ⟨rfl, rfl, rfl, rfl, rfl, rfl⟩
  | insert history =>
    simp only [advance]
    split <;> exact ⟨rfl, rfl, rfl, rfl, rfl, rfl⟩
  | insertMessages agent history => exact ⟨rfl, rfl, rfl, rfl, rfl, rfl⟩

theorem GetSession.eq_of_advance_none {g : GetSession} (h : g.advance s = (.inr none, s')) :
    s' = s := by
  cases g with
  | lookup =>
    simp only [advance] at h
    split at h <;> cases h
  | existsInDb =>
    simp only [advance] at h
    split at h <;> cases h
    rfl
  | load => cases h
  | insert history =>
    simp only [advance] at h
    split at h <;> cases h
  | insertMessages agent history => cases h

theorem found_getSession (g g' : GetSession) (k : After) :
    (Section.getSession g k).found = (Section.getSession g' k).found := by
  cases k <;> rfl

/-- A section of `get_session` and what the request does with its result. -/
theorem effect_getSession {g : GetSession} {k : After}
    (h : (Section.getSession g k).advance env ans s = some (pc', s')) :
    Effect s (.getSession g k) pc' s' ∧ pc'.Fits := by
  have hframe := g.advance_frame s
  simp only [Section.advance] at h
  cases hadv : g.advance s with
  | mk result t =>
    rw [hadv] at hframe h
    obtain ⟨hmeta, hrow, hlog, hcleared, hcalls, hhistory⟩ := hframe
    cases result with
    | inl g' =>
      cases h
      exact ⟨.goOn (Or.inl hhistory) (fun hfound => found_getSession g g' k ▸ hfound) hmeta hrow hlog
        hcleared hcalls, trivial⟩
    | inr agent =>
      cases agent with
      | some agent =>
        cases k <;> cases h <;>
          exact ⟨.goOn (Or.inl hhistory) (fun _ => rfl) hmeta hrow hlog hcleared hcalls, trivial⟩
      | none =>
        obtain rfl := GetSession.eq_of_advance_none hadv
        cases k with
        | clear =>
          cases h
          exact ⟨.finish .clearHistory false _ nofun nofun (Or.inl rfl), trivial⟩
        | persist =>
          cases h
          exact ⟨.goOn (Or.inl rfl) nofun, trivial⟩
        | summarize promptTokens maxCtx metadata =>
          cases h
          exact ⟨.finish (.triggerSummarization promptTokens) true _ (fun _ => trivial)
            (fun _ => rfl) (Or.inl rfl), trivial⟩

/-- Everything a section can do, if it is in time. -/
theorem effect_of_advance (hfits : pc.Fits) (htime : pc.InTime s ans)
    (h : pc.advance env ans s = some (pc', s')) : Effect s pc pc' s' ∧ pc'.Fits := by
  cases pc with
  | setCheck setting =>
    cases h
    exact ⟨.goOn (Or.inl rfl) nofun, trivial⟩
  | setExists setting inMemory =>
    simp only [Section.advance] at h
    split at h
    · cases h
      exact ⟨.goOn (Or.inl rfl) nofun, trivial⟩
    · cases h
      exact ⟨.finish (.set setting) false _ nofun nofun (Or.inl rfl), trivial⟩
  | setRead setting =>
    cases h
    exact ⟨.goOn (Or.inl rfl) (fun _ => rfl), trivial⟩
  | setSave setting metadata =>
    cases h
    change s.getMetadata = metadata at htime
    refine ⟨.save (.set setting) (setting.apply metadata) s.clearedUpTo nofun ?_ ?_ ?_, trivial⟩
    · rw [htime]
      cases setting <;> rfl
    · rw [htime]
      cases setting <;> rfl
    · intro n hn
      rw [described_apply, ← htime] at hn
      exact Or.inl ⟨hn, rfl⟩
  | getSession g k => exact effect_getSession h
  | clearMemory agent | clearMessages upTo =>
    cases h
    exact ⟨.goOn (Or.inl rfl) (fun _ => rfl), trivial⟩
  | clearRows upTo =>
    cases h
    exact ⟨.goOn (Or.inr (Or.inl rfl)) (fun _ => rfl), trivial⟩
  | clearRead upTo =>
    simp only [Section.advance] at h
    split at h
    · cases h
      exact ⟨.goOn (Or.inl rfl) (fun _ => rfl), trivial⟩
    · rename_i hnone
      cases h
      exact ⟨.finish .clearHistory true _ (fun _ => trivial) (fun _ => rfl)
        (Or.inr (described_eq_nil (Bool.eq_false_iff.mpr hnone))), trivial⟩
  | clearReset upTo metadata =>
    cases h
    change s.getMetadata = metadata at htime
    refine ⟨.save .clearHistory _ (max s.clearedUpTo upTo) nofun ?_ ?_ ?_, trivial⟩
    · rw [htime]
      rfl
    · rw [htime]
      rfl
    · intro n hn
      cases hn
  | persistMemory agent =>
    cases h
    exact ⟨.goOn (Or.inl rfl) (fun _ => rfl), fun h => by cases h⟩
  | persistCached =>
    change s.sessionMessages.getD [] = [] at htime
    simp only [Section.advance] at h
    cases hcached : s.sessionMessages with
    | none =>
      rw [hcached] at h
      cases h
      exact ⟨.finish .persistHistory false _ nofun nofun (Or.inl rfl), trivial⟩
    | some cached =>
      rw [hcached] at h htime
      cases h
      exact ⟨.goOn (Or.inl rfl) nofun, fun _ => htime⟩
  | persistSave found messages =>
    cases h
    refine ⟨.goOn ?_ id ?_ ?_ ?_ ?_ ?_, hfits⟩
    all_goals unfold SessionState.saveHistory
    all_goals split
    all_goals try rfl
    · exact Or.inl rfl
    · rename_i hne
      right
      right
      cases found with
      | true => rfl
      | false =>
        rw [hfits rfl] at hne
        exact absurd rfl hne
  | persistRead found messages =>
    simp only [Section.advance] at h
    split at h
    · rename_i hpreview
      cases h
      refine ⟨.goOn (Or.inl rfl) id, ?_⟩
      cases found with
      | true => rfl
      | false =>
        rw [hfits rfl] at hpreview
        exact absurd hpreview (by simp [previewOf])
    · cases h
      exact ⟨.finish .persistHistory found _ (fun _ => trivial) id (Or.inl rfl), trivial⟩
  | persistPreview found metadata preview =>
    change s.getMetadata = metadata at htime
    change found = true at hfits
    subst hfits
    cases h
    refine ⟨.save .persistHistory _ s.clearedUpTo nofun ?_ ?_ ?_, trivial⟩
    · rw [htime]
      rfl
    · rw [htime]
      rfl
    · intro n hn
      rw [htime]
      exact Or.inl ⟨hn, rfl⟩
  | agentLlm promptTokens =>
    simp only [Section.advance] at h
    split at h
    · cases h
      exact ⟨.goOn (Or.inl rfl) nofun, trivial⟩
    · cases h
      exact ⟨.finish _ false _ nofun nofun (Or.inl rfl), trivial⟩
  | checkUsage promptTokens =>
    simp only [Section.advance] at h
    split at h
    · cases h
      exact ⟨.goOn (Or.inl rfl) (fun _ => rfl), trivial⟩
    · cases h
      exact ⟨.finish _ true _ (fun _ => trivial) (fun _ => rfl) (Or.inl rfl), trivial⟩
  | summaryRead promptTokens maxCtx =>
    cases h
    exact ⟨.goOn (Or.inl rfl) (fun _ => rfl), trivial⟩
  | summaryMemory promptTokens maxCtx metadata agent =>
    simp only [Section.advance] at h
    split at h
    · cases h
      exact ⟨.goOn (Or.inl rfl) (fun _ => rfl), trivial⟩
    · cases h
      exact ⟨.finish _ true _ (fun _ => trivial) (fun _ => rfl) (Or.inl rfl), trivial⟩
  | generating promptTokens metadata d described =>
    simp only [Section.advance] at h
    split at h
    · cases h
      exact ⟨.finish _ true _ (fun _ => trivial) (fun _ => rfl) (Or.inl rfl), trivial⟩
    · rename_i summary hreply
      cases h
      obtain ⟨hsame, hlater⟩ := htime summary hreply
      refine ⟨.save (.triggerSummarization promptTokens) _ s.clearedUpTo nofun ?_ ?_ ?_, trivial⟩
      · rw [hsame]
        rfl
      · rw [hsame]
        rfl
      · intro n hn
        rw [described_summarizedMetadata, mem_append] at hn
        rcases hn with hn | hn
        · rw [hsame]
          exact Or.inl ⟨hn, rfl⟩
        · exact Or.inr (hlater n hn)
  | removeCheck =>
    cases h
    exact ⟨.goOn (Or.inl rfl) nofun, trivial⟩
  | removeExists inMemory =>
    simp only [Section.advance] at h
    split at h
    · cases h
      exact ⟨.goOn (Or.inl rfl) nofun, trivial⟩
    · cases h
      exact ⟨.finish .removeSession false _ nofun nofun (Or.inl rfl), trivial⟩
  | removeAgent | removeMessages =>
    cases h
    exact ⟨.goOn (Or.inl rfl) (fun _ => rfl), trivial⟩
  | deleteSession =>
    cases h
    exact ⟨.delete, trivial⟩
  | done => cases h

/-! ## The invariant -/

structure SessionState.Held (s : SessionState) : Prop where
  fits : ∀ pc ∈ s.calls, pc.Fits
  title : ∀ t, s.log.findSome? titleSet = some t → s.getMetadata.title = t
  memory : ∀ enabled, s.log.findSome? memorySet = some enabled →
    s.getMetadata.memoryEnabled = enabled
  summary : ∀ n ∈ s.getMetadata.described, s.clearedUpTo ≤ n
  removed : lastFound s.log = some .removeSession →
    (∃ pc ∈ s.calls, pc.found = true) ∨ s.Removed

/-- A request that neither sets nor removes anything, or has not found the session, sets nothing. -/
theorem sets_none {r : Request} {found : Bool} (h : found = true → r.Plain) :
    titleSet (r, found) = none ∧ memorySet (r, found) = none := by
  cases found with
  | false =>
    cases r with
    | set setting => cases setting <;> exact ⟨rfl, rfl⟩
    | _ => exact ⟨rfl, rfl⟩
  | true =>
    cases r with
    | set setting | removeSession => exact absurd (h rfl) id
    | _ => exact ⟨rfl, rfl⟩

/-- The invariant after a section that is in time. -/
theorem SessionState.Held.effect (h : s.Held) {n : ℕ} (hn : s.calls[n]? = some pc)
    (hfits : pc'.Fits) (he : Effect s pc pc' s') :
    SessionState.Held { s' with calls := s'.calls.set n pc' } := by
  have hcalls : ∀ t : SessionState, t.calls = s.calls →
      ∀ c ∈ t.calls.set n pc', c.Fits := by
    intro t ht
    rw [ht]
    exact Calls.forall_mem_set h.fits hfits
  cases he with
  | goOn hhistory hfound hmeta hrow hlog hcleared hsame =>
    have hget : s'.getMetadata = s.getMetadata := congrArg (Option.getD · default) hmeta
    refine ⟨hcalls s' hsame, ?_, ?_, ?_, ?_⟩
    · intro t ht
      rw [hlog] at ht
      exact (congrArg _ hget).trans (h.title t ht)
    · intro enabled henabled
      rw [hlog] at henabled
      exact (congrArg _ hget).trans (h.memory enabled henabled)
    · intro k hk
      change k ∈ s'.getMetadata.described at hk
      show s'.clearedUpTo ≤ k
      rw [hget] at hk
      rw [hcleared]
      exact h.summary k hk
    · intro hlast
      rw [hlog] at hlast
      rcases h.removed hlast with hrun | hgone
      · left
        show ∃ pc ∈ s'.calls.set n pc', pc.found = true
        rw [hsame]
        exact Calls.exists_mem_set hn hfound hrun
      · rcases hhistory with hhistory | hhistory | hpc'
        · exact Or.inr ⟨hrow.trans hgone.session, hmeta.trans hgone.metadata,
            hhistory.trans hgone.history⟩
        · exact Or.inr ⟨hrow.trans hgone.session, hmeta.trans hgone.metadata, hhistory⟩
        · left
          refine ⟨pc', ?_, hpc'⟩
          show pc' ∈ s'.calls.set n pc'
          rw [hsame]
          exact Calls.mem_set_self hn _
  | finish r found clearedUpTo hplain hfound hcleared =>
    obtain ⟨htitleSet, hmemorySet⟩ := sets_none hplain
    refine ⟨hcalls _ rfl, ?_, ?_, ?_, ?_⟩
    · intro t ht
      change List.findSome? titleSet ((r, found) :: s.log) = some t at ht
      rw [findSome?_cons, htitleSet] at ht
      exact h.title t ht
    · intro enabled henabled
      change List.findSome? memorySet ((r, found) :: s.log) = some enabled at henabled
      rw [findSome?_cons, hmemorySet] at henabled
      exact h.memory enabled henabled
    · intro k hk
      change k ∈ s.getMetadata.described at hk
      show clearedUpTo ≤ k
      rcases hcleared with hcleared | hnil
      · rw [← hcleared]
        exact h.summary k hk
      · rw [hnil] at hk
        cases hk
    · intro hlast
      change lastFound ((r, found) :: s.log) = some .removeSession at hlast
      cases found with
      | true =>
        obtain rfl : r = .removeSession := some.inj hlast
        exact absurd (hplain rfl) id
      | false =>
        rcases h.removed hlast with hrun | hgone
        · left
          refine Calls.exists_mem_set hn (fun hpc => ?_) hrun
          exact absurd (hfound hpc) nofun
        · exact Or.inr ⟨hgone.session, hgone.metadata, hgone.history⟩
  | save r metadata clearedUpTo hr htitle hmemory hdescribed =>
    refine ⟨hcalls _ rfl, ?_, ?_, ?_, ?_⟩
    · intro t ht
      change List.findSome? titleSet ((r, true) :: s.log) = some t at ht
      show metadata.title = t
      rw [findSome?_cons] at ht
      cases hset : titleSet (r, true) with
      | some u =>
        rw [hset] at ht htitle
        exact htitle.trans (some.inj ht)
      | none =>
        rw [hset] at ht htitle
        exact htitle.trans (h.title t ht)
    · intro enabled henabled
      change List.findSome? memorySet ((r, true) :: s.log) = some enabled at henabled
      show metadata.memoryEnabled = enabled
      rw [findSome?_cons] at henabled
      cases hset : memorySet (r, true) with
      | some u =>
        rw [hset] at henabled hmemory
        exact hmemory.trans (some.inj henabled)
      | none =>
        rw [hset] at henabled hmemory
        exact hmemory.trans (h.memory enabled henabled)
    · intro k hk
      change k ∈ metadata.described at hk
      show clearedUpTo ≤ k
      rcases hdescribed k hk with ⟨hold, hcleared⟩ | hlater
      · rw [hcleared]
        exact h.summary k hold
      · exact hlater
    · intro hlast
      change lastFound ((r, true) :: s.log) = some .removeSession at hlast
      exact absurd (some.inj hlast) hr
  | delete =>
    refine ⟨hcalls _ rfl, ?_, ?_, ?_, ?_⟩
    · intro t ht
      exact some.inj ht
    · intro enabled henabled
      exact some.inj henabled
    · intro k hk
      cases hk
    · intro _
      exact Or.inr ⟨rfl, rfl, rfl⟩

theorem SessionState.Held.step {a : Action} (h : s.Held) (hG : Timely s a)
    (hs : requestStep env s a = some s') : s'.Held := by
  cases a with
  | call r =>
    obtain rfl := some.inj hs
    refine ⟨?_, h.title, h.memory, h.summary, ?_⟩
    · intro pc hpc
      rcases mem_append.mp hpc with hpc | hpc
      · exact h.fits pc hpc
      · rw [mem_singleton.mp hpc]
        exact r.fits_start
    · intro hlast
      rcases h.removed hlast with ⟨pc, hpc, hfound⟩ | hgone
      · exact Or.inl ⟨pc, mem_append_left _ hpc, hfound⟩
      · exact Or.inr ⟨hgone.session, hgone.metadata, hgone.history⟩
  | push agent message =>
    obtain rfl := some.inj hs
    refine ⟨h.fits, h.title, h.memory, h.summary, ?_⟩
    intro hlast
    rcases h.removed hlast with hrun | hgone
    · exact Or.inl hrun
    · exact Or.inr ⟨hgone.session, hgone.metadata, hgone.history⟩
  | run n ans =>
    obtain ⟨pc, hn, hs⟩ := bind_eq_some_iff.mp hs
    obtain ⟨⟨pc', t⟩, hadv, hs⟩ := bind_eq_some_iff.mp hs
    obtain rfl := some.inj hs
    obtain ⟨he, hfits⟩ :=
      effect_of_advance (h.fits pc (mem_of_getElem? hn)) (hG pc hn) hadv
    exact h.effect hn hfits he

theorem held_start (sessionRow : Bool) (metadataRow : Option StoredMetadata)
    (historyRows : List Message) (agents : List (List Message)) (session : Option ℕ)
    (sessionMessages : Option (List Message)) (nextNumber : ℕ) :
    (SessionState.start sessionRow metadataRow historyRows agents session sessionMessages
      nextNumber).Held where
  fits _ hpc := nomatch hpc
  title _ ht := nomatch ht
  memory _ henabled := nomatch henabled
  summary k _ := Nat.zero_le k
  removed hlast := nomatch hlast

/-- All requests have returned. -/
def SessionState.Finished (s : SessionState) : Prop := ∀ pc ∈ s.calls, pc = .done

instance (s : SessionState) : Decidable s.Finished :=
  inferInstanceAs (Decidable (∀ pc ∈ s.calls, pc = .done))

/-- Once all requests of a run in time have returned, no update is lost. -/
theorem noLostUpdate_of_run {sessionRow : Bool} {metadataRow : Option StoredMetadata}
    {historyRows : List Message} {agents : List (List Message)} {session : Option ℕ}
    {sessionMessages : Option (List Message)} {nextNumber : ℕ}
    {tr : List (SessionState × Action)}
    (hrun : Run (requestStep env) (.start sessionRow metadataRow historyRows agents session
      sessionMessages nextNumber) tr s)
    (hG : Within Timely tr) (hdone : s.Finished) : s.NoLostUpdate := by
  have h : s.Held := hrun.invariant hG (held_start _ _ _ _ _ _ _)
    (fun _ _ _ h hGa hs => h.step hGa hs)
  refine ⟨h.title, h.memory, h.summary, ?_⟩
  intro hlast
  rcases h.removed hlast with ⟨pc, hpc, hfound⟩ | hgone
  · rw [hdone pc hpc] at hfound
    cases hfound
  · exact hgone

namespace Sample

/-- A threshold of 60 %, and one token for each character. -/
def settings : Env :=
  ⟨fun tokens maxCtx => 3 * maxCtx < 5 * tokens, (· * 15 / 100), List.length, fun l _ => l⟩

def answers : Answers := ⟨8192, .ok ['S']⟩

def message (n : ℕ) : Message := ⟨n, .user ['a']⟩

/-- A session in memory with eight messages. -/
def chat : SessionState :=
  .start true none [] [(List.range 8).map message] (some 0) none 8

/-- A session in the store that no agent has been made for. -/
def stored : SessionState := .start true none [message 0] [] none none 1

end Sample

open Requests.Sample in
/-- A title, a toggle and a clear, of which each has begun before one has ended. -/
theorem noLostUpdate_of_run_interleaved : ∃ tr s, Run (requestStep settings) chat tr s ∧
    Within Timely tr ∧ s.Finished ∧ s.log.length = 3 ∧ s.NoLostUpdate := by
  obtain ⟨tr, s, hrun, hG, hdone, hlog⟩ := exists_run (requestStep settings) chat
    ([.call (.updateSessionTitle (some ['A'])), .call (.toggleMemory false), .call .clearHistory] ++
      [.run 1 answers, .run 1 answers, .run 2 answers] ++ List.replicate 4 (.run 0 answers) ++
      [.run 2 answers, .run 1 answers, .run 1 answers] ++ List.replicate 3 (.run 2 answers))
    (fun tr s => Within Timely tr ∧ s.Finished ∧ s.log.length = 3)
    (by decide)
  exact ⟨tr, s, hrun, hG, hdone, hlog, noLostUpdate_of_run hrun hG hdone⟩

open Requests.Sample in
/-- A toggle writes back the title it has read before another request set it; a summary is saved
after the history that it describes was cleared; and the rows of a removed session come back with
the messages that a restore has cached during the removal. -/
theorem updates_lost :
    (∃ tr s, Run (requestStep settings) chat tr s ∧ s.Finished ∧
      s.log = [(.toggleMemory false, true), (.updateSessionTitle (some ['A']), true)] ∧
      s.getMetadata.title = none ∧ ¬ s.NoLostUpdate) ∧
    (∃ tr s, Run (requestStep settings) chat tr s ∧ s.Finished ∧
      s.log = [(.triggerSummarization 6000, true), (.clearHistory, true)] ∧
      0 ∈ s.getMetadata.described ∧ s.clearedUpTo = 8 ∧ ¬ s.NoLostUpdate) ∧
    ∃ tr s, Run (requestStep settings) stored tr s ∧ s.Finished ∧
      s.log = [(.persistHistory, false), (.removeSession, true), (.persistHistory, true)] ∧
      s.historyRows = [message 0] ∧ ¬ s.NoLostUpdate := by
  refine ⟨?_, ?_, ?_⟩
  · obtain ⟨tr, s, hrun, hdone, hlog, htitle⟩ := exists_run (requestStep settings) chat
      ([.call (.updateSessionTitle (some ['A'])), .call (.toggleMemory false)] ++
        List.replicate 3 (.run 1 answers) ++ List.replicate 4 (.run 0 answers) ++ [.run 1 answers])
      (fun tr s => s.Finished ∧
        s.log = [(.toggleMemory false, true), (.updateSessionTitle (some ['A']), true)] ∧
        s.getMetadata.title = none)
      (by decide)
    refine ⟨tr, s, hrun, hdone, hlog, htitle, ?_⟩
    intro h
    have heq := h.title (some ['A']) (by rw [hlog]; decide +kernel)
    rw [htitle] at heq
    cases heq
  · obtain ⟨tr, s, hrun, hdone, hlog, hdescribed, hcleared⟩ := exists_run
      (requestStep settings) chat
      ([.call (.triggerSummarization 6000)] ++ List.replicate 5 (.run 0 answers) ++
        [.call .clearHistory] ++ List.replicate 5 (.run 1 answers) ++ [.run 0 answers])
      (fun tr s => s.Finished ∧
        s.log = [(.triggerSummarization 6000, true), (.clearHistory, true)] ∧
        0 ∈ s.getMetadata.described ∧ s.clearedUpTo = 8)
      (by decide +kernel)
    refine ⟨tr, s, hrun, hdone, hlog, hdescribed, hcleared, ?_⟩
    intro h
    have hle := h.summary 0 hdescribed
    rw [show s.clearedUpTo = 8 from hcleared] at hle
    exact absurd hle (by decide)
  · obtain ⟨tr, s, hrun, hdone, hlog, hrows⟩ := exists_run (requestStep settings) stored
      -- the removal drops the cached messages before the restore caches them
      ([.call .persistHistory] ++ List.replicate 4 (.run 0 answers) ++
        [.call .removeSession] ++ List.replicate 4 (.run 1 answers) ++
        List.replicate 5 (.run 0 answers) ++ [.run 1 answers] ++
        [.call .persistHistory] ++ List.replicate 6 (.run 2 answers))
      (fun _ s => s.Finished ∧
        s.log = [(.persistHistory, false), (.removeSession, true), (.persistHistory, true)] ∧
        s.historyRows = [message 0])
      (by decide +kernel)
    refine ⟨tr, s, hrun, hdone, hlog, hrows, ?_⟩
    intro h
    have hgone := (h.removed (by rw [hlog]; rfl)).history
    rw [hrows] at hgone
    cases hgone

end HeraMind.Agent.Requests
