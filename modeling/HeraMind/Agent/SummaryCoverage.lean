/-
# What the summary covers

A summarization counts the messages it has read and stores the number of all messages
summarized so far; the context of a turn drops the messages with an index up to that
number, the message with that index included, and counts them after the depth cap has
dropped the first ones.  The theorem says when no user or assistant message gets lost in
between: when the chain of segments has not been folded, and when the messages that the
two countings disagree about are no user or assistant messages.
-/
import HeraMind.Agent.Summary

namespace HeraMind.Agent

open List Option
open Transition

/-! ## What a run has summarized -/

/-- A message of the user or of the assistant. -/
def AgentMessage.IsChat (m : AgentMessage) : Prop :=
  m.role = "user" ∨ m.role = "assistant"

instance (m : AgentMessage) : Decidable m.IsChat :=
  inferInstanceAs (Decidable (_ ∨ _))

/-- A completed summarization: the messages of its conversation text, by their index in
the history, and the output of the model. -/
structure Summarization where
  indices : List ℕ
  output : Text
  deriving DecidableEq

/-- The summarization that a section completes. -/
def Pc.completes (choice : Choice) : Pc → List Summarization
  | .generating _ d =>
    match choice.reply with
    | .ok output => if choice.saveFails then [] else [⟨d.indices, output⟩]
    | .error _ => []
  | _ => []

/-- The summarizations that a run has completed. -/
def completed : List (Session × Label) → List Summarization
  | [] => []
  | (s, .run n choice) :: tr => (s.calls[n]?.map (Pc.completes choice)).getD [] ++ completed tr
  | _ :: tr => completed tr

/-- The message at an index was in the text of a summarization whose output the summary
still contains. -/
def Covered (done : List Summarization) (summary : Text) (i : ℕ) : Prop :=
  ∃ r ∈ done, i ∈ r.indices ∧ r.output <:+: summary

/-- The section folds the chain of segments into its own output. -/
def Pc.folds : Pc → Bool
  | .generating metadata _ => metadata.conversationSummary.any HeraMind.Agent.folds
  | _ => false

/-- The step folds the chain of segments. -/
def foldsChain (s : Session) : Label → Bool
  | .run n _ => (s.calls[n]?.map Pc.folds).getD false
  | _ => false

/-! ## The loop over the messages -/

theorem summaryLine_of_isChat {m : AgentMessage} (h : m.IsChat) :
    ∃ line, summaryLine m = some line := by
  unfold summaryLine
  rcases h with h | h
  · exact ⟨_, if_pos h⟩
  · rw [if_neg (by rw [h]; decide), if_pos h]
    exact ⟨_, rfl⟩

/-- What is in the conversation text stays in it. -/
theorem indices_prefix_digestLoop (charBudget : ℕ) (l : List (AgentMessage × ℕ)) (d : Digest) :
    d.indices <+: (digestLoop charBudget l d).indices := by
  induction l generalizing d with
  | nil => exact prefix_rfl
  | cons p l ih =>
    obtain ⟨m, i⟩ := p
    unfold digestLoop
    cases summaryLine m with
    | none => exact ih d
    | some line =>
      simp only
      split
      · exact prefix_rfl
      · exact (prefix_append _ _).trans (ih ⟨d.convText ++ line, d.indices ++ [i]⟩)

/-- The loop adds at most as many messages as there are. -/
theorem length_digestLoop_le (charBudget : ℕ) (l : List (AgentMessage × ℕ)) (d : Digest) :
    (digestLoop charBudget l d).indices.length ≤ d.indices.length + l.length := by
  induction l generalizing d with
  | nil => exact Nat.le_refl _
  | cons p l ih =>
    obtain ⟨m, i⟩ := p
    unfold digestLoop
    cases summaryLine m with
    | none =>
      have h := ih d
      simp only [length_cons]
      omega
    | some line =>
      simp only
      split
      · omega
      · have h := ih ⟨d.convText ++ line, d.indices ++ [i]⟩
        simp only [length_append, length_cons, length_nil] at h ⊢
        omega

/-- Of the first messages, as many as the loop has added, every user or assistant message
is in the text: a message that is skipped only moves the count behind. -/
theorem mem_indices_digestLoop (charBudget : ℕ) (l : List (AgentMessage × ℕ)) (d : Digest)
    (j i : ℕ) (m : AgentMessage)
    (hj : d.indices.length + j < (digestLoop charBudget l d).indices.length)
    (hl : l[j]? = some (m, i)) (hm : m.IsChat) :
    i ∈ (digestLoop charBudget l d).indices := by
  induction l generalizing d j with
  | nil => simp at hl
  | cons p l ih =>
    obtain ⟨m', i'⟩ := p
    unfold digestLoop at hj ⊢
    cases hline : summaryLine m' with
    | none =>
      rw [hline] at hj
      simp only at hj ⊢
      cases j with
      | zero =>
        -- a user or assistant message always has a line
        rw [getElem?_cons_zero, some.injEq, Prod.mk.injEq] at hl
        obtain ⟨line, hsome⟩ := summaryLine_of_isChat hm
        rw [← hl.1, hline] at hsome
        cases hsome
      | succ j =>
        rw [getElem?_cons_succ] at hl
        exact ih d j (by omega) hl
    | some line =>
      rw [hline] at hj
      simp only at hj ⊢
      split
      · -- the loop stops here and adds nothing more
        rename_i hbudget
        rw [if_pos hbudget] at hj
        omega
      · rename_i hbudget
        rw [if_neg hbudget] at hj
        cases j with
        | zero =>
          rw [getElem?_cons_zero, some.injEq, Prod.mk.injEq] at hl
          have hadded : i ∈ d.indices ++ [i'] := by
            rw [hl.2]
            exact mem_append_right _ (mem_singleton_self _)
          exact (indices_prefix_digestLoop _ _ _).subset hadded
        | succ j =>
          rw [getElem?_cons_succ] at hl
          refine ih ⟨d.convText ++ line, d.indices ++ [i']⟩ j ?_ hl
          simp only [length_append, length_singleton]
          omega

/-- The entries from an index on. -/
theorem filter_zipIdx {α : Type*} (l : List α) (n k : ℕ) :
    ((l.zipIdx k).filter fun p => n + k ≤ p.2) = (l.drop n).zipIdx (n + k) := by
  induction l generalizing n k with
  | nil => simp
  | cons m l ih =>
    cases n with
    | zero =>
      rw [drop_zero, Nat.zero_add]
      apply filter_eq_self.mpr
      intro p hp
      exact decide_eq_true (le_snd_of_mem_zipIdx hp)
    | succ n =>
      rw [zipIdx_cons, filter_cons_of_neg (by simp), drop_succ_cons]
      have h := ih n (k + 1)
      rw [show n + 1 + k = n + (k + 1) by omega]
      exact h

/-- The digest of a history holds every user and assistant message from the old index to
the new one, and does not reach beyond the history. -/
def Digests (memory : List AgentMessage) (metadata : SessionMetadata) (d : Digest) : Prop :=
  metadata.summaryUpToIndex.getD 0 + d.indices.length ≤ memory.length ∧
    ∀ i m, metadata.summaryUpToIndex.getD 0 ≤ i →
      i < metadata.summaryUpToIndex.getD 0 + d.indices.length →
      memory[i]? = some m → m.IsChat → i ∈ d.indices

variable {d : Digest}

/-- The messages of a part of the history that the loop has counted are in its text. -/
theorem digests_digestLoop (charBudget upTo count : ℕ) (history : List AgentMessage)
    (hcount : upTo + count ≤ history.length)
    (hd : digestLoop charBudget (((history.drop upTo).zipIdx upTo).take count) ⟨[], []⟩ = d) :
    upTo + d.indices.length ≤ history.length ∧
      ∀ i m, upTo ≤ i → i < upTo + d.indices.length → history[i]? = some m → m.IsChat →
        i ∈ d.indices := by
  have hlength : d.indices.length ≤ count := by
    have hle := length_digestLoop_le charBudget
      (((history.drop upTo).zipIdx upTo).take count) ⟨[], []⟩
    rw [hd] at hle
    simp only [length_nil, length_take] at hle
    omega
  refine ⟨by omega, ?_⟩
  intro i m hlow hhigh hi hm
  have hj : i - upTo < count := by omega
  rw [← hd] at hhigh ⊢
  refine mem_indices_digestLoop charBudget _ ⟨[], []⟩ (i - upTo) i m ?_ ?_ hm
  · simp only [length_nil]
    omega
  · rw [getElem?_take_of_lt hj, getElem?_zipIdx, getElem?_drop,
      show upTo + (i - upTo) = i by omega, hi]
    rfl

variable {metadata : SessionMetadata}

theorem digests_of_digest {env : Env} {maxCtx : ℕ} {history : List AgentMessage}
    (h : digest env maxCtx metadata history = some d) : Digests history metadata d := by
  unfold digest at h
  unfold Digests
  have hfilter := filter_zipIdx history (metadata.summaryUpToIndex.getD 0) 0
  simp only [Nat.add_zero] at hfilter
  simp only [hfilter, length_zipIdx, length_drop] at h
  generalize metadata.summaryUpToIndex.getD 0 = upTo at h ⊢
  split at h
  · cases h
  · rename_i hlong
    split at h
    · cases h
    · cases h
      exact digests_digestLoop _ upTo _ history (by omega) rfl

/-! ## What the metadata promises -/

/-- The metadata of a summary keep what they promise about the history: every user and
assistant message before the index is covered. -/
structure Reaches (done : List Summarization) (memory : List AgentMessage)
    (metadata : SessionMetadata) : Prop where
  both : metadata.conversationSummary.isSome = metadata.summaryUpToIndex.isSome
  bound : metadata.summaryUpToIndex.getD 0 ≤ memory.length
  covers : ∀ summary, metadata.conversationSummary = some summary →
    ∀ i m, i < metadata.summaryUpToIndex.getD 0 → memory[i]? = some m → m.IsChat →
      Covered done summary i

theorem reaches_default (done : List Summarization) (memory : List AgentMessage) :
    Reaches done memory default where
  both := rfl
  bound := Nat.zero_le _
  covers := by
    intro summary hsummary
    cases hsummary

variable {done done' : List Summarization}

theorem Covered.mono {summary summary' : Text} {i : ℕ}
    (h : Covered done summary i) (hdone : done ⊆ done') (hsummary : summary <:+: summary') :
    Covered done' summary' i := by
  obtain ⟨r, hr, hi, houtput⟩ := h
  exact ⟨r, hdone hr, hi, houtput.trans hsummary⟩

variable {memory memory' : List AgentMessage}

/-- The promise stays true while messages are appended and summarizations complete. -/
theorem Reaches.mono (h : Reaches done memory metadata) (hdone : done ⊆ done')
    (hmemory : memory <+: memory') : Reaches done' memory' metadata where
  both := h.both
  bound := Nat.le_trans h.bound hmemory.length_le
  covers := by
    intro summary hsummary i m hi hm hchat
    have hlt : i < memory.length := Nat.lt_of_lt_of_le hi h.bound
    have hold : memory[i]? = some m := by
      obtain ⟨rest, rfl⟩ := hmemory
      rwa [getElem?_append_left hlt] at hm
    exact (h.covers summary hsummary i m hi hold hchat).mono hdone infix_rfl

theorem Digests.mono (h : Digests memory metadata d) (hmemory : memory <+: memory') :
    Digests memory' metadata d := by
  refine ⟨Nat.le_trans h.1 hmemory.length_le, ?_⟩
  intro i m hlow hhigh hm hchat
  have hlt : i < memory.length := Nat.lt_of_lt_of_le hhigh h.1
  refine h.2 i m hlow hhigh ?_ hchat
  obtain ⟨rest, rfl⟩ := hmemory
  rwa [getElem?_append_left hlt] at hm

/-- Without folding, the new summary contains the old one and the new output. -/
theorem newSummary_of_not_folds {existing : Option Text} (output : Text)
    (h : existing.any folds = false) :
    output <:+: newSummary existing output ∧
      ∀ old, existing = some old → old <:+: newSummary existing output := by
  cases existing with
  | none =>
    refine ⟨infix_rfl, ?_⟩
    intro old hold
    cases hold
  | some existing =>
    rw [any_some] at h
    unfold newSummary
    simp only [h]
    refine ⟨(suffix_append _ _).isInfix, ?_⟩
    intro old hold
    cases hold
    apply List.IsPrefix.isInfix
    simp only [append_assoc]
    exact prefix_append _ _

/-- What a summarization saves keeps the promise, unless it folds the chain. -/
theorem reaches_summarized {done : List Summarization} {memory : List AgentMessage}
    {output : Text} (h : Reaches done memory metadata) (hd : Digests memory metadata d)
    (hfold : metadata.conversationSummary.any folds = false) :
    Reaches (⟨d.indices, output⟩ :: done) memory (summarized metadata d output) where
  both := rfl
  bound := hd.1
  covers := by
    intro summary hsummary i m hi hm hchat
    obtain ⟨houtput, hold⟩ := newSummary_of_not_folds output hfold
    have hnew : newSummary metadata.conversationSummary output = summary :=
      some.inj hsummary
    rw [hnew] at houtput hold
    have hi' : i < metadata.summaryUpToIndex.getD 0 + d.indices.length := hi
    by_cases hlow : metadata.summaryUpToIndex.getD 0 ≤ i
    · exact ⟨⟨d.indices, output⟩, mem_cons_self, hd.2 i m hlow hi' hm hchat, houtput⟩
    · -- an older message, covered by the older summary
      cases hexisting : metadata.conversationSummary with
      | none =>
        have hnone : metadata.summaryUpToIndex = none := by
          have hboth := h.both
          rw [hexisting] at hboth
          exact isNone_iff_eq_none.mp (by simpa using hboth.symm)
        rw [hnone, getD_none] at hlow
        omega
      | some old =>
        have hcovered := h.covers old hexisting i m (by omega) hm hchat
        exact hcovered.mono (subset_cons_self _ _) (hold old hexisting)

/-! ## Runs -/

/-- The metadata that a call has read keep their promise, and so does its digest. -/
def Pc.Sound (done : List Summarization) (memory : List AgentMessage) : Pc → Prop
  | .pushMessage _ metadata | .buildContext _ _ metadata | .readHistory _ metadata =>
    Reaches done memory metadata
  | .generating metadata d => Reaches done memory metadata ∧ Digests memory metadata d
  | _ => True

theorem Pc.Sound.mono
    {pc : Pc} (h : pc.Sound done memory) (hdone : done ⊆ done') (hmemory : memory <+: memory') :
    pc.Sound done' memory' := by
  cases pc with
  | pushMessage userMessage metadata | buildContext userMessage multimodal metadata
  | readHistory maxCtx metadata => exact Reaches.mono h hdone hmemory
  | generating metadata d => exact ⟨h.1.mono hdone hmemory, h.2.mono hmemory⟩
  | _ => trivial

/-- A section keeps the promises of the metadata and of its own call. -/
theorem sound_of_advance {env : Env} {choice : Choice} {s s' : Session} {pc pc' : Pc}
    {done : List Summarization} (hs : Reaches done s.memory s.metadata)
    (hpc : pc.Sound done s.memory) (hfold : pc.folds = false)
    (hadv : pc.advance env choice s = some (pc', s')) :
    s.memory <+: s'.memory ∧ s'.calls = s.calls ∧
      Reaches (pc.completes choice ++ done) s'.memory s'.metadata ∧
      pc'.Sound (pc.completes choice ++ done) s'.memory := by
  -- a failed read gives the default metadata, which promise nothing
  have hread : Reaches done s.memory (s.getMetadata choice) := by
    unfold Session.getMetadata
    split
    · exact reaches_default _ _
    · exact hs
  cases pc with
  | readMetadata userMessage multimodal =>
    cases multimodal <;> cases hadv <;> exact ⟨prefix_rfl, rfl, hs, hread⟩
  | pushMessage userMessage metadata =>
    cases hadv
    have hgrow : s.memory <+: s.memory ++ [.user userMessage] := prefix_append _ _
    exact ⟨hgrow, rfl, hs.mono (List.Subset.refl _) hgrow,
      Reaches.mono hpc (List.Subset.refl _) hgrow⟩
  | buildContext userMessage multimodal metadata =>
    cases multimodal <;> cases hadv <;> exact ⟨prefix_rfl, rfl, hs, trivial⟩
  | pushUserMessage userMessage context =>
    cases hadv
    have hgrow : s.memory <+: s.memory ++ [.user userMessage] := prefix_append _ _
    exact ⟨hgrow, rfl, hs.mono (List.Subset.refl _) hgrow, trivial⟩
  | streaming context => cases hadv
  | checkUsage promptTokens =>
    simp only [Pc.advance] at hadv
    split at hadv <;> cases hadv <;> exact ⟨prefix_rfl, rfl, hs, trivial⟩
  | readSummary maxCtx =>
    cases hadv
    exact ⟨prefix_rfl, rfl, hs, hread⟩
  | readHistory maxCtx metadata =>
    simp only [Pc.advance] at hadv
    split at hadv
    · rename_i d hd
      cases hadv
      exact ⟨prefix_rfl, rfl, hs, hpc, digests_of_digest hd⟩
    · cases hadv
      exact ⟨prefix_rfl, rfl, hs, trivial⟩
  | generating metadata d =>
    obtain ⟨hreaches, hdigests⟩ := hpc
    unfold Pc.completes
    simp only [Pc.advance] at hadv
    cases hreply : choice.reply with
    | error e =>
      rw [hreply] at hadv
      cases hadv
      exact ⟨prefix_rfl, rfl, hs, trivial⟩
    | ok output =>
      rw [hreply] at hadv
      simp only at hadv ⊢
      split at hadv
      · -- the summary is not saved, and the metadata stay
        rename_i hsave
        cases hadv
        rw [if_pos hsave]
        exact ⟨prefix_rfl, rfl, hs, trivial⟩
      · rename_i hsave
        cases hadv
        rw [if_neg hsave]
        exact ⟨prefix_rfl, rfl, reaches_summarized hreaches hdigests hfold, trivial⟩
  | done => cases hadv

/-- A section of call `n`, as a step of the session. -/
theorem step_run {env : Env} {s s' : Session} {n : ℕ} {choice : Choice}
    (h : step env s (.run n choice) = some s') :
    ∃ pc pc' t, s.calls[n]? = some pc ∧ pc.advance env choice s = some (pc', t) ∧
      s' = { t with calls := t.calls.set n pc' } := by
  simp only [step] at h
  split at h
  · cases h
  · rename_i pc hn
    split at h
    · cases h
    · rename_i pc' t hadv
      cases h
      exact ⟨pc, pc', t, hn, hadv, rfl⟩

/-- The stored metadata and those that the calls have read keep what they promise. -/
structure Sound (tr : List (Session × Label)) (s : Session) : Prop where
  metadata : Reaches (completed tr) s.memory s.metadata
  calls : ∀ (n : ℕ) (pc : Pc), s.calls[n]? = some pc → pc.Sound (completed tr) s.memory

theorem Sound.step {env : Env} {tr : List (Session × Label)} {s s' : Session} {a : Label}
    (h : Sound tr s) (hfold : foldsChain s a = false) (hs : step env s a = some s') :
    Sound ((s, a) :: tr) s' := by
  cases a with
  | call c =>
    cases hs
    refine ⟨h.metadata, ?_⟩
    intro n pc hn
    rw [getElem?_append] at hn
    split at hn
    · exact h.calls n pc hn
    · rw [getElem?_singleton] at hn
      split at hn
      · cases hn
        cases c <;> trivial
      · cases hn
  | push message =>
    cases hs
    have hgrow : s.memory <+: s.memory ++ [message] := prefix_append _ _
    refine ⟨h.metadata.mono (List.Subset.refl _) hgrow, ?_⟩
    intro n pc hn
    exact (h.calls n pc hn).mono (List.Subset.refl _) hgrow
  | run n choice =>
    obtain ⟨pc, pc', t, hn, hadv, rfl⟩ := step_run hs
    have hnofold : pc.folds = false := by
      simpa [foldsChain, hn] using hfold
    have hcompleted : completed ((s, .run n choice) :: tr) =
        pc.completes choice ++ completed tr := by
      simp [completed, hn]
    obtain ⟨hgrow, hcalls, hmetadata, hpc⟩ :=
      sound_of_advance h.metadata (h.calls n pc hn) hnofold hadv
    constructor
    · rw [hcompleted]
      exact hmetadata
    · -- the other calls keep their promises, since the history only grows
      intro m q hm
      rw [hcompleted]
      rw [hcalls, getElem?_set] at hm
      split at hm
      · split at hm
        · cases hm
          exact hpc
        · cases hm
      · exact (h.calls m q hm).mono (subset_append_right _ _) hgrow

theorem sound_of_run {env : Env} {memory : List AgentMessage} {tr : List (Session × Label)}
    {s : Session} (hrun : Run (step env) (.fresh memory) tr s)
    (hfold : Within (fun s a => foldsChain s a = false) tr) : Sound tr s := by
  refine hrun.traceInvariant (I := Sound) hfold ?_ ?_
  · refine ⟨reaches_default _ _, ?_⟩
    intro n pc hn
    simp [Session.fresh] at hn
  · intro tr s a s' _ hI hG hs
    exact hI.step hG hs

/-! ## The first context of a turn -/

theorem applyChatHistoryDepth_eq (depth : ℕ) (history : List AgentMessage) :
    applyChatHistoryDepth depth history = history.drop (droppedByDepth depth history) := by
  unfold applyChatHistoryDepth droppedByDepth
  cases cutIdx depth 0 history.zipIdx.reverse with
  | none => rfl
  | some idx =>
    by_cases hpos : 0 < idx
    · simp [hpos]
    · have hzero : idx = 0 := by omega
      simp [hzero]

theorem earlierHistory_prefix (memory : List AgentMessage) (userMessage : Text)
    (multimodal : Bool) : earlierHistory memory userMessage multimodal <+: memory := by
  unfold earlierHistory
  split
  · exact prefix_rfl
  · split
    · exact dropLast_prefix memory
    · exact prefix_rfl

/-- The two countings agree: when the cap drops the first `k` messages and the summary
reaches up to `u`, no user or assistant message has an index from `max k u` to `k + u`. -/
def Gapless (metadata : SessionMetadata) (depth : ℕ) (history : List AgentMessage) : Prop :=
  match metadata.conversationSummary, metadata.summaryUpToIndex with
  | some _, some u =>
    ∀ p ∈ history.zipIdx, max (droppedByDepth depth history) u ≤ p.2 →
      p.2 ≤ droppedByDepth depth history + u → ¬ p.1.IsChat
  | _, _ => True

instance (metadata : SessionMetadata) (depth : ℕ) (history : List AgentMessage) :
    Decidable (Gapless metadata depth history) := by
  unfold Gapless
  split <;> infer_instance

/-- A message of the history is among those that the context is built from. -/
def PassedOn (metadata : SessionMetadata) (depth : ℕ) (history : List AgentMessage)
    (m : AgentMessage) (i : ℕ) : Prop :=
  ∃ p ∈ passedOn metadata.conversationSummary metadata.summaryUpToIndex
      (applyChatHistoryDepth depth history),
    p.1 = m ∧ droppedByDepth depth history + p.2 = i

/-- A message that the cap keeps is passed on, unless the index filter drops it. -/
theorem passedOn_of_lt {depth : ℕ} {history : List AgentMessage} {m : AgentMessage} {i : ℕ}
    (hkept : droppedByDepth depth history ≤ i) (hi : history[i]? = some m)
    (hindex : ∀ summary u, metadata.conversationSummary = some summary →
      metadata.summaryUpToIndex = some u → u < i - droppedByDepth depth history) :
    PassedOn metadata depth history m i := by
  have hcapped : (m, i - droppedByDepth depth history) ∈
      (applyChatHistoryDepth depth history).zipIdx := by
    rw [applyChatHistoryDepth_eq, mk_mem_zipIdx_iff_getElem?, getElem?_drop]
    rw [show droppedByDepth depth history + (i - droppedByDepth depth history) = i by omega]
    exact hi
  refine ⟨(m, i - droppedByDepth depth history), ?_, rfl, by simp only; omega⟩
  unfold passedOn
  split
  · rename_i summary u hsummary hu
    rw [mem_filter]
    exact ⟨hcapped, decide_eq_true (hindex summary u hsummary hu)⟩
  · exact hcapped

/-- In a run without folding, when a turn builds its first context and the two countings
agree, every user and assistant message that the cap keeps is passed on, or was summarized
by an output that the summary of the context still contains. -/
theorem passedOn_or_covered {env : Env} {memory : List AgentMessage}
    {tr : List (Session × Label)} {s : Session} {n : ℕ} {userMessage : Text}
    {multimodal : Bool} {metadata : SessionMetadata} {depth : ℕ}
    (hrun : Run (step env) (.fresh memory) tr s)
    (hfold : Within (fun s a => foldsChain s a = false) tr)
    (hn : s.calls[n]? = some (.buildContext userMessage multimodal metadata))
    (hgap : Gapless metadata depth (earlierHistory s.memory userMessage multimodal)) :
    ∀ i m, droppedByDepth depth (earlierHistory s.memory userMessage multimodal) ≤ i →
      (earlierHistory s.memory userMessage multimodal)[i]? = some m → m.IsChat →
      PassedOn metadata depth (earlierHistory s.memory userMessage multimodal) m i ∨
        ∃ summary, metadata.conversationSummary = some summary ∧
          Covered (completed tr) summary i := by
  intro i m hkept hi hchat
  have hreaches : Reaches (completed tr) s.memory metadata := (sound_of_run hrun hfold).calls n _ hn
  obtain ⟨rest, hprefix⟩ := earlierHistory_prefix s.memory userMessage multimodal
  generalize earlierHistory s.memory userMessage multimodal = history at *
  have hmemory : s.memory[i]? = some m := by
    have hlt : i < history.length := (List.getElem?_eq_some_iff.mp hi).1
    rw [← hprefix, getElem?_append_left hlt, hi]
  cases hsummary : metadata.conversationSummary with
  | none =>
    refine Or.inl (passedOn_of_lt hkept hi ?_)
    intro summary u hsome
    rw [hsummary] at hsome
    cases hsome
  | some summary =>
    obtain ⟨u, hu⟩ : ∃ u, metadata.summaryUpToIndex = some u := by
      have hboth := hreaches.both
      rw [hsummary] at hboth
      exact isSome_iff_exists.mp hboth.symm
    by_cases hpassed : u < i - droppedByDepth depth history
    · refine Or.inl (passedOn_of_lt hkept hi ?_)
      intro summary' u' _ hu'
      rw [hu] at hu'
      cases hu'
      exact hpassed
    · by_cases hold : i < u
      · have hcovered := hreaches.covers summary hsummary i m (by rwa [hu]) hmemory hchat
        exact Or.inr ⟨summary, rfl, hcovered⟩
      · -- neither summarized nor passed on: in the gap between the countings
        rw [Gapless, hsummary, hu] at hgap
        have hmem : (m, i) ∈ history.zipIdx := mk_mem_zipIdx_iff_getElem?.mpr hi
        exact absurd hchat (hgap (m, i) hmem (by simp only; omega) (by simp only; omega))

/-! ## Samples -/

namespace Sample

/-- Everything exceeds the threshold, and the context is what is passed on. -/
def env : Env where
  exceedsThreshold := fun _ _ => true
  contextShare := fun _ => 0
  estimateTokens := fun _ => 0
  buildContextWindow := fun messages _ => messages

def assistant (content : Text) : AgentMessage := ⟨"assistant", content, none⟩

def tool (content : Text) : AgentMessage := ⟨"tool", content, some "get".toList⟩

/-- The next section of call `n`, with a depth of 50 and the reply "s". -/
def run (n : ℕ) : Label := .run n ⟨false, false, 50, 100, 100, .ok "s".toList⟩

/-- A summarization, and a turn up to where it builds its context. -/
def labels : List Label :=
  [.call (.triggerSummarization 100), run 0, run 0, run 0, run 0,
    .call (.turn "next".toList false), run 1, run 1]

/-- The turn after a summary of two messages. -/
def turn : Pc :=
  .buildContext "next".toList false ⟨some "s".toList, some 2⟩

end Sample

/-- The summary reaches up to a tool message: nothing is lost. -/
theorem passedOn_or_covered_tool :
    ∃ tr s, Run (step Sample.env) (.fresh [.user "a".toList, Sample.assistant "b".toList,
        Sample.tool "t".toList, Sample.assistant "c".toList]) tr s ∧
      s.calls[1]? = some Sample.turn ∧
      ∀ i m, droppedByDepth 50 (earlierHistory s.memory "next".toList false) ≤ i →
        (earlierHistory s.memory "next".toList false)[i]? = some m → m.IsChat →
        PassedOn ⟨some "s".toList, some 2⟩ 50
            (earlierHistory s.memory "next".toList false) m i ∨
          ∃ summary, some "s".toList = some summary ∧ Covered (completed tr) summary i := by
  obtain ⟨tr, s, hrun, hfold, hn, hgap⟩ := exists_run (step Sample.env) (.fresh
      [.user "a".toList, Sample.assistant "b".toList, Sample.tool "t".toList,
        Sample.assistant "c".toList]) Sample.labels
    (fun tr s => Within (fun s a => foldsChain s a = false) tr ∧
      s.calls[1]? = some Sample.turn ∧
      Gapless ⟨some "s".toList, some 2⟩ 50 (earlierHistory s.memory "next".toList false))
    (by decide)
  exact ⟨tr, s, hrun, hn, passedOn_or_covered hrun hfold hn hgap⟩

/-- Of four messages the first two are summarized; the third one is dropped all the same. -/
theorem third_message_lost :
    ∃ tr s, Run (step Sample.env) (.fresh [.user "a".toList, Sample.assistant "b".toList,
        .user "c".toList, Sample.assistant "d".toList]) tr s ∧
      s.calls[1]? = some Sample.turn ∧
      droppedByDepth 50 (earlierHistory s.memory "next".toList false) = 0 ∧
      (earlierHistory s.memory "next".toList false)[2]? = some (.user "c".toList) ∧
      ¬ PassedOn ⟨some "s".toList, some 2⟩ 50
          (earlierHistory s.memory "next".toList false) (.user "c".toList) 2 ∧
      ¬ ∃ summary, some "s".toList = some summary ∧ Covered (completed tr) summary 2 := by
  obtain ⟨tr, s, hrun, hn, hdepth, hthird, hpassed, hcompleted⟩ := exists_run (step Sample.env)
    (.fresh [.user "a".toList, Sample.assistant "b".toList, .user "c".toList,
        Sample.assistant "d".toList]) Sample.labels
    (fun tr s => s.calls[1]? = some Sample.turn ∧
      droppedByDepth 50 (earlierHistory s.memory "next".toList false) = 0 ∧
      (earlierHistory s.memory "next".toList false)[2]? = some (AgentMessage.user "c".toList) ∧
      (¬ ∃ p ∈ passedOn (some "s".toList) (some 2)
          (applyChatHistoryDepth 50 (earlierHistory s.memory "next".toList false)),
        p.1 = AgentMessage.user "c".toList ∧
          droppedByDepth 50 (earlierHistory s.memory "next".toList false) + p.2 = 2) ∧
      completed tr = [⟨[0, 1], "s".toList⟩]) (by decide +kernel)
  refine ⟨tr, s, hrun, hn, hdepth, hthird, hpassed, ?_⟩
  rintro ⟨summary, -, r, hr, hi, -⟩
  rw [hcompleted, mem_singleton] at hr
  subst hr
  simp at hi

end HeraMind.Agent
