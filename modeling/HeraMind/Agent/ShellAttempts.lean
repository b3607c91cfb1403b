/-
# What an attempt performs

`read` says how the text of a command is taken apart: it is rejected, a call with its argument
vector, or a sequence of parts that are attempted on their own.  An attempt depends on the text
through it alone.

The first call that is dispatched is known from the text.  Unless it belongs to a subprocess, the
attempt has performed it, whatever comes of the rest.
-/
import HeraMind.Agent.ShellDispatch

namespace HeraMind.Agent.Shell

open List
open HeraMind.Rules (isWhitespace)

variable {cli : Cli} {attempt attempt' : Text → Attempt} {t base part sep : Text}
  {parts outputs : List Text} {argv : Argv} {depth : ℕ}

/-! ## Parts -/

theorem trim_isInfix (t : Text) : trim t <:+: t := ByteText.trim_isInfix isWhitespace t

theorem separator_eq (h : separator t = some sep) : sep = "&&".toList ∨ sep = ";".toList := by
  unfold separator at h
  split at h
  · split at h <;> simp_all
  all_goals simp_all

/-- The separator occurs. -/
theorem isInfix_of_separator (h : separator t = some sep) : sep <:+: t := by
  have hfind : ∀ {p : Text} {i : ℕ}, ByteText.find p t = some i → p <:+: t := fun hp => by
    by_contra hnot
    rw [ByteText.find_eq_none.mpr hnot] at hp
    cases hp
  unfold separator at h
  split at h
  · rename_i hamp hsemi
    split at h
    · cases h
      exact hfind hsemi
    · cases h
      exact hfind hamp
  · rename_i hamp _
    cases h
    exact hfind hamp
  · rename_i hsemi
    cases h
    exact hfind hsemi
  · cases h

/-- A part comes from a piece of the text. -/
theorem exists_piece_of_mem_partsOf (h : part ∈ partsOf sep t) :
    ∃ piece ∈ Pieces.split sep t, part = trim piece := by
  obtain ⟨hmem, -⟩ := mem_filter.mp h
  obtain ⟨piece, hpiece, rfl⟩ := mem_map.mp hmem
  exact ⟨piece, hpiece, rfl⟩

theorem isInfix_of_mem_partsOf (h : part ∈ partsOf sep t) : part <:+: t := by
  obtain ⟨piece, hpiece, rfl⟩ := exists_piece_of_mem_partsOf h
  exact (trim_isInfix piece).trans (Pieces.isInfix_of_mem_split hpiece)

/-! ## Fronts -/

/-- The text from its first character that is not white space. -/
def front (t : Text) : Text := t.dropWhile isWhitespace

theorem front_prefix_front (h : t <+: base) : front t <+: front base := by
  obtain ⟨rest, rfl⟩ := h
  unfold front
  rw [dropWhile_append]
  split
  · rename_i hnil
    rw [List.isEmpty_iff.mp hnil]
    exact nil_prefix
  · exact prefix_append _ _

theorem trim_prefix_front (t : Text) : trim t <+: front t := rdropWhile_prefix isWhitespace _

theorem front_trim_prefix_front (t : Text) : front (trim t) <+: front t := by
  have hfront : front (front t) = front t := dropWhile_idempotent isWhitespace t
  rw [← hfront]
  exact front_prefix_front (trim_prefix_front t)

/-- What the base of a pipeline has of the command. -/
structure IsBase (base t : Text) : Prop where
  isInfix : base <:+: t
  front : front base <+: front t
  noPipe : '|' ∉ base

theorem isBase_splitPipe (t : Text) : IsBase (splitPipe t).1 t := by
  unfold splitPipe
  split
  · rename_i b p hcut
    obtain ⟨rfl, -⟩ := Pieces.of_splitOnce hcut
    have hpipe : '|' ∉ b := fun hmem =>
      Pieces.not_isInfix_of_splitOnce (by simp) hcut ((singleton_infix_iff _ _).mpr hmem)
    exact ⟨(trim_isInfix b).trans (prefix_append _ _).isInfix,
      (front_trim_prefix_front b).trans (front_prefix_front (prefix_append _ _)),
      fun hmem => hpipe ((trim_isInfix b).subset hmem)⟩
  · rename_i hnone
    refine ⟨infix_rfl, prefix_rfl, fun hmem => ?_⟩
    exact Pieces.splitOnce_eq_none.mp hnone ((singleton_infix_iff _ _).mpr hmem)

theorem IsBase.splitMerge (h : IsBase base t) : IsBase (splitMerge base).1 t := by
  unfold Shell.splitMerge
  split
  · rename_i b hsuffix
    have hpre : b <+: base := by
      unfold stripSuffix at hsuffix
      split at hsuffix
      · cases hsuffix
        exact take_prefix _ _
      · cases hsuffix
    exact ⟨(trim_isInfix b).trans (hpre.isInfix.trans h.isInfix),
      (front_trim_prefix_front b).trans ((front_prefix_front hpre).trans h.front),
      fun hmem => h.noPipe (hpre.subset ((trim_isInfix b).subset hmem))⟩
  · exact h

theorem isBase_of_splitTruncationPipeline {mergeStderr : Bool} {stages : TruncationStages}
    (h : splitTruncationPipeline t = some (base, mergeStderr, stages)) : IsBase base t := by
  have hbase : IsBase (splitMerge (splitPipe t).1).1 t := (isBase_splitPipe t).splitMerge
  unfold splitTruncationPipeline at h
  simp only at h
  split at h
  · cases h
  · obtain ⟨stages', -, heq⟩ := Option.map_eq_some_iff.mp h
    cases heq
    exact hbase

/-! ## Readings -/

/-- How the text of a command is taken apart. -/
inductive Reading : Type where
  | rejected
  | call (argv : Argv)
  | sequence (sep : Text) (parts : List Text)

/-- What is left to be dispatched. -/
def readBase (trimmed : Text) : Reading :=
  match separator trimmed with
  | some sep =>
    let parts := partsOf sep trimmed
    if 1 < parts.length ∧ parts.all isHeramind then .sequence sep parts else .rejected
  | none =>
    match argvOf trimmed with
    | some argv => .call argv
    | none => .rejected

def read (command : Text) : Reading :=
  match splitTruncationPipeline (trim command) with
  | some cut => readBase (trim cut.1)
  | none => .rejected

/-- The calls that were performed, and the exit code of the output. -/
def result (r : Attempt) : List Argv × Option (Option ℕ) := (r.1, r.2.map CommandOutput.exitCode)

/-- A call in this process is performed, with its status as the exit code. -/
theorem result_perform (cli : Cli) (argv : Argv) :
    result (cli.perform argv) =
      if cli.inProcess argv then ([argv], some (some (cli.status argv))) else ([], none) := by
  unfold Cli.perform Cli.inProcess
  cases hout : (cli.dispatch argv).output cli.timeout with
  | none => rfl
  | some out =>
    have hcode : out.exitCode = some (cli.status argv) := cli.exitCode_eq argv out hout
    simp [result, hcode]

/-- The results of the parts of a sequence, one after the other. -/
def sequenceResult (stops : Bool) :
    List (List Argv × Option (Option ℕ)) → List Argv × Option (Option ℕ)
  | [] => ([], some (some 0))
  | (performed, none) :: _ => (performed, none)
  | (performed, some code) :: rest =>
    if stops ∧ code.getD 1 ≠ 0 then (performed, some (some (code.getD 1)))
    else (performed ++ (sequenceResult stops rest).1, (sequenceResult stops rest).2)

theorem result_runParts (attempt : Text → Attempt) (sep : Text) (outputs parts : List Text) :
    result (runParts attempt sep outputs parts) =
      sequenceResult (sep = "&&".toList) (parts.map fun part => result (attempt part)) := by
  induction parts generalizing outputs with
  | nil => rfl
  | cons part parts ih =>
    rw [runParts, map_cons]
    rcases hpart : attempt part with ⟨performed, _ | out⟩
    · rfl
    · have hresult : result (performed, some out) = (performed, some out.exitCode) := rfl
      rw [hresult, sequenceResult]
      simp only [decide_eq_true_eq]
      split
      · rfl
      · rw [← ih (outputs ++ [out.stdout])]
        rfl

/-- The truncation changes no exit code. -/
theorem result_truncated (r : Attempt) (mergeStderr : Bool) (stages : TruncationStages) :
    result (r.1, r.2.map fun out => applyTruncationPipeline out mergeStderr stages) = result r := by
  unfold result
  rw [Option.map_map]
  congr 2
  funext out
  exact applyTruncationPipeline_exitCode out mergeStderr stages

/-- An attempt depends on the text through its reading alone. -/
theorem result_tryInProcessDispatch (cli : Cli) (depth : ℕ) (t : Text) :
    result (tryInProcessDispatch cli (depth + 1) t) =
      match read t with
      | .rejected => ([], none)
      | .call argv => result (cli.perform argv)
      | .sequence sep parts =>
        sequenceResult (sep = "&&".toList)
          (parts.map fun part => result (tryInProcessDispatch cli depth part)) := by
  rw [tryInProcessDispatch, read]
  cases hcut : splitTruncationPipeline (trim t) with
  | none => rfl
  | some cut =>
    obtain ⟨base, mergeStderr, stages⟩ := cut
    simp only [result_truncated]
    unfold dispatchInProcess readBase
    cases hsep : separator (trim base) with
    | none =>
      cases hargv : argvOf (trim base) with
      | none => simp [hsep, hargv, result]
      | some argv => simp [hsep, hargv]
    | some sep =>
      by_cases hall : 1 < (partsOf sep (trim base)).length ∧ (partsOf sep (trim base)).all isHeramind
      · simp only [hsep]
        rw [if_pos hall, if_pos hall, result_runParts]
      · simp only [hsep]
        rw [if_neg hall, if_neg hall]
        rfl

/-! ## The first call -/

/-- The first call that an attempt dispatches. -/
def firstArgv : ℕ → Text → Option Argv
  | 0, _ => none
  | depth + 1, command =>
    match read command with
    | .rejected => none
    | .call argv => some argv
    | .sequence _ parts => parts.head?.bind (firstArgv depth)

theorem two_parts_of_read (h : read t = .sequence sep parts) : 1 < parts.length := by
  unfold read at h
  split at h
  · unfold readBase at h
    split at h
    · simp only at h
      split at h
      · rename_i hparts
        cases h
        exact hparts.1
      · cases h
    · split at h <;> cases h
  · cases h

/-- Nothing is performed when no call is dispatched. -/
theorem result_of_firstArgv_eq_none (h : firstArgv depth t = none) :
    result (tryInProcessDispatch cli depth t) = ([], none) := by
  induction depth generalizing t with
  | zero => rfl
  | succ depth ih =>
    rw [result_tryInProcessDispatch]
    rw [firstArgv] at h
    cases hread : read t with
    | rejected => rfl
    | call argv => rw [hread] at h; cases h
    | sequence sep parts =>
      rw [hread] at h
      cases parts with
      | nil => exact absurd (two_parts_of_read hread) (by simp)
      | cons part parts =>
        have hfirst : result (tryInProcessDispatch cli depth part) = ([], none) := ih h
        simp only [map_cons, hfirst, sequenceResult]

/-- The first call that is dispatched decides whether anything is performed. -/
theorem result_of_firstArgv (h : firstArgv depth t = some argv) :
    if cli.inProcess argv then [argv] <+: (result (tryInProcessDispatch cli depth t)).1
    else result (tryInProcessDispatch cli depth t) = ([], none) := by
  induction depth generalizing t with
  | zero => cases h
  | succ depth ih =>
    rw [result_tryInProcessDispatch]
    rw [firstArgv] at h
    cases hread : read t with
    | rejected => rw [hread] at h; cases h
    | call a =>
      rw [hread] at h
      cases h
      simp only [result_perform]
      split <;> simp_all
    | sequence sep parts =>
      rw [hread] at h
      cases parts with
      | nil => exact absurd (two_parts_of_read hread) (by simp)
      | cons part parts =>
        have hfirst := ih h
        simp only [map_cons]
        split at hfirst
        · rcases hpart : result (tryInProcessDispatch cli depth part) with ⟨performed, _ | code⟩
          · rw [hpart] at hfirst
            simp [*, sequenceResult]
          · rw [hpart] at hfirst
            rw [if_pos (by assumption), sequenceResult]
            split
            · exact hfirst
            · exact hfirst.trans (prefix_append _ _)
        · rw [if_neg (by assumption), hfirst, sequenceResult]

end HeraMind.Agent.Shell
