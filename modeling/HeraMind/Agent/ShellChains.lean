/-
# Chains of calls

A command is a chain when it is read as one call, or as a sequence of calls that are joined by `&&`.
An attempt at a chain whose calls belong to this process does what a shell does with the calls.

The arguments of the calls that are performed are made of the characters of the command, in their
order, and none has a `;`.  So where there is no `;` in the text, an attempt that does not give up
has read the command as a chain.
-/
import Mathlib.Data.List.ReduceOption
import HeraMind.Agent.ShellAttempts

namespace HeraMind.Agent.Shell

open List
open HeraMind.Rules (isWhitespace)

variable {cli : Cli} {t base part sep s : Text} {parts : List Text} {argv : Argv}
  {argvs performed : List Argv} {code : Option ℕ} {depth : ℕ} {c : Char}

/-! ## The characters of a call -/

/-- Where the tokenizer is in a text. -/
structure Mode where
  inSingle : Bool
  inDouble : Bool
  /-- Behind a backslash. -/
  escaped : Bool

namespace Mode

/-- Outside of quotes. -/
def bare : Mode := ⟨false, false, false⟩

/-- What a character gives to the tokens, with `none` for a blank between them, and where the
tokenizer is behind it. -/
def scan (m : Mode) (c : Char) : List (Option Char) × Mode :=
  if m.escaped then ([some c], { m with escaped := false })
  else if c = '\\' ∧ ¬ m.inSingle then ([], { m with escaped := true })
  else if c = '\'' ∧ ¬ m.inDouble then ([], { m with inSingle := !m.inSingle })
  else if c = '"' ∧ ¬ m.inSingle then ([], { m with inDouble := !m.inDouble })
  else if isWhitespace c ∧ ¬ m.inSingle ∧ ¬ m.inDouble then ([none], m)
  else ([some c], m)

/-- What a text gives to the tokens. -/
def marks (m : Mode) : Text → List (Option Char)
  | [] => []
  | c :: t => (m.scan c).1 ++ (m.scan c).2.marks t

/-- Where the tokenizer is behind a text. -/
def behind (m : Mode) : Text → Mode
  | [] => m
  | c :: t => (m.scan c).2.behind t

theorem marks_append (m : Mode) (t u : Text) :
    m.marks (t ++ u) = m.marks t ++ (m.behind t).marks u := by
  induction t generalizing m with
  | nil => rfl
  | cons c t ih => rw [cons_append, marks, ih, marks, behind, append_assoc]

theorem behind_append (m : Mode) (t u : Text) : m.behind (t ++ u) = (m.behind t).behind u := by
  induction t generalizing m with
  | nil => rfl
  | cons c t ih => exact ih _

/-- The characters that reach the tokens are characters of the text, in their order. -/
theorem reduceOption_marks_sublist (m : Mode) (t : Text) : (m.marks t).reduceOption <+ t := by
  induction t generalizing m with
  | nil => exact nil_sublist _
  | cons c t ih =>
    have hc : (m.scan c).1.reduceOption <+ [c] := by
      unfold scan
      split_ifs <;> simp [reduceOption]
    rw [marks, reduceOption_append]
    exact hc.append (ih _)

end Mode

/-- The tokens, with the characters of the current one in reverse order. -/
def grouped (current : Text) : List (Option Char) → List Text
  | [] => if current = [] then [] else [current.reverse]
  | some c :: ms => grouped (c :: current) ms
  | none :: ms => if current = [] then grouped [] ms else current.reverse :: grouped [] ms

theorem tokens_eq (inSingle inDouble : Bool) (current t : Text) :
    tokens inSingle inDouble current t =
      if (Mode.behind ⟨inSingle, inDouble, false⟩ t).inSingle ∨
          (Mode.behind ⟨inSingle, inDouble, false⟩ t).inDouble then .error "unbalanced quotes"
      else .ok (grouped current (Mode.marks ⟨inSingle, inDouble, false⟩ t)) := by
  -- the modes of a character are those of the cases
  have hscan : ∀ (inSingle inDouble : Bool) (t : Text) (d : Char),
      Mode.behind ⟨inSingle, inDouble, false⟩ (d :: t) =
          (Mode.scan ⟨inSingle, inDouble, false⟩ d).2.behind t ∧
        Mode.marks ⟨inSingle, inDouble, false⟩ (d :: t) =
          (Mode.scan ⟨inSingle, inDouble, false⟩ d).1 ++
            (Mode.scan ⟨inSingle, inDouble, false⟩ d).2.marks t := fun _ _ _ _ => ⟨rfl, rfl⟩
  simp only [Mode.scan, Bool.false_eq_true, if_false] at hscan
  induction inSingle, inDouble, current, t using tokens.induct with
  | case1 inSingle inDouble current hquote =>
    rw [tokens.eq_def]
    exact (if_pos hquote).trans (if_pos hquote).symm
  | case2 inSingle inDouble current hquote =>
    rw [tokens.eq_def]
    exact (if_neg hquote).trans (if_neg hquote).symm
  | case3 inSingle inDouble current d hd next t ih =>
    rw [tokens.eq_def]
    simp only [hscan, if_pos hd, ih]
    rfl
  | case4 inSingle inDouble current d hd ih =>
    rw [tokens.eq_def]
    simp only [hscan, if_pos hd, ih]
    rfl
  | case5 inSingle inDouble current d t hd hsingle ih =>
    rw [tokens.eq_def]
    simp only [hscan, if_neg hd, if_pos hsingle, ih]
    rfl
  | case6 inSingle inDouble current d t hd hsingle hdouble ih =>
    rw [tokens.eq_def]
    simp only [hscan, if_neg hd, if_neg hsingle, if_pos hdouble, ih]
    rfl
  | case7 inSingle inDouble d t hd hsingle hdouble hblank ih =>
    rw [tokens.eq_def]
    simp only [hscan, if_neg hd, if_neg hsingle, if_neg hdouble, if_pos hblank, if_true, ih]
    rfl
  | case8 inSingle inDouble current d t hd hsingle hdouble hblank hne ih =>
    rw [tokens.eq_def]
    simp only [hscan, if_neg hd, if_neg hsingle, if_neg hdouble, if_pos hblank, if_neg hne, ih]
    rw [singleton_append, grouped, if_neg hne]
    split <;> rfl
  | case9 inSingle inDouble current d t hd hsingle hdouble hblank ih =>
    rw [tokens.eq_def]
    simp only [hscan, if_neg hd, if_neg hsingle, if_neg hdouble, if_neg hblank, ih]
    rfl

theorem tokens_eq_ok {toks : List Text} :
    tokens false false [] t = .ok toks ↔ ((Mode.bare.behind t).inSingle = false ∧
      (Mode.bare.behind t).inDouble = false) ∧ toks = grouped [] (Mode.bare.marks t) := by
  rw [tokens_eq, show (⟨false, false, false⟩ : Mode) = .bare from rfl]
  split
  · rename_i hquote
    refine iff_of_false (fun h => nomatch h) fun h => ?_
    simp [h.1] at hquote
  · rename_i hquote
    rw [Except.ok.injEq, eq_comm]
    exact (and_iff_right (by simpa using hquote)).symm

/-- The characters of the tokens, one token after the other. -/
theorem flatten_grouped (current : Text) (ms : List (Option Char)) :
    (grouped current ms).flatten = current.reverse ++ ms.reduceOption := by
  induction ms generalizing current with
  | nil =>
    rw [grouped, reduceOption_nil]
    split
    · rename_i hnil
      rw [hnil]
      rfl
    · simp
  | cons m ms ih =>
    cases m with
    | some c => simp [grouped, ih, reduceOption_cons_of_some]
    | none =>
      rw [grouped, reduceOption_cons_of_none]
      split
      · rename_i hnil
        rw [hnil, ih]
      · rw [flatten_cons, ih, reverse_nil, nil_append]

/-- No token is empty. -/
theorem nil_not_mem_grouped (current : Text) (ms : List (Option Char)) : [] ∉ grouped current ms := by
  induction ms generalizing current with
  | nil =>
    rw [grouped]
    split <;> simp_all
  | cons m ms ih =>
    cases m with
    | some c => exact ih _
    | none =>
      rw [grouped]
      split
      · exact ih _
      · simp_all

/-- What a call is read from. -/
theorem argvOf_eq_some : argvOf t = some argv ↔ isHeramind t = true ∧
    hasShellConstruct false false '\x00' t = false ∧
    tokens false false [] t = .ok argv ∧ argv.head? = some "heramind".toList := by
  unfold argvOf tokenizeHeramindCommand
  generalize "heramind".toList = name
  by_cases hname : isHeramind t = true
  · cases hconstruct : hasShellConstruct false false '\x00' t with
    | true => simp [hname]
    | false =>
      cases htokens : tokens false false [] t with
      | error e => simp [hname]
      | ok toks =>
        by_cases hhead : toks.head? = some name
        · simp only [hname, Bool.false_eq_true, if_false, hhead, if_true, true_and,
            Option.some.injEq, Except.ok.injEq]
          constructor
          · rintro rfl
            exact ⟨rfl, hhead⟩
          · exact fun h => h.1
        · simp only [hname, Bool.false_eq_true, if_false, if_true, if_neg hhead, true_and,
            Except.ok.injEq]
          constructor
          · exact fun h => nomatch h
          · rintro ⟨rfl, h⟩
            exact absurd h hhead
  · simp [hname]

/-- The arguments are made of the characters of the command. -/
theorem flatten_sublist_of_argvOf (h : argvOf t = some argv) : argv.flatten.Sublist t := by
  obtain ⟨-, -, htokens, -⟩ := argvOf_eq_some.mp h
  obtain ⟨-, rfl⟩ := tokens_eq_ok.mp htokens
  rw [flatten_grouped]
  exact Mode.reduceOption_marks_sublist _ _

/-- The redirection that is cut off is missing in what is left. -/
theorem count_of_splitTruncationPipeline {mergeStderr : Bool} {stages : TruncationStages}
    (h : splitTruncationPipeline t = some (base, mergeStderr, stages)) (hpipe : '|' ∉ t)
    (hmerge : "2>&1".toList <:+ t) : base.count '>' < t.count '>' := by
  have hnone : Pieces.splitOnce ['|'] t = none :=
    Pieces.splitOnce_eq_none.mpr fun hocc => hpipe ((singleton_infix_iff _ _).mp hocc)
  obtain ⟨b, rfl⟩ := id hmerge
  have hmerged : splitMerge (b ++ "2>&1".toList) = (trim b, true) := by
    unfold splitMerge stripSuffix
    rw [if_pos hmerge, length_append, Nat.add_sub_cancel, take_left]
  unfold splitTruncationPipeline splitPipe at h
  rw [hnone] at h
  simp only [hmerged] at h
  split at h
  · cases h
  · obtain ⟨_, -, heq⟩ := Option.map_eq_some_iff.mp h
    cases heq
    rw [count_append]
    exact Nat.lt_of_le_of_lt ((trim_isInfix b).sublist.count_le '>')
      (Nat.lt_add_of_pos_right (by decide))

/-- A command is rejected, or read after its truncation pipeline is cut off. -/
theorem exists_base (t : Text) :
    read t = .rejected ∨
      ∃ base, base <:+: t ∧ base <+: front t ∧ '|' ∉ base ∧ read t = readBase base ∧
        ('|' ∉ t → "2>&1".toList <:+ trim t → base.count '>' < t.count '>') := by
  unfold read
  cases hcut : splitTruncationPipeline (trim t) with
  | none => exact Or.inl rfl
  | some cut =>
    obtain ⟨base, mergeStderr, stages⟩ := cut
    have hbase := isBase_of_splitTruncationPipeline hcut
    refine Or.inr ⟨trim base, ?_, ?_, ?_, rfl, fun hpipe hmerge => ?_⟩
    · exact (trim_isInfix base).trans (hbase.isInfix.trans (trim_isInfix t))
    · exact (trim_prefix_front base).trans (hbase.front.trans (front_trim_prefix_front t))
    · exact fun hmem => hbase.noPipe ((trim_isInfix base).subset hmem)
    · have hlt := count_of_splitTruncationPipeline hcut
        (fun hmem => hpipe ((trim_isInfix t).subset hmem)) hmerge
      exact Nat.lt_of_le_of_lt ((trim_isInfix base).sublist.count_le '>')
        (Nat.lt_of_lt_of_le hlt ((trim_isInfix t).sublist.count_le '>'))

theorem separator_eq_none (h : separator t = none) : ';' ∉ t := by
  intro hmem
  unfold separator at h
  split at h
  · split at h <;> cases h
  · cases h
  · cases h
  · rename_i hsemi
    exact ByteText.find_eq_none.mp hsemi ((singleton_infix_iff _ _).mpr hmem)

/-- What a call and a sequence are read from. -/
theorem of_readBase (base : Text) :
    match readBase base with
    | .rejected => True
    | .call argv => separator base = none ∧ argvOf base = some argv
    | .sequence sep parts => separator base = some sep ∧ parts = partsOf sep base := by
  unfold readBase
  cases hsep : separator base with
  | none => cases hargv : argvOf base <;> simp
  | some sep =>
    by_cases hall : 1 < (partsOf sep base).length ∧ (partsOf sep base).all isHeramind = true
    · simp only [if_pos hall, and_self]
    · simp only [if_neg hall]

theorem not_mem_of_read_call (h : read t = .call argv) (hs : s ∈ argv) : ';' ∉ s := by
  rcases exists_base t with hrejected | ⟨base, -, -, -, hread, -⟩
  · rw [hrejected] at h
    cases h
  · have hbase := of_readBase base
    rw [← hread, h] at hbase
    exact fun hmem => separator_eq_none hbase.1
      ((flatten_sublist_of_argvOf hbase.2).subset (mem_flatten_of_mem hs hmem))

theorem mem_sequenceResult {stops : Bool} {results : List (List Argv × Option (Option ℕ))}
    (h : argv ∈ (sequenceResult stops results).1) : ∃ r ∈ results, argv ∈ r.1 := by
  induction results with
  | nil => cases h
  | cons r results ih =>
    rcases r with ⟨performed, _ | code⟩
    · exact ⟨_, mem_cons_self, h⟩
    · rw [sequenceResult] at h
      split at h
      · exact ⟨_, mem_cons_self, h⟩
      · rcases mem_append.mp h with hfirst | hrest
        · exact ⟨_, mem_cons_self, hfirst⟩
        · obtain ⟨r, hr, hargv⟩ := ih hrest
          exact ⟨r, mem_cons_of_mem _ hr, hargv⟩

/-- No call that is performed has a `;` in an argument. -/
theorem not_mem_of_performed (h : argv ∈ (result (tryInProcessDispatch cli depth t)).1)
    (hs : s ∈ argv) : ';' ∉ s := by
  induction depth generalizing t with
  | zero => cases h
  | succ depth ih =>
    rw [result_tryInProcessDispatch] at h
    cases hread : read t with
    | rejected => rw [hread] at h; cases h
    | call a =>
      rw [hread] at h
      simp only [result_perform] at h
      split at h
      · rw [mem_singleton] at h
        rw [h] at hs
        exact not_mem_of_read_call hread hs
      · cases h
    | sequence sep parts =>
      rw [hread] at h
      obtain ⟨r, hr, hargv⟩ := mem_sequenceResult h
      obtain ⟨part, -, rfl⟩ := mem_map.mp hr
      exact ih hargv

/-! ## The characters of all calls -/

theorem flatten_partsOf_sublist (sep t : Text) : (partsOf sep t).flatten <+ t := by
  have htrim : ∀ ts : List Text, (ts.map trim).flatten <+ ts.flatten := by
    intro ts
    induction ts with
    | nil => exact Sublist.refl _
    | cons t ts ih => exact (trim_isInfix t).sublist.append ih
  rw [partsOf, flatten_filter_not_isEmpty]
  exact (htrim _).trans (Pieces.flatten_split_sublist t)

theorem sequenceResult_sublist {stops : Bool} {f : Text → List Argv × Option (Option ℕ)}
    (h : ∀ part, (f part).1.flatten.flatten <+ part) (parts : List Text) :
    (sequenceResult stops (parts.map f)).1.flatten.flatten <+ parts.flatten := by
  induction parts with
  | nil => exact Sublist.refl _
  | cons part parts ih =>
    have hpart := h part
    rw [map_cons, flatten_cons]
    generalize f part = r at hpart ⊢
    rcases r with ⟨performed, _ | code⟩
    · exact hpart.trans (sublist_append_left _ _)
    · rw [sequenceResult]
      split
      · exact hpart.trans (sublist_append_left _ _)
      · rw [flatten_append, flatten_append]
        exact hpart.append ih

/-- The arguments of all calls that are performed are made of the characters that are left of the
command. -/
theorem performed_sublist_base (h : read t = readBase base)
    (ih : ∀ part, (result (tryInProcessDispatch cli depth part)).1.flatten.flatten <+ part) :
    (result (tryInProcessDispatch cli (depth + 1) t)).1.flatten.flatten <+ base := by
  have hbase := of_readBase base
  rw [result_tryInProcessDispatch, h]
  cases hread : readBase base with
  | rejected => exact nil_sublist _
  | call argv =>
    rw [hread] at hbase
    simp only [result_perform]
    split
    · rw [flatten_singleton]
      exact flatten_sublist_of_argvOf hbase.2
    · exact nil_sublist _
  | sequence sep parts =>
    rw [hread] at hbase
    obtain ⟨-, rfl⟩ := hbase
    exact (sequenceResult_sublist ih _).trans (flatten_partsOf_sublist sep base)

theorem performed_sublist (cli : Cli) (depth : ℕ) (t : Text) :
    (result (tryInProcessDispatch cli depth t)).1.flatten.flatten <+ t := by
  induction depth generalizing t with
  | zero => exact nil_sublist _
  | succ depth ih =>
    rcases exists_base t with hrejected | ⟨base, hwithin, -, -, hread, -⟩
    · rw [result_tryInProcessDispatch, hrejected]
      exact nil_sublist _
    · exact (performed_sublist_base hread ih).trans hwithin.sublist

/-! ## Chains -/

/-- The call that a command is read as. -/
def callOf (command : Text) : Option Argv :=
  match read command with
  | .call argv => some argv
  | _ => none

/-- The calls of a command that is read as a chain. -/
def chainOf (command : Text) : Option (List Argv) :=
  match read command with
  | .rejected => none
  | .call argv => some [argv]
  | .sequence sep parts => if sep = "&&".toList then parts.mapM callOf else none

/-- A shell performs calls that are joined by `&&` until one fails. -/
def chainResult (status : Argv → ℕ) : List Argv → List Argv × ℕ
  | [] => ([], 0)
  | argv :: argvs =>
    if status argv = 0 then (argv :: (chainResult status argvs).1, (chainResult status argvs).2)
    else ([argv], status argv)

theorem result_of_callOf (h : callOf t = some argv) (hargv : cli.inProcess argv = true) :
    result (tryInProcessDispatch cli (depth + 1) t) = ([argv], some (some (cli.status argv))) := by
  rw [result_tryInProcessDispatch]
  unfold callOf at h
  split at h
  · rename_i a hread
    cases h
    rw [hread]
    simp only [result_perform]
    rw [if_pos hargv]
  · cases h

/-- An attempt at a chain is what a shell does. -/
theorem result_of_chainOf (h : chainOf t = some argvs) (hin : ∀ a ∈ argvs, cli.inProcess a = true) :
    result (tryInProcessDispatch cli (depth + 2) t) =
      ((chainResult cli.status argvs).1, some (some (chainResult cli.status argvs).2)) := by
  unfold chainOf at h
  cases hread : read t with
  | rejected => rw [hread] at h; cases h
  | call argv =>
    rw [hread] at h
    cases h
    have hcall : callOf t = some argv := by
      unfold callOf
      rw [hread]
    rw [result_of_callOf hcall (hin argv mem_cons_self)]
    by_cases hzero : cli.status argv = 0
    · simp [chainResult, hzero]
    · simp [chainResult, hzero]
  | sequence sep parts =>
    rw [hread] at h
    simp only at h
    split at h
    · rename_i hand
      rw [result_tryInProcessDispatch, hread]
      simp only [hand, decide_true]
      clear hread hand
      -- the parts and their calls, side by side
      induction parts generalizing argvs with
      | nil =>
        cases h
        rfl
      | cons part parts ih =>
        rw [mapM_cons] at h
        cases hcall : callOf part with
        | none => rw [hcall] at h; cases h
        | some argv =>
          rw [hcall] at h
          cases hrest : parts.mapM callOf with
          | none => rw [hrest] at h; cases h
          | some rest =>
            rw [hrest] at h
            cases h
            have hpart : result (tryInProcessDispatch cli (depth + 1) part) =
                ([argv], some (some (cli.status argv))) :=
              result_of_callOf hcall (hin argv mem_cons_self)
            have hparts := ih (fun a ha => hin a (mem_cons_of_mem _ ha)) hrest
            rw [map_cons, hpart, sequenceResult, chainResult]
            by_cases hzero : cli.status argv = 0
            · simp [hzero, hparts]
            · simp [hzero]
    · cases h

/-! ## Texts without separators -/

theorem separator_of_noSeparator (hsemi : ';' ∉ t) (hand : ¬ "&&".toList <:+: t) :
    separator t = none := by
  cases hsep : separator t with
  | none => rfl
  | some sep =>
    exfalso
    have hocc := isInfix_of_separator hsep
    rcases separator_eq hsep with rfl | rfl
    · exact hand hocc
    · exact hsemi ((singleton_infix_iff _ _).mp hocc)

theorem read_ne_sequence (hsemi : ';' ∉ t) (hand : ¬ "&&".toList <:+: t) :
    read t ≠ .sequence sep parts := by
  intro h
  rcases exists_base t with hrejected | ⟨base, hwithin, -, -, hread, -⟩
  · rw [hrejected] at h
    cases h
  · have hbase := of_readBase base
    rw [← hread, h] at hbase
    have hnone := separator_of_noSeparator (fun hmem => hsemi (hwithin.subset hmem))
      fun hocc => hand (hocc.trans hwithin)
    rw [hnone] at hbase
    exact nomatch hbase.1

/-- The result of a command that is not a sequence. -/
theorem result_of_not_sequence (cli : Cli) (depth : ℕ) (hsemi : ';' ∉ t)
    (hand : ¬ "&&".toList <:+: t) :
    result (tryInProcessDispatch cli (depth + 1) t) =
      match callOf t with
      | some argv => result (cli.perform argv)
      | none => ([], none) := by
  rw [result_tryInProcessDispatch]
  unfold callOf
  cases hread : read t with
  | rejected | call argv => rfl
  | sequence sep parts => exact absurd hread (read_ne_sequence hsemi hand)

theorem noSeparator_of_mem_partsOf (hsemi : ';' ∉ base) (h : part ∈ partsOf "&&".toList base) :
    ';' ∉ part ∧ ¬ "&&".toList <:+: part := by
  constructor
  · exact fun hmem => hsemi ((isInfix_of_mem_partsOf h).subset hmem)
  · obtain ⟨piece, hpiece, rfl⟩ := exists_piece_of_mem_partsOf h
    exact fun hocc =>
      Pieces.not_isInfix_of_mem_split (by decide) hpiece (hocc.trans (trim_isInfix piece))

/-- When every call succeeds, parts that are calls are all performed. -/
theorem mapM_callOf_of_result (hzero : ∀ a, cli.status a = 0)
    (hparts : ∀ part ∈ parts, ';' ∉ part ∧ ¬ "&&".toList <:+: part)
    (h : sequenceResult true
        (parts.map fun part => result (tryInProcessDispatch cli (depth + 1) part)) =
      (performed, some code)) :
    parts.mapM callOf = some performed ∧ ∀ a ∈ performed, cli.inProcess a = true := by
  induction parts generalizing performed with
  | nil =>
    cases h
    exact ⟨rfl, nofun⟩
  | cons part parts ih =>
    obtain ⟨hsemi, hand⟩ := hparts part mem_cons_self
    rw [map_cons, result_of_not_sequence cli depth hsemi hand] at h
    cases hcall : callOf part with
    | none =>
      rw [hcall] at h
      cases h
    | some argv =>
      rw [hcall] at h
      simp only [result_perform] at h
      split at h
      · rename_i hargv
        rw [sequenceResult, hzero argv] at h
        simp only [Option.getD_some, ne_eq, not_true_eq_false, and_false, if_false] at h
        obtain ⟨hperformed, hcode⟩ := Prod.mk.inj h
        obtain ⟨hrest, hin⟩ := ih (fun p hp => hparts p (mem_cons_of_mem _ hp)) (Prod.ext rfl hcode)
        rw [mapM_cons, hcall, hrest, ← hperformed]
        refine ⟨rfl, ?_⟩
        intro a ha
        rcases mem_cons.mp ha with rfl | ha
        · exact hargv
        · exact hin a ha
      · cases h

/-- Without a `;`, and when every call succeeds, an attempt that does not give up has performed the
calls of a chain. -/
theorem chainOf_of_result (hsemi : ';' ∉ t) (hzero : ∀ a, cli.status a = 0)
    (h : result (tryInProcessDispatch cli (depth + 2) t) = (performed, some code)) :
    chainOf t = some performed ∧ ∀ a ∈ performed, cli.inProcess a = true := by
  rw [result_tryInProcessDispatch] at h
  unfold chainOf
  cases hread : read t with
  | rejected => rw [hread] at h; cases h
  | call argv =>
    rw [hread] at h
    simp only [result_perform] at h
    split at h
    · rename_i hargv
      cases h
      exact ⟨rfl, fun a ha => by rw [mem_singleton.mp ha]; exact hargv⟩
    · cases h
  | sequence sep parts =>
    rw [hread] at h
    rcases exists_base t with hrejected | ⟨base, hwithin, -, -, hbase, -⟩
    · rw [hrejected] at hread
      cases hread
    · have hof := of_readBase base
      rw [← hbase, hread] at hof
      obtain ⟨hsep, rfl⟩ := hof
      have hbaseSemi : ';' ∉ base := fun hmem => hsemi (hwithin.subset hmem)
      rcases separator_eq hsep with rfl | rfl
      · simp only [decide_true] at h
        exact mapM_callOf_of_result hzero (fun part => noSeparator_of_mem_partsOf hbaseSemi) h
      · exact absurd ((singleton_infix_iff _ _).mp (isInfix_of_separator hsep)) hbaseSemi

/-! ## The first part -/

/-- Before the first `&&` there is no `;` when `&&` is the separator. -/
theorem not_mem_of_separator {a b : Text} (hsep : separator base = some "&&".toList)
    (hcut : Pieces.splitOnce "&&".toList base = some (a, b)) : ';' ∉ a := by
  intro hmem
  obtain ⟨x, y, rfl⟩ := append_of_mem hmem
  obtain ⟨heq, hfirst⟩ := Pieces.of_splitOnce hcut
  unfold separator at hsep
  cases hamp : ByteText.find "&&".toList base with
  | none =>
    exact ByteText.find_eq_none.mp hamp ⟨x ++ ';' :: y, b, by rw [heq, append_assoc]⟩
  | some amp =>
    cases hsemi : ByteText.find ";".toList base with
    | none =>
      refine ByteText.find_eq_none.mp hsemi ((singleton_infix_iff ';' base).mpr ?_)
      rw [heq]
      simp
    | some semi =>
      obtain ⟨a', b', heq', rfl, -⟩ := ByteText.exists_of_find hamp
      obtain ⟨u, v, -, rfl, hle⟩ := ByteText.exists_of_find hsemi
      -- the `;` is before the `&&`
      have hsemiLe := hle x (y ++ ("&&".toList ++ b)) (by rw [heq]; simp)
      have hpre : x ++ ';' :: y <+: a' :=
        prefix_of_prefix_length_le ⟨_, heq.symm⟩ ⟨_, heq'.symm⟩ (hfirst a' b' heq')
      obtain ⟨z, rfl⟩ := hpre
      rw [hamp, hsemi] at hsep
      simp only at hsep
      rw [if_pos] at hsep
      · cases hsep
      · simp only [ByteText.len_append, ByteText.len_cons]
        have hpos : 0 < ';'.utf8Size := Char.utf8Size_pos _
        omega

theorem partsOf_of_none (h : Pieces.splitOnce sep t = none) :
    partsOf sep t = if trim t = [] then [] else [trim t] := by
  unfold partsOf
  rw [Pieces.split_eq_singleton h]
  by_cases hnil : trim t = []
  · simp [hnil]
  · simp [hnil]

theorem partsOf_of_some {a b : Text} (hsep : sep ≠ [])
    (h : Pieces.splitOnce sep t = some (a, b)) :
    partsOf sep t = (if trim a = [] then [] else [trim a]) ++ partsOf sep b := by
  unfold partsOf
  rw [Pieces.split_eq_cons hsep h]
  by_cases hnil : trim a = []
  · simp [hnil]
  · simp [hnil]

theorem isWhitespace_of_trim_eq_nil (h : trim t = []) : ∀ c ∈ t, isWhitespace c = true := by
  have hall := rdropWhile_eq_nil_iff.mp (show (front t).rdropWhile isWhitespace = [] from h)
  intro c hc
  rw [← takeWhile_append_dropWhile (p := isWhitespace) (l := t)] at hc
  rcases mem_append.mp hc with hc | hc
  · exact mem_takeWhile_imp hc
  · exact hall c hc

/-- The first part of a sequence whose text does not begin with a separator. -/
theorem exists_partsOf_eq_cons (hsep : separator base = some "&&".toList)
    (hfront : base <+: front t) (hstart : ¬ "&&".toList <+: front t) :
    ∃ part parts, partsOf "&&".toList base = part :: parts ∧ ';' ∉ part ∧
      ¬ "&&".toList <:+: part := by
  obtain ⟨⟨a, b⟩, hcut⟩ : ∃ cut, Pieces.splitOnce "&&".toList base = some cut :=
    Option.ne_none_iff_exists'.mp fun hnone =>
      Pieces.splitOnce_eq_none.mp hnone (isInfix_of_separator hsep)
  have htrim : trim a ≠ [] := by
    intro hnil
    obtain ⟨d, a', rfl⟩ := exists_cons_of_ne_nil
      (Pieces.ne_nil_of_splitOnce hcut fun hpre => hstart (hpre.trans hfront))
    -- the first character is not white space
    obtain ⟨rest, hrest⟩ : d :: a' <+: front t :=
      IsPrefix.trans ⟨_, (Pieces.of_splitOnce hcut).1.symm⟩ hfront
    have hhead := head?_dropWhile_not isWhitespace t
    rw [show t.dropWhile isWhitespace = d :: (a' ++ rest) from hrest.symm] at hhead
    have hd : isWhitespace d = false := hhead
    rw [isWhitespace_of_trim_eq_nil hnil d mem_cons_self] at hd
    cases hd
  rw [partsOf_of_some (by decide) hcut, if_neg htrim]
  exact ⟨trim a, _, rfl,
    fun hmem => not_mem_of_separator hsep hcut ((trim_isInfix a).subset hmem),
    fun hocc => Pieces.not_isInfix_of_splitOnce (by decide) hcut (hocc.trans (trim_isInfix a))⟩

/-- A sequence that does not stop reports success. -/
theorem code_of_sequenceResult {results : List (List Argv × Option (Option ℕ))}
    (h : sequenceResult false results = (performed, some code)) : code = some 0 := by
  induction results generalizing performed with
  | nil =>
    cases h
    rfl
  | cons r results ih =>
    rcases r with ⟨first, _ | firstCode⟩
    · cases h
    · simp only [sequenceResult, Bool.false_eq_true, false_and, if_false] at h
      exact ih (Prod.ext rfl (Prod.mk.inj h).2)

/-- When every call fails, a sequence that stops has performed its first call alone. -/
theorem performed_of_failing (hone : ∀ a, cli.status a = 1)
    (hstart : ¬ "&&".toList <+: front t) (hfirst : firstArgv (depth + 2) t = some argv)
    (hargv : cli.inProcess argv = true)
    (h : result (tryInProcessDispatch cli (depth + 2) t) = (performed, some code)) :
    performed = [argv] ∧ code = some 1 ∨ code = some 0 := by
  rw [result_tryInProcessDispatch] at h
  rw [firstArgv] at hfirst
  cases hread : read t with
  | rejected => rw [hread] at h; cases h
  | call a =>
    rw [hread] at h hfirst
    cases hfirst
    simp only [result_perform] at h
    rw [if_pos hargv, hone] at h
    cases h
    exact Or.inl ⟨rfl, rfl⟩
  | sequence sep parts =>
    rw [hread] at h hfirst
    rcases exists_base t with hrejected | ⟨base, hwithin, hfront, -, hbase, -⟩
    · rw [hrejected] at hread
      cases hread
    · have hof := of_readBase base
      rw [← hbase, hread] at hof
      obtain ⟨hsep, rfl⟩ := hof
      rcases separator_eq hsep with rfl | rfl
      · -- the first part is a call, and it fails
        obtain ⟨part, parts, hparts, hsemi, hand⟩ := exists_partsOf_eq_cons hsep hfront hstart
        rw [hparts] at h hfirst
        have hcall : callOf part = some argv := by
          have hpart : firstArgv (depth + 1) part = some argv := hfirst
          rw [firstArgv] at hpart
          unfold callOf
          cases hreadPart : read part with
          | rejected => rw [hreadPart] at hpart; cases hpart
          | call a => rw [hreadPart] at hpart; exact hpart
          | sequence sep' parts' => exact absurd hreadPart (read_ne_sequence hsemi hand)
        simp only [map_cons, decide_true] at h
        rw [result_of_callOf hcall hargv, hone, sequenceResult] at h
        rw [if_pos (by simp)] at h
        cases h
        exact Or.inl ⟨rfl, rfl⟩
      · right
        have hsemi : (";".toList = "&&".toList) = False := by decide
        simp only [hsemi, decide_false] at h
        exact code_of_sequenceResult h

end HeraMind.Agent.Shell
