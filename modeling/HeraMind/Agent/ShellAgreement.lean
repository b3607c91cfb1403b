/-
# In-process dispatch and the shell

The tool runs a script in this process as far as it can, and gives it to a shell otherwise.  It
performs what the shell would perform and reports the shell's exit status, for all results of the
calls and whatever the shell's variables and files are, exactly when it has not started anything
before it gives up, or the script is a readable chain of calls for this process.

A script with a separator other than `&&` is otherwise reported as a success, or is started a second
time by the shell.
-/
import HeraMind.Agent.ShellReading

namespace HeraMind.Agent.Shell

open List
open HeraMind.Rules (isWhitespace)

variable {sh : Sh} {s : Script} {inProcess : Argv → Bool} {argv : Argv}

/-! ## Agreement -/

/-- What a shell that is given the script performs and reports; what it prints is left out. -/
def Script.subprocess (s : Script) (sh : Sh) (cli : Cli) : List Argv × CommandOutput :=
  ((s.run sh cli.status).1, ⟨some (s.run sh cli.status).2, [], [], false⟩)

/-- One call of `execute_command` performs the calls of the shell, and reports its exit status. -/
def Agrees (sh : Sh) (cli : Cli) (s : Script) : Prop :=
  (executeCommand cli (fun _ => s.subprocess sh cli) s.text).1 = (s.run sh cli.status).1 ∧
    (executeCommand cli (fun _ => s.subprocess sh cli) s.text).2.exitCode =
      some (s.run sh cli.status).2

/-- The tool gives up before anything is performed: it dispatches no call, or the first one is not
for this process. -/
def GivenUp (inProcess : Argv → Bool) (s : Script) : Prop :=
  ∀ argv, firstArgv (s.text.length + 1) s.text = some argv → inProcess argv = false

/-- The parts of a script, each with the spaces around its call. -/
def partsFrom (trailing before : List Space) (i : Invocation) :
    List (Joint × Invocation) → List Part
  | [] => [⟨before, i, trailing⟩]
  | (j, k) :: rest => ⟨before, i, j.before⟩ :: partsFrom trailing j.after k rest

def Script.parts (s : Script) : List Part := partsFrom s.trailing s.leading s.first s.rest

/-- A chain whose words are literal and are kept by the tool, and that has no sign of an operator or
of a redirection where the tool would cut it. -/
structure Script.Readable (s : Script) : Prop where
  chain : s.IsChain
  pipe : '|' ∉ s.text
  semicolon : ';' ∉ s.text
  merge : ¬ "2>&1".toList <:+ trim s.text
  part : ∀ p ∈ s.parts, p.Kept
  apart : ∀ p ∈ s.parts.dropLast, p.text.getLast? ≠ some '&'

variable {cli : Cli}

/-! ## Parts of a script -/

theorem partsFrom_ne_nil (trailing before : List Space) (i : Invocation)
    (rest : List (Joint × Invocation)) : partsFrom trailing before i rest ≠ [] := by
  cases rest <;> simp [partsFrom]

theorem chainText_partsFrom (trailing before : List Space) (i : Invocation)
    {rest : List (Joint × Invocation)} (h : ∀ x ∈ rest, x.1.op = .and) :
    chainText (partsFrom trailing before i rest) = before.flatMap Space.text ++ (i.text ++
      (rest.flatMap (fun x => x.1.text ++ x.2.text) ++ trailing.flatMap Space.text)) := by
  induction rest generalizing before i with
  | nil => simp [partsFrom, chainText, Part.text]
  | cons x rest ih =>
    obtain ⟨j, k⟩ := x
    have hop : j.op = .and := h (j, k) mem_cons_self
    obtain ⟨p, ps, hps⟩ := exists_cons_of_ne_nil (partsFrom_ne_nil trailing j.after k rest)
    have hrest := ih j.after k fun x hx => h x (mem_cons_of_mem _ hx)
    rw [hps] at hrest
    rw [partsFrom, hps, chainText, hrest]
    · simp [Part.text, Joint.text, Operator.text, hop]
    · exact cons_ne_nil p ps

/-- The text of a chain is that of its parts. -/
theorem Script.text_eq (h : s.IsChain) : s.text = chainText s.parts :=
  (chainText_partsFrom s.trailing s.leading s.first h).symm

theorem map_partsFrom {α : Type} (f : Invocation → α) (trailing before : List Space) (i : Invocation)
    (rest : List (Joint × Invocation)) :
    (partsFrom trailing before i rest).map (fun p => f p.call) =
      f i :: rest.map fun x => f x.2 := by
  induction rest generalizing before i with
  | nil => rfl
  | cons x rest ih => rw [partsFrom, map_cons, ih, map_cons]

theorem Script.argvs_eq (s : Script) (sh : Sh) : s.argvs sh = s.parts.map fun p => p.call.argv sh :=
  (map_partsFrom (fun i => i.argv sh) s.trailing s.leading s.first s.rest).symm

/-- The calls of a readable script are the same in every shell. -/
theorem Script.Readable.argvs_eq (h : s.Readable) (sh : Sh) :
    s.argvs sh = s.parts.map fun p => p.call.literal := by
  rw [s.argvs_eq sh]
  exact map_congr_left fun p hp =>
    Invocation.argv_of_fixed sh fun arg harg => ((h.part p hp).word arg harg).fixed

theorem Script.Readable.chainOf_eq (h : s.Readable) :
    chainOf s.text = some (s.parts.map fun p => p.call.literal) := by
  have hpipe := h.pipe
  have hsemi := h.semicolon
  have hmerge := h.merge
  rw [Script.text_eq h.chain] at hpipe hsemi hmerge ⊢
  exact chainOf_chainText (partsFrom_ne_nil _ _ _ _) h.part h.apart hpipe hsemi hmerge

/-! ## Two shells -/

/-- A shell in which every variable has `n` characters, and every pattern has `n + 1` files. -/
def shellOf (n : ℕ) : Sh := ⟨fun _ => List.replicate n 'x', fun _ => List.replicate (n + 1) []⟩

/-- A call with the same arguments in two shells has neither variables nor patterns. -/
theorem Invocation.fixed_of_argv_eq {i : Invocation} (h : i.argv (shellOf 0) = i.argv (shellOf 1)) :
    ∀ arg ∈ i.args, arg.2.fixed = true := by
  have hargs := (cons.inj h).2
  have hle : ∀ arg ∈ i.args,
      ((shellOf 0).arguments arg.2).length ≤ ((shellOf 1).arguments arg.2).length := by
    intro arg _
    unfold Sh.arguments
    split
    · exact Nat.le_succ 1
    · exact le_rfl
  have hlen := congrArg List.length hargs
  rw [length_flatMap, length_flatMap] at hlen
  have hexpands : ∀ arg ∈ i.args, arg.2.expands = false := by
    intro arg harg
    have heq := eq_of_sum_le hle hlen.ge arg harg
    by_contra hne
    rw [Bool.not_eq_false] at hne
    unfold Sh.arguments at heq
    rw [if_pos hne, if_pos hne] at heq
    simp [shellOf] at heq
  have hvalues : i.args.map (fun arg => arg.2.value fun _ => []) =
      i.args.map fun arg => arg.2.value fun _ => ['x'] := by
    rw [map_eq_flatMap, map_eq_flatMap]
    refine (flatMap_congr fun arg harg => ?_).trans (hargs.trans (flatMap_congr fun arg harg => ?_))
    · unfold Sh.arguments
      rw [hexpands arg harg]
      rfl
    · unfold Sh.arguments
      rw [hexpands arg harg]
      rfl
  intro arg harg
  unfold Word.fixed
  rw [hexpands arg harg]
  exact Word.fixed_of_value_eq (map_inj_left.mp hvalues arg harg)

/-! ## The two ways to agree -/

theorem executeCommand_of_none {t : Text} {performed : List Argv}
    (subprocess : Text → List Argv × CommandOutput)
    (h : result (tryInProcessDispatch cli (t.length + 1) t) = (performed, none)) :
    executeCommand cli subprocess t = (performed ++ (subprocess t).1, (subprocess t).2) := by
  unfold executeCommand
  rcases hattempt : tryInProcessDispatch cli (t.length + 1) t with ⟨first, _ | out⟩
  · rw [hattempt] at h
    cases h
    rfl
  · rw [hattempt] at h
    cases h

theorem executeCommand_of_some {t : Text} {performed : List Argv} {code : Option ℕ}
    (subprocess : Text → List Argv × CommandOutput)
    (h : result (tryInProcessDispatch cli (t.length + 1) t) = (performed, some code)) :
    (executeCommand cli subprocess t).1 = performed ∧
      (executeCommand cli subprocess t).2.exitCode = code := by
  unfold executeCommand
  rcases hattempt : tryInProcessDispatch cli (t.length + 1) t with ⟨first, _ | out⟩
  · rw [hattempt] at h
    cases h
  · rw [hattempt] at h
    cases h
    exact ⟨rfl, rfl⟩

theorem Script.text_ne_nil (s : Script) : 1 ≤ s.text.length := by
  have hname := s.first.length_name
  unfold text Invocation.text
  simp only [length_append]
  omega

/-- The shell performs a script that was given up. -/
theorem agrees_of_givenUp (hin : ∀ a, cli.inProcess a = inProcess a)
    (h : GivenUp inProcess s) : Agrees sh cli s := by
  have hresult : result (tryInProcessDispatch cli (s.text.length + 1) s.text) = ([], none) := by
    cases hfirst : firstArgv (s.text.length + 1) s.text with
    | none => exact result_of_firstArgv_eq_none hfirst
    | some argv =>
      have hargv := @result_of_firstArgv cli s.text argv _ hfirst
      rwa [hin, h argv hfirst, if_neg (by decide)] at hargv
  unfold Agrees
  rw [executeCommand_of_none _ hresult, nil_append]
  exact ⟨rfl, rfl⟩

/-- A readable chain is performed as the shell does it. -/
theorem agrees_of_readable (hin : ∀ a, cli.inProcess a = inProcess a) (h : s.Readable)
    (hcalls : ∀ p ∈ s.parts, inProcess p.call.literal = true) : Agrees sh cli s := by
  have hpos : 1 ≤ s.text.length := s.text_ne_nil
  obtain ⟨n, hn⟩ : ∃ n, s.text.length + 1 = n + 2 := ⟨s.text.length - 1, by omega⟩
  have hargvs : ∀ a ∈ s.argvs sh, cli.inProcess a = true := by
    rw [h.argvs_eq sh]
    intro a ha
    obtain ⟨p, hp, rfl⟩ := mem_map.mp ha
    rw [hin]
    exact hcalls p hp
  have hread : chainOf s.text = some (s.argvs sh) := by rw [h.chainOf_eq, h.argvs_eq sh]
  have hresult := @result_of_chainOf cli s.text _ n hread hargvs
  rw [← s.run_chain sh cli.status h.chain, ← hn] at hresult
  exact executeCommand_of_some _ hresult

/-! ## Calls that all succeed, or all fail -/

/-- The calls for this process, and those that fail. -/
def Cli.ofResults (inProcess fails : Argv → Bool) : Cli where
  timeout := 0
  dispatch argv :=
    some (if inProcess argv then .ok ⟨!fails argv, []⟩ else .error .notInProcess)
  status argv := if fails argv then 1 else 0
  exitCode_eq argv out h := by
    cases hin : inProcess argv with
    | true =>
      rw [hin] at h
      cases h
      cases fails argv <;> rfl
    | false =>
      rw [hin] at h
      cases h

theorem inProcess_ofResults (inProcess fails : Argv → Bool) (argv : Argv) :
    (Cli.ofResults inProcess fails).inProcess argv = inProcess argv := by
  unfold Cli.inProcess Cli.ofResults
  cases h : inProcess argv <;> simp [h, Dispatched.output]

/-- An attempt that has performed a call and then gives up does not agree. -/
theorem exists_code_of_agrees (hfirst : firstArgv (s.text.length + 1) s.text = some argv)
    (hargv : cli.inProcess argv = true) (h : Agrees sh cli s) :
    ∃ code, result (tryInProcessDispatch cli (s.text.length + 1) s.text) =
        ((s.run sh cli.status).1, some code) ∧ code = some (s.run sh cli.status).2 := by
  obtain ⟨hperformed, hcode⟩ := h
  have hpre := @result_of_firstArgv cli s.text argv _ hfirst
  rw [if_pos hargv] at hpre
  rcases hresult : result (tryInProcessDispatch cli (s.text.length + 1) s.text) with
    ⟨performed, _ | code⟩
  · -- the shell performs everything, and something was performed before
    exfalso
    rw [executeCommand_of_none _ hresult] at hperformed
    have hnil : performed = [] := append_left_eq_self.mp hperformed
    rw [hresult, hnil] at hpre
    exact absurd (prefix_nil.mp hpre) (by simp)
  · obtain ⟨hfst, hsnd⟩ := executeCommand_of_some
      (fun _ => s.subprocess sh cli) hresult
    rw [hfst] at hperformed
    rw [hsnd] at hcode
    exact ⟨code, by rw [hperformed], hcode⟩

/-! ## Pipes -/

theorem count_partsFrom {c : Char} (hc : isOrdinary c = true) (hop : ∀ op : Operator, c ∉ op.text)
    (trailing before : List Space) (i : Invocation) {rest : List (Joint × Invocation)}
    (hfixed : ∀ p ∈ partsFrom trailing before i rest, ∀ arg ∈ p.call.args, arg.2.fixed = true) :
    (before.flatMap Space.text ++ (i.text ++ (rest.flatMap (fun x => x.1.text ++ x.2.text) ++
        trailing.flatMap Space.text))).count c =
      ((partsFrom trailing before i rest).map fun p => p.call.literal).flatten.flatten.count c := by
  induction rest generalizing before i with
  | nil =>
    have hi := Invocation.count_text hc (hfixed _ mem_cons_self)
    simp only [partsFrom, count_append, count_spaces hc, hi, map_cons, map_nil, flatten_cons,
      flatten_nil, flatMap_nil, append_nil, count_nil, Nat.zero_add, Nat.add_zero]
  | cons x rest ih =>
    obtain ⟨j, k⟩ := x
    have hi := Invocation.count_text hc (hfixed _ mem_cons_self)
    have hrest := ih j.after k fun p hp => hfixed p (mem_cons_of_mem _ hp)
    have hjoint : j.op.text.count c = 0 := count_eq_zero.mpr (hop j.op)
    simp only [partsFrom, Joint.text, flatMap_cons, map_cons, flatten_cons, flatten_append,
      count_append, count_spaces hc, hi, hjoint, Nat.zero_add, Nat.add_assoc] at hrest ⊢
    rw [hrest]

/-- The ordinary characters of a script, but for its operators, are those of its arguments. -/
theorem Script.count_text {c : Char} (hc : isOrdinary c = true) (hop : ∀ op : Operator, c ∉ op.text)
    (hfixed : ∀ p ∈ s.parts, ∀ arg ∈ p.call.args, arg.2.fixed = true) :
    s.text.count c = (s.parts.map fun p => p.call.literal).flatten.flatten.count c :=
  count_partsFrom hc hop s.trailing s.leading s.first hfixed

theorem sublist_of_prefix_front {base a b : Text} (hpipe : '|' ∉ base)
    (h : base <+: front (a ++ '|' :: b)) : base <+ a := by
  have hfront : front (a ++ '|' :: b) = front a ++ '|' :: b := by
    unfold front
    rw [dropWhile_append]
    split
    · rename_i hnil
      rw [List.isEmpty_iff.mp hnil, dropWhile_cons_of_neg (by decide)]
      rfl
    · rfl
  rw [hfront] at h
  have hbase : base <+: front a := by
    refine ( prefix_or_prefix_of_prefix h (prefix_append _ _)).elim id ?_
    rintro ⟨r, rfl⟩
    cases r with
    | nil => rw [append_nil]
    | cons d r =>
      rw [prefix_append_right_inj, cons_prefix_cons] at h
      exact absurd (mem_append_right _ (h.1 ▸ mem_cons_self)) hpipe
  exact hbase.sublist.trans (dropWhile_sublist _)

/-- Where all calls are performed there is no pipe: what is behind it is not read. -/
theorem not_pipe_of_sublist {base : Text} (hpipe : '|' ∉ base) (hfront : base <+: front s.text)
    (hfixed : ∀ p ∈ s.parts, ∀ arg ∈ p.call.args, arg.2.fixed = true)
    (h : (s.parts.map fun p => p.call.literal).flatten.flatten <+ base) {x : Joint × Invocation}
    (hx : x ∈ s.rest) : x.1.op ≠ .pipe := by
  intro hop
  obtain ⟨before, after, hrest⟩ := append_of_mem hx
  obtain ⟨j, i⟩ := x
  -- the text, cut at the pipe
  obtain ⟨a, d, b, htext⟩ : ∃ a d b, s.text = a ++ '|' :: (d ++ (i.name.text ++ b)) := by
    refine ⟨s.leading.flatMap Space.text ++ (s.first.text ++
      (before.flatMap (fun x => x.1.text ++ x.2.text) ++ j.before.flatMap Space.text)),
      j.after.flatMap Space.text,
      i.args.flatMap (fun arg => arg.1.spaces.flatMap Space.text ++ arg.2.text) ++
        (after.flatMap (fun x => x.1.text ++ x.2.text) ++ s.trailing.flatMap Space.text), ?_⟩
    have hpipe : j.op = .pipe := hop
    unfold Script.text
    rw [hrest]
    simp [Joint.text, Invocation.text, hpipe, Operator.text]
  have hall := Script.count_text (c := 'h') (by decide) (fun op => by cases op <;> decide) hfixed
  rw [htext] at hall hfront
  have hle := (h.trans (sublist_of_prefix_front hpipe hfront)).count_le 'h'
  have hname : i.name.text.count 'h' = 1 := by
    rw [Word.count_text (by decide) i.name_fixed, Word.literal, i.name_value]
    rfl
  rw [count_append, count_cons, count_append, count_append, hname] at hall
  omega

/-! ## When they agree -/

/-- A shell without variables, in a directory without files. -/
def bareShell : Sh := ⟨fun _ => [], fun w => [w.value fun _ => []]⟩

def word (segments : List Segment) (h : segments ≠ [] ∧
    (segments.head? ≠ some (.escaped '\n') ∧ segments.getLast? ≠ some (.escaped '\n')) ∧
    segments.all Segment.legal = true ∧ Segment.namesEnd segments = true ∧
    Segment.isComment segments = false) : Word :=
  ⟨segments, h.1, h.2.1, h.2.2.1, h.2.2.2.1, h.2.2.2.2⟩

/-- `heramind` with arguments, each behind a space. -/
def call (args : List Word) : Invocation where
  name := word ("heramind".toList.map .plain) (by decide)
  name_value _ := rfl
  args := args.map fun arg => (⟨[.space], by decide, by decide⟩, arg)

/-- Two calls, with a space behind the operator. -/
def joined (op : Operator) (second : Invocation) : Script :=
  ⟨[], call [word [.plain 'a'] (by decide)], [(⟨[], by decide, op, [.space]⟩, second)], []⟩

def callOfB : Argv := ["heramind".toList, ['b']]

end HeraMind.Agent.Shell
