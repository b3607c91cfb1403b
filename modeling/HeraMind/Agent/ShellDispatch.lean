/-
# The in-process dispatch of shell commands

`crates/heramind-agent/src/toolkit/shell.rs`: a command of the shell tool that consists of calls of
`heramind` is not given to a shell.  It is cut at its first pipe, at its separators and at its
blanks, and each call is dispatched in this process.  What cannot be dispatched goes to a
subprocess, as a whole.

The command line of `heramind` is a parameter, with a result for each argument vector.  A run gives
the argument vectors of the calls that were performed, in their order, and the output.
-/
import HeraMind.Agent.ToolParser
import HeraMind.Lib.Pieces

namespace HeraMind.Agent.Shell

open HeraMind.Rules (isWhitespace)

/-- The words of a call, the name of the program in front. -/
abbrev Argv := List Text

structure CommandOutput where
  exitCode : Option ℕ
  stdout : Text
  stderr : Text
  timedOut : Bool

/-! ## Truncation pipelines -/

/-- A supported truncation stage of a `| head/tail` pipeline. -/
inductive TruncationOp : Type where
  | head
  | tail

/-- Truncation stages of a split pipeline: `(op, line_count)` per stage. -/
abbrev TruncationStages := List (TruncationOp × ℕ)

/-- `str::parse::<usize>`. -/
def parseUsize (t : Text) : Option ℕ :=
  let digits : Text := match t with
    | '+' :: digits | digits => digits
  let n : ℕ := digits.foldl (fun n c => n * 10 + (c.toNat - '0'.toNat)) 0
  if digits ≠ [] ∧ digits.all Char.isDigit ∧ n < 2 ^ 64 then some n else none

/-- `str::split_whitespace`. -/
def splitWhitespace (t : Text) : List Text := Pieces.words isWhitespace t

/-- `str::strip_suffix`. -/
def stripSuffix (p t : Text) : Option Text :=
  if p <:+ t then some (t.take (t.length - p.length)) else none

/-- The line count of `head -100` or `head -n 100`. -/
def lineCount : List Text → Option ℕ
  | ['-' :: n] | [n] => parseUsize n
  | [flag, n] => if flag = "-n".toList then parseUsize n else none
  | _ => none

/-- What a stage does to the output: nothing for `cat`.  An unsupported stage is `none`. -/
def truncationStage (stage : Text) : Option TruncationStages :=
  match splitWhitespace stage with
  | [] => none
  | tok :: rest =>
    if tok = "cat".toList ∧ rest = [] then some []
    else if tok = "head".toList then (lineCount rest).map fun n => [(.head, n)]
    else if tok = "tail".toList then (lineCount rest).map fun n => [(.tail, n)]
    else none

/-- The text before the first pipe, and what is behind it. -/
def splitPipe (trimmed : Text) : Text × Option Text :=
  match Pieces.splitOnce ['|'] trimmed with
  | some (b, p) => (trim b, some p)
  | none => (trimmed, none)

/-- The base command, and whether it ends with `2>&1`. -/
def splitMerge (baseRaw : Text) : Text × Bool :=
  match stripSuffix "2>&1".toList baseRaw with
  | some b => (trim b, true)
  | none => (baseRaw, false)

/-- The stages behind the first pipe. -/
def truncationStages : Option Text → Option TruncationStages
  | none => some []
  | some pipes => ((pipes.splitOn '|').mapM truncationStage).map List.flatten

/-- Split a command line into its base command plus an in-process-able truncation pipeline. -/
def splitTruncationPipeline (trimmed : Text) : Option (Text × Bool × TruncationStages) :=
  let (baseRaw, pipePart) := splitPipe trimmed
  let (base, mergeStderr) := splitMerge baseRaw
  if base = [] then none
  else (truncationStages pipePart).map fun stages => (base, mergeStderr, stages)

/-- `str::lines`. -/
def lines (t : Text) : List Text :=
  let parts := t.splitOn '\n'
  (parts.dropLast.map fun line => (stripSuffix ['\r'] line).getD line) ++
    parts.getLast?.toList.filter fun line => !line.isEmpty

/-- `head` and `tail` on an output. -/
def truncate (stdout : Text) : TruncationOp × ℕ → Text
  | (.head, n) => ['\n'].intercalate ((lines stdout).take n)
  | (.tail, n) => ['\n'].intercalate ((lines stdout).drop ((lines stdout).length - n))

/-- Fold stderr into stdout and apply the stages, in their order. -/
def applyTruncationPipeline (output : CommandOutput) (mergeStderr : Bool)
    (stages : TruncationStages) : CommandOutput :=
  let output :=
    if mergeStderr then
      { output with
        stdout :=
          if output.stderr = [] then output.stdout
          else if output.stdout = [] then output.stderr
          else output.stdout ++ '\n' :: output.stderr
        stderr := [] }
    else output
  { output with stdout := stages.foldl truncate output.stdout }

@[simp] theorem applyTruncationPipeline_exitCode (output : CommandOutput) (mergeStderr : Bool)
    (stages : TruncationStages) :
    (applyTruncationPipeline output mergeStderr stages).exitCode = output.exitCode := by
  unfold applyTruncationPipeline
  cases mergeStderr <;> rfl

/-! ## Tokens -/

/-- There is a pipe, a redirection, a command substitution or an expansion outside of quotes. -/
def hasShellConstruct (inSingle inDouble : Bool) (prev : Char) : Text → Bool
  | [] => false
  | c :: t =>
    if c = '\'' ∧ ¬ inDouble then hasShellConstruct (!inSingle) inDouble c t
    else if c = '"' ∧ ¬ inSingle then hasShellConstruct inSingle (!inDouble) c t
    else if (c = '|' ∨ c = '<' ∨ c = '>' ∨ c = '\x60') ∧ ¬ inSingle ∧ ¬ inDouble then true
    else if c = '$' ∧ ¬ inSingle ∧ ¬ inDouble ∧ prev ≠ '\\' then true
    else hasShellConstruct inSingle inDouble c t

/-- The tokens of a text, with the characters of the current one in reverse order. -/
def tokens (inSingle inDouble : Bool) (current : Text) : Text → Except String (List Text)
  | [] =>
    if inSingle ∨ inDouble then .error "unbalanced quotes"
    else .ok (if current = [] then [] else [current.reverse])
  | c :: t =>
    if c = '\\' ∧ ¬ inSingle then
      match t with
      | next :: t => tokens inSingle inDouble (next :: current) t
      | [] => tokens inSingle inDouble current []
    else if c = '\'' ∧ ¬ inDouble then tokens (!inSingle) inDouble current t
    else if c = '"' ∧ ¬ inSingle then tokens inSingle (!inDouble) current t
    else if isWhitespace c ∧ ¬ inSingle ∧ ¬ inDouble then
      if current = [] then tokens inSingle inDouble [] t
      else (tokens inSingle inDouble [] t).map fun toks => current.reverse :: toks
    else tokens inSingle inDouble (c :: current) t

/-- Tokenize a `heramind` command line into an argv vector. -/
def tokenizeHeramindCommand (input : Text) : Except String (List Text) :=
  if hasShellConstruct false false '\x00' input then .error "shell construct outside quotes"
  else tokens false false [] input

/-! ## Dispatch -/

structure CliResponse where
  success : Bool
  /-- The JSON text of the response, with the help that is added to it. -/
  json : Text

inductive DispatchError : Type where
  | notInProcess
  | parse (msg : Text)
  | api (msg : Text)

/-- What a dispatched call gives; `none` is a timeout. -/
abbrev Dispatched := Option (Except DispatchError CliResponse)

/-- The output of a dispatched call, `none` when it belongs to a subprocess. -/
def Dispatched.output (timeout : ℕ) : Dispatched → Option CommandOutput
  | some (.ok resp) => some ⟨some (if resp.success then 0 else 1), resp.json, [], false⟩
  | some (.error .notInProcess) => none
  | some (.error (.parse msg)) => some ⟨some 2, [], "error: ".toList ++ msg, false⟩
  | some (.error (.api msg)) => some ⟨some 1, [], msg, false⟩
  | none =>
    some ⟨none, [], "Command timed out after ".toList ++ (toString timeout).toList ++ ['s'], true⟩

/-- The command line of `heramind`: what a call gives depends on its argument vector alone, and is
the same in this process and in one of its own. -/
structure Cli where
  timeout : ℕ
  /-- `dispatch::dispatch` -/
  dispatch : Argv → Dispatched
  /-- The exit status of a process with these arguments. -/
  status : Argv → ℕ
  exitCode_eq : ∀ argv out, (dispatch argv).output timeout = some out →
    out.exitCode = some (status argv)

/-- The calls that were performed, and the output unless a subprocess is needed. -/
abbrev Attempt := List Argv × Option CommandOutput

/-- The call is dispatched in this process, unless it is not one for it. -/
def Cli.inProcess (cli : Cli) (argv : Argv) : Bool := ((cli.dispatch argv).output cli.timeout).isSome

def Cli.perform (cli : Cli) (argv : Argv) : Attempt :=
  match (cli.dispatch argv).output cli.timeout with
  | some out => ([argv], some out)
  | none => ([], none)

/-- It starts with `heramind `, or is `heramind`. -/
def isHeramind (t : Text) : Bool := "heramind ".toList.isPrefixOf t || t = "heramind".toList

/-- The separator that appears first. -/
def separator (trimmed : Text) : Option Text :=
  match ByteText.find "&&".toList trimmed, ByteText.find ";".toList trimmed with
  | some amp, some semi => if semi < amp then some ";".toList else some "&&".toList
  | some _, none => some "&&".toList
  | none, some _ => some ";".toList
  | none, none => none

/-- The parts between separators, trimmed, without the empty ones. -/
def partsOf (sep trimmed : Text) : List Text :=
  ((Pieces.split sep trimmed).map trim).filter fun part => !part.isEmpty

/-- The argument vector of a command without separators. -/
def argvOf (trimmed : Text) : Option Argv :=
  if isHeramind trimmed then
    match tokenizeHeramindCommand trimmed with
    | .ok argv => if argv.head? = some "heramind".toList then some argv else none
    | .error _ => none
  else none

/-- The parts, one after the other: `&&` stops on failure, `;` always continues. -/
def runParts (attempt : Text → Attempt) (sep : Text) (outputs : List Text) : List Text → Attempt
  | [] =>
    ([], some ⟨some 0, ("\n--- ".toList ++ sep ++ " ---\n".toList).intercalate outputs, [], false⟩)
  | part :: parts =>
    match attempt part with
    | (performed, some out) =>
      let code := out.exitCode.getD 1
      let outputs := outputs ++ [out.stdout]
      if sep = "&&".toList ∧ code ≠ 0 then
        (performed, some ⟨some code, "\n--- && ---\n".toList.intercalate outputs, [], false⟩)
      else
        let rest := runParts attempt sep outputs parts
        (performed ++ rest.1, rest.2)
    | (performed, none) => (performed, none)

/-- In-process dispatch of a single (pipe-free) heramind command line; the parts of a sequence are
attempted on their own. -/
def dispatchInProcess (cli : Cli) (attempt : Text → Attempt) (command : Text) : Attempt :=
  let trimmed := trim command
  match separator trimmed with
  | some sep =>
    let parts := partsOf sep trimmed
    if 1 < parts.length ∧ parts.all isHeramind then runParts attempt sep [] parts else ([], none)
  | none =>
    match argvOf trimmed with
    | some argv => cli.perform argv
    | none => ([], none)

/-- Attempt in-process dispatch for `heramind` data commands, `depth` sequences deep. -/
def tryInProcessDispatch (cli : Cli) : ℕ → Text → Attempt
  | 0, _ => ([], none)
  | depth + 1, command =>
    match splitTruncationPipeline (trim command) with
    | some (base, mergeStderr, truncation) =>
      let output := dispatchInProcess cli (tryInProcessDispatch cli depth) base
      (output.1, output.2.map fun out => applyTruncationPipeline out mergeStderr truncation)
    | none => ([], none)

/-- Execute a command; `subprocess` is what the shell performs and gives for a text. -/
def executeCommand (cli : Cli) (subprocess : Text → List Argv × CommandOutput) (command : Text) :
    List Argv × CommandOutput :=
  match tryInProcessDispatch cli (command.length + 1) command with
  | (performed, some output) => (performed, output)
  | (performed, none) =>
    let rest := subprocess command
    (performed ++ rest.1, rest.2)

end HeraMind.Agent.Shell
