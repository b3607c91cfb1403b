/-
# Scripts of calls

What `/bin/sh -c` makes of a text: calls of `heramind`, joined by `;`, `&&`, `||`, `|` and newlines,
whose words are quoted, escaped and expanded as the shell does it.  A script is given as a syntax
tree with its text, so what a text means is a function of the tree.

An unquoted variable and a pattern character are expanded, split and matched against file names.
What comes of a word with one of them is a parameter, as are the values of the variables.
-/
import HeraMind.Agent.ShellChains

namespace HeraMind.Agent.Shell

open List

/-! ## Words -/

/-- Characters that stand for themselves outside of quotes. -/
def isPlain (c : Char) : Bool := c ∉ "|&;<>()$\x60\\\"' \t\n".toList

/-- Characters that stand for file names or alternatives. -/
def isPattern (c : Char) : Bool := c ∈ "*?[\x7b".toList

def isNameStart (c : Char) : Bool := c = '_' || c.isAlpha

def isNameChar (c : Char) : Bool := c = '_' || c.isAlphanum

def isName : Text → Bool
  | [] => false
  | c :: x => isNameStart c && x.all isNameChar

/-- `$x`, or the form with braces. -/
def variableText (x : Text) (braced : Bool) : Text :=
  if braced then "$\x7b".toList ++ x ++ "\x7d".toList else '$' :: x

/-- A part of a word in double quotes. -/
inductive Quoted : Type where
  | literal (c : Char)
  | escaped (c : Char)
  | param (x : Text) (braced : Bool)
  deriving DecidableEq

/-- A part of a word. -/
inductive Segment : Type where
  | plain (c : Char)
  | escaped (c : Char)
  | single (t : Text)
  | double (parts : List Quoted)
  | param (x : Text) (braced : Bool)
  deriving DecidableEq

namespace Quoted

def text : Quoted → Text
  | literal c => [c]
  | escaped c => ['\\', c]
  | param x braced => variableText x braced

/-- In double quotes a backslash is kept, unless it is before a special character. -/
def value (var : Text → Text) : Quoted → Text
  | literal c => [c]
  | escaped c =>
    if c = '\n' then [] else if c ∈ "$\x60\"\\".toList then [c] else ['\\', c]
  | param x _ => var x

def legal : Quoted → Bool
  | literal c => c ∉ "\"\\$\x60".toList
  | escaped _ => true
  | param x _ => isName x

/-- The text goes on with a character of a name. -/
def continuesName : List Quoted → Bool
  | literal c :: _ => isNameChar c
  | escaped c :: rest => c = '\n' && continuesName rest
  | _ => false

/-- A name without braces ends where it should. -/
def namesEnd : List Quoted → Bool
  | [] => true
  | param _ false :: rest => !continuesName rest && namesEnd rest
  | _ :: rest => namesEnd rest

end Quoted

namespace Segment

def text : Segment → Text
  | plain c => [c]
  | escaped c => ['\\', c]
  | single t => '\'' :: (t ++ ['\''])
  | double parts => '"' :: (parts.flatMap Quoted.text ++ ['"'])
  | param x braced => variableText x braced

/-- The characters without the quotes.  A backslash before a newline is removed with it. -/
def value (var : Text → Text) : Segment → Text
  | plain c => [c]
  | escaped c => if c = '\n' then [] else [c]
  | single t => t
  | double parts => parts.flatMap (Quoted.value var)
  | param x _ => var x

def legal : Segment → Bool
  | plain c => isPlain c
  | escaped _ => true
  | single t => '\'' ∉ t
  | double parts => parts.all Quoted.legal && Quoted.namesEnd parts
  | param x _ => isName x

/-- It is expanded to any number of arguments. -/
def expands : Segment → Bool
  | plain c => isPattern c
  | param _ _ => true
  | _ => false

def continuesName : List Segment → Bool
  | plain c :: _ => isNameChar c
  | escaped c :: rest => c = '\n' && continuesName rest
  | _ => false

def namesEnd : List Segment → Bool
  | [] => true
  | param _ false :: rest => !continuesName rest && namesEnd rest
  | _ :: rest => namesEnd rest

/-- A `#` at the front of a word is a comment. -/
def isComment : List Segment → Bool
  | plain c :: _ => c = '#'
  | _ => false

/-- A `~` at the front of a word is a home directory. -/
def isHome : List Segment → Bool
  | plain c :: _ => c = '~'
  | _ => false

end Segment

/-- A word.  A backslash before a newline at one of its ends counts as a space beside it. -/
structure Word where
  segments : List Segment
  nonempty : segments ≠ []
  ends : segments.head? ≠ some (.escaped '\n') ∧ segments.getLast? ≠ some (.escaped '\n')
  legal : segments.all Segment.legal = true
  namesEnd : Segment.namesEnd segments = true
  noComment : Segment.isComment segments = false

namespace Word

def text (w : Word) : Text := w.segments.flatMap Segment.text

def value (w : Word) (var : Text → Text) : Text := w.segments.flatMap (Segment.value var)

def expands (w : Word) : Bool := w.segments.any Segment.expands || Segment.isHome w.segments

end Word

/-- What a shell makes of the words. -/
structure Sh where
  var : Text → Text
  /-- The arguments that a word with an unquoted variable or a pattern stands for. -/
  expand : Word → List Text

/-- The arguments that a word stands for: itself without its quotes, unless it is expanded. -/
def Sh.arguments (sh : Sh) (w : Word) : List Text :=
  if w.expands then sh.expand w else [w.value sh.var]

/-! ## Scripts -/

/-- What may stand between words. -/
inductive Space : Type where
  | space
  | tab
  | newline
  /-- A backslash before a newline is removed with it. -/
  | continuation
  deriving DecidableEq

def Space.text : Space → Text
  | space => [' ']
  | tab => ['\t']
  | newline => ['\n']
  | continuation => ['\\', '\n']

/-- What separates two words of a call. -/
structure Gap where
  spaces : List Space
  inline : .newline ∉ spaces
  separates : .space ∈ spaces ∨ .tab ∈ spaces

/-- A call of `heramind`, whose name may be quoted as well. -/
structure Invocation where
  name : Word
  name_value : ∀ var, name.value var = "heramind".toList
  args : List (Gap × Word)

def Invocation.text (i : Invocation) : Text :=
  i.name.text ++ i.args.flatMap fun arg => arg.1.spaces.flatMap Space.text ++ arg.2.text

def Invocation.argv (i : Invocation) (sh : Sh) : Argv :=
  "heramind".toList :: i.args.flatMap fun arg => sh.arguments arg.2

inductive Operator : Type where
  | semicolon
  | newline
  | and
  | or
  | pipe
  deriving DecidableEq

def Operator.text : Operator → Text
  | semicolon => [';']
  | newline => ['\n']
  | and => ['&', '&']
  | or => ['|', '|']
  | pipe => ['|']

/-- An operator between two calls; newlines may follow it. -/
structure Joint where
  before : List Space
  inline : .newline ∉ before
  op : Operator
  after : List Space

def Joint.text (j : Joint) : Text :=
  j.before.flatMap Space.text ++ (j.op.text ++ j.after.flatMap Space.text)

/-- Calls that are joined by operators. -/
structure Script where
  leading : List Space
  first : Invocation
  rest : List (Joint × Invocation)
  trailing : List Space

namespace Script

def text (s : Script) : Text :=
  s.leading.flatMap Space.text ++ (s.first.text ++
    (s.rest.flatMap (fun x => x.1.text ++ x.2.text) ++ s.trailing.flatMap Space.text))

/-- The argument vectors of the calls. -/
def argvs (s : Script) (sh : Sh) : List Argv :=
  s.first.argv sh :: s.rest.map fun x => x.2.argv sh

/-- All calls are joined by `&&`. -/
def IsChain (s : Script) : Prop := ∀ x ∈ s.rest, x.1.op = .and

end Script

/-- Whether the call behind an operator is performed: the call before it was, and the status is the
one of the last call that was performed.  The calls of a pipeline are performed together. -/
def Operator.opens (active : Bool) (status : ℕ) : Operator → Bool
  | semicolon | newline => true
  | and => status = 0
  | or => status ≠ 0
  | pipe => active

/-- The calls that a shell performs behind another one, and the status it ends with. -/
def runFrom (sh : Sh) (calls : Argv → ℕ) (active : Bool) (status : ℕ) :
    List (Joint × Invocation) → List Argv × ℕ
  | [] => ([], status)
  | (j, i) :: rest =>
    if j.op.opens active status then
      let argv := i.argv sh
      let r := runFrom sh calls true (calls argv) rest
      (argv :: r.1, r.2)
    else runFrom sh calls false status rest

/-- What a shell performs for a script, and its exit status. -/
def Script.run (s : Script) (sh : Sh) (calls : Argv → ℕ) : List Argv × ℕ :=
  let argv := s.first.argv sh
  let r := runFrom sh calls true (calls argv) s.rest
  (argv :: r.1, r.2)

variable {sh : Sh} {calls : Argv → ℕ} {s : Script} {l : Text}

/-! ## The front of a text -/

/-- A word begins with a plain character, a backslash, a quote or a variable. -/
theorem Segment.exists_text_eq_cons {segment : Segment} (h : segment.legal = true) :
    ∃ d t, segment.text = d :: t ∧
      ((isPlain d = true ∧ segment = .plain d) ∨ d ∈ ['\\', '\'', '"', '$']) := by
  cases segment with
  | plain d => exact ⟨d, [], rfl, Or.inl ⟨h, rfl⟩⟩
  | escaped d => exact ⟨'\\', [d], rfl, Or.inr (by decide)⟩
  | single t => exact ⟨'\'', _, rfl, Or.inr (by decide)⟩
  | double parts => exact ⟨'"', _, rfl, Or.inr (by decide)⟩
  | param x braced => cases braced <;> exact ⟨'$', _, rfl, Or.inr (by decide)⟩

/-- What is in front of the first quote of a word is at the front of its value. -/
theorem prefix_value {segments : List Segment} (var : Text → Text)
    (hlegal : segments.all Segment.legal = true) (h : l <+: segments.flatMap Segment.text)
    (hl : ∀ d ∈ l, d ∉ ['\\', '\'', '"', '$']) : l <+: segments.flatMap (Segment.value var) := by
  induction segments generalizing l with
  | nil =>
    rw [flatMap_nil, prefix_nil] at h
    rw [h]
    exact nil_prefix
  | cons segment segments ih =>
    rw [all_cons, Bool.and_eq_true] at hlegal
    cases l with
    | nil => exact nil_prefix
    | cons d l =>
      obtain ⟨e, t, htext, he⟩ := Segment.exists_text_eq_cons hlegal.1
      rw [flatMap_cons, htext, cons_append, cons_prefix_cons] at h
      obtain ⟨rfl, hrest⟩ := h
      rcases he with ⟨-, rfl⟩ | he
      · rw [Segment.text, cons.injEq] at htext
        rw [← htext.2, nil_append] at hrest
        have htail := ih hlegal.2 hrest fun e he => hl e (mem_cons_of_mem _ he)
        rw [flatMap_cons, Segment.value, singleton_append, cons_prefix_cons]
        exact ⟨rfl, htail⟩
      · exact absurd he (hl d mem_cons_self)

/-- The name of a call begins with its first letter, or with a sign of quoting. -/
theorem Invocation.exists_name_eq_cons (i : Invocation) :
    ∃ d t, i.name.text = d :: t ∧ d ∈ ['h', '\\', '\'', '"', '$'] := by
  have hvalue := i.name_value fun _ => []
  have hlegal := i.name.legal
  unfold Word.value at hvalue
  unfold Word.text
  cases hsegments : i.name.segments with
  | nil =>
    rw [hsegments] at hvalue
    exact absurd hvalue (by decide)
  | cons segment segments =>
    rw [hsegments] at hvalue hlegal
    rw [all_cons, Bool.and_eq_true] at hlegal
    obtain ⟨d, t, htext, hd⟩ := Segment.exists_text_eq_cons hlegal.1
    refine ⟨d, t ++ segments.flatMap Segment.text, ?_, ?_⟩
    · rw [flatMap_cons, htext, cons_append]
    · rcases hd with ⟨-, rfl⟩ | hd
      · rw [flatMap_cons, Segment.value, singleton_append] at hvalue
        rw [(cons.inj hvalue).1]
        exact mem_cons_self
      · exact mem_cons_of_mem _ hd

theorem length_flatMap_le {α : Type} {f g : α → Text} (h : ∀ x, (f x).length ≤ (g x).length)
    (xs : List α) : (xs.flatMap f).length ≤ (xs.flatMap g).length := by
  induction xs with
  | nil => exact le_rfl
  | cons x xs ih =>
    rw [flatMap_cons, flatMap_cons, length_append, length_append]
    exact Nat.add_le_add (h x) ih

theorem Quoted.length_value_le (q : Quoted) : (q.value fun _ => []).length ≤ q.text.length := by
  cases q with
  | literal c => exact le_rfl
  | escaped c =>
    simp only [value, text]
    split
    · simp
    · split <;> simp
  | param x braced => simp [value]

theorem Segment.length_value_le (segment : Segment) :
    (segment.value fun _ => []).length ≤ segment.text.length := by
  cases segment with
  | plain c => exact le_rfl
  | escaped c =>
    simp only [value, text]
    split <;> simp
  | single t =>
    simp only [value, text, length_cons, length_append]
    omega
  | double parts =>
    have hparts : (parts.flatMap (Quoted.value fun _ => [])).length ≤
        (parts.flatMap Quoted.text).length := length_flatMap_le Quoted.length_value_le parts
    simp only [value, text, length_cons, length_append]
    omega
  | param x braced => simp [value]

/-- The name of a call is not shorter than without its quotes. -/
theorem Invocation.length_name (i : Invocation) : 8 ≤ i.name.text.length := by
  have hvalue := congrArg List.length (i.name_value fun _ => [])
  have hle : (i.name.value fun _ => []).length ≤ i.name.text.length :=
    length_flatMap_le Segment.length_value_le i.name.segments
  rw [hvalue] at hle
  exact hle

/-- Behind spaces comes a backslash, or what follows them. -/
theorem front_spaces (spaces : List Space) (t : Text) :
    (∃ r, front (spaces.flatMap Space.text ++ t) = '\\' :: r) ∨
      front (spaces.flatMap Space.text ++ t) = front t := by
  induction spaces with
  | nil => exact Or.inr rfl
  | cons gap spaces ih =>
    rw [flatMap_cons, append_assoc]
    cases gap with
    | continuation => exact Or.inl ⟨_, rfl⟩
    | _ => exact ih

/-- What a call begins with, behind spaces. -/
theorem Invocation.front_name (i : Invocation) (spaces : List Space) (t : Text) :
    (∃ r, front (spaces.flatMap Space.text ++ (i.name.text ++ t)) = '\\' :: r) ∨
      front (spaces.flatMap Space.text ++ (i.name.text ++ t)) = i.name.text ++ t := by
  refine (front_spaces spaces _).imp_right fun hfront => hfront.trans ?_
  obtain ⟨d, r, htext, hd⟩ := i.exists_name_eq_cons
  rw [htext, cons_append]
  simp only [mem_cons, not_mem_nil, or_false] at hd
  rcases hd with rfl | rfl | rfl | rfl | rfl <;> rfl

/-- A text does not begin with a separator. -/
theorem Script.not_prefix_front (s : Script) : ¬ "&&".toList <+: front s.text := by
  intro h
  unfold text Invocation.text at h
  rw [append_assoc] at h
  rcases s.first.front_name s.leading _ with ⟨r, hr⟩ | hr
  · rw [hr] at h
    exact absurd (cons_prefix_cons.mp h).1 (by decide)
  · obtain ⟨d, r, htext, hd⟩ := s.first.exists_name_eq_cons
    rw [hr, htext] at h
    rw [← (cons_prefix_cons.mp h).1] at hd
    exact absurd hd (by decide)

/-! ## Runs -/

variable {rest : List (Joint × Invocation)}

theorem runFrom_failed (sh : Sh) (calls : Argv → ℕ) (active : Bool) {status : ℕ}
    (hstatus : status ≠ 0) (h : ∀ x ∈ rest, x.1.op = .and) :
    runFrom sh calls active status rest = ([], status) := by
  induction rest generalizing active with
  | nil => rfl
  | cons x rest ih =>
    obtain ⟨j, i⟩ := x
    have hop : j.op = .and := h (j, i) mem_cons_self
    rw [runFrom, hop, if_neg (by simpa [Operator.opens] using hstatus)]
    exact ih false fun x hx => h x (mem_cons_of_mem _ hx)

theorem runFrom_chain (sh : Sh) (calls : Argv → ℕ) (h : ∀ x ∈ rest, x.1.op = .and) :
    runFrom sh calls true 0 rest = chainResult calls (rest.map fun x => x.2.argv sh) := by
  induction rest with
  | nil => rfl
  | cons x rest ih =>
    obtain ⟨j, i⟩ := x
    have hop : j.op = .and := h (j, i) mem_cons_self
    have hrest : ∀ x ∈ rest, x.1.op = .and := fun x hx => h x (mem_cons_of_mem _ hx)
    rw [runFrom, hop, if_pos (by rfl), map_cons, chainResult]
    by_cases hzero : calls (i.argv sh) = 0
    · simp only [hzero, ih hrest, if_true]
    · simp only [runFrom_failed sh calls true hzero hrest, hzero, if_false]

/-- A shell performs the calls of a chain until one fails. -/
theorem Script.run_chain (sh : Sh) (calls : Argv → ℕ) (h : s.IsChain) :
    s.run sh calls = chainResult calls (s.argvs sh) := by
  unfold run argvs
  rw [chainResult]
  by_cases hzero : calls (s.first.argv sh) = 0
  · simp only [hzero, runFrom_chain sh calls h, if_true]
  · simp only [runFrom_failed sh calls true hzero h, hzero, if_false]

theorem runFrom_status (hone : ∀ a, calls a = 1) (active : Bool)
    (rest : List (Joint × Invocation)) : (runFrom sh calls active 1 rest).2 = 1 := by
  induction rest generalizing active with
  | nil => rfl
  | cons x rest ih =>
    rw [runFrom]
    split
    · simp only [hone]
      exact ih true
    · exact ih false

theorem runFrom_eq_nil (active : Bool) (h : (runFrom sh calls active 1 rest).1 = []) :
    ∀ x ∈ rest, x.1.op = .and ∨ x.1.op = .pipe := by
  induction rest generalizing active with
  | nil => exact nofun
  | cons x rest ih =>
    obtain ⟨j, i⟩ := x
    rw [runFrom] at h
    split at h
    · cases h
    · rename_i hopens
      intro x hx
      rcases mem_cons.mp hx with rfl | hx
      · show j.op = .and ∨ j.op = .pipe
        revert hopens
        cases j.op <;> simp [Operator.opens]
      · exact ih false h x hx

/-- When every call fails, the status is a failure. -/
theorem Script.run_status (sh : Sh) (s : Script) (hone : ∀ a, calls a = 1) :
    (s.run sh calls).2 = 1 := by
  unfold run
  simp only [hone]
  exact runFrom_status hone true s.rest

/-- When every call fails and only the first one is performed, no other one is behind a `;`, a
newline or `||`. -/
theorem Script.op_of_run_eq_singleton {a : Argv} (hone : ∀ a, calls a = 1)
    (h : (s.run sh calls).1 = [a]) : ∀ x ∈ s.rest, x.1.op = .and ∨ x.1.op = .pipe := by
  unfold run at h
  simp only [hone] at h
  exact runFrom_eq_nil true (cons.inj h).2

theorem runFrom_of_zero (sh : Sh) (hzero : ∀ a, calls a = 0)
    (h : ∀ x ∈ rest, x.1.op = .and ∨ x.1.op = .pipe) :
    (runFrom sh calls true 0 rest).1 = rest.map fun x => x.2.argv sh := by
  induction rest with
  | nil => rfl
  | cons x rest ih =>
    obtain ⟨j, i⟩ := x
    have hopens : j.op.opens true 0 = true := by
      rcases h (j, i) mem_cons_self with hop | hop
      · rw [hop]
        rfl
      · rw [hop]
        rfl
    rw [runFrom, if_pos hopens, map_cons, ← ih fun x hx => h x (mem_cons_of_mem _ hx)]
    simp only [hzero]

/-- When every call succeeds, all that are joined by `&&` and `|` are performed. -/
theorem Script.run_of_zero (sh : Sh) (hzero : ∀ a, calls a = 0)
    (h : ∀ x ∈ s.rest, x.1.op = .and ∨ x.1.op = .pipe) : (s.run sh calls).1 = s.argvs sh := by
  unfold run argvs
  simp only [hzero, runFrom_of_zero sh hzero h]

end HeraMind.Agent.Shell
