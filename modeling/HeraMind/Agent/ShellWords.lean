/-
# The words of a call

What the tokenizer makes of a call.  A word without variables and patterns stands for one argument,
whatever the shell and its files are.  The tokenizer gives the same argument unless a blank of
another alphabet ends the token, a continued line is taken for a character, or a backslash that the
shell keeps is dropped: each of these makes some character more or less frequent.
-/
import Mathlib.Algebra.Order.BigOperators.Group.List
import Mathlib.Algebra.Order.Group.Nat
import HeraMind.Agent.ShellScript

namespace HeraMind.Agent.Shell

open HeraMind.Rules (isWhitespace)
open List

/-! ## Words without variables -/

namespace Quoted

def fixed : Quoted → Bool
  | param _ _ => false
  | _ => true

/-- No backslash stays in the argument, and no line is continued. -/
def kept : Quoted → Bool
  | escaped c => c ∈ "$\x60\"\\".toList
  | _ => true

/-- What reaches a token. -/
def reached : Quoted → Text
  | literal c | escaped c => [c]
  | param _ _ => []

end Quoted

namespace Segment

def fixed : Segment → Bool
  | double parts => parts.all Quoted.fixed
  | param _ _ => false
  | _ => true

/-- No blank is bare, no backslash stays in the argument, and no line is continued. -/
def kept : Segment → Bool
  | plain c => !isWhitespace c
  | escaped c => c ≠ '\n'
  | double parts => parts.all Quoted.kept
  | _ => true

def marks : Segment → List (Option Char)
  | plain c => [if isWhitespace c then none else some c]
  | escaped c => [some c]
  | single t => t.map some
  | double parts => (parts.flatMap Quoted.reached).map some
  | param _ _ => []

end Segment

namespace Word

/-- No variable and no pattern: the word stands for the same argument in every shell. -/
def fixed (w : Word) : Bool := !w.expands && w.segments.all Segment.fixed

/-- The argument that such a word stands for. -/
def literal (w : Word) : Text := w.value fun _ => []

def marks (w : Word) : List (Option Char) := w.segments.flatMap Segment.marks

/-- The tokenizer makes one token of the word, the argument that it stands for. -/
structure Kept (w : Word) : Prop where
  fixed : w.fixed = true
  nonempty : w.literal ≠ []
  kept : ∀ x ∈ w.segments, x.kept = true

end Word

def Space.marks : Space → List (Option Char)
  | continuation => [some '\n']
  | _ => [none]

def Invocation.marks (i : Invocation) : List (Option Char) :=
  "heramind".toList.map some ++
    i.args.flatMap fun arg => arg.1.spaces.flatMap Space.marks ++ arg.2.marks

/-- The argument vector of a call without variables and patterns. -/
def Invocation.literal (i : Invocation) : Argv :=
  "heramind".toList :: i.args.map fun arg => arg.2.literal

variable {c : Char} {t u : Text} {ms ns : List (Option Char)} {w : Word} {i : Invocation}

theorem Segment.value_of_fixed {x : Segment} (h : x.fixed = true) (var : Text → Text) :
    x.value var = x.value fun _ => [] := by
  cases x with
  | double parts =>
    unfold value
    apply flatMap_congr
    intro q hq
    have hfixed : q.fixed = true := all_eq_true.mp h q hq
    cases q with
    | param y braced => cases hfixed
    | _ => rfl
  | param y braced => cases h
  | _ => rfl

/-- A word without variables and patterns stands for the same argument in every shell. -/
theorem Sh.arguments_of_fixed (sh : Sh) (h : w.fixed = true) : sh.arguments w = [w.literal] := by
  unfold Word.fixed at h
  rw [Bool.and_eq_true, Bool.not_eq_true'] at h
  unfold arguments
  rw [if_neg (by simp [h.1])]
  unfold Word.literal Word.value
  congr 1
  exact flatMap_congr fun x hx => Segment.value_of_fixed (all_eq_true.mp h.2 x hx) sh.var

theorem Invocation.argv_of_fixed (sh : Sh) (h : ∀ arg ∈ i.args, arg.2.fixed = true) :
    i.argv sh = i.literal := by
  unfold argv literal
  rw [map_eq_flatMap]
  congr 1
  exact flatMap_congr fun arg harg => sh.arguments_of_fixed (h arg harg)

/-! ## Marks of a text -/

/-- A text after which no quote is open, with its marks. -/
structure Marked (t : Text) (ms : List (Option Char)) : Prop where
  marks : Mode.bare.marks t = ms
  behind : Mode.bare.behind t = .bare

theorem Marked.append (ht : Marked t ms) (hu : Marked u ns) : Marked (t ++ u) (ms ++ ns) := by
  constructor
  · rw [Mode.marks_append, ht.marks, ht.behind, hu.marks]
  · rw [Mode.behind_append, ht.behind, hu.behind]

theorem Marked.flatMap {α : Type} {f : α → Text} {g : α → List (Option Char)} {xs : List α}
    (h : ∀ x ∈ xs, Marked (f x) (g x)) : Marked (xs.flatMap f) (xs.flatMap g) := by
  induction xs with
  | nil => exact ⟨rfl, rfl⟩
  | cons x xs ih =>
    exact (h x mem_cons_self).append (ih fun y hy => h y (mem_cons_of_mem _ hy))

/-- Quoting signs. -/
def isQuoting (c : Char) : Bool := c ∈ ['\\', '\'', '"']

theorem marked_singleton (h : isQuoting c = false) :
    Marked [c] [if isWhitespace c then none else some c] := by
  have hne : c ≠ '\\' ∧ c ≠ '\'' ∧ c ≠ '"' := by simpa [isQuoting] using h
  have hscan : Mode.bare.scan c = ([if isWhitespace c then none else some c], .bare) := by
    simp only [Mode.scan, Mode.bare, hne, Bool.false_eq_true, not_false_eq_true, and_true, if_false]
    split <;> rfl
  constructor
  · rw [Mode.marks, hscan]
    rfl
  · rw [Mode.behind, hscan]
    rfl

theorem marked_of_all (h : ∀ c ∈ t, isQuoting c = false ∧ isWhitespace c = false) :
    Marked t (t.map some) := by
  have hall : Marked (t.flatMap fun c => [c]) (t.flatMap fun c => [some c]) :=
    Marked.flatMap fun c hc => by
      have hc := h c hc
      simpa [hc.2] using marked_singleton hc.1
  rwa [flatMap_singleton', ← map_eq_flatMap] at hall

theorem marked_escaped (c : Char) : Marked ['\\', c] [some c] := ⟨rfl, rfl⟩

theorem marked_single (h : '\'' ∉ t) : Marked ('\'' :: (t ++ ['\''])) (t.map some) := by
  have ht : Mode.marks ⟨true, false, false⟩ t = t.map some ∧
      Mode.behind ⟨true, false, false⟩ t = ⟨true, false, false⟩ := by
    induction t with
    | nil => exact ⟨rfl, rfl⟩
    | cons d t ih =>
      rw [mem_cons, not_or] at h
      have hscan : Mode.scan ⟨true, false, false⟩ d = ([some d], ⟨true, false, false⟩) := by
        simp [Mode.scan, Ne.symm h.1]
      rw [Mode.marks, Mode.behind, hscan, (ih h.2).1]
      exact ⟨rfl, (ih h.2).2⟩
  constructor
  · show Mode.marks ⟨true, false, false⟩ (t ++ ['\'']) = _
    rw [Mode.marks_append, ht.1, ht.2]
    exact append_nil _
  · show Mode.behind ⟨true, false, false⟩ (t ++ ['\'']) = _
    rw [Mode.behind_append, ht.2]
    rfl

theorem marked_double {parts : List Quoted} (hlegal : parts.all Quoted.legal = true)
    (hfixed : parts.all Quoted.fixed = true) :
    Marked ('"' :: (parts.flatMap Quoted.text ++ ['"'])) ((parts.flatMap Quoted.reached).map some) := by
  have hparts : Mode.marks ⟨false, true, false⟩ (parts.flatMap Quoted.text) =
        (parts.flatMap Quoted.reached).map some ∧
      Mode.behind ⟨false, true, false⟩ (parts.flatMap Quoted.text) = ⟨false, true, false⟩ := by
    induction parts with
    | nil => exact ⟨rfl, rfl⟩
    | cons q parts ih =>
      rw [all_cons, Bool.and_eq_true] at hlegal hfixed
      obtain ⟨hmarks, hbehind⟩ := ih hlegal.2 hfixed.2
      have hq : Mode.marks ⟨false, true, false⟩ q.text = q.reached.map some ∧
          Mode.behind ⟨false, true, false⟩ q.text = ⟨false, true, false⟩ := by
        cases q with
        | literal d =>
          have hne : d ≠ '"' ∧ d ≠ '\\' := by
            have hd := hlegal.1
            simp only [Quoted.legal, decide_eq_true_eq] at hd
            exact ⟨fun h => hd (by simp [h]), fun h => hd (by simp [h])⟩
          simp [Quoted.text, Quoted.reached, Mode.marks, Mode.behind, Mode.scan, hne]
        | escaped d => exact ⟨rfl, rfl⟩
        | param x braced => cases hfixed.1
      rw [flatMap_cons, flatMap_cons, Mode.marks_append, Mode.behind_append, hq.1, hq.2, hmarks,
        map_append]
      exact ⟨rfl, hbehind⟩
  constructor
  · show Mode.marks ⟨false, true, false⟩ (parts.flatMap Quoted.text ++ ['"']) = _
    rw [Mode.marks_append, hparts.1, hparts.2]
    exact append_nil _
  · show Mode.behind ⟨false, true, false⟩ (parts.flatMap Quoted.text ++ ['"']) = _
    rw [Mode.behind_append, hparts.2]
    rfl

theorem Segment.marked {x : Segment} (hlegal : x.legal = true) (hfixed : x.fixed = true) :
    Marked x.text x.marks := by
  cases x with
  | plain d =>
    refine marked_singleton ?_
    have hplain : isPlain d = true := hlegal
    by_contra h
    rw [Bool.not_eq_false] at h
    have : d = '\\' ∨ d = '\'' ∨ d = '"' := by simpa [isQuoting] using h
    rcases this with rfl | rfl | rfl <;> revert hplain <;> decide
  | escaped d => exact marked_escaped d
  | single t => exact marked_single (of_decide_eq_true hlegal)
  | double parts =>
    rw [legal, Bool.and_eq_true] at hlegal
    exact marked_double hlegal.1 hfixed
  | param x braced => cases hfixed

theorem Word.marked (h : w.fixed = true) : Marked w.text w.marks := by
  unfold Word.fixed at h
  rw [Bool.and_eq_true] at h
  exact Marked.flatMap fun x hx =>
    x.marked (all_eq_true.mp w.legal x hx) (all_eq_true.mp h.2 x hx)

theorem Space.marked (gap : Space) : Marked gap.text gap.marks := by
  cases gap with
  | continuation => exact marked_escaped '\n'
  | _ => exact marked_singleton (by decide)

/-- The marks of a call whose name is not quoted. -/
theorem Invocation.marked (hname : i.name.text = "heramind".toList)
    (h : ∀ arg ∈ i.args, arg.2.fixed = true) : Marked i.text i.marks := by
  refine Marked.append ?_ (Marked.flatMap fun arg harg => ?_)
  · rw [hname]
    exact marked_of_all (ByteText.forall_mem_of_all (by decide))
  · exact (Marked.flatMap fun gap _ => gap.marked).append (arg.2.marked (h arg harg))

/-! ## Frequencies

A mark that is dropped or added changes how often a character occurs: a line break can only be added,
and any other character can only be dropped. -/

theorem eq_of_sum_le {α : Type} {f g : α → ℕ} {xs : List α} (hle : ∀ x ∈ xs, f x ≤ g x)
    (hsum : (xs.map g).sum ≤ (xs.map f).sum) : ∀ x ∈ xs, f x = g x := by
  induction xs with
  | nil => simp
  | cons x xs ih =>
    rw [map_cons, map_cons, sum_cons, sum_cons] at hsum
    have hx : f x ≤ g x := hle x mem_cons_self
    have hxs : ∀ y ∈ xs, f y ≤ g y := fun y hy => hle y (mem_cons_of_mem _ hy)
    have hrest : (xs.map f).sum ≤ (xs.map g).sum := sum_le_sum hxs
    intro y hy
    rcases mem_cons.mp hy with rfl | hy
    · omega
    · exact ih hxs (by omega) y hy

theorem reduceOption_flatMap {α : Type} (f : α → List (Option Char)) (xs : List α) :
    (xs.flatMap f).reduceOption = xs.flatMap fun x => (f x).reduceOption := by
  induction xs with
  | nil => rfl
  | cons x xs ih => rw [flatMap_cons, reduceOption_append, ih, flatMap_cons]

theorem reduceOption_map_some (t : Text) : (t.map some).reduceOption = t := by
  induction t with
  | nil => rfl
  | cons d t ih => rw [map_cons, reduceOption_cons_of_some, ih]

/-- The characters of a text that come of another one: line breaks may be added, and other
characters dropped. -/
def Reach (x y : Text) : Prop :=
  (∀ c, c ≠ '\n' → x.count c ≤ y.count c) ∧ y.count '\n' ≤ x.count '\n'

theorem Reach.refl (x : Text) : Reach x x := ⟨fun _ _ => le_rfl, le_rfl⟩

theorem Reach.newlines (n : ℕ) : Reach (replicate n '\n') [] :=
  ⟨fun c hc => by rw [count_replicate, if_neg (by simpa using Ne.symm hc)]; exact le_rfl,
    Nat.zero_le _⟩

theorem Reach.cons {d : Char} (hd : d ≠ '\n') (x : Text) : Reach x (d :: x) :=
  ⟨fun _ _ => (sublist_cons_self d x).count_le _, by rw [count_cons_of_ne hd]⟩

theorem Reach.append {x x' y y' : Text} (h : Reach x y) (h' : Reach x' y') :
    Reach (x ++ x') (y ++ y') := by
  unfold Reach
  simp only [count_append]
  exact ⟨fun c hc => Nat.add_le_add (h.1 c hc) (h'.1 c hc), Nat.add_le_add h.2 h'.2⟩

section FlatMap

variable {α : Type} {f g : α → Text} {xs : List α}

theorem Reach.flatMap (h : ∀ x ∈ xs, Reach (f x) (g x)) : Reach (xs.flatMap f) (xs.flatMap g) := by
  induction xs with
  | nil => exact .refl []
  | cons x xs ih =>
    exact (h x mem_cons_self).append (ih fun y hy => h y (mem_cons_of_mem _ hy))

/-- A character that is as frequent in the whole is as frequent in every part. -/
theorem Reach.count_eq (h : ∀ x ∈ xs, Reach (f x) (g x))
    (hc : (xs.flatMap f).count c = (xs.flatMap g).count c) :
    ∀ x ∈ xs, (f x).count c = (g x).count c := by
  rw [count_flatMap, count_flatMap] at hc
  by_cases hline : c = '\n'
  · subst hline
    exact fun x hx => (eq_of_sum_le (fun x hx => (h x hx).2) hc.le x hx).symm
  · exact eq_of_sum_le (fun x hx => (h x hx).1 c hline) hc.ge

end FlatMap

theorem Quoted.reach (q : Quoted) : Reach q.reached (q.value fun _ => []) := by
  cases q with
  | escaped d =>
    simp only [reached, value]
    split_ifs with hd
    · rw [hd]
      exact .newlines 1
    · exact .refl _
    · exact .cons (by decide) _
  | _ => exact .refl _

theorem Quoted.kept_of_count {q : Quoted}
    (h : ∀ c, q.reached.count c = (q.value fun _ => []).count c) : q.kept = true := by
  cases q with
  | escaped d =>
    have hnewline := h '\n'
    have hbackslash := h '\\'
    simp only [reached, value] at hnewline hbackslash
    split_ifs at hnewline hbackslash with hd hspecial
    · simp [hd] at hnewline
    · exact decide_eq_true hspecial
    · rw [count_cons_self] at hbackslash
      omega
  | _ => rfl

theorem Segment.reach {x : Segment} (hlegal : x.legal = true) :
    Reach x.marks.reduceOption (x.value fun _ => []) := by
  cases x with
  | plain d =>
    have hd : d ≠ '\n' := by
      rintro rfl
      revert hlegal
      decide
    simp only [marks, value]
    split
    · exact .cons hd []
    · exact .refl _
  | escaped d =>
    simp only [marks, value]
    split
    · rename_i hd
      rw [hd]
      exact .newlines 1
    · exact .refl _
  | single t =>
    rw [marks, reduceOption_map_some]
    exact .refl _
  | double parts =>
    rw [marks, reduceOption_map_some]
    exact .flatMap fun q _ => q.reach
  | param y braced => exact .refl _

theorem Segment.kept_of_count {x : Segment}
    (h : ∀ c, x.marks.reduceOption.count c = (x.value fun _ => []).count c) : x.kept = true := by
  cases x with
  | plain d | escaped d =>
    have hcount := h d
    simp only [marks, value] at hcount
    split at hcount
    · simp [reduceOption] at hcount
    · simp_all [kept]
  | double parts =>
    simp only [marks, reduceOption_map_some, value] at h
    exact all_eq_true.mpr fun q hq => Quoted.kept_of_count fun c =>
      Reach.count_eq (fun q _ => q.reach) (h c) q hq
  | _ => rfl

theorem Word.reach_segment (w : Word) :
    ∀ x ∈ w.segments, Reach x.marks.reduceOption (x.value fun _ => []) :=
  fun x hx => x.reach (all_eq_true.mp w.legal x hx)

theorem Word.reach (w : Word) : Reach w.marks.reduceOption w.literal := by
  unfold marks
  rw [reduceOption_flatMap]
  exact .flatMap w.reach_segment

/-- Where a character occurs as often as in the argument, it does so in each segment. -/
theorem Word.count_segment (h : w.marks.reduceOption.count c = w.literal.count c) :
    ∀ x ∈ w.segments, x.marks.reduceOption.count c = (x.value fun _ => []).count c := by
  unfold marks at h
  rw [reduceOption_flatMap] at h
  exact Reach.count_eq w.reach_segment h

/-- A continued line is the only character among spaces. -/
theorem reduceOption_spaces (spaces : List Space) :
    (spaces.flatMap Space.marks).reduceOption = replicate (spaces.count .continuation) '\n' := by
  induction spaces with
  | nil => rfl
  | cons gap spaces ih =>
    rw [flatMap_cons, reduceOption_append, ih]
    cases gap with
    | continuation => rw [count_cons_self, replicate_succ]; rfl
    | _ => rw [count_cons_of_ne (by decide)]; rfl

theorem Invocation.reduceOption_marks (i : Invocation) :
    i.marks.reduceOption = "heramind".toList ++ i.args.flatMap fun arg =>
      replicate (arg.1.spaces.count .continuation) '\n' ++ arg.2.marks.reduceOption := by
  unfold marks
  rw [reduceOption_append, reduceOption_map_some, reduceOption_flatMap]
  simp only [reduceOption_append, reduceOption_spaces]

theorem Invocation.flatten_literal (i : Invocation) :
    i.literal.flatten = "heramind".toList ++ i.args.flatMap fun arg => arg.2.literal := by
  rw [literal, flatten_cons, flatMap_def]

theorem Invocation.reach_arg (arg : Gap × Word) :
    Reach (replicate (arg.1.spaces.count .continuation) '\n' ++ arg.2.marks.reduceOption)
      arg.2.literal :=
  (Reach.newlines _).append arg.2.reach

theorem Invocation.reach (i : Invocation) : Reach i.marks.reduceOption i.literal.flatten := by
  rw [reduceOption_marks, flatten_literal]
  exact (Reach.refl _).append (.flatMap fun arg _ => reach_arg arg)

/-- Where a character occurs as often as in the arguments, it does so in each word; no line is
continued where this is so of line breaks. -/
theorem Invocation.count_word (h : i.marks.reduceOption.count c = i.literal.flatten.count c) :
    ∀ arg ∈ i.args, arg.2.marks.reduceOption.count c = arg.2.literal.count c ∧
      (c = '\n' → .continuation ∉ arg.1.spaces) := by
  intro arg harg
  rw [reduceOption_marks, flatten_literal, count_append, count_append] at h
  have heq := Reach.count_eq (fun arg _ => reach_arg arg) (Nat.add_left_cancel h) arg harg
  rw [count_append, count_replicate] at heq
  have hword := arg.2.reach
  by_cases hc : c = '\n'
  · subst hc
    rw [if_pos (beq_self_eq_true _)] at heq
    have hle := hword.2
    exact ⟨by omega, fun _ => count_eq_zero.mp (by omega)⟩
  · rw [if_neg (by simpa using Ne.symm hc), Nat.zero_add] at heq
    exact ⟨heq, fun h => absurd h hc⟩

end HeraMind.Agent.Shell
