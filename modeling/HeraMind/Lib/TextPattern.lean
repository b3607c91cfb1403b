/-
# Patterns with preferences

A pattern matches a prefix of a text in several ways.  A regular expression with greedy and
lazy repetitions says which of them comes first: `rests` lists what the matches leave of the
text, in this order.  The leftmost match is found first, and the search goes on behind it.
-/
import Mathlib.Data.List.Infix

/-- The patterns without alternatives other than `?`. -/
inductive TextPattern : Type where
  /-- The empty pattern. -/
  | empty
  /-- A character of a class. -/
  | char (q : Char → Bool)
  /-- `q*`. -/
  | many (q : Char → Bool)
  /-- `q*?`. -/
  | few (q : Char → Bool)
  /-- `p?`. -/
  | maybe (p : TextPattern)
  | seq (p₁ p₂ : TextPattern)

namespace TextPattern

variable {p : TextPattern} {t r : List Char}

/-- One pattern after the other. -/
def all : List TextPattern → TextPattern
  | [] => .empty
  | p :: ps => .seq p (all ps)

/-- A text as a pattern. -/
def lit (s : String) : TextPattern := all (s.toList.map fun c => .char (· == c))

/-- What `q*` leaves, the longest match first. -/
def restsMany (q : Char → Bool) : List Char → List (List Char)
  | [] => [[]]
  | c :: t => (if q c then restsMany q t else []) ++ [c :: t]

/-- What `q*?` leaves, the shortest match first. -/
def restsFew (q : Char → Bool) : List Char → List (List Char)
  | [] => [[]]
  | c :: t => (c :: t) :: if q c then restsFew q t else []

/-- What the matches at the beginning of a text leave of it, in order of preference. -/
def rests : TextPattern → List Char → List (List Char)
  | .empty, t => [t]
  | .char _, [] => []
  | .char q, c :: t => if q c then [t] else []
  | .many q, t => restsMany q t
  | .few q, t => restsFew q t
  | .maybe p, t => p.rests t ++ [t]
  | .seq p₁ p₂, t => (p₁.rests t).flatMap p₂.rests

/-- `replace_all(t, "")`, after the characters to skip. -/
def removeAll (p : TextPattern) : ℕ → List Char → List Char
  | _, [] => []
  | skip + 1, _ :: t => removeAll p skip t
  | 0, c :: t =>
    match (p.rests (c :: t)).head? with
    | some r =>
      if r.length ≤ t.length then removeAll p (t.length - r.length) t else c :: removeAll p 0 t
    | none => c :: removeAll p 0 t

end TextPattern
