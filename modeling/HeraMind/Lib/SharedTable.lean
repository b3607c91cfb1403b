/-
# A table that is rewritten whole from copies of it

Several holders keep a copy of one table.  A call changes one row of its holder's copy and then
saves the copy: in a transaction it clears the table, visits the copy part by part, and commits
what it has visited.  Only one transaction is open at a time; everything else may happen between
its sections.  A holder may also read the table again, and take over what it has read row by row.

All of this acts on every row by itself.  So the state here is what there is to say of one row,
and the operations are what the calls do to it.
-/
import Mathlib.Logic.Function.Basic
import Mathlib.Logic.Relation
import Mathlib.Data.List.Basic

namespace SharedTable

open Function

variable {P : Type*} [DecidableEq P]

/-- What a call has done to the row in the copy that it saves. -/
inductive Change where
  | none
  | add
  | remove
  deriving DecidableEq

/-- The row in the copy of a holder: whether it is there, whether it was there when the holder last
read or wrote the table, and the calls that have added or removed it and still have to save. -/
@[ext] structure Holder where
  copy : Bool
  known : Bool
  adds : ℕ
  removes : ℕ

/-- The row in the open transaction: what the call that saves has done to it, whether its part of
the copy has been visited, and whether it was found there. -/
structure Txn (P : Type*) where
  holder : P
  own : Change
  visited : Bool
  kept : Bool

/-- A row of the table, with whether it was ever added to a copy, and whether a call that added or
removed it has returned. -/
@[ext] structure Row (P : Type*) where
  table : Bool
  holder : P → Holder
  txn : Option (Txn P)
  issued : Bool
  added : Bool
  removed : Bool

namespace Row

variable {r : Row P} {p q w : P} {t : Txn P} {own : Change}

/-! ## What the calls do to the row -/

def set (r : Row P) (p : P) (h : Holder) : Row P :=
  { r with holder := Function.update r.holder p h }

@[simp] theorem set_self (r : Row P) (p : P) : r.set p (r.holder p) = r := by
  unfold set
  rw [update_eq_self]

/-- A call adds the row to the copy of its holder. -/
def add (r : Row P) (p : P) : Row P :=
  { r.set p { r.holder p with copy := true, adds := (r.holder p).adds + 1 } with issued := true }

/-- A call removes the row from the copy of its holder. -/
def remove (r : Row P) (p : P) : Row P :=
  r.set p { r.holder p with copy := false, removes := (r.holder p).removes + 1 }

/-- A call that waits to save begins its transaction. -/
def start (r : Row P) (p : P) (own : Change) : Row P :=
  { r.set p { r.holder p with
      adds := if own = .add then (r.holder p).adds - 1 else (r.holder p).adds
      removes := if own = .remove then (r.holder p).removes - 1 else (r.holder p).removes } with
    txn := some ⟨p, own, false, false⟩ }

/-- The transaction visits the part of the copy that the row is in. -/
def visit (r : Row P) (t : Txn P) : Row P :=
  { r with txn := some { t with visited := true, kept := (r.holder t.holder).copy } }

/-- The transaction commits, and its call returns. -/
def commit (r : Row P) (t : Txn P) : Row P :=
  { r.set t.holder { r.holder t.holder with known := t.kept } with
    table := t.kept
    txn := none
    added := r.added || t.own == .add
    removed := r.removed || t.own == .remove }

/-- A holder takes over the row, which its copy did not have. -/
def learn (r : Row P) (p : P) : Row P :=
  r.set p { r.holder p with copy := true, known := true }

/-- A holder drops the row. -/
def forget (r : Row P) (p : P) : Row P :=
  r.set p { r.holder p with copy := false, known := false }

/-- A holder that has no call in progress starts again with what the table has. -/
def reopen (r : Row P) (p : P) : Row P :=
  r.set p ⟨r.table, r.table, 0, 0⟩

/-! ## What holds of a row -/

/-- A call of the holder has added the row and has not returned. -/
def Adding (r : Row P) (p : P) : Prop :=
  0 < (r.holder p).adds ∨ ∃ t, r.txn = some t ∧ t.holder = p ∧ t.own = .add

/-- A call of the holder has removed the row and has not returned. -/
def Removing (r : Row P) (p : P) : Prop :=
  0 < (r.holder p).removes ∨ ∃ t, r.txn = some t ∧ t.holder = p ∧ t.own = .remove

/-- If the table has gained or lost the row since the holder last read or wrote it, the copy of the
holder has gained or lost it as well. -/
def Abreast (r : Row P) (p : P) : Prop :=
  r.table = (r.holder p).known ∨ r.table = (r.holder p).copy

/-- The open transaction finds in the table what its holder has. -/
structure InTxn (r : Row P) (t : Txn P) : Prop where
  abreast : r.Abreast t.holder
  own_add : t.own = .add → (r.holder t.holder).adds = 0 ∧ r.issued = true
  own_remove : t.own = .remove → t.kept = false ∧ r.issued = true
  copy_of_kept : t.kept = true →
    (r.holder t.holder).copy = true ∨ 0 < (r.holder t.holder).removes
  kept_of_copy : t.visited = true → (r.holder t.holder).copy = true →
    t.kept = true ∨ 0 < (r.holder t.holder).adds ∧ (r.holder t.holder).known = false
  removed : r.removed = true → t.kept = false

/-- What the holders have of a row agrees with the table up to the calls in progress. -/
structure Sound (w : P) (r : Row P) : Prop where
  adds_le : ∀ p, (r.holder p).adds ≤ 1
  issued : (∃ p, 0 < (r.holder p).adds ∨ 0 < (r.holder p).removes ∨ (r.holder p).copy = true ∨
    (r.holder p).known = true) ∨ r.table = true ∨ r.added = true ∨ r.removed = true →
    r.issued = true
  known_of_copy : ∀ p, (r.holder p).copy = true → (r.holder p).known = true ∨ r.Adding p
  copy_of_known : ∀ p, (r.holder p).known = true → (r.holder p).copy = true ∨ r.Removing p
  private_of_copy : ∀ p, (r.holder p).copy = true → (r.holder p).known = false →
    r.table = false ∧ r.removed = false ∧ ∀ q, q ≠ p → (r.holder q).copy = false ∧ ¬ r.Removing q
  not_copy : ∀ p, r.Removing p → (r.holder p).copy = false
  adding : ∀ p, r.Adding p → (r.holder p).copy = true ∨ r.Removing p ∨ r.removed = true
  added : r.added = true → r.table = true ∨ r.removed = true ∨ ∃ p, r.Removing p
  removed : r.removed = true → r.table = false ∧ (r.holder w).copy = false
  txn : ∀ t, r.txn = some t → r.InTxn t

/-! ## The operations keep the agreement -/

omit [DecidableEq P] in
/-- A row that was never added to a copy is nowhere. -/
theorem Sound.of_not_issued (h : r.Sound w) (hnew : r.issued = false) :
    r.table = false ∧ r.added = false ∧ r.removed = false ∧
      ∀ q, (r.holder q).copy = false ∧ (r.holder q).known = false ∧
        ¬ r.Adding q ∧ ¬ r.Removing q := by
  have hnot := fun hc => Bool.false_ne_true (hnew.symm.trans (h.issued hc))
  have htxn := h.txn
  refine ⟨by grind, by grind, by grind, fun q => ⟨by grind, by grind, ?_, ?_⟩⟩
  · rintro (hadds | ⟨t, ht, -, hown⟩)
    · exact hnot (Or.inl ⟨q, Or.inl hadds⟩)
    · exact Bool.false_ne_true (hnew.symm.trans ((htxn t ht).own_add hown).2)
  · rintro (hremoves | ⟨t, ht, -, hown⟩)
    · exact hnot (Or.inl ⟨q, Or.inr (Or.inl hremoves)⟩)
    · exact Bool.false_ne_true (hnew.symm.trans ((htxn t ht).own_remove hown).2)

theorem Sound.add (h : r.Sound w) (hnew : r.issued = false) : (r.add p).Sound w := by
  obtain ⟨htable, hadded, hremoved, hholder⟩ := h.of_not_issued hnew
  have hadds := h.adds_le
  have htxn := h.txn
  constructor
  case txn =>
    intro t ht
    obtain ⟨-, hadd, hremove, hkept, -, -⟩ := htxn t ht
    simp only [Row.add, set, Adding, Removing] at *
    constructor <;> grind [Abreast]
  all_goals
    simp only [Row.add, set, update_apply, Adding, Removing] at *
    grind

/-- A call removes only what the copy has. -/
theorem Sound.remove (h : r.Sound w) (hcopy : (r.holder p).copy = true) :
    (r.remove p).Sound w := by
  obtain ⟨hadds, hissued, hmem, hknown, hprivate, hnot, hadding, hadded, hremoved, htxn⟩ := h
  constructor
  case txn =>
    intro t ht
    obtain ⟨habreast, hadd, hremove, hkept, hvisited, hgone⟩ := htxn t ht
    simp only [Row.remove, set, Adding, Removing, Abreast] at *
    constructor <;> grind [Abreast]
  all_goals
    simp only [Row.remove, set, update_apply, Adding, Removing] at *
    grind

/-- A transaction begins when no other is open and the copy is abreast of the table. -/
theorem Sound.start (h : r.Sound w) (hnone : r.txn = none) (habreast : r.Abreast p)
    (hadd : own = .add → 0 < (r.holder p).adds)
    (hremove : own = .remove → 0 < (r.holder p).removes) : (r.start p own).Sound w := by
  obtain ⟨hadds, hissued, hmem, hknown, hprivate, hnot, hadding, hadded, hremoved, -⟩ := h
  constructor
  case txn =>
    intro t ht
    simp only [Row.start, set, Adding, Removing, Abreast] at *
    constructor <;> grind [Abreast]
  all_goals
    simp only [Row.start, set, update_apply, Adding, Removing] at *
    grind

omit [DecidableEq P] in
/-- What was removed is not found by a transaction: it would have to be private to the holder. -/
theorem Sound.visit (h : r.Sound w) (ht : r.txn = some t) : (r.visit t).Sound w := by
  obtain ⟨hadds, hissued, hmem, hknown, hprivate, hnot, hadding, hadded, hremoved, htxn⟩ := h
  obtain ⟨habreast, hadd, hremove, hkept, hvisited, hgone⟩ := htxn t ht
  constructor
  case txn =>
    intro t' ht'
    simp only [Row.visit, Adding, Removing, Abreast] at *
    constructor <;> grind [Abreast]
  all_goals
    simp only [Row.visit, Adding, Removing] at *
    grind

/-- A row is lost by a commit only if a call has removed it. -/
theorem Sound.commit (h : r.Sound w) (ht : r.txn = some t) (hdone : t.visited = true)
    (hwatched : t.own = .remove → (r.holder w).copy = false) : (r.commit t).Sound w := by
  obtain ⟨hadds, hissued, hmem, hknown, hprivate, hnot, hadding, hadded, hremoved, htxn⟩ := h
  obtain ⟨habreast, hadd, hremove, hkept, hvisited, hgone⟩ := htxn t ht
  constructor
  all_goals
    simp only [Row.commit, set, update_apply, Adding, Removing, Abreast] at *
    grind

/-- A holder takes over a row that the table has and that it is not about to remove. -/
theorem Sound.learn (h : r.Sound w) (htable : r.table = true) (hr : ¬ r.Removing p) :
    (r.learn p).Sound w := by
  obtain ⟨hadds, hissued, hmem, hknown, hprivate, hnot, hadding, hadded, hremoved, htxn⟩ := h
  constructor
  case txn =>
    intro t ht
    obtain ⟨habreast, hadd, hremove, hkept, hvisited, hgone⟩ := htxn t ht
    simp only [Row.learn, set, Adding, Removing, Abreast] at *
    constructor <;> grind [Abreast]
  all_goals
    simp only [Row.learn, set, update_apply, Adding, Removing] at *
    grind

/-- A holder drops a row that the table does not have and that it is not about to add. -/
theorem Sound.forget (h : r.Sound w) (hcopy : (r.holder p).copy = true) (htable : r.table = false)
    (ha : ¬ r.Adding p) : (r.forget p).Sound w := by
  obtain ⟨hadds, hissued, hmem, hknown, hprivate, hnot, hadding, hadded, hremoved, htxn⟩ := h
  constructor
  case txn =>
    intro t ht
    obtain ⟨habreast, hadd, hremove, hkept, hvisited, hgone⟩ := htxn t ht
    simp only [Row.forget, set, Adding, Removing, Abreast] at *
    constructor <;> grind [Abreast]
  all_goals
    simp only [Row.forget, set, update_apply, Adding, Removing] at *
    grind

/-- A holder that removes nothing starts again while the transaction is not its own. -/
theorem Sound.reopen (h : r.Sound w) (hr : (r.holder p).removes = 0)
    (hother : ∀ t, r.txn = some t → t.holder ≠ p) : (r.reopen p).Sound w := by
  obtain ⟨hadds, hissued, hmem, hknown, hprivate, hnot, hadding, hadded, hremoved, htxn⟩ := h
  constructor
  case txn =>
    intro t ht
    obtain ⟨habreast, hadd, hremove, hkept, hvisited, hgone⟩ := htxn t ht
    simp only [Row.reopen, set, Adding, Removing, Abreast] at *
    constructor <;> grind [Abreast]
  all_goals
    simp only [Row.reopen, set, update_apply, Adding, Removing] at *
    grind

/-! ## Runs of a row -/

/-- An operation on the row, taken where it keeps the agreement. -/
inductive Step (w : P) : Row P → Row P → Prop
  | add {r : Row P} (p : P) : r.issued = false → Step w r (r.add p)
  | remove {r : Row P} (p : P) : (r.holder p).copy = true → Step w r (r.remove p)
  | start {r : Row P} (p : P) (own : Change) : r.txn = none → r.Abreast p →
      (own = .add → 0 < (r.holder p).adds) → (own = .remove → 0 < (r.holder p).removes) →
      Step w r (r.start p own)
  | visit {r : Row P} (t : Txn P) : r.txn = some t → Step w r (r.visit t)
  | commit {r : Row P} (t : Txn P) : r.txn = some t → t.visited = true →
      (t.own = .remove → (r.holder w).copy = false) → Step w r (r.commit t)
  | learn {r : Row P} (p : P) : r.table = true → ¬ r.Removing p → Step w r (r.learn p)
  | forget {r : Row P} (p : P) : (r.holder p).copy = true → r.table = false → ¬ r.Adding p →
      Step w r (r.forget p)
  | reopen {r : Row P} (p : P) : (r.holder p).adds = 0 → (r.holder p).removes = 0 →
      (∀ t, r.txn = some t → t.holder ≠ p) → Step w r (r.reopen p)

theorem Sound.step {r' : Row P} (h : r.Sound w) (hstep : Step w r r') : r'.Sound w := by
  induction hstep with
  | add p hnew => exact h.add hnew
  | remove p hcopy => exact h.remove hcopy
  | start p own hnone habreast hadd hremove => exact h.start hnone habreast hadd hremove
  | visit t ht => exact h.visit ht
  | commit t ht hdone hwatched => exact h.commit ht hdone hwatched
  | learn p htable hr => exact h.learn htable hr
  | forget p hcopy htable ha => exact h.forget hcopy htable ha
  | reopen p _ hr hother => exact h.reopen hr hother

/-- The agreement is kept by any number of operations. -/
theorem Sound.steps {r' : Row P} (h : r.Sound w)
    (hsteps : Relation.ReflTransGen (Step w) r r') : r'.Sound w := by
  induction hsteps with
  | refl => exact h
  | tail _ hstep ih => exact ih.step hstep

omit [DecidableEq P] in
/-- A row that nobody has touched yet. -/
theorem sound_untouched {table issued : Bool} (h : table = true → issued = true) :
    (⟨table, fun _ => ⟨false, false, 0, 0⟩, none, issued, false, false⟩ : Row P).Sound w := by
  constructor <;> grind [Adding, Removing]

end Row

end SharedTable
