/-
# Fair locks of readers and writers

A lock whose guards are handed out in the order in which they were requested: many readers share
it, a writer has it alone, and nobody overtakes a request that waits.  Requests are admitted as
soon as this is possible, so whoever is next in line waits for a guard that is held.
-/
import Mathlib.Data.List.Pairwise
import Mathlib.Data.List.Perm.Basic

namespace FairLock

open List

/-- How a lock is taken. -/
inductive Mode : Type where
  | read
  | write
  deriving DecidableEq

/-- Guards that exclude each other. -/
def Mode.Conflicts (m m' : Mode) : Prop := m = .write ∨ m' = .write

instance (m m' : Mode) : Decidable (m.Conflicts m') := by
  unfold Mode.Conflicts
  infer_instance

theorem Mode.Conflicts.symm {m m' : Mode} (h : m.Conflicts m') : m'.Conflicts m :=
  Or.symm h

variable {τ : Type*}

/-- A guard may join those that are held. -/
def admits (held : List (τ × Mode)) (m : Mode) : Bool :=
  held.all fun g => decide (¬ g.2.Conflicts m)

/-- The guards that are held, and the requests that wait, in their order. -/
structure RwLock (τ : Type*) where
  held : List (τ × Mode)
  waiting : List (τ × Mode)
  exclusive : held.Pairwise fun g g' => ¬ g.2.Conflicts g'.2
  /-- The next request has to wait. -/
  blocked : ∀ w ∈ waiting.head?, admits held w.2 = false

namespace RwLock

def new : RwLock τ where
  held := []
  waiting := []
  exclusive := List.Pairwise.nil
  blocked w h := by cases h

theorem exclusive_cons {held : List (τ × Mode)} {w : τ × Mode}
    (h : held.Pairwise fun g g' => ¬ g.2.Conflicts g'.2) (hw : admits held w.2 = true) :
    (w :: held).Pairwise fun g g' => ¬ g.2.Conflicts g'.2 := by
  refine List.Pairwise.cons (fun g hg hconflicts => ?_) h
  have hadmits := of_decide_eq_true (all_eq_true.mp hw g hg)
  exact hadmits hconflicts.symm

/-- Requests are admitted in their order, as long as this is possible. -/
def settle (held : List (τ × Mode)) (hheld : held.Pairwise fun g g' => ¬ g.2.Conflicts g'.2) :
    List (τ × Mode) → RwLock τ
  | [] => ⟨held, [], hheld, fun w h => by cases h⟩
  | w :: rest =>
    if h : admits held w.2 = true then settle (w :: held) (exclusive_cons hheld h) rest
    else ⟨held, w :: rest, hheld, fun w' hw' => by
      cases hw'
      exact (Bool.not_eq_true _).mp h⟩

/-- A guard is requested. -/
def request (l : RwLock τ) (t : τ) (m : Mode) : RwLock τ :=
  settle l.held l.exclusive (l.waiting ++ [(t, m)])

/-- A guard is dropped. -/
def release [DecidableEq τ] (l : RwLock τ) (t : τ) (m : Mode) : RwLock τ :=
  settle (l.held.filter fun g => decide (g ≠ (t, m))) (l.exclusive.filter _) l.waiting

variable {l : RwLock τ} {t : τ} {m : Mode} {g : τ × Mode} {held waiting : List (τ × Mode)}
  {hheld : held.Pairwise fun g g' => ¬ g.2.Conflicts g'.2}

/-- The guards that are held or waited for. -/
def all (l : RwLock τ) : List (τ × Mode) := l.held ++ l.waiting

/-- Nothing is lost or added. -/
theorem all_settle : (settle held hheld waiting).all.Perm (held ++ waiting) := by
  induction waiting generalizing held with
  | nil => rfl
  | cons w rest ih =>
    unfold settle
    split
    · exact ih.trans perm_middle.symm
    · rfl

theorem mem_of_mem_waiting_settle (h : g ∈ (settle held hheld waiting).waiting) :
    g ∈ waiting := by
  induction waiting generalizing held with
  | nil => exact h
  | cons w rest ih =>
    unfold settle at h
    split at h
    · exact mem_cons_of_mem _ (ih h)
    · exact h

theorem all_request : (l.request t m).all.Perm (l.all ++ [(t, m)]) := by
  have hperm : (l.request t m).all.Perm (l.held ++ (l.waiting ++ [(t, m)])) := all_settle
  rwa [← append_assoc] at hperm

theorem mem_waiting_request (h : g ∈ (l.request t m).waiting) : g ∈ l.waiting ∨ g = (t, m) := by
  have hmem := mem_of_mem_waiting_settle h
  rwa [mem_append, mem_singleton] at hmem

variable [DecidableEq τ]

/-- A guard that is not waited for is gone. -/
theorem all_release (h : (t, m) ∉ l.waiting) :
    (l.release t m).all.Perm (l.all.filter fun g => decide (g ≠ (t, m))) := by
  have hwaiting : l.waiting.filter (fun g => decide (g ≠ (t, m))) = l.waiting := by
    rw [filter_eq_self]
    intro g hg
    apply decide_eq_true
    intro heq
    rw [heq] at hg
    exact h hg
  have hperm : (l.release t m).all.Perm
      (l.held.filter (fun g => decide (g ≠ (t, m))) ++ l.waiting) := all_settle
  unfold all
  rw [filter_append, hwaiting]
  exact hperm

theorem mem_waiting_release (h : g ∈ (l.release t m).waiting) : g ∈ l.waiting :=
  mem_of_mem_waiting_settle h

omit [DecidableEq τ] in
/-- Guards that exclude each other are not held together. -/
theorem not_conflicts {g g' : τ × Mode} (h : g ∈ l.held) (h' : g' ∈ l.held) (hne : g ≠ g') :
    ¬ g.2.Conflicts g'.2 := by
  have hsymm : Std.Symm fun g g' : τ × Mode => ¬ g.2.Conflicts g'.2 :=
    ⟨fun _ _ hnot hconflicts => hnot hconflicts.symm⟩
  exact l.exclusive.forall h h' hne

omit [DecidableEq τ] in
/-- Somebody waits only if a guard is held. -/
theorem exists_held (h : l.waiting ≠ []) : ∃ g, g ∈ l.held := by
  obtain ⟨w, rest, hw⟩ := exists_cons_of_ne_nil h
  by_contra hnone
  have hempty : l.held = [] := eq_nil_iff_forall_not_mem.mpr fun g hg => hnone ⟨g, hg⟩
  have hblocked := l.blocked w (by rw [hw]; rfl)
  rw [hempty] at hblocked
  cases hblocked

end RwLock

/-! ## Waiting in an order -/

section Order

variable {κ : Type*} {locks : κ → RwLock τ}

/-- The task waits for a guard of the lock. -/
def WaitsFor (locks : κ → RwLock τ) (t : τ) (k : κ) : Prop := ∃ m, (t, m) ∈ (locks k).waiting

/-- If all that wait for a lock hold lower ones only, then somebody waits for nothing and holds
a lock that is waited for. -/
theorem exists_holder {rank : κ → ℕ} {bound : ℕ} (hbound : ∀ k, rank k ≤ bound)
    (hrank : ∀ t m k l, (t, m) ∈ (locks k).held → WaitsFor locks t l → rank k < rank l)
    {t : τ} {k : κ} (h : WaitsFor locks t k) :
    ∃ t' m' k', (t', m') ∈ (locks k').held ∧ ∀ l, ¬ WaitsFor locks t' l := by
  induction hn : bound - rank k using Nat.strongRecOn generalizing t k with
  | _ n ih =>
    obtain ⟨m, hm⟩ := h
    obtain ⟨⟨t', m'⟩, hheld⟩ := (locks k).exists_held (ne_nil_of_mem hm)
    by_cases hwaits : ∃ l, WaitsFor locks t' l
    · -- the holder waits for a lock of a higher rank
      obtain ⟨l, hl⟩ := hwaits
      have hlt := hrank t' m' k l hheld hl
      have hle := hbound l
      exact ih (bound - rank l) (by omega) hl rfl
    · exact ⟨t', m', k, hheld, fun l hl => hwaits ⟨l, hl⟩⟩

end Order

end FairLock
