/-
# Locks in an order

Tasks that hold locks while they request others wait for each other in a circle only if the
locks do: a circle is ruled out by a rank that goes up from every lock that is held to every
lock that is requested meanwhile.  For finitely many held locks the converse is true as well.
-/
import Mathlib.Data.Set.Card
import Mathlib.Logic.Relation

namespace LockOrder

variable {κ : Type*} {r : κ → κ → Prop}

/-- No lock comes before itself. -/
def Acyclic (r : κ → κ → Prop) : Prop := ∀ k, ¬ Relation.TransGen r k k

theorem rank_lt_of_transGen {α : Type*} [Preorder α] {rank : κ → α}
    (h : ∀ k l, r k l → rank k < rank l) {k l : κ} (hkl : Relation.TransGen r k l) :
    rank k < rank l := by
  induction hkl with
  | single hkl => exact h _ _ hkl
  | tail _ hlm ih => exact ih.trans (h _ _ hlm)

theorem acyclic_of_rank {α : Type*} [Preorder α] (rank : κ → α)
    (h : ∀ k l, r k l → rank k < rank l) : Acyclic r := by
  intro k hk
  exact lt_irrefl _ (rank_lt_of_transGen h hk)

/-- The rank of a lock is the number of the locks before it. -/
theorem Acyclic.exists_rank (h : Acyclic r) (hfin : {k | ∃ l, r k l}.Finite) :
    ∃ rank : κ → ℕ, ∀ k l, r k l → rank k < rank l := by
  have hbefore : ∀ l, {k | Relation.TransGen r k l}.Finite := by
    intro l
    apply hfin.subset
    intro k hk
    obtain ⟨m, hkm, -⟩ := Relation.TransGen.head'_iff.mp hk
    exact ⟨m, hkm⟩
  refine ⟨fun l => {k | Relation.TransGen r k l}.ncard, fun k l hkl => ?_⟩
  apply Set.ncard_lt_ncard _ (hbefore l)
  refine ⟨fun j hj => Relation.TransGen.tail hj hkl, fun hsub => ?_⟩
  -- the lock itself is before the later one, but not before itself
  exact h k (hsub (Relation.TransGen.single hkl))

end LockOrder
