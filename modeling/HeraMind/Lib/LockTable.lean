/-
# Locks made on demand

A table hands out one lock for each key: the first client that asks for a key makes the
lock, and whoever asks later gets a clone of the same one.  To keep the table small, entries
are also removed from it.  A removal is harmless as long as no client is still bound to the
lock; then the clients that hold a lock for the same key are one client.

Clients, keys and locks are arbitrary, and locks can be made without end.
-/
import Mathlib.Data.Set.Insert
import Mathlib.Logic.Function.Basic
import Mathlib.Logic.Relation

namespace LockTable

/-- What a client does with the lock it got: it waits for it, holds it, or still holds it
but is about to let it go and relies on it no more. -/
inductive Phase : Type where
  | waiting
  | holding
  | leaving
  deriving DecidableEq

/-- The use that a client makes of the lock it got for a key. -/
structure Session (κ μ : Type*) where
  key : κ
  lock : μ
  phase : Phase

/-- The client is bound to the table: it got its lock there and will rely on it. -/
def Session.Bound {κ μ : Type*} (s : Session κ μ) : Prop := s.phase ≠ .leaving

/-- The client has taken the lock. -/
def Session.Owns {κ μ : Type*} (s : Session κ μ) : Prop := s.phase ≠ .waiting

instance {κ μ : Type*} (s : Session κ μ) : Decidable s.Bound :=
  inferInstanceAs (Decidable (s.phase ≠ .leaving))

@[simp] theorem bound_mk {κ μ : Type*} (k : κ) (l : μ) (p : Phase) :
    Session.Bound ⟨k, l, p⟩ ↔ p ≠ .leaving := Iff.rfl

@[simp] theorem owns_mk {κ μ : Type*} (k : κ) (l : μ) (p : Phase) :
    Session.Owns ⟨k, l, p⟩ ↔ p ≠ .waiting := Iff.rfl

end LockTable

open LockTable in
/-- A table of locks and its clients. -/
@[ext] structure LockTable (κ μ γ : Type*) where
  table : κ → Option μ
  made : Set μ
  locked : Set μ
  session : γ → Option (Session κ μ)

namespace LockTable

open Function

variable {κ μ γ : Type*}

/-- Who is bound to the table is bound to the lock that the table has, and a lock is taken
by one client. -/
structure Consistent (T : LockTable κ μ γ) : Prop where
  bound : ∀ c s, T.session c = some s → s.Bound → T.table s.key = some s.lock
  locked : ∀ c s, T.session c = some s → s.Owns → s.lock ∈ T.locked
  owner : ∀ c c' s s', T.session c = some s → T.session c' = some s' → s.Owns → s'.Owns →
    s.lock = s'.lock → c = c'
  tableMade : ∀ k l, T.table k = some l → l ∈ T.made
  sessionMade : ∀ c s, T.session c = some s → s.lock ∈ T.made
  lockedMade : T.locked ⊆ T.made

variable {T T' : LockTable κ μ γ}

/-- Nobody has asked for a lock. -/
theorem Consistent.empty :
    Consistent (⟨fun _ => none, ∅, ∅, fun _ => none⟩ : LockTable κ μ γ) where
  bound _ _ hc := nomatch hc
  locked _ _ hc := nomatch hc
  owner _ _ _ _ hc := nomatch hc
  tableMade _ _ hk := nomatch hk
  sessionMade _ _ hc := nomatch hc
  lockedMade := Set.empty_subset _

/-- Two clients that are bound to the table and own the lock of the same key are one. -/
theorem Consistent.exclusive (h : T.Consistent) {c c' : γ} {s s' : Session κ μ}
    (hc : T.session c = some s) (hc' : T.session c' = some s') (hs : s.phase = .holding)
    (hs' : s'.phase = .holding) (hkey : s.key = s'.key) : c = c' := by
  have hbound := h.bound c s hc (by simp [Session.Bound, hs])
  have hbound' := h.bound c' s' hc' (by simp [Session.Bound, hs'])
  rw [hkey, hbound', Option.some.injEq] at hbound
  exact h.owner c c' s s' hc hc' (by simp [Session.Owns, hs]) (by simp [Session.Owns, hs'])
    hbound.symm

/-- A session that a table allows to a client. -/
structure Fits (T : LockTable κ μ γ) (c : γ) (table : κ → Option μ) (made locked : Set μ)
    (s : Session κ μ) : Prop where
  bound : s.Bound → table s.key = some s.lock
  locked : s.Owns → s.lock ∈ locked
  alone : s.Owns → ∀ d s', d ≠ c → T.session d = some s' → s'.Owns → s'.lock ≠ s.lock
  made : s.lock ∈ made

variable [DecidableEq γ]

/-- The sessions after one client's session was set to `o`. -/
theorem session_update {c d : γ} {o : Option (Session κ μ)} {s : Session κ μ}
    (h : Function.update T.session c o d = some s) :
    (d = c ∧ o = some s) ∨ (d ≠ c ∧ T.session d = some s) := by
  by_cases hd : d = c
  · subst hd
    rw [update_self] at h
    exact Or.inl ⟨rfl, h⟩
  · rw [update_of_ne hd] at h
    exact Or.inr ⟨hd, h⟩

/-- One client's session is set to one that fits, and what changes besides suits the other
clients. -/
theorem Consistent.update {c : γ} {o : Option (Session κ μ)} {table : κ → Option μ}
    {made locked : Set μ} (h : T.Consistent)
    (hfits : ∀ s, o = some s → T.Fits c table made locked s)
    (hbound : ∀ d s, d ≠ c → T.session d = some s → s.Bound → table s.key = some s.lock)
    (hlocked : ∀ d s, d ≠ c → T.session d = some s → s.Owns → s.lock ∈ locked)
    (htable : ∀ k l, table k = some l → l ∈ made) (hmade : T.made ⊆ made)
    (hsub : locked ⊆ made) :
    Consistent ⟨table, made, locked, Function.update T.session c o⟩ where
  bound d s hd hs := by
    rcases session_update hd with ⟨-, ho⟩ | ⟨hne, hd⟩
    · exact (hfits s ho).bound hs
    · exact hbound d s hne hd hs
  locked d s hd hs := by
    rcases session_update hd with ⟨-, ho⟩ | ⟨hne, hd⟩
    · exact (hfits s ho).locked hs
    · exact hlocked d s hne hd hs
  owner d d' s s' hd hd' hs hs' hl := by
    rcases session_update hd with ⟨rfl, ho⟩ | ⟨hne, hold⟩
    · rcases session_update hd' with ⟨rfl, -⟩ | ⟨hne', hold'⟩
      · rfl
      · exact absurd hl.symm ((hfits s ho).alone hs d' s' hne' hold' hs')
    · rcases session_update hd' with ⟨rfl, ho'⟩ | ⟨-, hold'⟩
      · exact absurd hl ((hfits s' ho').alone hs' d s hne hold hs)
      · exact h.owner d d' s s' hold hold' hs hs' hl
  tableMade := htable
  sessionMade d s hd := by
    rcases session_update hd with ⟨-, ho⟩ | ⟨-, hd⟩
    · exact (hfits s ho).made
    · exact hmade (h.sessionMade d s hd)
  lockedMade := hsub

/-! ## Moves -/

variable [DecidableEq κ]

/-- One client makes one move. -/
inductive Step (T : LockTable κ μ γ) : LockTable κ μ γ → Prop
  /-- A client gets a clone of the lock in the table. -/
  | clone {c : γ} {k : κ} {l : μ} : T.session c = none → T.table k = some l →
      Step T { T with session := Function.update T.session c (some ⟨k, l, .waiting⟩) }
  /-- A client makes the lock. -/
  | make {c : γ} {k : κ} {l : μ} : T.session c = none → T.table k = none → l ∉ T.made →
      Step T { T with
        table := Function.update T.table k (some l)
        made := insert l T.made
        session := Function.update T.session c (some ⟨k, l, .waiting⟩) }
  /-- A client takes its lock, which is free. -/
  | acquire {c : γ} {k : κ} {l : μ} : T.session c = some ⟨k, l, .waiting⟩ → l ∉ T.locked →
      Step T { T with
        locked := insert l T.locked
        session := Function.update T.session c (some ⟨k, l, .holding⟩) }
  /-- A client has done what it took the lock for. -/
  | leave {c : γ} {k : κ} {l : μ} : T.session c = some ⟨k, l, .holding⟩ →
      Step T { T with session := Function.update T.session c (some ⟨k, l, .leaving⟩) }
  /-- A client lets its lock go. -/
  | release {c : γ} {k : κ} {l : μ} : T.session c = some ⟨k, l, .leaving⟩ →
      Step T { T with
        locked := T.locked \ {l}
        session := Function.update T.session c none }
  /-- An entry is removed to which no client is bound. -/
  | remove {k : κ} : (∀ c s, T.session c = some s → s.Bound → T.table k ≠ some s.lock) →
      Step T { T with table := Function.update T.table k none }

/-- Any number of moves. -/
abbrev Steps (T T' : LockTable κ μ γ) : Prop := Relation.ReflTransGen Step T T'

/-- Every move keeps the table consistent. -/
theorem Consistent.step (h : T.Consistent) (hs : Step T T') : T'.Consistent := by
  cases hs with
  | clone hnone hl =>
    refine h.update (fun s hs => ?_) (fun d s _ => h.bound d s) (fun d s _ => h.locked d s)
      h.tableMade (fun _ hm => hm) h.lockedMade
    cases hs
    exact ⟨fun _ => hl, fun ho => absurd rfl ho, fun ho => absurd rfl ho, h.tableMade _ _ hl⟩
  | @make c k l hnone hk hfresh =>
    refine h.update (fun s hs => ?_) (fun d s _ hd hb => ?_) (fun d s _ => h.locked d s)
      (fun k' l' hk' => ?_) (Set.subset_insert l T.made)
      (fun m hm => Set.mem_insert_of_mem l (h.lockedMade hm))
    · cases hs
      exact ⟨fun _ => update_self _ _ _, fun ho => absurd rfl ho,
        fun ho => absurd rfl ho, Set.mem_insert _ _⟩
    · have hkey : s.key ≠ k := by
        intro heq
        have hbound := h.bound d s hd hb
        rw [heq, hk] at hbound
        cases hbound
      rw [update_of_ne hkey]
      exact h.bound d s hd hb
    · by_cases heq : k' = k
      · subst heq
        rw [update_self] at hk'
        cases hk'
        exact Set.mem_insert _ _
      · rw [update_of_ne heq] at hk'
        exact Set.mem_insert_of_mem l (h.tableMade k' l' hk')
  | @acquire c k l hc hfree =>
    refine h.update (fun s hs => ?_) (fun d s _ => h.bound d s)
      (fun d s _ hd ho => Set.mem_insert_of_mem l (h.locked d s hd ho)) h.tableMade
      (fun _ hm => hm) (Set.insert_subset (h.sessionMade c _ hc) h.lockedMade)
    cases hs
    have hbound := h.bound c _ hc (by simp)
    have hmade := h.sessionMade c _ hc
    refine ⟨fun _ => hbound, fun _ => Set.mem_insert _ _, fun _ d s' _ hd ho heq => ?_, hmade⟩
    -- whoever owned the lock would have it locked
    have hlocked := h.locked d s' hd ho
    rw [heq] at hlocked
    exact hfree hlocked
  | @leave c k l hc =>
    refine h.update (fun s hs => ?_) (fun d s _ => h.bound d s) (fun d s _ => h.locked d s)
      h.tableMade (fun _ hm => hm) h.lockedMade
    cases hs
    have hlocked := h.locked c _ hc (by simp)
    have hmade := h.sessionMade c _ hc
    refine ⟨fun hb => absurd rfl hb, fun _ => hlocked, fun _ d s' hne hd ho heq => ?_, hmade⟩
    exact hne (h.owner d c s' _ hd hc ho (by simp) heq)
  | @release c k l hc =>
    refine h.update (fun s hs => nomatch hs) (fun d s _ => h.bound d s)
      (fun d s hne hd ho => ⟨h.locked d s hd ho, fun heq => ?_⟩) h.tableMade
      (fun _ hm => hm) (fun m hm => h.lockedMade hm.1)
    exact hne (h.owner d c s _ hd hc ho (by simp) heq)
  | @remove k hfree =>
    refine { h with bound := fun d s hd hb => ?_, tableMade := fun k' l' hk' => ?_ }
    · have hbound := h.bound d s hd hb
      have hkey : s.key ≠ k := by
        intro heq
        rw [heq] at hbound
        exact hfree d s hd hb hbound
      show Function.update T.table k none s.key = some s.lock
      rw [update_of_ne hkey]
      exact hbound
    · change Function.update T.table k none k' = some l' at hk'
      by_cases heq : k' = k
      · subst heq
        rw [update_self] at hk'
        cases hk'
      · rw [update_of_ne heq] at hk'
        exact h.tableMade k' l' hk'

theorem Consistent.steps (h : T.Consistent) (hs : Steps T T') : T'.Consistent := by
  induction hs with
  | refl => exact h
  | tail _ hstep ih => exact ih.step hstep

end LockTable
