/-
# Merging documents

A document is merged into another one: records are merged field by field, anything else is
replaced.  To merge in a chain of records that ends in a value is to merge the value in at a path,
and what lies at another path stays as it is, unless one of the two paths begins with the other.
-/
import HeraMind.Lib.Serde
import Mathlib.Data.List.Infix

namespace Serde

open Option List

section Entries

variable {κ β : Type*} [DecidableEq κ] {l : List (κ × β)} {k k' : κ} {b : β}

/-- Set the value of a key where it stands, or at the end when the key is new. -/
def upsert (k : κ) (b : β) : List (κ × β) → List (κ × β)
  | [] => [(k, b)]
  | (k', b') :: l => if k = k' then (k', b) :: l else (k', b') :: upsert k b l

theorem lookup_cons [BEq κ] [LawfulBEq κ] (e : κ × β) (l : List (κ × β)) (k : κ) :
    (e :: l).lookup k = if k = e.1 then some e.2 else l.lookup k := by
  rw [List.lookup_cons]
  by_cases h : k = e.1
  · rw [if_pos h, beq_iff_eq.mpr h]
  · rw [if_neg h, beq_eq_false_iff_ne.mpr h]

theorem lookup_upsert [BEq κ] [LawfulBEq κ] :
    (upsert k b l).lookup k' = if k' = k then some b else l.lookup k' := by
  induction l with
  | nil => rw [upsert, lookup_cons]
  | cons e l ih =>
    obtain ⟨k₁, b₁⟩ := e
    rw [upsert]
    by_cases hk : k = k₁
    · subst hk
      rw [if_pos rfl, lookup_cons, lookup_cons]
      by_cases h : k' = k
      · rw [if_pos h, if_pos h]
      · rw [if_neg h, if_neg h, if_neg h]
    · rw [if_neg hk, lookup_cons, lookup_cons, ih]
      by_cases h : k' = k
      · subst h
        rw [if_neg hk, if_pos rfl, if_pos rfl]
      · rw [if_neg h, if_neg h]

theorem map_fst_upsert : (upsert k b l).map Prod.fst =
    if k ∈ l.map Prod.fst then l.map Prod.fst else l.map Prod.fst ++ [k] := by
  induction l with
  | nil => rfl
  | cons e l ih =>
    obtain ⟨k₁, b₁⟩ := e
    rw [upsert]
    by_cases hk : k = k₁
    · rw [if_pos hk, hk]
      simp
    · rw [if_neg hk, map_cons, ih, map_cons]
      by_cases hmem : k ∈ l.map Prod.fst <;> simp [hk, hmem]

/-- New keys are put at the end. -/
def addKey (keys : List κ) (k : κ) : List κ := if k ∈ keys then keys else keys ++ [k]

/-- Keys that are added one by one are in the order they were first seen. -/
theorem foldl_addKey [BEq κ] [LawfulBEq κ] (seen ks : List κ) :
    ks.foldl addKey seen = seen ++ (ks.filter fun k => decide (k ∉ seen)).eraseDups := by
  induction ks generalizing seen with
  | nil => simp
  | cons k ks ih =>
    rw [foldl_cons, ih, addKey]
    by_cases hk : k ∈ seen
    · simp [hk]
    · rw [if_neg hk, filter_cons_of_pos (by simp [hk]), eraseDups_cons,
        append_assoc, singleton_append, List.filter_filter]
      congr 3
      refine filter_congr fun x _ => ?_
      by_cases hx : x = k <;> simp [hx, hk]

theorem nodup_foldl_addKey {seen : List κ} (h : seen.Nodup) (ks : List κ) :
    (ks.foldl addKey seen).Nodup := by
  induction ks generalizing seen with
  | nil => exact h
  | cons k ks ih =>
    rw [foldl_cons]
    apply ih
    unfold addKey
    split
    · exact h
    · refine nodup_append.mpr ⟨h, nodup_cons.mpr ⟨not_mem_nil, nodup_nil⟩, ?_⟩
      rintro a ha _ hb rfl
      exact absurd ha (mem_singleton.mp hb ▸ ‹_›)

theorem lookup_of_mem [BEq κ] [LawfulBEq κ] (hnodup : (l.map Prod.fst).Nodup)
    (h : (k, b) ∈ l) : l.lookup k = some b := by
  induction l with
  | nil => exact absurd h not_mem_nil
  | cons e l ih =>
    obtain ⟨hnot, hrest⟩ := nodup_cons.mp hnodup
    rw [lookup_cons]
    rcases mem_cons.mp h with rfl | h
    · exact if_pos rfl
    · have hne : k ≠ e.1 := by
        rintro rfl
        exact hnot (List.mem_map.mpr ⟨_, h, rfl⟩)
      rw [if_neg hne]
      exact ih hrest h

end Entries

variable {N : Type} {d v : Doc N} {p q : List String}

mutual

/-- `s` merged into `d`. -/
def Doc.merge (d : Doc N) : Doc N → Doc N
  | .object s =>
    match d with
    | .object fields => .object (mergeFields fields s)
    | _ => .object s
  | s => s

/-- Fields merged into others one by one. -/
def mergeFields (fields : List (String × Doc N)) : List (String × Doc N) → List (String × Doc N)
  | [] => fields
  | (k, v) :: s => mergeFields (upsert k (((fields.lookup k).getD .null).merge v) fields) s

end

/-- The chain of records that leads to a value. -/
def Doc.chain : List String → Doc N → Doc N
  | [], v => v
  | k :: p, v => .object [(k, Doc.chain p v)]

/-- The fields of a record. -/
def Doc.fields : Doc N → List (String × Doc N)
  | .object fields => fields
  | _ => []

/-- What lies at a path. -/
def Doc.at : List String → Doc N → Option (Doc N)
  | [], d => some d
  | k :: p, d => (d.fields.lookup k).bind (Doc.at p)

/-- Neither path begins with the other. -/
def Apart (p q : List String) : Prop := ¬p <+: q ∧ ¬q <+: p

instance (p q : List String) : Decidable (Apart p q) := inferInstanceAs (Decidable (_ ∧ _))

theorem null_merge (v : Doc N) : Doc.null.merge v = v := by
  cases v <;> rfl

theorem merge_chain (k : String) (d v : Doc N) :
    d.merge (Doc.chain (k :: p) v) =
      .object (upsert k (((d.fields.lookup k).getD .null).merge (Doc.chain p v)) d.fields) := by
  cases d with
  | object fields => rfl
  | _ =>
    show Doc.object [(k, Doc.chain p v)] = Doc.object [(k, Doc.null.merge (Doc.chain p v))]
    rw [null_merge]

theorem at_null : (Doc.at p (.null : Doc N)).getD .null = .null := by
  cases p <;> rfl

/-- A chain is merged in at its path. -/
theorem at_merge_chain (p : List String) (d v : Doc N) :
    Doc.at p (d.merge (Doc.chain p v)) = some (((Doc.at p d).getD .null).merge v) := by
  induction p generalizing d with
  | nil => rfl
  | cons k p ih =>
    rw [merge_chain, Doc.at, Doc.at]
    show ((upsert k _ d.fields).lookup k).bind (Doc.at p) = _
    rw [lookup_upsert, if_pos rfl, bind_some, ih]
    cases d.fields.lookup k with
    | none => rw [getD_none, at_null, bind_none, getD_none]
    | some d' => rfl

/-- A chain that is merged in leaves other paths as they are. -/
theorem at_merge_chain_of_apart (h : Apart p q) (d v : Doc N) :
    Doc.at q (d.merge (Doc.chain p v)) = Doc.at q d := by
  induction p generalizing q d with
  | nil => exact absurd nil_prefix h.1
  | cons k p ih =>
    cases q with
    | nil => exact absurd nil_prefix h.2
    | cons k' q =>
      rw [merge_chain, Doc.at, Doc.at]
      show ((upsert k _ d.fields).lookup k').bind (Doc.at q) = _
      rw [lookup_upsert]
      by_cases hk : k' = k
      · subst hk
        have hrest : Apart p q :=
          ⟨fun hp => h.1 (cons_prefix_cons.mpr ⟨rfl, hp⟩),
            fun hq => h.2 (cons_prefix_cons.mpr ⟨rfl, hq⟩)⟩
        rw [if_pos rfl, bind_some, ih hrest]
        cases d.fields.lookup k' with
        | none =>
          cases q with
          | nil => exact absurd nil_prefix hrest.2
          | cons k₁ q => rfl
        | some d' => rfl
      · rw [if_neg hk]

/-- The values merged one after the other. -/
def mergeAll (values : List (Doc N)) : Doc N := values.foldl Doc.merge .null

/-- Chains merged into a document one after the other. -/
def mergeChains (d : Doc N) (chains : List (List String × Doc N)) : Doc N :=
  chains.foldl (fun d e => d.merge (Doc.chain e.1 e.2)) d

/-- At a path lie the values that were merged in there, when the other paths are apart. -/
theorem at_mergeChains (hp : p ≠ []) {chains : List (List String × Doc N)}
    (happart : ∀ e ∈ chains, e.1 = p ∨ Apart e.1 p) (d : Doc N) :
    Doc.at p (mergeChains d chains) =
      (chains.filter fun e => decide (e.1 = p)).foldl
        (fun o e => some ((o.getD .null).merge e.2)) (Doc.at p d) := by
  induction chains generalizing d with
  | nil => rfl
  | cons e chains ih =>
    obtain ⟨q, v⟩ := e
    have hrest := fun e he => happart e (mem_cons_of_mem _ he)
    show Doc.at p (mergeChains (d.merge (Doc.chain q v)) chains) = _
    rw [ih hrest]
    rcases happart (q, v) mem_cons_self with heq | hq
    · dsimp only at heq
      subst heq
      rw [at_merge_chain, filter_cons_of_pos (by simp), foldl_cons]
    · have hne : q ≠ p := by
        rintro rfl
        exact hq.1 (prefix_refl _)
      rw [at_merge_chain_of_apart hq, filter_cons_of_neg (by simp [hne])]

theorem foldl_merge (values : List (Doc N)) (o : Option (Doc N)) (hne : values ≠ []) :
    values.foldl (fun o v => some ((o.getD .null).merge v)) o =
      some (values.foldl Doc.merge (o.getD .null)) := by
  induction values generalizing o with
  | nil => exact absurd rfl hne
  | cons v values ih =>
    cases values with
    | nil => rfl
    | cons v' values =>
      rw [foldl_cons, ih _ (cons_ne_nil _ _)]
      rfl

/-! ## Equality of documents -/

variable [DecidableEq N]

mutual

/-- Equality, whatever the order of the fields of a record. -/
def Doc.same : Doc N → Doc N → Bool
  | .null, .null => true
  | .bool a, .bool b => a == b
  | .number a, .number b => decide (a = b)
  | .string a, .string b => a == b
  | .array as, .array bs => sameItems as bs
  | .object fields, .object others =>
    fields.length == others.length && sameFields fields others
  | _, _ => false

def sameItems : List (Doc N) → List (Doc N) → Bool
  | [], [] => true
  | a :: as, b :: bs => a.same b && sameItems as bs
  | _, _ => false

def sameFields : List (String × Doc N) → List (String × Doc N) → Bool
  | [], _ => true
  | (k, v) :: fields, others =>
    (match others.lookup k with
      | some w => v.same w
      | none => false) && sameFields fields others

end

end Serde
