/-
# The rows of the API keys

`crates/heramind-api/src/auth.rs`: for each hash the sections of the processes are operations on one
row of a shared table, which every save rewrites whole.
-/
import HeraMind.Lib.SharedTable
import HeraMind.Auth.ApiKeys

namespace HeraMind.Auth

open Function
open AList
open List
open SharedTable

variable {env : Env} {s s' : State} {p : Pid} {hash : String}

/-! ## The row of a hash -/

/-- What an operation has done to the row of a hash. -/
def Op.change (hash : String) : Op → Change
  | .create h => if h = hash then .add else .none
  | .delete h => if h = hash then .remove else .none
  | .persist => .none

def Process.row (proc : Process) (hash : String) : Holder where
  copy := (proc.apiKeys.lookup hash).isSome
  known := decide (hash ∈ proc.known)
  adds := proc.saving.count (.create hash)
  removes := proc.saving.count (.delete hash)

def Txn.row (env : Env) (t : Txn) (hash : String) : SharedTable.Txn Pid where
  holder := t.process
  own := t.op.change hash
  visited := decide (env.shardOf hash < t.next)
  kept := (t.tables.apiKeys.lookup hash).isSome

def State.row (env : Env) (s : State) (hash : String) : Row Pid where
  table := s.db.has env hash
  holder p := (s.process p).row hash
  txn := s.txn.map fun t => t.row env hash
  issued := decide (hash ∈ s.issued)
  added := decide (hash ∈ s.created)
  removed := decide (hash ∈ s.deleted)

theorem row_setProcess (s : State) (p : Pid) (proc : Process) (hash : String) :
    (s.setProcess p proc).row env hash = (s.row env hash).set p (proc.row hash) := by
  unfold State.row State.setProcess Row.set
  dsimp only
  congr 1
  funext q
  by_cases hq : q = p
  · subst hq
    rw [update_self, update_self]
  · rw [update_of_ne hq, update_of_ne hq]

/-- Nothing has happened to the row. -/
theorem row_setProcess_eq {proc : Process} (h : proc.row hash = (s.process p).row hash) :
    (s.setProcess p proc).row env hash = s.row env hash := by
  rw [row_setProcess, h]
  unfold Row.set State.row
  dsimp only
  rw [update_eq_self p fun q => (s.process q).row hash]

theorem change_eq_add {op : Op} : op.change hash = .add ↔ op = .create hash := by
  cases op with
  | create h => simp [Op.change]
  | delete h =>
    simp only [Op.change, reduceCtorEq, iff_false]
    split <;> simp
  | persist => simp [Op.change]

theorem change_eq_remove {op : Op} : op.change hash = .remove ↔ op = .delete hash := by
  cases op with
  | create h =>
    simp only [Op.change, reduceCtorEq, iff_false]
    split <;> simp
  | delete h | persist => simp [Op.change]

theorem adding_row : (s.row env hash).Adding p ↔ s.Pending p (.create hash) := by
  unfold Row.Adding State.Pending
  refine or_congr count_pos_iff ?_
  cases ht : s.txn with
  | none => simp [State.row, ht]
  | some t => simp [State.row, Txn.row, ht, change_eq_add]

theorem removing_row : (s.row env hash).Removing p ↔ s.Pending p (.delete hash) := by
  unfold Row.Removing State.Pending
  refine or_congr count_pos_iff ?_
  cases ht : s.txn with
  | none => simp [State.row, ht]
  | some t => simp [State.row, Txn.row, ht, change_eq_remove]

theorem copy_row : ((s.row env hash).holder p).copy = true ↔ hash ∈ (s.process p).apiKeys.keys := by
  show ((s.process p).apiKeys.lookup hash).isSome = true ↔ _
  rw [lookup_isSome, AList.mem_keys]

/-! ## When a step is timely -/

/-- The table has gained or lost nothing, since the process last read or wrote it, that the memory
of the process has not gained or lost as well. -/
def State.Current (env : Env) (s : State) (p : Pid) : Prop :=
  (∀ hash ∈ s.db.apiKeys.keys, s.db.has env hash → hash ∈ (s.process p).known ∨
    hash ∈ (s.process p).apiKeys.keys) ∧
  ∀ hash ∈ (s.process p).apiKeys.keys, hash ∈ (s.process p).known → s.db.has env hash

/-- A reload may insert this key: it is there already, or the table still has it and no call of the
process is deleting it. -/
def State.MayInsert (env : Env) (s : State) (p : Pid) (hash : String) : Prop :=
  hash ∈ (s.process p).apiKeys.keys ∨ s.db.has env hash ∧ ¬ s.Pending p (.delete hash)

/-- A reload may drop this key: the table does not have it and no call of the process is creating
it. -/
def State.MayDrop (env : Env) (s : State) (p : Pid) (hash : String) : Prop :=
  ¬ s.db.has env hash ∧ ¬ s.Pending p (.create hash)

/-- The next section of a validation may insert or drop what it is about to. -/
def State.InTime (env : Env) (s : State) (p : Pid) (v : Validation) : Prop :=
  match v.stage with
  | .inserting ((hash, _) :: _) _ => s.MayInsert env p hash
  | .retaining shard fresh =>
    ∀ hash ∈ State.dropped env (s.process p) shard fresh, s.MayDrop env p hash
  | _ => True

/-- No step is overtaken: a save begins from a memory that is current, a deletion is not committed
while the server has the key in memory, and a reload touches no key that has changed since it read
the table. -/
def Timely (env : Env) (s : State) : Action env → Prop
  | .beginSave p _ => s.Current env p
  | .commit => ∀ t ∈ s.txn, ∀ hash, t.op = .delete hash →
      hash ∉ (s.process .server).apiKeys.keys
  | .advance p i _ _ _ => ∀ v ∈ (s.process p).validations[i]?, s.InTime env p v
  | _ => True

/-! ## What the sections do to a row -/

/-- What has been loaded and is still to be inserted decrypts. -/
def Validation.Decrypts (env : Env) (v : Validation) : Prop :=
  ∀ left fresh, v.stage = .inserting left fresh → ∀ e ∈ left, env.decrypts e.2.1 = true

/-- Everything in the memory of a process decrypts. -/
def Process.Decrypts (env : Env) (proc : Process) : Prop :=
  ∀ hash e, proc.apiKeys.lookup hash = some e → env.decrypts e.1 = true

/-- Every text that is held decrypts, and so do the rows of the table once a save has committed;
a transaction has written nothing yet of the shards to come. -/
structure State.Wf (env : Env) (s : State) : Prop where
  memory : ∀ p, (s.process p).Decrypts env
  loaded : ∀ p, ∀ v ∈ (s.process p).validations, v.Decrypts env
  tables : ∀ t ∈ s.txn, t.tables.Readable env ∧
    ∀ hash, t.next ≤ env.shardOf hash → t.tables.apiKeys.lookup hash = none
  db : s.created = [] ∧ s.deleted = [] ∨ s.db.Readable env

/-- The sections that change one process and the hashes that were given out. -/
theorem row_setProcess_issued (s : State) (p : Pid) (proc : Process) (issued : List String)
    (hash : String) : State.row env { s.setProcess p proc with issued } hash =
      { (s.row env hash).set p (proc.row hash) with issued := decide (hash ∈ issued) } := by
  rw [← row_setProcess]
  rfl

theorem row_createKey (s : State) (p : Pid) (k : NewKey env) (name : String)
    (permissions : List String) (hash : String) :
    (s.createKey p k name permissions).row env hash =
      if hash = k.hash then (s.row env hash).add p else s.row env hash := by
  unfold State.createKey
  rw [row_setProcess_issued]
  by_cases hk : hash = k.hash
  · subst hk
    rw [if_pos rfl]
    unfold Row.add
    ext <;> simp [Process.row, State.row]
  · rw [if_neg hk]
    have hproc : Process.row { s.process p with
        apiKeys := (s.process p).apiKeys.insert k.hash (k.entry name permissions)
        saving := .create k.hash :: (s.process p).saving } hash = (s.row env hash).holder p := by
      ext <;> simp [Process.row, State.row, lookup_insert_ne hk, Ne.symm hk]
    have hissued : decide (hash ∈ k.hash :: s.issued) = decide (hash ∈ s.issued) := by simp [hk]
    rw [hproc, Row.set_self, hissued]
    rfl

theorem row_deleteKey (s : State) (p : Pid) (h hash : String) :
    (s.deleteKey p h).row env hash =
      if hash = h ∧ ((s.row env hash).holder p).copy = true then (s.row env hash).remove p
      else s.row env hash := by
  unfold State.deleteKey
  dsimp only
  by_cases hh : hash = h
  · subst hh
    by_cases hcopy : ((s.process p).apiKeys.lookup hash).isSome
    · have hproc : Process.row { s.process p with
          apiKeys := (s.process p).apiKeys.erase hash
          saving := .delete hash :: (s.process p).saving } hash =
          { (s.row env hash).holder p with
            copy := false, removes := ((s.row env hash).holder p).removes + 1 } := by
        ext <;> simp [Process.row, State.row]
      have hcond : hash = hash ∧ ((s.row env hash).holder p).copy = true := ⟨rfl, hcopy⟩
      rw [if_pos hcopy, if_pos hcond, row_setProcess, hproc]
      rfl
    · have hcond : ¬ (hash = hash ∧ ((s.row env hash).holder p).copy = true) := fun hc =>
        hcopy hc.2
      rw [if_neg hcopy, if_neg hcond]
  · have hcond : ¬ (hash = h ∧ ((s.row env hash).holder p).copy = true) := fun hc => hh hc.1
    rw [if_neg hcond]
    by_cases hcopy : ((s.process p).apiKeys.lookup h).isSome
    · rw [if_pos hcopy]
      refine row_setProcess_eq ?_
      ext <;> simp [Process.row, AList.lookup_erase_ne hh, Ne.symm hh]
    · rw [if_neg hcopy]

theorem row_beginSave (s : State) (p : Pid) (op : Op) (hash : String) :
    (s.beginSave p op).row env hash = (s.row env hash).start p (op.change hash) := by
  have hrow : (s.beginSave p op).row env hash =
      { (s.row env hash).set p (Process.row { s.process p with
          saving := (s.process p).saving.erase op } hash) with
        txn := some (Txn.row env ⟨p, op, s.db.clear, 0⟩ hash) } := by
    rw [← row_setProcess]
    rfl
  have htxn : Txn.row env ⟨p, op, s.db.clear, 0⟩ hash = ⟨p, op.change hash, false, false⟩ := by
    simp [Txn.row, Database.clear]
  have hproc : Process.row { s.process p with saving := (s.process p).saving.erase op } hash =
      ⟨((s.row env hash).holder p).copy, ((s.row env hash).holder p).known,
        if op.change hash = .add then ((s.row env hash).holder p).adds - 1
        else ((s.row env hash).holder p).adds,
        if op.change hash = .remove then ((s.row env hash).holder p).removes - 1
        else ((s.row env hash).holder p).removes⟩ := by
    ext
    · rfl
    · rfl
    · show ((s.process p).saving.erase op).count (.create hash) = _
      rw [count_erase]
      by_cases hop : op = .create hash
      · rw [if_pos (change_eq_add.mpr hop), if_pos (beq_iff_eq.mpr hop)]
        rfl
      · rw [if_neg (mt change_eq_add.mp hop), if_neg (mt beq_iff_eq.mp hop)]
        rfl
    · show ((s.process p).saving.erase op).count (.delete hash) = _
      rw [count_erase]
      by_cases hop : op = .delete hash
      · rw [if_pos (change_eq_remove.mpr hop), if_pos (beq_iff_eq.mpr hop)]
        rfl
      · rw [if_neg (mt change_eq_remove.mp hop), if_neg (mt beq_iff_eq.mp hop)]
        rfl
  rw [hrow, htxn, hproc]
  rfl

theorem row_visitShard {t : Txn} (ht : s.txn = some t)
    (hleft : ∀ hash, t.next ≤ env.shardOf hash → t.tables.apiKeys.lookup hash = none)
    (hash : String) : (s.visitShard env t).row env hash =
      if env.shardOf hash = t.next then (s.row env hash).visit (t.row env hash)
      else s.row env hash := by
  have hrow : (s.visitShard env t).row env hash = { s.row env hash with
      txn := some (Txn.row env { t with
        tables := t.tables.insertShard env t.next (s.process t.process).apiKeys
        next := t.next + 1 } hash) } := rfl
  rw [hrow]
  by_cases hshard : env.shardOf hash = t.next
  · rw [if_pos hshard]
    unfold Row.visit Txn.row
    dsimp only
    rw [lookup_insertShard, if_pos hshard, hleft hash (Nat.le_of_eq hshard.symm), Option.or_none,
      Option.isSome_map, hshard]
    simp [State.row, Process.row]
  · rw [if_neg hshard]
    have htxn : Txn.row env { t with
        tables := t.tables.insertShard env t.next (s.process t.process).apiKeys
        next := t.next + 1 } hash = t.row env hash := by
      unfold Txn.row
      dsimp only
      rw [lookup_insertShard, if_neg hshard]
      have hlt : env.shardOf hash < t.next + 1 ↔ env.shardOf hash < t.next := by omega
      rw [decide_eq_decide.mpr hlt]
    rw [htxn]
    unfold State.row
    rw [ht]
    rfl

theorem row_commit (t : Txn) (hreadable : t.tables.Readable env) (hash : String) :
    (s.commit t).row env hash = (s.row env hash).commit (t.row env hash) := by
  have hkept : decide (hash ∈ t.tables.apiKeys.keys) = (t.tables.apiKeys.lookup hash).isSome := by
    rw [Bool.eq_iff_iff, decide_eq_true_iff, lookup_isSome, AList.mem_keys]
  have hrow : (s.commit t).row env hash =
      { (s.row env hash).set t.process (Process.row { s.process t.process with
          known := t.tables.apiKeys.keys } hash) with
        table := t.tables.has env hash
        txn := none
        added := decide (hash ∈ (s.commit t).created)
        removed := decide (hash ∈ (s.commit t).deleted) } := by
    rw [← row_setProcess]
    rfl
  have hproc : Process.row { s.process t.process with known := t.tables.apiKeys.keys } hash =
      { (s.row env hash).holder t.process with known := (t.row env hash).kept } := by
    ext
    · rfl
    · exact hkept
    · rfl
    · rfl
  have hadded : decide (hash ∈ (s.commit t).created) =
      ((s.row env hash).added || (t.row env hash).own == .add) := by
    rw [Bool.eq_iff_iff, Bool.or_eq_true, beq_iff_eq, decide_eq_true_iff]
    show _ ↔ decide (hash ∈ s.created) = true ∨ t.op.change hash = .add
    rw [decide_eq_true_iff, change_eq_add]
    unfold State.commit
    cases t.op with
    | create h => simp [or_comm, eq_comm]
    | delete h | persist => simp
  have hremoved : decide (hash ∈ (s.commit t).deleted) =
      ((s.row env hash).removed || (t.row env hash).own == .remove) := by
    rw [Bool.eq_iff_iff, Bool.or_eq_true, beq_iff_eq, decide_eq_true_iff]
    show _ ↔ decide (hash ∈ s.deleted) = true ∨ t.op.change hash = .remove
    rw [decide_eq_true_iff, change_eq_remove]
    unfold State.commit
    cases t.op with
    | create h => simp
    | delete h => simp [or_comm, eq_comm]
    | persist => simp
  rw [hrow, hproc, hadded, hremoved, hreadable.has_eq hash]
  rfl

/-- A process that is started has in memory what the table has, and maybe a default key. -/
theorem row_openProcess {ids : String → String} {now : ℤ} {fallback : NewKey env}
    (h : s.openProcess env p ids now fallback = some s') (hash : String) :
    s'.row env hash = (s.row env hash).reopen p ∨
      hash ∉ s.issued ∧ s'.row env hash = ((s.row env hash).reopen p).add p := by
  unfold State.openProcess at h
  dsimp only at h
  have hloaded := @isSome_lookup_loadFromDb env ids now s.db
  split at h
  · rename_i hempty
    have hnone : s.db.has env hash = false := by
      rw [← hloaded, ← Bool.not_eq_true, lookup_isSome, AList.mem_keys, hempty]
      exact not_mem_nil
    split at h
    · cases h
    · rename_i hnew
      cases h
      rw [row_setProcess_issued]
      by_cases hk : hash = fallback.hash
      · subst hk
        refine Or.inr ⟨hnew, ?_⟩
        have hissued : decide (fallback.hash ∈ fallback.hash :: s.issued) = true := by simp
        have hproc : Process.row ⟨true, AList.insert fallback.hash
            (fallback.entry "Default API Key" ["*"]) ∅, [.create fallback.hash], 0, [], []⟩
            fallback.hash = ⟨true, false, 1, 0⟩ := by
          ext <;> simp [Process.row, -insert_empty]
        have htable : (s.row env fallback.hash).table = false := hnone
        rw [hproc, hissued]
        unfold Row.add Row.reopen Row.set
        simp [htable]
      · refine Or.inl ?_
        have hissued : decide (hash ∈ fallback.hash :: s.issued) = decide (hash ∈ s.issued) := by
          simp [hk]
        have hproc : Process.row ⟨true, AList.insert fallback.hash
            (fallback.entry "Default API Key" ["*"]) ∅, [.create fallback.hash], 0, [], []⟩
            hash = ⟨false, false, 0, 0⟩ := by
          ext <;> simp [Process.row, -insert_empty, lookup_insert_ne hk, Ne.symm hk]
        have htable : (s.row env hash).table = false := hnone
        rw [hproc, hissued]
        unfold Row.reopen
        rw [htable]
        rfl
  · cases h
    refine Or.inl ?_
    have hproc : Process.row ⟨true, loadFromDb env ids now s.db, [.persist], 0, [],
        (loadFromDb env ids now s.db).keys⟩ hash =
        ⟨(s.row env hash).table, (s.row env hash).table, 0, 0⟩ := by
      ext
      · exact hloaded hash
      · show decide _ = s.db.has env hash
        rw [← hloaded, Bool.eq_iff_iff, decide_eq_true_iff, lookup_isSome, AList.mem_keys]
      · rfl
      · rfl
    rw [row_setProcess, hproc]
    rfl

/-- A reload inserts a key. -/
theorem row_insert (s : State) (p : Pid) (i : ℕ) (v : Validation) (h : String) (item : KeyEntry)
    (stage : Stage) (hash : String) :
    (s.setStage p i v { s.process p with
      apiKeys := (s.process p).apiKeys.insert h item
      known := if ((s.process p).apiKeys.lookup h).isSome then (s.process p).known
        else h :: (s.process p).known } stage).row env hash =
      if hash = h ∧ ((s.row env hash).holder p).copy = false then (s.row env hash).learn p
      else s.row env hash := by
  unfold State.setStage
  by_cases hh : hash = h
  · subst hh
    cases hcopy : ((s.process p).apiKeys.lookup hash).isSome with
    | false =>
      have hcond : hash = hash ∧ ((s.row env hash).holder p).copy = false := ⟨rfl, hcopy⟩
      rw [if_pos hcond, if_neg Bool.false_ne_true, row_setProcess]
      unfold Row.learn
      congr 1
      ext <;> simp [Process.row, State.row]
    | true =>
      have hcond : ¬ (hash = hash ∧ ((s.row env hash).holder p).copy = false) := by
        rintro ⟨-, hc⟩
        exact Bool.false_ne_true (hc.symm.trans hcopy)
      rw [if_neg hcond, if_pos rfl]
      refine row_setProcess_eq ?_
      ext <;> simp [Process.row, hcopy]
  · have hcond : ¬ (hash = h ∧ ((s.row env hash).holder p).copy = false) := fun hc => hh hc.1
    rw [if_neg hcond]
    refine row_setProcess_eq ?_
    ext
    · simp [Process.row, lookup_insert_ne hh]
    · simp only [Process.row]
      split <;> simp [hh]
    · rfl
    · rfl

/-- A reload drops the keys of a shard that it has not loaded. -/
theorem row_retain (s : State) (p : Pid) (i : ℕ) (v : Validation) (gone : List String)
    (stage : Stage) (hash : String) :
    (s.setStage p i v { s.process p with
      apiKeys := HashMap.removeAll (s.process p).apiKeys gone
      known := (s.process p).known.filter (· ∉ gone) } stage).row env hash =
      if hash ∈ gone then (s.row env hash).forget p else s.row env hash := by
  unfold State.setStage
  by_cases hh : hash ∈ gone
  · rw [if_pos hh, row_setProcess]
    unfold Row.forget
    congr 1
    ext
    · simp [Process.row, HashMap.lookup_removeAll, hh]
    · simp [Process.row, hh]
    · rfl
    · rfl
  · rw [if_neg hh]
    refine row_setProcess_eq ?_
    ext
    · simp [Process.row, HashMap.lookup_removeAll, hh]
    · simp [Process.row, hh]
    · rfl
    · rfl

/-! ## What a step does to a row -/

/-- The memory is current when every row is abreast of the table. -/
theorem abreast_row (h : s.Current env p) (hash : String) : (s.row env hash).Abreast p := by
  show s.db.has env hash = decide (hash ∈ (s.process p).known) ∨
    s.db.has env hash = ((s.process p).apiKeys.lookup hash).isSome
  have hcopy : ((s.process p).apiKeys.lookup hash).isSome = true ↔
      hash ∈ (s.process p).apiKeys.keys := by
    rw [lookup_isSome, AList.mem_keys]
  cases hhas : s.db.has env hash with
  | true =>
    have hmem : hash ∈ s.db.apiKeys.keys := by
      rw [← AList.mem_keys, ← lookup_isSome]
      exact Database.isSome_of_has hhas
    rcases h.1 hash hmem hhas with hknown | hkey
    · exact Or.inl (decide_eq_true hknown).symm
    · exact Or.inr (hcopy.mpr hkey).symm
  | false =>
    by_cases hknown : hash ∈ (s.process p).known
    · refine Or.inr (Eq.symm ?_)
      rw [← Bool.not_eq_true, hcopy]
      intro hkey
      rw [h.2 hash hkey hknown] at hhas
      cases hhas
    · exact Or.inl (decide_eq_false hknown).symm

theorem steps_setProcess {proc : Process} (h : proc.row hash = (s.process p).row hash) :
    Relation.ReflTransGen (Row.Step .server) (s.row env hash)
      ((s.setProcess p proc).row env hash) := by
  rw [row_setProcess_eq h]

/-- A section of a validation, taken in time, is a reload's operation on the row or none. -/
theorem steps_advance {i clock : ℕ} {v : Validation} {ids : String → String} {now : ℤ}
    (hv : (s.process p).validations[i]? = some v)
    (hG : Timely env s (.advance p i clock ids now))
    (h : s.advance env p i v clock ids now = some s') (hash : String) :
    Relation.ReflTransGen (Row.Step .server) (s.row env hash) (s'.row env hash) := by
  have hstage : s.InTime env p v := hG v hv
  unfold State.InTime at hstage
  unfold State.advance at h
  dsimp only at h
  split at h
  · split at h
    all_goals
      cases h
      exact steps_setProcess rfl
  · split at h
    all_goals
      cases h
      exact steps_setProcess rfl
  · split at h
    all_goals
      cases h
      exact steps_setProcess rfl
  · cases h
    exact steps_setProcess rfl
  · rename_i hv
    cases h
    rw [hv] at hstage
    rw [row_insert]
    split
    · rename_i hcond
      obtain ⟨rfl, hcopy⟩ := hcond
      have hnot : hash ∉ (s.process p).apiKeys.keys := by
        rw [← @copy_row env, hcopy]
        exact Bool.false_ne_true
      obtain ⟨htable, hpending⟩ := hstage.resolve_left hnot
      exact .single (.learn p htable (mt removing_row.mp hpending))
    · exact .refl
  · cases h
    exact steps_setProcess rfl
  · rename_i shard fresh hv
    rw [hv] at hstage
    split at h
    · cases h
      have hgone : ∀ h ∈ State.dropped env (s.process p) shard fresh,
          h ∈ (s.process p).apiKeys.keys := fun h hh => (mem_filter.mp hh).1
      rw [row_retain]
      split
      · rename_i hdropped
        obtain ⟨htable, hpending⟩ := hstage hash hdropped
        exact .single (.forget p (copy_row.mpr (hgone hash hdropped))
          (Bool.eq_false_iff.mpr htable) (mt adding_row.mp hpending))
      · exact .refl
    · cases h
      exact steps_setProcess rfl
  · cases h
    exact steps_setProcess rfl
  · cases h

/-- A timely step is a number of operations on each row, each taken where it keeps the row's
agreement. -/
theorem steps_row {a : Action env} (hwf : s.Wf env) (hG : Timely env s a)
    (h : step env s a = some s') (hash : String) :
    Relation.ReflTransGen (Row.Step .server) (s.row env hash) (s'.row env hash) := by
  cases a with
  | new p ids now fallback =>
    simp only [step] at h
    split at h
    · rename_i hidle
      have hcount : ∀ op, (s.process p).saving.count op = 0 := by
        intro op
        rw [hidle.1]
        rfl
      have hother : ∀ t, (s.row env hash).txn = some t → t.holder ≠ p := by
        intro t ht
        obtain ⟨t', ht', rfl⟩ := Option.map_eq_some_iff.mp ht
        exact hidle.2.2 t' ht'
      have hreopen : Row.Step .server (s.row env hash) ((s.row env hash).reopen p) :=
        .reopen p (hcount _) (hcount _) hother
      rcases row_openProcess h hash with hrow | ⟨hnew, hrow⟩
      · rw [hrow]
        exact .single hreopen
      · rw [hrow]
        exact (Relation.ReflTransGen.single hreopen).tail (.add p (decide_eq_false hnew))
    · cases h
  | createKey p k name permissions =>
    simp only [step] at h
    split at h
    · rename_i hcond
      cases h
      rw [row_createKey]
      split
      · rename_i hk
        subst hk
        exact .single (.add p (decide_eq_false hcond.2))
      · exact .refl
    · cases h
  | deleteKey p hash' =>
    simp only [step] at h
    split at h
    · cases h
      rw [row_deleteKey]
      split
      · rename_i hcond
        exact .single (.remove p hcond.2)
      · exact .refl
    · cases h
  | beginSave p op =>
    simp only [step] at h
    split at h
    · rename_i hnone
      split at h
      · rename_i hop
        cases h
        rw [row_beginSave]
        refine .single (.start p _ ?_ (abreast_row hG hash) ?_ ?_)
        · show s.txn.map _ = none
          rw [hnone]
          rfl
        · intro hadd
          rw [change_eq_add] at hadd
          exact count_pos_iff.mpr (hadd ▸ hop)
        · intro hremove
          rw [change_eq_remove] at hremove
          exact count_pos_iff.mpr (hremove ▸ hop)
      · cases h
    · cases h
  | visitShard =>
    simp only [step] at h
    split at h
    · rename_i t ht
      split at h
      · cases h
        rw [row_visitShard ht (hwf.tables t ht).2]
        split
        · refine .single (.visit _ ?_)
          show s.txn.map _ = _
          rw [ht]
          rfl
        · exact .refl
      · cases h
    · cases h
  | commit =>
    simp only [step] at h
    split at h
    · rename_i t ht
      split at h
      · rename_i hnext
        cases h
        rw [row_commit t (hwf.tables t ht).1]
        refine .single (.commit _ ?_ ?_ ?_)
        · show s.txn.map _ = _
          rw [ht]
          rfl
        · refine decide_eq_true ?_
          rw [hnext]
          exact env.shardOf_lt hash
        · intro hremove
          rw [Bool.eq_false_iff, ne_eq, copy_row]
          exact hG t ht hash (change_eq_remove.mp hremove)
      · cases h
    · cases h
  | validate p api key =>
    simp only [step] at h
    split at h
    · cases h
      exact steps_setProcess rfl
    · cases h
  | advance p i clock ids now =>
    simp only [step] at h
    split at h
    · rename_i v hv
      exact steps_advance hv hG h hash
    · cases h

end HeraMind.Auth
