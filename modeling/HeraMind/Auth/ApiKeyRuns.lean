/-
# API keys that are neither lost nor resurrected

`crates/heramind-api/src/auth.rs`: every save of a process writes the whole table from its memory.
It loses what another process has written since, and writes again what another process has deleted,
unless the memory is abreast of the table.
-/
import HeraMind.Lib.Calls
import HeraMind.Auth.ApiKeyRows

namespace HeraMind.Auth

open List Option Function AList
open SharedTable Transition

variable {env : Env} {s s' : State} {p : Pid} {hash : String}

/-! ## Texts decrypt -/

theorem Process.Decrypts.insert {apiKeys : HashMap String KeyEntry} {e : KeyEntry}
    (h : ∀ hash e, apiKeys.lookup hash = some e → env.decrypts e.1 = true)
    (he : env.decrypts e.1 = true) (key hash : String) (e' : KeyEntry)
    (hlookup : (apiKeys.insert key e).lookup hash = some e') : env.decrypts e'.1 = true := by
  by_cases hkey : hash = key
  · subst hkey
    rw [lookup_insert] at hlookup
    cases hlookup
    exact he
  · rw [lookup_insert_ne hkey] at hlookup
    exact h hash e' hlookup

theorem State.Wf.setProcess {proc : Process} (h : s.Wf env) (hmemory : proc.Decrypts env)
    (hloaded : ∀ v ∈ proc.validations, v.Decrypts env) (issued : List String) :
    State.Wf env ⟨s.db, Function.update s.process p proc, s.txn, issued, s.created, s.deleted⟩ where
  memory := by
    intro q
    by_cases hq : q = p
    · subst hq
      show ∀ hash e, (Function.update s.process q proc q).apiKeys.lookup hash = some e → _
      rw [update_self]
      exact hmemory
    · show ∀ hash e, (Function.update s.process p proc q).apiKeys.lookup hash = some e → _
      rw [update_of_ne hq]
      exact h.memory q
  loaded := by
    intro q
    by_cases hq : q = p
    · subst hq
      show ∀ v ∈ (Function.update s.process q proc q).validations, _
      rw [update_self]
      exact hloaded
    · show ∀ v ∈ (Function.update s.process p proc q).validations, _
      rw [update_of_ne hq]
      exact h.loaded q
  tables := h.tables
  db := h.db

theorem State.Wf.setStage {proc : Process} {i : ℕ} {v : Validation} {stage : Stage}
    (h : s.Wf env) (hmemory : proc.Decrypts env)
    (hstage : Validation.Decrypts env { v with stage }) :
    (s.setStage p i v proc stage).Wf env := by
  refine h.setProcess ?_ ?_ s.issued
  · exact hmemory
  · exact Calls.forall_mem_set (h.loaded p) hstage

theorem State.Wf.advance {i clock : ℕ} {v : Validation} {ids : String → String} {now : ℤ}
    (h : s.Wf env) (hv : (s.process p).validations[i]? = some v)
    (hs : s.advance env p i v clock ids now = some s') : s'.Wf env := by
  have hmemory : (s.process p).Decrypts env := h.memory p
  unfold State.advance at hs
  dsimp only at hs
  split at hs
  · split at hs
    all_goals
      cases hs
      exact h.setStage hmemory nofun
  · split at hs
    all_goals
      cases hs
      exact h.setStage hmemory nofun
  · split at hs
    all_goals
      cases hs
      exact h.setStage hmemory nofun
  · cases hs
    refine h.setStage hmemory ?_
    intro left fresh hstage e he
    cases hstage
    obtain ⟨⟨hash, entry⟩, hmem, rfl⟩ := mem_map.mp he
    exact decrypts_of_lookup_loadFromDb (mem_lookup_iff.mpr hmem)
  · rename_i hash item left fresh hstage
    have hleft := h.loaded p v (mem_of_getElem? hv) _ _ hstage
    cases hs
    refine h.setStage ?_ ?_
    · exact Process.Decrypts.insert hmemory (hleft _ mem_cons_self) hash
    · intro left' fresh' hstage' e he
      cases hstage'
      exact hleft e (mem_cons_of_mem _ he)
  · cases hs
    exact h.setStage hmemory nofun
  · split at hs
    · cases hs
      refine h.setStage ?_ nofun
      intro hash e he
      rw [HashMap.lookup_removeAll] at he
      split at he
      · cases he
      · exact hmemory hash e he
    · cases hs
      exact h.setStage hmemory nofun
  · cases hs
    exact h.setStage hmemory nofun
  · cases hs

/-- Every step keeps the texts decrypting. -/
theorem State.Wf.step {a : Action env} (h : s.Wf env) (hs : step env s a = some s') :
    s'.Wf env := by
  cases a with
  | new p ids now fallback =>
    simp only [Auth.step] at hs
    split at hs
    · unfold State.openProcess at hs
      dsimp only at hs
      split at hs
      · split at hs
        · cases hs
        · cases hs
          refine h.setProcess ?_ (fun v hv => absurd hv not_mem_nil) _
          refine Process.Decrypts.insert ?_
            (show env.decrypts (fallback.entry _ _).1 = true from fallback.decrypts) _
          intro hash e he
          rw [AList.lookup_empty] at he
          cases he
      · cases hs
        exact h.setProcess (fun _ _ => decrypts_of_lookup_loadFromDb)
          (fun v hv => absurd hv not_mem_nil) s.issued
    · cases hs
  | createKey p k name permissions =>
    simp only [Auth.step] at hs
    split at hs
    · cases hs
      refine h.setProcess ?_ ?_ _
      · exact Process.Decrypts.insert (e := k.entry name permissions) (h.memory p) k.decrypts _
      · exact h.loaded p
    · cases hs
  | deleteKey p hash =>
    simp only [Auth.step, State.deleteKey] at hs
    split at hs
    · split at hs
      · cases hs
        refine h.setProcess ?_ ?_ s.issued
        · intro hash' e he
          by_cases hk : hash' = hash
          · rw [hk, AList.lookup_erase] at he
            cases he
          · rw [AList.lookup_erase_ne hk] at he
            exact h.memory p hash' e he
        · exact h.loaded p
      · cases hs
        exact h
    · cases hs
  | beginSave p op =>
    simp only [Auth.step] at hs
    split at hs
    · split at hs
      · cases hs
        have hset : State.Wf env (s.setProcess p
            { s.process p with saving := (s.process p).saving.erase op }) := by
          refine h.setProcess ?_ ?_ s.issued
          · exact h.memory p
          · exact h.loaded p
        refine ⟨hset.memory, hset.loaded, ?_, h.db⟩
        rintro t ht
        cases ht
        refine ⟨?_, fun hash _ => rfl⟩
        intro hash text hrow
        cases hrow
      · cases hs
    · cases hs
  | visitShard =>
    simp only [Auth.step] at hs
    split at hs
    · rename_i t ht
      split at hs
      · cases hs
        refine ⟨h.memory, h.loaded, ?_, h.db⟩
        rintro t' ht'
        cases ht'
        obtain ⟨hreadable, hleft⟩ := h.tables t ht
        refine ⟨hreadable.insertShard (h.memory t.process) t.next, ?_⟩
        intro hash hnext
        have hlt : t.next < env.shardOf hash := hnext
        have hne : env.shardOf hash ≠ t.next := by omega
        rw [lookup_insertShard, if_neg hne]
        exact hleft hash (by omega)
      · cases hs
    · cases hs
  | commit =>
    simp only [Auth.step] at hs
    split at hs
    · rename_i t ht
      split at hs
      · cases hs
        have hset : State.Wf env (s.setProcess t.process
            { s.process t.process with known := t.tables.apiKeys.keys }) := by
          refine h.setProcess ?_ ?_ s.issued
          · exact h.memory t.process
          · exact h.loaded t.process
        refine ⟨hset.memory, hset.loaded, ?_, Or.inr (h.tables t ht).1⟩
        intro t' ht'
        cases ht'
      · cases hs
    · cases hs
  | validate p api key =>
    simp only [Auth.step] at hs
    split at hs
    · cases hs
      refine h.setProcess ?_ ?_ s.issued
      · exact h.memory p
      refine forall_mem_append.mpr ⟨h.loaded p, forall_mem_singleton.mpr ?_⟩
      intro left fresh hstage
      cases hstage
    · cases hs
  | advance p i clock ids now =>
    simp only [Auth.step] at hs
    split at hs
    · rename_i v hv
      exact h.advance hv hs
    · cases hs

theorem State.wf_start (db : Database) : (State.start db).Wf env where
  memory := by
    intro p hash e he
    rw [State.start, AList.lookup_empty] at he
    cases he
  loaded := fun _ v hv => absurd hv not_mem_nil
  tables := nofun
  db := Or.inl ⟨rfl, rfl⟩

/-! ## Neither lost nor resurrected -/

/-- When no call is in progress, the database has every key that was created and never deleted.
Neither it nor the server has a key that was deleted, and the server has accepted none in a
validation that started after the deletion had returned. -/
structure State.Kept (s : State) : Prop where
  created : s.Quiet → ∀ hash ∈ s.created, hash ∉ s.deleted →
    (s.db.apiKeys.lookup hash).isSome = true
  deleted : ∀ hash ∈ s.deleted, s.db.apiKeys.lookup hash = none ∧
    (s.process .server).apiKeys.lookup hash = none
  refused : ∀ v ∈ (s.process .server).validations, v.late = true →
    v.stage ≠ .returned true

/-- The rows agree up to the calls in progress, and late validations are of deleted keys. -/
structure State.Held (env : Env) (s : State) : Prop where
  wf : s.Wf env
  row : ∀ hash, (s.row env hash).Sound .server
  late : ∀ v ∈ (s.process .server).validations, v.late = true →
    v.hash ∈ s.deleted ∧ v.stage ≠ .returned true

/-- The server has no deleted key in memory. -/
theorem State.Held.lookup_eq_none (h : s.Held env) (hd : hash ∈ s.deleted) :
    (s.process .server).apiKeys.lookup hash = none := by
  have hcopy := ((h.row hash).removed (decide_eq_true hd)).2
  exact isSome_eq_false_iff.mp hcopy |> isNone_iff_eq_none.mp

/-- A section of a validation changes only its process, and accepts only what it finds there. -/
theorem advance_eq {i clock : ℕ} {v : Validation} {ids : String → String} {now : ℤ}
    (hs : s.advance env p i v clock ids now = some s') :
    ∃ proc stage, s' = s.setStage p i v proc stage ∧
      ∀ b, stage = .returned b → b = v.api.accepts ((s.process p).apiKeys.lookup v.hash) := by
  unfold State.advance at hs
  dsimp only at hs
  split at hs
  · split at hs
    · rename_i item hitem
      refine ⟨_, _, (some.inj hs).symm, ?_⟩
      intro b hb
      cases hb
      rw [hitem]
    · exact ⟨_, _, (some.inj hs).symm, nofun⟩
  · split at hs
    all_goals exact ⟨_, _, (some.inj hs).symm, nofun⟩
  · split at hs
    all_goals exact ⟨_, _, (some.inj hs).symm, nofun⟩
  · exact ⟨_, _, (some.inj hs).symm, nofun⟩
  · exact ⟨_, _, (some.inj hs).symm, nofun⟩
  · exact ⟨_, _, (some.inj hs).symm, nofun⟩
  · split at hs
    all_goals exact ⟨_, _, (some.inj hs).symm, nofun⟩
  · refine ⟨_, _, (some.inj hs).symm, ?_⟩
    intro b hb
    cases hb
    rfl
  · cases hs

/-- The validations of the server, after a step that leaves those of one process so. -/
theorem validations_setProcess {P : Validation → Prop} {proc : Process}
    (h : ∀ v ∈ (s.process .server).validations, P v)
    (hproc : p = .server → ∀ v ∈ proc.validations, P v) :
    ∀ v ∈ ((s.setProcess p proc).process .server).validations, P v := by
  by_cases hp : p = .server
  · subst hp
    show ∀ v ∈ (Function.update s.process .server proc .server).validations, P v
    rw [update_self]
    exact hproc rfl
  · show ∀ v ∈ (Function.update s.process p proc .server).validations, P v
    rw [update_of_ne (Ne.symm hp)]
    exact h

/-- A late validation of the server never accepts. -/
theorem State.Held.late_step {a : Action env} (h : s.Held env) (hs : step env s a = some s') :
    ∀ v ∈ (s'.process .server).validations, v.late = true →
      v.hash ∈ s'.deleted ∧ v.stage ≠ .returned true := by
  cases a with
  | new p ids now fallback =>
    simp only [step] at hs
    split at hs
    · unfold State.openProcess at hs
      dsimp only at hs
      split at hs
      · split at hs
        · cases hs
        · cases hs
          exact validations_setProcess h.late fun _ v hv => absurd hv not_mem_nil
      · cases hs
        exact validations_setProcess h.late fun _ v hv => absurd hv not_mem_nil
    · cases hs
  | createKey p k name permissions =>
    simp only [step] at hs
    split at hs
    · cases hs
      refine validations_setProcess h.late ?_
      rintro rfl
      exact h.late
    · cases hs
  | deleteKey p hash =>
    simp only [step, State.deleteKey] at hs
    split at hs
    · split at hs
      · cases hs
        refine validations_setProcess h.late ?_
        rintro rfl
        exact h.late
      · cases hs
        exact h.late
    · cases hs
  | beginSave p op =>
    simp only [step] at hs
    split at hs
    · split at hs
      · cases hs
        refine validations_setProcess h.late ?_
        rintro rfl
        exact h.late
      · cases hs
    · cases hs
  | visitShard =>
    simp only [step] at hs
    split at hs
    · split at hs
      · cases hs
        exact h.late
      · cases hs
    · cases hs
  | commit =>
    simp only [step] at hs
    split at hs
    · rename_i t ht
      split at hs
      · cases hs
        have hmono : ∀ hash ∈ s.deleted, hash ∈ (s.commit t).deleted := by
          intro hash hmem
          unfold State.commit
          cases t.op with
          | create h => exact hmem
          | delete h => exact mem_cons_of_mem _ hmem
          | persist => exact hmem
        refine validations_setProcess (P := fun v => v.late = true →
          v.hash ∈ (s.commit t).deleted ∧ v.stage ≠ .returned true) ?_ ?_
        · exact fun v hv hlate => ⟨hmono _ (h.late v hv hlate).1, (h.late v hv hlate).2⟩
        · rintro hp v hv hlate
          rw [hp] at hv
          exact ⟨hmono _ (h.late v hv hlate).1, (h.late v hv hlate).2⟩
      · cases hs
    · cases hs
  | validate p api key =>
    simp only [step] at hs
    split at hs
    · cases hs
      refine validations_setProcess h.late ?_
      rintro rfl v hv hlate
      rcases mem_append.mp hv with hv | hv
      · exact h.late v hv hlate
      · rw [mem_singleton] at hv
        subst hv
        refine ⟨of_decide_eq_true hlate, ?_⟩
        intro hstage
        cases hstage
    · cases hs
  | advance p i clock ids now =>
    simp only [step] at hs
    split at hs
    · rename_i v hv
      obtain ⟨proc, stage, rfl, haccepts⟩ := advance_eq hs
      refine validations_setProcess h.late ?_
      rintro rfl v' hv' hlate
      rcases mem_or_eq_of_mem_set hv' with hmem | rfl
      · exact h.late v' hmem hlate
      · have hdeleted := (h.late v (mem_of_getElem? hv) hlate).1
        refine ⟨hdeleted, ?_⟩
        -- The key is not in memory, so nothing is accepted.
        intro hstage
        have htrue := haccepts true hstage
        rw [h.lookup_eq_none hdeleted, Api.accepts_eq] at htrue
        cases htrue
    · cases hs

theorem State.Held.step {a : Action env} (h : s.Held env) (hG : Timely env s a)
    (hs : step env s a = some s') : s'.Held env where
  wf := h.wf.step hs
  row hash := (h.row hash).steps (steps_row h.wf hG hs hash)
  late := h.late_step hs

theorem State.held_start (db : Database) : (State.start db).Held env where
  wf := State.wf_start db
  row hash := by
    refine Row.sound_untouched ?_
    intro hhas
    refine decide_eq_true ?_
    show hash ∈ db.apiKeys.keys
    rw [← AList.mem_keys, ← lookup_isSome]
    exact Database.isSome_of_has hhas
  late := fun v hv => absurd hv not_mem_nil

theorem State.Idle.not_pending (h : s.Idle p) (op : Op) : ¬ s.Pending p op := by
  rintro (hsaving | ⟨t, ht, hp, -⟩)
  · rw [h.1] at hsaving
    exact not_mem_nil hsaving
  · exact h.2.2 t ht hp

theorem State.Quiet.not_pending (h : s.Quiet) (p : Pid) (op : Op) : ¬ s.Pending p op := by
  cases p with
  | server => exact h.1.not_pending op
  | other => exact h.2.not_pending op

theorem State.Held.kept (h : s.Held env) : s.Kept where
  created := by
    intro hquiet hash hcreated hdeleted
    rcases (h.row hash).added (decide_eq_true hcreated) with htable | hremoved | ⟨p, hremoving⟩
    · exact Database.isSome_of_has htable
    · exact absurd (of_decide_eq_true hremoved) hdeleted
    · exact absurd (removing_row.mp hremoving) (hquiet.not_pending p _)
  deleted := by
    intro hash hdeleted
    have hrow := (h.row hash).removed (decide_eq_true hdeleted)
    refine ⟨?_, h.lookup_eq_none hdeleted⟩
    rcases h.wf.db with ⟨-, hnil⟩ | hreadable
    · rw [hnil] at hdeleted
      cases hdeleted
    · exact isNone_iff_eq_none.mp
        (isSome_eq_false_iff.mp ((hreadable.has_eq hash).symm.trans hrow.1))
  refused := fun v hv hlate => (h.late v hv hlate).2

/-- In a run whose steps are all timely no key is lost or resurrected. -/
theorem kept_of_run {db : Database} {tr : List (State × Action env)}
    (hrun : Run (step env) (State.start db) tr s) (hG : Within (Timely env) tr) : s.Kept :=
  (hrun.invariant hG (State.held_start db) fun _ _ _ h hGa hs => h.step hGa hs).kept

/-! ## The server and the command line -/

instance (s : State) (p : Pid) : Decidable (s.Current env p) :=
  inferInstanceAs (Decidable (_ ∧ _))

instance (s : State) (p : Pid) (hash : String) : Decidable (s.MayInsert env p hash) :=
  inferInstanceAs (Decidable (_ ∨ _))

instance (s : State) (p : Pid) (hash : String) : Decidable (s.MayDrop env p hash) :=
  inferInstanceAs (Decidable (_ ∧ _))

instance (s : State) (t : Txn) : Decidable (∀ hash, t.op = .delete hash →
    hash ∉ (s.process .server).apiKeys.keys) :=
  match t.op with
  | .delete hash => decidable_of_iff (hash ∉ (s.process .server).apiKeys.keys)
      ⟨fun h _ he => Op.delete.inj he ▸ h, fun h => h hash rfl⟩
  | .create _ | .persist => isTrue nofun

instance (s : State) (p : Pid) (v : Validation) : Decidable (s.InTime env p v) := by
  unfold State.InTime
  exact match v.stage with
    | .inserting ((hash, _) :: _) _ => inferInstanceAs (Decidable (s.MayInsert env p hash))
    | .retaining shard fresh => inferInstanceAs
      (Decidable (∀ hash ∈ State.dropped env (s.process p) shard fresh, s.MayDrop env p hash))
    | .inserting [] _ | .lookup | .missed | .swap .. | .load | .recheck | .returned _ =>
      isTrue trivial

instance (s : State) (a : Action env) : Decidable (Timely env s a) := by
  unfold Timely
  split
  · infer_instance
  · infer_instance
  · infer_instance
  · infer_instance

/-- The default key of the server. -/
def defaultHash : String := "f6abf609ff85200b595dc703c21a331dbbc34569c999a57e6d6b0f72aab07015"

/-- The key that is created on the command line. -/
def cliHash : String := "18d0bec2e147996c7b7c9422d9da1375a95c63eddce129bdae15d67990ba402f"

/-- A key that is created by the server. -/
def webHash : String := "a01501f98f4a178ecb10e6a72845a84ea9fc6b2860ceec8f35847e7f92ac0c24"

/-- The hashes of the three keys, and two shards. -/
def home : Env where
  hashApiKey key :=
    if key = "nmk_00000000000040008000000000000001" then defaultHash
    else if key = "nmk_0a1b2c3d4e5f60718293a4b5c6d7e8f9" then cliHash
    else webHash
  decrypts text := text ∈ ["c2VhbGVkLTE=", "c2VhbGVkLTI=", "c2VhbGVkLTM="]
  shardAmount := 2
  shardOf hash := if hash = cliHash then 1 else 0
  shardOf_lt hash := by
    split
    · decide
    · decide

def defaultKey : NewKey home :=
  ⟨"nmk_00000000000040008000000000000001", "c2VhbGVkLTE=", "1", 1700000000, by decide⟩

def cliKey : NewKey home :=
  ⟨"nmk_0a1b2c3d4e5f60718293a4b5c6d7e8f9", "c2VhbGVkLTI=", "2", 1700000100, by decide⟩

def webKey : NewKey home :=
  ⟨"nmk_f00dfeed5e1fc0de1234567890abcdef", "c2VhbGVkLTM=", "3", 1700000200, by decide⟩

/-- A save from its begin to its commit. -/
def save (p : Pid) (op : Op) : List (Action home) :=
  [.beginSave p op, .visitShard, .visitShard, .commit]

/-- The sections of a validation of the server. -/
def sections (i n clock : ℕ) : List (Action home) :=
  List.replicate n (.advance .server i clock (fun _ => "4") 1700000300)

/-- The server is started, then the command line, which creates a key. -/
def cliCreates : List (Action home) :=
  [.new .server (fun _ => "4") 1700000000 defaultKey] ++
  save .server (.create defaultHash) ++
  [.new .other (fun _ => "4") 1700000050 defaultKey] ++
  save .other .persist ++
  [.createKey .other cliKey "cli" ["*"]] ++
  save .other (.create cliHash)

/-- The server accepts the new key after a reload, deletes its default key, and refuses it. -/
def serverFollows : List (Action home) :=
  [.validate .server .keyInfo cliKey.key] ++ sections 0 11 6000 ++
  [.deleteKey .server defaultHash] ++
  save .server (.delete defaultHash) ++
  [.validate .server .key defaultKey.key] ++ sections 1 3 7000

/-- The run is timely, and its keys are neither lost nor resurrected. -/
theorem kept_of_run_home : ∃ s : State, s.Kept ∧ s.Quiet ∧ s.created = [cliHash, defaultHash] ∧
    s.deleted = [defaultHash] ∧ (s.process .server).validations.map Validation.stage =
      [.returned true, .returned false] := by
  obtain ⟨tr, s, hrun, htimely, hquiet, hrest⟩ := exists_run (step home) (State.start ⟨∅, ∅⟩)
    (cliCreates ++ serverFollows) (fun tr s => Within (Timely home) tr ∧ s.Quiet ∧
      s.created = [cliHash, defaultHash] ∧ s.deleted = [defaultHash] ∧
      (s.process .server).validations.map Validation.stage =
        [.returned true, .returned false]) (by decide)
  exact ⟨s, kept_of_run hrun htimely, hquiet, hrest⟩

/-- The server creates a key after the command line has, without having read the table since. -/
def serverCreates : List (Action home) :=
  [.createKey .server webKey "web" ["*"]] ++ save .server (.create webHash)

/-- Runs lose keys: the save of the server removes the row that the command line has written. -/
theorem cli_key_lost : ¬ ∀ (tr : List (State × Action home)) (s : State),
    Run (step home) (State.start ⟨∅, ∅⟩) tr s → s.Kept := by
  intro hall
  obtain ⟨tr, s, hrun, hquiet, hcreated, hdeleted, hnone⟩ := exists_run (step home)
    (State.start ⟨∅, ∅⟩)
    (cliCreates ++ serverCreates) (fun tr s => s.Quiet ∧ cliHash ∈ s.created ∧
      cliHash ∉ s.deleted ∧ (s.db.apiKeys.lookup cliHash).isSome = false) (by decide +kernel)
  have hsome := (hall tr s hrun).created hquiet cliHash hcreated hdeleted
  exact Bool.false_ne_true (hnone.symm.trans hsome)

end HeraMind.Auth
