/-
# API keys

`crates/heramind-api/src/auth.rs`: the keys are kept in memory and in two tables of a database.
Every save rewrites both tables from memory in one transaction; a validation that misses may read
the tables again.  The server and another process, such as the command line, do this with one
database, each from its own memory.

The sections below are what runs without interruption: an access to one shard of the map in memory,
a transaction's begin and commit, and an access to the time of the last reload.
-/
import HeraMind.Lib.KeyedMap
import HeraMind.Lib.Run

namespace HeraMind.Auth

/-! ## Keys -/

structure ApiKeyInfo where
  id : String
  name : String
  createdAt : ℤ
  permissions : List String
  active : Bool
  deriving DecidableEq

/-- A key as it is kept under its hash: encrypted, with its information. -/
abbrev KeyEntry := String × ApiKeyInfo

/-- `CryptoService` as the keys use it, and the shards of the map in memory. -/
structure Env where
  hashApiKey : String → String
  /-- Whether `decrypt` returns `Ok`. -/
  decrypts : String → Bool
  shardAmount : ℕ
  shardOf : String → ℕ
  shardOf_lt : ∀ hash, shardOf hash < shardAmount

/-- A generated key, with what `encrypt_str` has made of it. -/
structure NewKey (env : Env) where
  key : String
  encrypted : String
  id : String
  createdAt : ℤ
  decrypts : env.decrypts encrypted = true

variable {env : Env}

def NewKey.hash (k : NewKey env) : String := env.hashApiKey k.key

def NewKey.entry (k : NewKey env) (name : String) (permissions : List String) : KeyEntry :=
  (k.encrypted, ⟨k.id, name, k.createdAt, permissions, true⟩)

/-- What `validate_key` returns for what it finds. -/
def validateKeyOf : Option KeyEntry → Bool
  | some item => item.2.active
  | none => false

/-- What `validate_key_info` returns for what it finds. -/
def validateKeyInfoOf : Option KeyEntry → Option ApiKeyInfo
  | some item => if item.2.active then some item.2 else none
  | none => none

/-- The two entry points. -/
inductive Api where
  | key
  | keyInfo
  deriving DecidableEq

/-- Whether an entry point accepts the key, from what it finds in memory. -/
def Api.accepts : Api → Option KeyEntry → Bool
  | .key, item => validateKeyOf item
  | .keyInfo, item => (validateKeyInfoOf item).isSome

/-- The entry points accept the same keys. -/
theorem Api.accepts_eq (api : Api) (item : Option KeyEntry) :
    api.accepts item = item.any fun e => e.2.active := by
  cases api with
  | key =>
    cases item with
    | none | some e => rfl
  | keyInfo =>
    cases item with
    | none => rfl
    | some e =>
      show (if e.2.active = true then some e.2 else none).isSome = e.2.active
      cases e.2.active
      · rfl
      · rfl

/-! ## The database -/

/-- The tables `api_keys` and `api_key_hashes`. -/
structure Database where
  apiKeys : HashMap String String
  apiKeyHashes : HashMap String ApiKeyInfo

/-- The information of a row that has none. -/
def migratedKey (id : String) (now : ℤ) : ApiKeyInfo := ⟨id, "Migrated Key", now, ["*"], true⟩

/-- `load_from_db`: rows that do not decrypt are skipped. -/
def loadFromDb (env : Env) (ids : String → String) (now : ℤ) (db : Database) :
    HashMap String KeyEntry :=
  HashMap.insertAll ∅ db.apiKeys fun hash encrypted =>
    if env.decrypts encrypted then
      some (encrypted, (db.apiKeyHashes.lookup hash).getD (migratedKey (ids hash) now))
    else none

/-- The database has a row for this hash that can be read. -/
def Database.has (env : Env) (db : Database) (hash : String) : Bool :=
  (db.apiKeys.lookup hash).any env.decrypts

variable {db : Database}

theorem Database.isSome_of_has {hash : String} (h : db.has env hash = true) :
    (db.apiKeys.lookup hash).isSome = true := by
  unfold Database.has at h
  cases hrow : db.apiKeys.lookup hash with
  | none =>
    rw [hrow] at h
    cases h
  | some encrypted => rfl

/-- The rows that `save_to_db` removes first. -/
def Database.clear (db : Database) : Database where
  apiKeys := ∅
  apiKeyHashes := HashMap.removeAll db.apiKeyHashes db.apiKeys.keys

/-- `save_to_db` inserts the entries of one shard of the map. -/
def Database.insertShard (env : Env) (shard : ℕ) (keys : HashMap String KeyEntry)
    (db : Database) : Database where
  apiKeys := HashMap.insertAll db.apiKeys keys fun hash e =>
    if env.shardOf hash = shard then some e.1 else none
  apiKeyHashes := HashMap.insertAll db.apiKeyHashes keys fun hash e =>
    if env.shardOf hash = shard then some e.2 else none

/-- Every row can be read. -/
def Database.Readable (env : Env) (db : Database) : Prop :=
  ∀ hash encrypted, db.apiKeys.lookup hash = some encrypted → env.decrypts encrypted = true

theorem isSome_lookup_loadFromDb (ids : String → String) (now : ℤ) (db : Database)
    (hash : String) : ((loadFromDb env ids now db).lookup hash).isSome = db.has env hash := by
  unfold loadFromDb Database.has
  rw [HashMap.lookup_insertAll, AList.lookup_empty, Option.or_none]
  cases db.apiKeys.lookup hash with
  | none => rfl
  | some encrypted =>
    rw [Option.bind_some, Option.any_some]
    cases env.decrypts encrypted
    · rfl
    · rfl

/-- Everything that is loaded decrypts. -/
theorem decrypts_of_lookup_loadFromDb {ids : String → String} {now : ℤ}
    {hash : String} {e : KeyEntry} (h : (loadFromDb env ids now db).lookup hash = some e) :
    env.decrypts e.1 = true := by
  unfold loadFromDb at h
  rw [HashMap.lookup_insertAll, AList.lookup_empty, Option.or_none, Option.bind_eq_some_iff] at h
  obtain ⟨encrypted, -, he⟩ := h
  split at he
  · rename_i hdecrypts
    cases he
    exact hdecrypts
  · cases he

theorem lookup_insertShard (shard : ℕ) (keys : HashMap String KeyEntry) (db : Database)
    (hash : String) : (db.insertShard env shard keys).apiKeys.lookup hash =
      if env.shardOf hash = shard then ((keys.lookup hash).map Prod.fst).or
        (db.apiKeys.lookup hash) else db.apiKeys.lookup hash := by
  unfold Database.insertShard
  dsimp only
  rw [HashMap.lookup_insertAll]
  by_cases hshard : env.shardOf hash = shard
  · simp only [if_pos hshard]
    cases keys.lookup hash with
    | none | some e => rfl
  · simp only [if_neg hshard]
    cases keys.lookup hash with
    | none | some e => rfl

theorem Database.Readable.insertShard {keys : HashMap String KeyEntry}
    (h : db.Readable env) (hkeys : ∀ hash e, keys.lookup hash = some e → env.decrypts e.1 = true)
    (shard : ℕ) : (db.insertShard env shard keys).Readable env := by
  intro hash encrypted hrow
  rw [lookup_insertShard] at hrow
  split at hrow
  · cases hkey : keys.lookup hash with
    | none =>
      rw [hkey] at hrow
      exact h hash encrypted hrow
    | some e =>
      rw [hkey] at hrow
      cases hrow
      exact hkeys hash e hkey
  · exact h hash encrypted hrow

theorem Database.Readable.has_eq (h : db.Readable env) (hash : String) :
    db.has env hash = (db.apiKeys.lookup hash).isSome := by
  unfold Database.has
  cases hrow : db.apiKeys.lookup hash with
  | none => rfl
  | some encrypted => exact h hash encrypted hrow

/-! ## Processes -/

inductive Pid where
  | server
  | other
  deriving DecidableEq

/-- What a call saves: a key it has created, a key it has deleted, or the keys a process starts
with. -/
inductive Op where
  | create (hash : String)
  | delete (hash : String)
  | persist
  deriving DecidableEq

/-- How far `validate_key` and `validate_key_info` have got. -/
inductive Stage where
  | lookup
  /-- The key was not in memory: `reload_keys_from_db` reads the clock and the last reload. -/
  | missed
  /-- It sets the time of the last reload if nobody else has. -/
  | swap (last clock : ℕ)
  /-- It loads the keys. -/
  | load
  /-- It inserts what it has loaded. -/
  | inserting (left : List (String × KeyEntry)) (fresh : List String)
  /-- It retains only what it has loaded, one shard after the other. -/
  | retaining (shard : ℕ) (fresh : List String)
  | recheck
  | returned (accepted : Bool)
  deriving DecidableEq

/-- A validation, and whether it has started after a call that deleted its key returned. -/
structure Validation where
  api : Api
  hash : String
  late : Bool
  stage : Stage

def Validation.Returned (v : Validation) : Prop :=
  match v.stage with
  | .returned _ => True
  | _ => False

instance (v : Validation) : Decidable v.Returned := by
  unfold Validation.Returned
  split
  · exact isTrue trivial
  · exact isFalse not_false

/-- A process: its memory, the calls that wait to save it, the validations, and for the proofs the
keys that the process has last read from the table or written to it. -/
structure Process where
  opened : Bool
  apiKeys : HashMap String KeyEntry
  saving : List Op
  lastReloadMs : ℕ
  validations : List Validation
  known : List String

/-- An open transaction of `save_to_db`, with the tables as it has written them so far. -/
structure Txn where
  process : Pid
  op : Op
  tables : Database
  /-- The shard that is visited next. -/
  next : ℕ

/-- Both processes, the database and the transaction that is open on it.  For the proofs: the
hashes of all keys there ever were, and the keys that calls have created and deleted. -/
structure State where
  db : Database
  process : Pid → Process
  txn : Option Txn
  issued : List String
  created : List String
  deleted : List String

namespace State

/-- Both processes are closed. -/
def start (db : Database) : State :=
  ⟨db, fun _ => ⟨false, ∅, [], 0, [], []⟩, none, db.apiKeys.keys, [], []⟩

def setProcess (s : State) (p : Pid) (proc : Process) : State :=
  { s with process := Function.update s.process p proc }

/-- A call of the process has this to save, or is saving it. -/
def Pending (s : State) (p : Pid) (op : Op) : Prop :=
  op ∈ (s.process p).saving ∨ ∃ t ∈ s.txn, t.process = p ∧ t.op = op

instance (s : State) (p : Pid) (op : Op) : Decidable (s.Pending p op) :=
  inferInstanceAs (Decidable (_ ∨ ∃ t ∈ s.txn, _))

/-- No call of the process is in progress. -/
def Idle (s : State) (p : Pid) : Prop :=
  (s.process p).saving = [] ∧ (∀ v ∈ (s.process p).validations, v.Returned) ∧
    ∀ t ∈ s.txn, t.process ≠ p

instance (s : State) (p : Pid) : Decidable (s.Idle p) :=
  inferInstanceAs (Decidable (_ ∧ _ ∧ _))

/-- No call is in progress. -/
def Quiet (s : State) : Prop := s.Idle .server ∧ s.Idle .other

instance (s : State) : Decidable s.Quiet := inferInstanceAs (Decidable (_ ∧ _))

/-! ## Sections -/

/-- `AuthState::new` and `new_with_data_dir` up to the save: the keys of the database, or a default
key if there are none. -/
def openProcess (env : Env) (s : State) (p : Pid) (ids : String → String) (now : ℤ)
    (fallback : NewKey env) : Option State :=
  let keys := loadFromDb env ids now s.db
  if keys.keys = [] then
    if fallback.hash ∈ s.issued then none
    else
      some { s.setProcess p ⟨true, AList.insert fallback.hash
          (fallback.entry "Default API Key" ["*"]) ∅, [.create fallback.hash], 0, [], []⟩ with
        issued := fallback.hash :: s.issued }
  else some (s.setProcess p ⟨true, keys, [.persist], 0, [], keys.keys⟩)

/-- `create_key` up to the save. -/
def createKey (s : State) (p : Pid) (k : NewKey env) (name : String) (permissions : List String) :
    State :=
  let proc := s.process p
  { s.setProcess p { proc with
      apiKeys := proc.apiKeys.insert k.hash (k.entry name permissions)
      saving := .create k.hash :: proc.saving } with
    issued := k.hash :: s.issued }

/-- `delete_key` and `delete_key_by_hash` up to the save, which is not made for a key that is not
in memory. -/
def deleteKey (s : State) (p : Pid) (hash : String) : State :=
  let proc := s.process p
  if (proc.apiKeys.lookup hash).isSome then
    s.setProcess p { proc with
      apiKeys := proc.apiKeys.erase hash
      saving := .delete hash :: proc.saving }
  else s

/-- `save_to_db` begins its transaction and clears the tables. -/
def beginSave (s : State) (p : Pid) (op : Op) : State :=
  let proc := s.process p
  { s.setProcess p { proc with saving := proc.saving.erase op } with
    txn := some ⟨p, op, s.db.clear, 0⟩ }

/-- `save_to_db` inserts the next shard. -/
def visitShard (env : Env) (s : State) (t : Txn) : State :=
  { s with txn := some { t with
      tables := t.tables.insertShard env t.next (s.process t.process).apiKeys
      next := t.next + 1 } }

/-- `save_to_db` commits, and its call returns. -/
def commit (s : State) (t : Txn) : State :=
  { s.setProcess t.process { s.process t.process with known := t.tables.apiKeys.keys } with
    db := t.tables
    txn := none
    created := match t.op with
      | .create hash => hash :: s.created
      | _ => s.created
    deleted := match t.op with
      | .delete hash => hash :: s.deleted
      | _ => s.deleted }

/-- What `retain` drops from a shard. -/
def dropped (env : Env) (proc : Process) (shard : ℕ) (fresh : List String) : List String :=
  proc.apiKeys.keys.filter fun hash => env.shardOf hash = shard ∧ hash ∉ fresh

/-- A section of a validation leaves its process so, and goes on from there. -/
def setStage (s : State) (p : Pid) (i : ℕ) (v : Validation) (proc : Process) (stage : Stage) :
    State :=
  s.setProcess p { proc with validations := (s.process p).validations.set i { v with stage } }

/-- The next section of a validation. -/
def advance (env : Env) (s : State) (p : Pid) (i : ℕ) (v : Validation) (clock : ℕ)
    (ids : String → String) (now : ℤ) : Option State :=
  let proc := s.process p
  let next := s.setStage p i v
  match v.stage with
  | .lookup =>
    match proc.apiKeys.lookup v.hash with
    | some item => some (next proc (.returned (v.api.accepts (some item))))
    | none => some (next proc .missed)
  | .missed =>
    if clock - proc.lastReloadMs < 5000 then some (next proc .recheck)
    else some (next proc (.swap proc.lastReloadMs clock))
  | .swap last clock =>
    if proc.lastReloadMs = last then some (next { proc with lastReloadMs := clock } .load)
    else some (next proc .recheck)
  | .load =>
    let keys := loadFromDb env ids now s.db
    some (next proc (.inserting (keys.entries.map fun e => (e.1, e.2)) keys.keys))
  | .inserting ((hash, item) :: left) fresh =>
    some (next { proc with
      apiKeys := proc.apiKeys.insert hash item
      known := if (proc.apiKeys.lookup hash).isSome then proc.known else hash :: proc.known }
      (.inserting left fresh))
  | .inserting [] fresh => some (next proc (.retaining 0 fresh))
  | .retaining shard fresh =>
    if shard < env.shardAmount then
      let gone := dropped env proc shard fresh
      some (next { proc with
        apiKeys := HashMap.removeAll proc.apiKeys gone
        known := proc.known.filter (· ∉ gone) } (.retaining (shard + 1) fresh))
    else some (next proc .recheck)
  | .recheck => some (next proc (.returned (v.api.accepts (proc.apiKeys.lookup v.hash))))
  | .returned _ => none

end State

/-! ## Steps -/

/-- What happens next, with what it is given from outside. -/
inductive Action (env : Env) where
  /-- The process is started. -/
  | new (p : Pid) (ids : String → String) (now : ℤ) (fallback : NewKey env)
  | createKey (p : Pid) (k : NewKey env) (name : String) (permissions : List String)
  | deleteKey (p : Pid) (hash : String)
  | beginSave (p : Pid) (op : Op)
  | visitShard
  | commit
  /-- `validate_key` or `validate_key_info` is called. -/
  | validate (p : Pid) (api : Api) (key : String)
  /-- The `i`th validation runs its next section. -/
  | advance (p : Pid) (i : ℕ) (clock : ℕ) (ids : String → String) (now : ℤ)

/-- A generated key is new, and only one transaction is open at a time. -/
def step (env : Env) (s : State) : Action env → Option State
  | .new p ids now fallback =>
    if s.Idle p then s.openProcess env p ids now fallback else none
  | .createKey p k name permissions =>
    if (s.process p).opened ∧ k.hash ∉ s.issued then some (s.createKey p k name permissions)
    else none
  | .deleteKey p hash => if (s.process p).opened then some (s.deleteKey p hash) else none
  | .beginSave p op =>
    match s.txn with
    | none => if op ∈ (s.process p).saving then some (s.beginSave p op) else none
    | some _ => none
  | .visitShard =>
    match s.txn with
    | some t => if t.next < env.shardAmount then some (s.visitShard env t) else none
    | none => none
  | .commit =>
    match s.txn with
    | some t => if t.next = env.shardAmount then some (s.commit t) else none
    | none => none
  | .validate p api key =>
    let proc := s.process p
    let hash := env.hashApiKey key
    if proc.opened then
      some (s.setProcess p { proc with
        validations := proc.validations ++ [⟨api, hash, hash ∈ s.deleted, .lookup⟩] })
    else none
  | .advance p i clock ids now =>
    match (s.process p).validations[i]? with
    | some v => s.advance env p i v clock ids now
    | none => none

end HeraMind.Auth
