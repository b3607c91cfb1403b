/-
# Accounts are unique and revocations are final

`crates/heramind-api/src/auth_users.rs`: a registration looks for the name and saves the account in
different sections, and a login verifies the password long before it stores the session, while a
revocation sweeps the sessions in memory and then their rows.  What holds of every run holds as long
as no section is overtaken between the two.
-/
import HeraMind.Auth.Users

namespace HeraMind.Auth

open List
open Transition

variable {env : TokenEnv} {s s' : UserState}

/-! ## What should hold -/

/-- Between two events of the log there was another one. -/
def Between (log : List AccountEvent) (e e' x : AccountEvent) : Prop :=
  ∃ post mid pre, log = post ++ e' :: (mid ++ e :: pre) ∧ x ∈ mid

/-- If two registrations of a name have returned, the name was deleted in between. -/
def UserState.Unique (s : UserState) : Prop :=
  ∀ username id id', (username, id) ∈ s.registered → (username, id') ∈ s.registered → id ≠ id' →
    Between s.log (.created username id) (.created username id') (.removed username) ∨
      Between s.log (.created username id') (.created username id) (.removed username)

/-- No token that was issued on the strength of a revoked password or account is valid, now or
after a restart. -/
def UserState.Final (env : TokenEnv) (s : UserState) : Prop :=
  ∀ i ∈ s.issued, (i.username, i.hash) ∈ s.revoked → ∀ now claims,
    validateToken env s.sessions i.token now ≠ .ok claims ∧
    ∀ later, validateToken env (s.restart later).sessions i.token now ≠ .ok claims

/-! ## When a section is in time -/

/-- The names and hashes whose sessions in memory the call has swept. -/
def Call.sweptMemory : Call → List (String × String)
  | .revoke username replaced .read | .revoke username replaced (.delete _) =>
    replaced.map fun hash => (username, hash)
  | _ => []

/-- The names and hashes for which the call has read the rows, and will not delete this one. -/
def Call.sweptRows (key : String) : Call → List (String × String)
  | .revoke username replaced (.delete keys) =>
    if key ∈ keys then [] else replaced.map fun hash => (username, hash)
  | _ => []

/-- No revocation of this name and hash has returned or swept the memory. -/
def UserState.MemoryInTime (s : UserState) (username hash : String) : Prop :=
  (username, hash) ∉ s.revoked ∧ ∀ c ∈ s.calls, (username, hash) ∉ c.sweptMemory

/-- No revocation of this name and hash has returned or read the rows without finding this one. -/
def UserState.RowInTime (s : UserState) (key username hash : String) : Prop :=
  (username, hash) ∉ s.revoked ∧ ∀ c ∈ s.calls, (username, hash) ∉ c.sweptRows key

/-- No token with this key was issued for another name or hash. -/
def UserState.NotIssued (env : TokenEnv) (s : UserState) (key username hash : String) : Prop :=
  ∀ i ∈ s.issued, env.tokenKey i.token = key → i.username = username ∧ i.hash = hash

/-- The section finds what it goes by unchanged: no account of the name was saved since the
registration looked, the token was not issued before on the strength of another password, and no
revocation has passed the place where the session is stored. -/
def Call.InTime (env : TokenEnv) (s : UserState) (inp : Inputs) : Call → Prop
  | .registerSave user => s.userRows.lookup user.username = none
  | .registerToken user =>
    s.NotIssued env (env.tokenKey (generateToken env user inp.now)) user.username user.passwordHash
  | .registerRow user key _ => s.RowInTime key user.username user.passwordHash
  | .registerSession user _ _ => s.MemoryInTime user.username user.passwordHash
  | .loginToken v => ∀ user ∈ s.users.lookup v.username,
    s.NotIssued env (env.tokenKey (generateToken env user inp.now)) v.username v.hash
  | .loginRow v key => s.RowInTime key v.username v.hash
  | .loginSession v _ _ => s.MemoryInTime v.username v.hash
  | _ => True

def UserTimely (env : TokenEnv) (s : UserState) : UserAction → Prop
  | .run i inp => ∀ c ∈ s.calls[i]?, c.InTime env s inp
  | _ => True

/-! ## The invariant -/

/-- A session in memory or in its table belongs to a token, and the token is not revoked. -/
def UserState.Owned (env : TokenEnv) (s : UserState) (key username : String) (P : Issue → Prop) :
    Prop :=
  ∃ i ∈ s.issued, env.tokenKey i.token = key ∧ username = i.username ∧ P i

/-- A call that is about to store a session has issued its token, and one that has saved an account
has created it. -/
def Call.Issued (env : TokenEnv) (s : UserState) : Call → Prop
  | .registerInsert user | .registerToken user => .created user.username user.id ∈ s.log
  | .registerRow user key info | .registerSession user key info =>
    .created user.username user.id ∈ s.log ∧
    ∃ token, env.tokenKey token = key ∧ info.username = user.username ∧
      (⟨token, user.username, user.passwordHash⟩ : Issue) ∈ s.issued
  | .loginRow v key => ∃ token, env.tokenKey token = key ∧
    (⟨token, v.username, v.hash⟩ : Issue) ∈ s.issued
  | .loginSession v key info => ∃ token, env.tokenKey token = key ∧ info.username = v.username ∧
    (⟨token, v.username, v.hash⟩ : Issue) ∈ s.issued
  | _ => True

/-- An account that was created and not removed has a row. -/
def UserState.Logged (s : UserState) : Prop :=
  ∀ post pre username id, s.log = post ++ .created username id :: pre →
    .removed username ∉ post → (s.userRows.lookup username).isSome = true

/-- Between two creations of an account of a name it was removed. -/
def UserState.Alternating (s : UserState) : Prop :=
  ∀ post mid pre username id id',
    s.log = post ++ .created username id' :: (mid ++ .created username id :: pre) →
    .removed username ∈ mid

structure UserState.Held (env : TokenEnv) (s : UserState) : Prop where
  calls : ∀ c ∈ s.calls, c.Issued env s
  registered : ∀ r ∈ s.registered, AccountEvent.created r.1 r.2 ∈ s.log
  alternating : s.Alternating
  logged : s.Logged
  same : ∀ i ∈ s.issued, ∀ j ∈ s.issued, env.tokenKey i.token = env.tokenKey j.token →
    i.username = j.username ∧ i.hash = j.hash
  memory : ∀ key info, s.sessions.lookup key = some info →
    s.Owned env key info.username fun i => s.MemoryInTime i.username i.hash
  rows : ∀ key info, s.sessionRows.lookup key = some info →
    s.Owned env key info.username fun i => s.RowInTime key i.username i.hash

/-- What was created twice was removed in between. -/
theorem UserState.Held.unique (h : s.Held env) : s.Unique := by
  intro username id id' hid hid' hne
  obtain ⟨post, pre, hlog⟩ := append_of_mem (h.registered _ hid)
  have hmem := h.registered _ hid'
  rw [hlog] at hmem
  rcases mem_append.mp hmem with hpost | hpre
  · obtain ⟨post, mid, rfl⟩ := append_of_mem hpost
    rw [append_assoc, cons_append] at hlog
    exact Or.inl ⟨post, mid, pre, hlog, h.alternating _ _ _ _ _ _ hlog⟩
  · rcases mem_cons.mp hpre with heq | hpre
    · exact absurd (AccountEvent.created.inj heq).2.symm hne
    · obtain ⟨mid, pre, rfl⟩ := append_of_mem hpre
      exact Or.inr ⟨post, mid, pre, hlog, h.alternating _ _ _ _ _ _ hlog⟩

/-- A revoked token has no session in memory or in its table. -/
theorem UserState.Held.final (h : s.Held env) : s.Final env := by
  intro i hi hrevoked now claims
  refine ⟨fun hvalid => ?_, fun later hvalid => ?_⟩
  · obtain ⟨info, hinfo⟩ := Option.isSome_iff_exists.mp (isSome_of_validateToken hvalid)
    obtain ⟨j, hj, hkey, -, htime⟩ := h.memory _ info hinfo
    obtain ⟨hname, hhash⟩ := h.same j hj i hi hkey
    rw [hname, hhash] at htime
    exact htime.1 hrevoked
  · obtain ⟨info, hinfo⟩ := Option.isSome_iff_exists.mp (isSome_of_validateToken hvalid)
    obtain ⟨j, hj, hkey, -, htime⟩ := h.rows _ info (lookup_unexpired hinfo)
    obtain ⟨hname, hhash⟩ := h.same j hj i hi hkey
    rw [hname, hhash] at htime
    exact htime.1 hrevoked

/-! ## What a section does -/

/-- The call has not swept anything. -/
structure Call.Plain (c : Call) : Prop where
  memory : c.sweptMemory = []
  rows : ∀ key, c.sweptRows key = []

/-- What a section that is in time does to the accounts and the sessions. -/
inductive Effect (env : TokenEnv) (s : UserState) : Call → UserState → Call → Prop
  /-- No account is added or removed, and the sessions stay. -/
  | quiet {c c' : Call} (users : HashMap String User) (usersHeld : Bool)
      (userRows : HashMap String User) (hashes : List (String × String))
      (hrows : ∀ name, (s.userRows.lookup name).isSome = true →
        (userRows.lookup name).isSome = true := by exact fun _ h => h)
      (hplain : c'.Plain := by exact ⟨rfl, fun _ => rfl⟩) :
      Effect env s c { s with users, usersHeld, userRows, hashes } c'
  /-- A registration saves its account. -/
  | save {c c' : Call} (user : User) (hashes : List (String × String)) :
      s.userRows.lookup user.username = none → c'.Plain →
      Effect env s c { s with
        userRows := s.userRows.insert user.username user
        log := .created user.username user.id :: s.log
        hashes } c'
  /-- A deletion removes the account. -/
  | remove {c c' : Call} (username : String) : c'.Plain →
      Effect env s c { s with
        userRows := s.userRows.erase username
        log := .removed username :: s.log } c'
  /-- A token is issued. -/
  | issue {c c' : Call} (i : Issue) :
      s.NotIssued env (env.tokenKey i.token) i.username i.hash → c'.Plain →
      Effect env s c { s with issued := i :: s.issued } c'
  /-- The row of a session is saved. -/
  | row {c c' : Call} (key : String) (info : SessionInfo) (i : Issue) (sessionsHeld : Bool) :
      i ∈ s.issued → env.tokenKey i.token = key → info.username = i.username →
      s.RowInTime key i.username i.hash → c'.Plain →
      Effect env s c { s with
        sessionsHeld, sessionRows := s.sessionRows.insert key info } c'
  /-- A session is stored in memory. -/
  | session {c c' : Call} (sessions : HashMap String SessionInfo) (sessionsHeld : Bool)
      (registered : List (String × String)) (key : String) (info : SessionInfo) (i : Issue) :
      (∀ k x, sessions.lookup k = some x → k = key ∧ x = info ∨ s.sessions.lookup k = some x) →
      i ∈ s.issued → env.tokenKey i.token = key → info.username = i.username →
      s.MemoryInTime i.username i.hash →
      (∀ r ∈ registered, r ∈ s.registered ∨ AccountEvent.created r.1 r.2 ∈ s.log) → c'.Plain →
      Effect env s c { s with sessions, sessionsHeld, registered } c'
  /-- A session is dropped from memory or from the table. -/
  | drop {c c' : Call} (sessions sessionRows : HashMap String SessionInfo) :
      (∀ k x, sessions.lookup k = some x → s.sessions.lookup k = some x) →
      (∀ k x, sessionRows.lookup k = some x → s.sessionRows.lookup k = some x) → c'.Plain →
      Effect env s c { s with sessions, sessionRows } c'
  /-- A revocation has swept the memory. -/
  | swept {c : Call} (username : String) (replaced : List String)
      (sessions : HashMap String SessionInfo) :
      (∀ k x, sessions.lookup k = some x → s.sessions.lookup k = some x ∧ x.username ≠ username) →
      Effect env s c { s with sessions } (.revoke username replaced .read)
  /-- A revocation has found rows to delete. -/
  | found (username : String) (replaced keys : List String) :
      (∀ k x, s.sessionRows.lookup k = some x → x.username = username → k ∈ keys) →
      Effect env s (.revoke username replaced .read) s (.revoke username replaced (.delete keys))
  /-- A revocation has returned. -/
  | finished {c : Call} (username : String) (replaced : List String)
      (sessionRows : HashMap String SessionInfo) :
      c.sweptMemory = replaced.map (fun hash => (username, hash)) →
      (∀ k x, sessionRows.lookup k = some x → s.sessionRows.lookup k = some x ∧
        (x.username ≠ username ∨ ∀ hash ∈ replaced, (username, hash) ∈ c.sweptRows k)) →
      Effect env s c { s.revokeReturned username replaced with sessionRows } .returned

theorem isSome_lookup_insert {users : HashMap String User} {name : String} (username : String)
    (user : User) (h : (users.lookup name).isSome = true) :
    ((users.insert username user).lookup name).isSome = true := by
  by_cases hname : name = username
  · rw [hname, AList.lookup_insert]
    rfl
  · rwa [AList.lookup_insert_ne hname]

variable {sessions : HashMap String SessionInfo}

theorem lookup_removeAll_sessionsOf {username key : String} {info : SessionInfo}
    (h : (HashMap.removeAll sessions (sessionsOf sessions username)).lookup key = some info) :
    sessions.lookup key = some info ∧ info.username ≠ username := by
  rw [HashMap.lookup_removeAll] at h
  split at h
  · cases h
  · rename_i hnot
    exact ⟨h, fun hname => hnot (mem_sessionsOf h hname)⟩

theorem lookup_erase_some {key k : String}
    {info : SessionInfo} (h : (sessions.erase key).lookup k = some info) :
    sessions.lookup k = some info := by
  by_cases hk : k = key
  · rw [hk, AList.lookup_erase] at h
    cases h
  · rwa [AList.lookup_erase_ne hk] at h

theorem lookup_insert_cases {key k : String}
    {info x : SessionInfo} (h : (sessions.insert key info).lookup k = some x) :
    k = key ∧ x = info ∨ sessions.lookup k = some x := by
  by_cases hk : k = key
  · rw [hk, AList.lookup_insert] at h
    exact Or.inl ⟨hk, (Option.some.inj h).symm⟩
  · rw [AList.lookup_insert_ne hk] at h
    exact Or.inr h

/-- Everything a section can do, if it is in time.  A call that goes on has issued what it goes on
with. -/
theorem effect_of_run {inp : Inputs} {c c' : Call} (hG : c.InTime env s inp)
    (hc : c.Issued env s) (h : c.run env s inp = some (s', c')) :
    Effect env s c s' c' ∧ c'.Issued env s' := by
  have hquiet {c c' : Call} (hplain : c'.Plain := by exact ⟨rfl, fun _ => rfl⟩) :
      Effect env s c s c' := .quiet s.users s.usersHeld s.userRows s.hashes (fun _ h => h) hplain
  cases c with
  | registerCheck username password role =>
    simp only [Call.run] at h
    split at h
    · cases h
      exact ⟨hquiet, trivial⟩
    split at h
    · cases h
      exact ⟨hquiet, trivial⟩
    split at h
    · cases h
    split at h
    · cases h
      exact ⟨hquiet, trivial⟩
    split at h
    all_goals
      cases h
      exact ⟨hquiet, trivial⟩
  | registerSave user =>
    cases h
    exact ⟨.save user _ hG ⟨rfl, fun _ => rfl⟩, mem_cons_self⟩
  | registerInsert user =>
    simp only [Call.run] at h
    split at h
    · cases h
    · cases h
      exact ⟨.quiet _ s.usersHeld s.userRows s.hashes, hc⟩
  | registerToken user =>
    cases h
    exact ⟨.issue _ hG ⟨rfl, fun _ => rfl⟩, hc, _, rfl, rfl, mem_cons_self⟩
  | registerRow user key info =>
    cases h
    refine ⟨?_, hc⟩
    obtain ⟨-, token, hkey, hname, hissued⟩ := hc
    exact .row key info _ s.sessionsHeld hissued hkey hname hG ⟨rfl, fun _ => rfl⟩
  | registerSession user key info =>
    simp only [Call.run] at h
    split at h
    · cases h
    · cases h
      obtain ⟨hcreated, token, hkey, hname, hissued⟩ := hc
      refine ⟨.session _ s.sessionsHeld _ key info _ (fun _ _ => lookup_insert_cases) hissued
        hkey hname hG ?_ ⟨rfl, fun _ => rfl⟩, trivial⟩
      intro r hr
      rcases mem_cons.mp hr with rfl | hr
      · exact Or.inr hcreated
      · exact Or.inl hr
  | loginVerify username password =>
    simp only [Call.run] at h
    split at h
    · cases h
    split at h
    · cases h
      exact ⟨hquiet, trivial⟩
    split at h
    · cases h
      exact ⟨hquiet, trivial⟩
    split at h
    · cases h
      exact ⟨hquiet, trivial⟩
    split at h
    · split at h
      all_goals
        cases h
        exact ⟨hquiet, trivial⟩
    · cases h
      exact ⟨hquiet, trivial⟩
  | loginRescue v | loginTouch v =>
    simp only [Call.run] at h
    split at h
    · cases h
    · cases h
      exact ⟨.quiet _ s.usersHeld s.userRows s.hashes, trivial⟩
  | loginToken v =>
    simp only [Call.run] at h
    split at h
    · cases h
    split at h
    · cases h
      exact ⟨hquiet, trivial⟩
    · rename_i user huser
      cases h
      exact ⟨.issue _ (hG user huser) ⟨rfl, fun _ => rfl⟩, _, rfl, mem_cons_self⟩
  | loginRow v key =>
    simp only [Call.run] at h
    split at h
    · cases h
    · cases h
      obtain ⟨token, hkey, hissued⟩ := hc
      exact ⟨.row key _ _ true hissued hkey rfl hG ⟨rfl, fun _ => rfl⟩, token, hkey, rfl, hissued⟩
  | loginSession v key info =>
    cases h
    obtain ⟨token, hkey, hname, hissued⟩ := hc
    exact ⟨.session _ false s.registered key info _
      (fun _ _ hlookup => lookup_insert_cases (lookup_unexpired hlookup)) hissued hkey hname hG
      (fun _ hr => Or.inl hr) ⟨rfl, fun _ => rfl⟩, trivial⟩
  | logoutRow key =>
    cases h
    exact ⟨.drop s.sessions _ (fun _ _ h => h) (fun _ _ => lookup_erase_some)
      ⟨rfl, fun _ => rfl⟩, trivial⟩
  | logoutSession key =>
    simp only [Call.run] at h
    split at h
    · cases h
    · cases h
      exact ⟨.drop _ s.sessionRows (fun _ _ => lookup_erase_some) (fun _ _ h => h)
        ⟨rfl, fun _ => rfl⟩, trivial⟩
  | changeVerify username oldPassword newPassword =>
    simp only [Call.run] at h
    split at h
    · cases h
      exact ⟨hquiet, trivial⟩
    split at h
    · cases h
    split at h
    · cases h
      exact ⟨hquiet, trivial⟩
    split at h
    · split at h
      · cases h
        exact ⟨hquiet, trivial⟩
      · cases h
        exact ⟨.quiet s.users true s.userRows s.hashes, trivial⟩
    · cases h
      exact ⟨hquiet, trivial⟩
  | changeSave user =>
    cases h
    exact ⟨.quiet s.users s.usersHeld _ _ fun _ => isSome_lookup_insert _ _, trivial⟩
  | changeApply user replaced =>
    cases h
    exact ⟨.quiet _ false s.userRows s.hashes, trivial⟩
  | deleteCheck username =>
    simp only [Call.run] at h
    split at h
    · cases h
    split at h
    · cases h
      exact ⟨.quiet s.users true s.userRows s.hashes, trivial⟩
    · cases h
      exact ⟨hquiet, trivial⟩
  | deleteRow username =>
    cases h
    exact ⟨.remove username ⟨rfl, fun _ => rfl⟩, trivial⟩
  | deleteApply username replaced =>
    cases h
    exact ⟨.quiet _ false s.userRows s.hashes, trivial⟩
  | revoke username replaced stage =>
    cases stage with
    | keys =>
      simp only [Call.run] at h
      split at h
      · cases h
      split at h
      · rename_i hempty
        cases h
        refine ⟨.swept username replaced s.sessions ?_, trivial⟩
        intro k x hlookup
        refine ⟨hlookup, fun hname => ?_⟩
        have hmem := mem_sessionsOf hlookup hname
        rw [hempty] at hmem
        exact not_mem_nil hmem
      · cases h
        exact ⟨hquiet, trivial⟩
    | retain =>
      simp only [Call.run] at h
      split at h
      · cases h
      · cases h
        exact ⟨.swept username replaced _ fun _ _ => lookup_removeAll_sessionsOf, trivial⟩
    | read =>
      simp only [Call.run] at h
      split at h
      · rename_i hempty
        cases h
        refine ⟨.finished username replaced s.sessionRows rfl ?_, trivial⟩
        intro k x hlookup
        refine ⟨hlookup, Or.inl fun hname => ?_⟩
        have hmem := mem_sessionsOf hlookup hname
        rw [hempty] at hmem
        exact not_mem_nil hmem
      · rename_i key keys hkeys
        cases h
        refine ⟨.found username replaced (key :: keys) ?_, trivial⟩
        intro k x hlookup hname
        rw [← hkeys]
        exact mem_sessionsOf hlookup hname
    | delete keys =>
      cases h
      refine ⟨.finished username replaced _ rfl ?_, trivial⟩
      intro k x hlookup
      rw [HashMap.lookup_removeAll] at hlookup
      split at hlookup
      · cases hlookup
      · rename_i hk
        refine ⟨hlookup, Or.inr fun hash hhash => ?_⟩
        show (username, hash) ∈ if k ∈ keys then [] else _
        rw [if_neg hk]
        exact mem_map_of_mem hhash
  | failed e | returned => cases h

/-! ## Every run -/

theorem Call.Issued.mono {c : Call} (h : c.Issued env s) (hlog : ∀ e ∈ s.log, e ∈ s'.log)
    (hissued : ∀ i ∈ s.issued, i ∈ s'.issued) : c.Issued env s' := by
  cases c with
  | registerInsert user | registerToken user => exact hlog _ h
  | registerRow user key info | registerSession user key info =>
    obtain ⟨hcreated, token, hkey, hname, hmem⟩ := h
    exact ⟨hlog _ hcreated, token, hkey, hname, hissued _ hmem⟩
  | loginRow v key =>
    obtain ⟨token, hkey, hmem⟩ := h
    exact ⟨token, hkey, hissued _ hmem⟩
  | loginSession v key info =>
    obtain ⟨token, hkey, hname, hmem⟩ := h
    exact ⟨token, hkey, hname, hissued _ hmem⟩
  | _ => trivial

theorem UserState.MemoryInTime.set {i : ℕ} {c' : Call} {username hash : String}
    (h : s.MemoryInTime username hash) (hrevoked : s'.revoked = s.revoked)
    (hcalls : s'.calls = s.calls.set i c') (hc' : (username, hash) ∉ c'.sweptMemory) :
    s'.MemoryInTime username hash := by
  refine ⟨hrevoked ▸ h.1, ?_⟩
  rw [hcalls]
  exact Calls.forall_mem_set h.2 hc'

theorem UserState.RowInTime.set {i : ℕ} {c' : Call} {key username hash : String}
    (h : s.RowInTime key username hash) (hrevoked : s'.revoked = s.revoked)
    (hcalls : s'.calls = s.calls.set i c') (hc' : (username, hash) ∉ c'.sweptRows key) :
    s'.RowInTime key username hash := by
  refine ⟨hrevoked ▸ h.1, ?_⟩
  rw [hcalls]
  exact Calls.forall_mem_set h.2 hc'

theorem UserState.Owned.mono {key username : String} {P Q : Issue → Prop}
    (h : s.Owned env key username P) (hissued : ∀ i ∈ s.issued, i ∈ s'.issued)
    (hPQ : ∀ i ∈ s.issued, username = i.username → P i → Q i) : s'.Owned env key username Q := by
  obtain ⟨i, hi, hkey, hname, hP⟩ := h
  exact ⟨i, hissued i hi, hkey, hname, hPQ i hi hname hP⟩

/-- A call that has swept nothing leaves the sessions in time. -/
theorem UserState.Held.of_plain {i : ℕ} {c' : Call} (h : s.Held env) (s' : UserState)
    (hc' : c'.Plain) (hcalls : s'.calls = s.calls.set i c') (hrevoked : s'.revoked = s.revoked)
    (hissued : ∀ j ∈ s.issued, j ∈ s'.issued) :
    (∀ key info, s.sessions.lookup key = some info →
      s'.Owned env key info.username fun i => s'.MemoryInTime i.username i.hash) ∧
    ∀ key info, s.sessionRows.lookup key = some info →
      s'.Owned env key info.username fun i => s'.RowInTime key i.username i.hash := by
  refine ⟨fun key info hinfo => ?_, fun key info hinfo => ?_⟩
  · refine (h.memory key info hinfo).mono hissued fun i _ _ htime => ?_
    refine htime.set hrevoked hcalls ?_
    rw [hc'.memory]
    exact not_mem_nil
  · refine (h.rows key info hinfo).mono hissued fun i _ _ htime => ?_
    refine htime.set hrevoked hcalls ?_
    rw [hc'.rows]
    exact not_mem_nil

/-- A registration that saves its account finds that the accounts before it were removed. -/
theorem UserState.Alternating.save {user : User} (h : s.Alternating) (hlogged : s.Logged)
    (hnone : s.userRows.lookup user.username = none)
    (hlog : s'.log = .created user.username user.id :: s.log) : s'.Alternating := by
  intro post mid pre username id id' hsplit
  rw [hlog] at hsplit
  cases post with
  | nil =>
    obtain ⟨hhead, htail⟩ := cons.inj hsplit
    obtain ⟨rfl, -⟩ := AccountEvent.created.inj hhead
    by_contra hnot
    have hsome := hlogged mid pre _ id htail hnot
    rw [hnone] at hsome
    cases hsome
  | cons e post => exact h post mid pre username id id' (cons.inj hsplit).2

theorem UserState.Logged.save {user : User} (h : s.Logged)
    (hrows : s'.userRows = s.userRows.insert user.username user)
    (hlog : s'.log = .created user.username user.id :: s.log) : s'.Logged := by
  intro post pre username id hsplit hnot
  rw [hlog] at hsplit
  rw [hrows]
  cases post with
  | nil =>
    obtain ⟨hhead, -⟩ := cons.inj hsplit
    obtain ⟨rfl, -⟩ := AccountEvent.created.inj hhead
    rw [AList.lookup_insert]
    rfl
  | cons e post =>
    exact isSome_lookup_insert _ _ (h post pre username id (cons.inj hsplit).2
      fun hmem => hnot (mem_cons_of_mem _ hmem))

theorem UserState.Alternating.remove {username : String} (h : s.Alternating)
    (hlog : s'.log = .removed username :: s.log) : s'.Alternating := by
  intro post mid pre username id id' hsplit
  rw [hlog] at hsplit
  cases post with
  | nil => cases (cons.inj hsplit).1
  | cons e post => exact h post mid pre username id id' (cons.inj hsplit).2

theorem UserState.Logged.remove {username : String} (h : s.Logged)
    (hrows : s'.userRows = s.userRows.erase username)
    (hlog : s'.log = .removed username :: s.log) : s'.Logged := by
  intro post pre name id hsplit hnot
  rw [hlog] at hsplit
  rw [hrows]
  cases post with
  | nil => cases (cons.inj hsplit).1
  | cons e post =>
    obtain ⟨rfl, htail⟩ := cons.inj hsplit
    have hne : name ≠ username := by
      rintro rfl
      exact hnot mem_cons_self
    rw [AList.lookup_erase_ne hne]
    exact h post pre name id htail fun hmem => hnot (mem_cons_of_mem _ hmem)

/-- The effect of a section keeps what holds, when its call goes on. -/
theorem UserState.Held.effect {i : ℕ} {c c' : Call} {s₁ : UserState} (h : s.Held env)
    (hi : s.calls[i]? = some c) (heffect : Effect env s c s₁ c') (hc' : c'.Issued env s₁)
    (hs' : s' = { s₁ with calls := s.calls.set i c' }) : s'.Held env := by
  have hcalls : (∀ e ∈ s.log, e ∈ s'.log) → (∀ j ∈ s.issued, j ∈ s'.issued) →
      ∀ d ∈ s'.calls, d.Issued env s' := by
    intro hlog hissued d hd
    have hd' : d ∈ s.calls.set i c' := by
      rw [hs'] at hd
      exact hd
    rcases mem_or_eq_of_mem_set hd' with hd | rfl
    · exact (h.calls d hd).mono hlog hissued
    · refine hc'.mono ?_ ?_
      · rw [hs']
        exact fun _ he => he
      · rw [hs']
        exact fun _ hj => hj
  cases heffect with
  | quiet users usersHeld userRows hashes hrows hplain =>
    subst hs'
    obtain ⟨hmemory, hsessionRows⟩ := h.of_plain { s with
      users, usersHeld, userRows, hashes, calls := s.calls.set i c' } hplain rfl rfl fun _ hj => hj
    exact ⟨hcalls (fun _ he => he) fun _ hj => hj, h.registered, h.alternating,
      fun post pre username id hlog hnot => hrows _ (h.logged post pre username id hlog hnot),
      h.same, hmemory, hsessionRows⟩
  | save user hashes hnone hplain =>
    subst hs'
    obtain ⟨hmemory, hrows⟩ := h.of_plain { s with
      userRows := s.userRows.insert user.username user
      log := .created user.username user.id :: s.log
      hashes, calls := s.calls.set i c' } hplain rfl rfl fun _ hj => hj
    exact ⟨hcalls (fun _ he => mem_cons_of_mem _ he) fun _ hj => hj,
      fun r hr => mem_cons_of_mem _ (h.registered r hr),
      h.alternating.save h.logged hnone rfl, h.logged.save rfl rfl, h.same, hmemory, hrows⟩
  | remove username hplain =>
    subst hs'
    obtain ⟨hmemory, hrows⟩ := h.of_plain { s with
      userRows := s.userRows.erase username
      log := .removed username :: s.log, calls := s.calls.set i c' } hplain rfl rfl fun _ hj => hj
    exact ⟨hcalls (fun _ he => mem_cons_of_mem _ he) fun _ hj => hj,
      fun r hr => mem_cons_of_mem _ (h.registered r hr),
      h.alternating.remove rfl, h.logged.remove rfl rfl, h.same, hmemory, hrows⟩
  | issue j hnot hplain =>
    subst hs'
    obtain ⟨hmemory, hrows⟩ := h.of_plain { s with
      issued := j :: s.issued, calls := s.calls.set i c' } hplain rfl rfl
      fun _ hk => mem_cons_of_mem _ hk
    refine ⟨hcalls (fun _ he => he) fun _ hk => mem_cons_of_mem _ hk, h.registered,
      h.alternating, h.logged, ?_, hmemory, hrows⟩
    intro a ha b hb hkey
    rcases mem_cons.mp ha with rfl | ha'
    · rcases mem_cons.mp hb with rfl | hb'
      · exact ⟨rfl, rfl⟩
      · obtain ⟨hname, hhash⟩ := hnot b hb' hkey.symm
        exact ⟨hname.symm, hhash.symm⟩
    · rcases mem_cons.mp hb with rfl | hb'
      · exact hnot a ha' hkey
      · exact h.same a ha' b hb' hkey
  | row key info j sessionsHeld hj hkey hname htime hplain =>
    subst hs'
    obtain ⟨hmemory, hrows⟩ := h.of_plain { s with
      sessionsHeld, sessionRows := s.sessionRows.insert key info
      calls := s.calls.set i c' } hplain rfl rfl fun _ hj => hj
    refine ⟨hcalls (fun _ he => he) fun _ hj => hj, h.registered, h.alternating, h.logged, h.same,
      hmemory, ?_⟩
    intro k x hx
    rcases lookup_insert_cases hx with ⟨rfl, rfl⟩ | hx
    · refine ⟨j, hj, hkey, hname, htime.set rfl rfl ?_⟩
      rw [hplain.rows]
      exact not_mem_nil
    · exact hrows k x hx
  | session sessions sessionsHeld registered key info j hlookup hj hkey hname htime hreg hplain =>
    subst hs'
    obtain ⟨hmemory, hrows⟩ := h.of_plain { s with
      sessions, sessionsHeld, registered, calls := s.calls.set i c' } hplain rfl rfl
      fun _ hj => hj
    refine ⟨hcalls (fun _ he => he) fun _ hj => hj, ?_, h.alternating, h.logged, h.same, ?_, hrows⟩
    · intro r hr
      rcases hreg r hr with hr | hr
      · exact h.registered r hr
      · exact hr
    · intro k x hx
      rcases hlookup k x hx with ⟨rfl, rfl⟩ | hx
      · refine ⟨j, hj, hkey, hname, htime.set rfl rfl ?_⟩
        rw [hplain.memory]
        exact not_mem_nil
      · exact hmemory k x hx
  | drop sessions sessionRows hsessions hsessionRows hplain =>
    subst hs'
    obtain ⟨hmemory, hrows⟩ := h.of_plain { s with
      sessions, sessionRows, calls := s.calls.set i c' } hplain rfl rfl fun _ hj => hj
    exact ⟨hcalls (fun _ he => he) fun _ hj => hj, h.registered, h.alternating, h.logged, h.same,
      fun k x hx => hmemory k x (hsessions k x hx), fun k x hx => hrows k x (hsessionRows k x hx)⟩
  | swept username replaced sessions hsessions =>
    subst hs'
    refine ⟨hcalls (fun _ he => he) fun _ hj => hj, h.registered, h.alternating, h.logged, h.same,
      ?_, ?_⟩
    · -- The sessions that are left are of other users.
      intro k x hx
      obtain ⟨hlookup, hne⟩ := hsessions k x hx
      refine (h.memory k x hlookup).mono (fun _ hj => hj) fun j _ hname htime => ?_
      refine htime.set rfl rfl fun hmem => hne ?_
      obtain ⟨hash, -, heq⟩ := mem_map.mp hmem
      exact hname.trans (Prod.mk.inj heq).1.symm
    · intro k x hx
      exact (h.rows k x hx).mono (fun _ hj => hj) fun j _ _ htime =>
        htime.set rfl rfl not_mem_nil
  | found username replaced keys hkeys =>
    subst hs'
    refine ⟨hcalls (fun _ he => he) fun _ hj => hj, h.registered, h.alternating, h.logged, h.same,
      ?_, ?_⟩
    · intro k x hx
      exact (h.memory k x hx).mono (fun _ hj => hj) fun j _ _ htime =>
        htime.set rfl rfl (htime.2 (.revoke username replaced .read) (mem_of_getElem? hi))
    · -- The rows of the user were all found.
      intro k x hx
      refine (h.rows k x hx).mono (fun _ hj => hj) fun j _ hname htime => ?_
      refine htime.set rfl rfl fun hmem => ?_
      have hmem' : (j.username, j.hash) ∈
          if k ∈ keys then [] else replaced.map fun hash => (username, hash) := hmem
      split at hmem'
      · cases hmem'
      · rename_i hk
        obtain ⟨hash, -, heq⟩ := mem_map.mp hmem'
        exact hk (hkeys k x hx (hname.trans (Prod.mk.inj heq).1.symm))
  | finished username replaced sessionRows hswept hrows =>
    subst hs'
    have hc := mem_of_getElem? hi
    refine ⟨hcalls (fun _ he => he) fun _ hj => hj, h.registered, h.alternating, h.logged, h.same,
      ?_, ?_⟩
    · intro k x hx
      refine (h.memory k x hx).mono (fun _ hj => hj) fun j _ _ htime => ?_
      refine ⟨fun hmem => ?_, Calls.forall_mem_set htime.2 not_mem_nil⟩
      rcases mem_append.mp hmem with hmem | hmem
      · rw [← hswept] at hmem
        exact htime.2 c hc hmem
      · exact htime.1 hmem
    · intro k x hx
      obtain ⟨hlookup, hgone⟩ := hrows k x hx
      refine (h.rows k x hlookup).mono (fun _ hj => hj) fun j _ hname htime => ?_
      refine ⟨fun hmem => ?_, Calls.forall_mem_set htime.2 not_mem_nil⟩
      rcases mem_append.mp hmem with hmem | hmem
      · obtain ⟨hash, hhash, heq⟩ := mem_map.mp hmem
        rcases hgone with hne | hgone
        · exact hne (hname.trans (Prod.mk.inj heq).1.symm)
        · exact htime.2 c hc (heq ▸ hgone hash hhash)
      · exact htime.1 hmem

/-- A call that is made has issued nothing and swept nothing. -/
theorem issued_call (r : Request) : (r.call env).Issued env s ∧ (r.call env).Plain := by
  cases r with
  | register username password role | login username password | logout token
  | changePassword username oldPassword newPassword | deleteUser username =>
    exact ⟨trivial, rfl, fun _ => rfl⟩

/-- Every step that is in time keeps what holds. -/
theorem UserState.Held.step {a : UserAction} (h : s.Held env) (hG : UserTimely env s a)
    (hs : s.step env a = some s') : s'.Held env := by
  cases a with
  | request r =>
    cases hs
    obtain ⟨hissued, hplain⟩ := @issued_call env s r
    refine ⟨?_, h.registered, h.alternating, h.logged, h.same, ?_, ?_⟩
    · intro c hc
      rcases mem_append.mp hc with hc | hc
      · exact (h.calls c hc).mono (fun _ he => he) fun _ hj => hj
      · rw [mem_singleton.mp hc]
        exact hissued.mono (fun _ he => he) fun _ hj => hj
    · intro k x hx
      refine (h.memory k x hx).mono (fun _ hj => hj) fun j _ _ htime => ⟨htime.1, fun d hd => ?_⟩
      rcases mem_append.mp hd with hd | hd
      · exact htime.2 d hd
      · rw [mem_singleton.mp hd, hplain.memory]
        exact not_mem_nil
    · intro k x hx
      refine (h.rows k x hx).mono (fun _ hj => hj) fun j _ _ htime => ⟨htime.1, fun d hd => ?_⟩
      rcases mem_append.mp hd with hd | hd
      · exact htime.2 d hd
      · rw [mem_singleton.mp hd, hplain.rows]
        exact not_mem_nil
  | run i inp =>
    simp only [UserState.step] at hs
    split at hs
    · rename_i c hi
      obtain ⟨⟨s₁, c'⟩, hrun, hs'⟩ := Option.map_eq_some_iff.mp hs
      obtain ⟨heffect, hc'⟩ := effect_of_run (hG c hi) (h.calls c (mem_of_getElem? hi)) hrun
      exact h.effect hi heffect hc' hs'.symm
    · cases hs
  | restart now =>
    cases hs
    refine ⟨fun c hc => absurd hc not_mem_nil, h.registered, h.alternating, h.logged, h.same,
      ?_, ?_⟩
    · -- The rows are what the memory has after a restart, and no revocation is in progress.
      intro k x hx
      exact (h.rows k x (lookup_unexpired hx)).mono (fun _ hj => hj) fun j _ _ htime =>
        ⟨htime.1, fun d hd => absurd hd not_mem_nil⟩
    · intro k x hx
      exact (h.rows k x (lookup_unexpired hx)).mono (fun _ hj => hj) fun j _ _ htime =>
        ⟨htime.1, fun d hd => absurd hd not_mem_nil⟩

theorem UserState.held_start (userRows : HashMap String User) : (start userRows).Held env where
  calls := fun c hc => absurd hc not_mem_nil
  registered := fun r hr => absurd hr not_mem_nil
  alternating := fun post mid pre username id id' hlog => by
    cases post with
    | nil | cons e post => cases hlog
  logged := fun post pre username id hlog _ => by
    cases post with
    | nil | cons e post => cases hlog
  same := fun i hi => absurd hi not_mem_nil
  memory := fun key info hinfo => nomatch hinfo
  rows := fun key info hinfo => nomatch hinfo

/-- In a run whose steps are all in time, accounts are unique and revocations final. -/
theorem final_of_timely {userRows : HashMap String User} {tr : List (UserState × UserAction)}
    (hrun : Run (UserState.step env) (.start userRows) tr s)
    (hG : Within (UserTimely env) tr) : s.Unique ∧ s.Final env := by
  have h := hrun.invariant hG (UserState.held_start userRows) fun _ _ _ h hGa hs => h.step hGa hs
  exact ⟨h.unique, h.final⟩

/-! ## A leaked password -/

/-- The hashes of the first and of the second password. -/
def firstHash : String := "$2b$12$R9h/cIPz0gi.URNNX3kh2OPST9/PgBkqquzi.Ss7KIUgO2t0jWMUW"

def secondHash : String := "$2b$12$EixZaYVK1fsbw1ZfbX3OXePaWxn96p36WQoeG6Lruj3vjPGga31lW"

/-- The payloads of the tokens of 0, 10 and 30 seconds. -/
def payload0 : String :=
  "eyJzdWIiOiJ1LTEiLCJ1c2VybmFtZSI6ImFsaWNlIiwicm9sZSI6ImFkbWluIiwiaWF0Ij" ++
  "oxNzAwMDAwMDAwLCJleHAiOjE3MDA2MDQ4MDB9"

def payload10 : String :=
  "eyJzdWIiOiJ1LTEiLCJ1c2VybmFtZSI6ImFsaWNlIiwicm9sZSI6ImFkbWluIiwiaWF0Ij" ++
  "oxNzAwMDAwMDEwLCJleHAiOjE3MDA2MDQ4MTB9"

def payload30 : String :=
  "eyJzdWIiOiJ1LTEiLCJ1c2VybmFtZSI6ImFsaWNlIiwicm9sZSI6ImFkbWluIiwiaWF0Ij" ++
  "oxNzAwMDAwMDMwLCJleHAiOjE3MDA2MDQ4MzB9"

/-- The header of every token. -/
def header : String := "eyJhbGciOiJIUzI1NiIsInR5cCI6IkpXVCJ9"

/-- The tokens of these three seconds as the server signs and hashes them. -/
def signed : TokenEnv where
  bcryptVerify password hash :=
    (password, hash) ∈ [("secret1", firstHash), ("secret2", secondHash)]
  hashPasswordLegacy _ := ""
  encodePayload info :=
    if info.createdAt = 1700000000 then payload0
    else if info.createdAt = 1700000010 then payload10
    else payload30
  decodePayload payload :=
    if payload = payload0 then .ok ⟨"u-1", "alice", .admin, 1700000000, 1700604800⟩
    else if payload = payload10 then .ok ⟨"u-1", "alice", .admin, 1700000010, 1700604810⟩
    else if payload = payload30 then .ok ⟨"u-1", "alice", .admin, 1700000030, 1700604830⟩
    else .error "Invalid payload encoding"
  sign data :=
    if data = header ++ "." ++ payload0 then
      "2f8zRkDDqrRC-J9NLuf2JKDCPQpKzj2Jg-GJNz9oJyQ"
    else if data = header ++ "." ++ payload10 then
      "jVO8jTO6y8B67G9eBlGtfGAacMa01m_daJRu3WhuXy0"
    else "l2AS_1ALLe0rz2j-We-fqMKBJleSnHDgFP_aWjhVAUo"
  tokenKey token :=
    if token = header ++ "." ++ payload0 ++ "." ++
        "2f8zRkDDqrRC-J9NLuf2JKDCPQpKzj2Jg-GJNz9oJyQ" then
      "e0a3bd11328288e160612de4de91ddef82310f9df3ac541034bfa0e3d8e6cfb7"
    else if token = header ++ "." ++ payload10 ++ "." ++
        "jVO8jTO6y8B67G9eBlGtfGAacMa01m_daJRu3WhuXy0" then
      "c86f05330eaf114c651bccbfacd3d804a49e75af6538ad4f6039e6821905e8b0"
    else "70ccb30db280decf130d50fe9775e8c2d476d4be2cc440cb02a3c7442aed633b"

instance (s : UserState) (username hash : String) : Decidable (s.MemoryInTime username hash) :=
  inferInstanceAs (Decidable (_ ∧ _))

instance (s : UserState) (key username hash : String) :
    Decidable (s.RowInTime key username hash) :=
  inferInstanceAs (Decidable (_ ∧ _))

instance (s : UserState) (key username hash : String) :
    Decidable (s.NotIssued env key username hash) :=
  inferInstanceAs (Decidable (∀ i ∈ s.issued, _))

instance Call.decidableInTime (s : UserState) (inp : Inputs) (c : Call) :
    Decidable (c.InTime env s inp) := by
  unfold Call.InTime
  split
  all_goals infer_instance

instance (s : UserState) (a : UserAction) : Decidable (UserTimely env s a) := by
  unfold UserTimely
  split
  · infer_instance
  · infer_instance

/-- Sections of a call at some second, with the id and the hash that they are given. -/
def sectionsOf (i n : ℕ) (now : ℤ) (id hash : String) : List UserAction :=
  List.replicate n (.run i ⟨now, id, .ok hash⟩)

/-- The password is changed while nobody logs in, and then used. -/
def changed : List UserAction :=
  [.request (.register "alice" "secret1" .admin)] ++ sectionsOf 0 6 1700000000 "u-1" firstHash ++
  [.request (.login "alice" "secret1")] ++ sectionsOf 1 5 1700000010 "u-1" firstHash ++
  [.request (.changePassword "alice" "secret1" "secret2")] ++
  sectionsOf 2 7 1700000020 "u-1" secondHash ++
  [.request (.login "alice" "secret2")] ++ sectionsOf 3 5 1700000030 "u-1" secondHash

/-- The run is in time, and the tokens of the first password are not valid any more. -/
theorem final_of_timely_changed : ∃ s : UserState, (s.Unique ∧ s.Final signed) ∧
    (∀ c ∈ s.calls, c = .returned) ∧ s.revoked = [("alice", firstHash)] ∧
    s.issued.map Issue.hash = [secondHash, firstHash, firstHash] ∧ s.sessions.keys.length = 1 := by
  obtain ⟨tr, s, hrun, htimely, hrest⟩ := exists_run (UserState.step signed) (.start ∅) changed
    (fun tr s => Within (UserTimely signed) tr ∧ (∀ c ∈ s.calls, c = .returned) ∧
      s.revoked = [("alice", firstHash)] ∧
      s.issued.map Issue.hash = [secondHash, firstHash, firstHash] ∧
      s.sessions.keys.length = 1) (by decide +kernel)
  exact ⟨s, final_of_timely hrun htimely, hrest⟩

/-- Two registrations of one name look for it before either has saved its account. -/
def registeredTwice : List UserAction :=
  [.request (.register "alice" "secret1" .admin), .request (.register "alice" "secret2" .admin)] ++
  sectionsOf 0 1 1700000000 "u-1" firstHash ++ sectionsOf 1 1 1700000000 "u-2" secondHash ++
  sectionsOf 0 5 1700000010 "u-1" firstHash ++ sectionsOf 1 5 1700000030 "u-2" secondHash

/-- A login is overtaken by a change of the password that it has verified. -/
def overtaken : List UserAction :=
  [.request (.register "alice" "secret1" .admin)] ++ sectionsOf 0 6 1700000000 "u-1" firstHash ++
  [.request (.login "alice" "secret1")] ++ sectionsOf 1 1 1700000010 "u-1" firstHash ++
  [.request (.changePassword "alice" "secret1" "secret2")] ++
  sectionsOf 2 7 1700000010 "u-1" secondHash ++ sectionsOf 1 4 1700000010 "u-1" firstHash

/-- Two registrations of a name return although nobody has deleted it, and the token of the login is
valid after the change of the password has returned. -/
theorem registered_twice_and_overtaken :
    (¬ ∀ (tr : List (UserState × UserAction)) (s : UserState),
      Run (UserState.step signed) (.start ∅) tr s → s.Unique) ∧
    ¬ ∀ (tr : List (UserState × UserAction)) (s : UserState),
      Run (UserState.step signed) (.start ∅) tr s → s.Final signed := by
  constructor
  · intro hall
    obtain ⟨tr, s, hrun, hfirst, hsecond, hnot⟩ := exists_run (UserState.step signed) (.start ∅)
      registeredTwice (fun tr s => ("alice", "u-1") ∈ s.registered ∧
        ("alice", "u-2") ∈ s.registered ∧ .removed "alice" ∉ s.log) (by decide)
    apply hnot
    rcases hall tr s hrun "alice" "u-1" "u-2" hfirst hsecond (by decide) with
      ⟨post, mid, pre, hlog, hmem⟩ | ⟨post, mid, pre, hlog, hmem⟩
    · rw [hlog]
      simp [hmem]
    · rw [hlog]
      simp [hmem]
  · intro hall
    obtain ⟨tr, s, hrun, i, hi, hrevoked, hok⟩ := exists_run (UserState.step signed) (.start ∅)
      overtaken (fun tr s => ∃ i ∈ s.issued, (i.username, i.hash) ∈ s.revoked ∧
        (validateToken signed s.sessions i.token 1700000040).isOk = true) (by decide +kernel)
    cases hvalid : validateToken signed s.sessions i.token 1700000040 with
    | error e =>
      rw [hvalid] at hok
      cases hok
    | ok claims => exact (hall tr s hrun i hi hrevoked 1700000040 claims).1 hvalid

end HeraMind.Auth
