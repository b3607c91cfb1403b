/-
# User accounts

`crates/heramind-api/src/auth_users.rs`: accounts and sessions are kept in memory, each under a lock
of its own, and in two tables of a database.  A token is valid while its session is in memory; the
table brings the sessions back after a restart.

The sections below are what runs without interruption: what is done under a lock that is taken and
given back, and each transaction of the database.
-/
import HeraMind.Lib.Calls
import HeraMind.Lib.KeyedMap
import HeraMind.Lib.Run

namespace HeraMind.Auth

/-! ## Accounts and sessions -/

inductive UserRole where
  | admin
  | user
  | viewer
  deriving DecidableEq

structure User where
  id : String
  username : String
  passwordHash : String
  role : UserRole
  createdAt : ℤ
  lastLogin : Option ℤ
  active : Bool
  deriving DecidableEq

structure SessionInfo where
  userId : String
  username : String
  role : UserRole
  createdAt : ℤ
  expiresAt : ℤ
  deriving DecidableEq

inductive AuthError where
  | invalidCredentials
  | userExists
  | userNotFound
  | userDisabled
  | invalidToken (message : String)
  | expiredToken
  | sessionRevoked
  | invalidInput (message : String)
  deriving DecidableEq

/-- The hash functions and the encodings that the accounts rest on. -/
structure TokenEnv where
  /-- `bcrypt::verify`. -/
  bcryptVerify : String → String → Bool
  hashPasswordLegacy : String → String
  /-- The payload in Base64. -/
  encodePayload : SessionInfo → String
  decodePayload : String → Except String SessionInfo
  /-- The signature of header and payload in Base64. -/
  sign : String → String
  /-- `token_key`. -/
  tokenKey : String → String

def jwtClockSkewSecs : ℤ := 30

/-- `session_duration`. -/
def sessionDuration : ℤ := 7 * 24 * 60 * 60

/-- `verify_password`. -/
def verifyPassword (env : TokenEnv) (password hash : String) : Bool :=
  if "fallback_hash_".isPrefixOf hash then false
  else if "$2".isPrefixOf hash then env.bcryptVerify password hash
  else env.hashPasswordLegacy password == hash

/-- `generate_token`. -/
def generateToken (env : TokenEnv) (user : User) (now : ℤ) : String :=
  let header := "eyJhbGciOiJIUzI1NiIsInR5cCI6IkpXVCJ9"
  let payload := env.encodePayload ⟨user.id, user.username, user.role, now, now + sessionDuration⟩
  header ++ "." ++ payload ++ "." ++ env.sign (header ++ "." ++ payload)

/-- `validate_token`, with the sessions in memory. -/
def validateToken (env : TokenEnv) (sessions : HashMap String SessionInfo) (token : String)
    (now : ℤ) : Except AuthError SessionInfo :=
  match (token.toList.splitOn '.').map String.ofList with
  | [header, payload, signature] =>
    if signature ≠ env.sign (header ++ "." ++ payload) then
      .error (.invalidToken "Invalid signature")
    else
      match env.decodePayload payload with
      | .error message => .error (.invalidToken message)
      | .ok claims =>
        if claims.expiresAt + jwtClockSkewSecs < now then .error .expiredToken
        else if (sessions.lookup (env.tokenKey token)).isSome then .ok claims
        else .error .sessionRevoked
  | _ => .error (.invalidToken "Invalid token format")

variable {sessions : HashMap String SessionInfo}

/-- A token is valid only while its session is in memory. -/
theorem isSome_of_validateToken {env : TokenEnv} {token : String} {now : ℤ} {claims : SessionInfo}
    (h : validateToken env sessions token now = .ok claims) :
    (sessions.lookup (env.tokenKey token)).isSome = true := by
  unfold validateToken at h
  split at h
  · split at h
    · cases h
    · split at h
      · cases h
      · split at h
        · cases h
        · split at h
          · assumption
          · cases h
  · cases h

/-- The sessions that have not expired, as a login keeps them in memory and a restart in the
table. -/
def unexpired (sessions : HashMap String SessionInfo) (now : ℤ) : HashMap String SessionInfo :=
  HashMap.insertAll ∅ sessions fun _ info =>
    if info.expiresAt + jwtClockSkewSecs > now then some info else none

theorem lookup_unexpired {now : ℤ} {key : String}
    {info : SessionInfo} (h : (unexpired sessions now).lookup key = some info) :
    sessions.lookup key = some info := by
  unfold unexpired at h
  rw [HashMap.lookup_insertAll, AList.lookup_empty, Option.or_none, Option.bind_eq_some_iff] at h
  obtain ⟨info', hlookup, hinfo⟩ := h
  split at hinfo
  · cases hinfo
    exact hlookup
  · cases hinfo

/-- The keys of the sessions of a user. -/
def sessionsOf (sessions : HashMap String SessionInfo) (username : String) : List String :=
  sessions.keys.filter fun key => (sessions.lookup key).any fun info => info.username = username

theorem mem_sessionsOf {username key : String}
    {info : SessionInfo} (h : sessions.lookup key = some info) (hname : info.username = username) :
    key ∈ sessionsOf sessions username := by
  refine List.mem_filter.mpr ⟨?_, ?_⟩
  · rw [← AList.mem_keys, ← AList.lookup_isSome, h]
    rfl
  · rw [h]
    exact decide_eq_true hname

/-! ## Calls -/

/-- What a login has verified: the account, and the hash that the password was verified against. -/
structure Verified where
  username : String
  userId : String
  role : UserRole
  createdAt : ℤ
  hash : String
  deriving DecidableEq

/-- How far `revoke_user_sessions` has got. -/
inductive RevokeStage where
  /-- It looks for the user's sessions in memory. -/
  | keys
  /-- It drops them. -/
  | retain
  /-- It looks for their rows. -/
  | read
  /-- It deletes the rows that it has found. -/
  | delete (keys : List String)
  deriving DecidableEq

/-- The calls, by the section that is next. -/
inductive Call where
  | registerCheck (username password : String) (role : UserRole)
  | registerSave (user : User)
  | registerInsert (user : User)
  | registerToken (user : User)
  | registerRow (user : User) (key : String) (info : SessionInfo)
  | registerSession (user : User) (key : String) (info : SessionInfo)
  | loginVerify (username password : String)
  | loginRescue (v : Verified)
  | loginTouch (v : Verified)
  | loginToken (v : Verified)
  | loginRow (v : Verified) (key : String)
  | loginSession (v : Verified) (key : String) (info : SessionInfo)
  | logoutRow (key : String)
  | logoutSession (key : String)
  | changeVerify (username oldPassword newPassword : String)
  | changeSave (user : User)
  | changeApply (user : User) (replaced : List String)
  | deleteCheck (username : String)
  | deleteRow (username : String)
  | deleteApply (username : String) (replaced : List String)
  | revoke (username : String) (replaced : List String) (stage : RevokeStage)
  | failed (e : AuthError)
  | returned
  deriving DecidableEq

/-- A token, and what the call that issued it went by. -/
structure Issue where
  token : String
  username : String
  hash : String

/-- What happens to the account of a name. -/
inductive AccountEvent where
  | created (username id : String)
  | removed (username : String)
  deriving DecidableEq

/-- The state of `AuthUserState` and its database.  For the proofs: what has happened to the
accounts, newest first, the hashes that an account of a name ever had, the tokens that were issued,
the names and hashes whose revocation has returned, and the registrations that have. -/
structure UserState where
  users : HashMap String User
  sessions : HashMap String SessionInfo
  userRows : HashMap String User
  sessionRows : HashMap String SessionInfo
  /-- A call holds the lock of the users across its sections. -/
  usersHeld : Bool
  /-- A call holds the lock of the sessions across its sections. -/
  sessionsHeld : Bool
  calls : List Call
  log : List AccountEvent
  hashes : List (String × String)
  issued : List Issue
  revoked : List (String × String)
  registered : List (String × String)

namespace UserState

/-- The first start, with the users of the database. -/
def start (userRows : HashMap String User) : UserState where
  users := userRows
  sessions := ∅
  userRows := userRows
  sessionRows := ∅
  usersHeld := false
  sessionsHeld := false
  calls := []
  log := []
  hashes := userRows.keys.filterMap fun name =>
    (userRows.lookup name).map fun user => (name, user.passwordHash)
  issued := []
  revoked := []
  registered := []

/-- A restart: users and sessions are loaded again, and no call survives. -/
def restart (s : UserState) (now : ℤ) : UserState :=
  { s with
    users := s.userRows
    sessions := unexpired s.sessionRows now
    sessionRows := unexpired s.sessionRows now
    usersHeld := false
    sessionsHeld := false
    calls := [] }

/-- The hashes that the accounts of a name had so far. -/
def hashesOf (s : UserState) (username : String) : List String :=
  s.hashes.filterMap fun h => if h.1 = username then some h.2 else none

/-- Change the account of a name, if there is one. -/
def modifyUser (users : HashMap String User) (username : String) (f : User → User) :
    HashMap String User :=
  match users.lookup username with
  | some user => users.insert username (f user)
  | none => users

end UserState

/-- What a section is given from outside: the time, a new id, and what `bcrypt::hash` returns. -/
structure Inputs where
  now : ℤ
  id : String
  hash : Except String String

/-- The error of `hash_password`. -/
def hashError (e : String) : AuthError :=
  .invalidInput ("Password could not be hashed (likely too long; bcrypt limit is 72 bytes): " ++ e)

/-- The revocation has returned `Ok`, and with it its call. -/
def UserState.revokeReturned (s : UserState) (username : String) (replaced : List String) :
    UserState :=
  { s with revoked := replaced.map (fun hash => (username, hash)) ++ s.revoked }

/-- The next section of a call, unless it waits for a lock or has returned. -/
def Call.run (env : TokenEnv) (s : UserState) (inp : Inputs) : Call → Option (UserState × Call)
  | .registerCheck username password role =>
    if username.utf8ByteSize < 3 then
      some (s, .failed (.invalidInput "Username must be at least 3 characters"))
    else if password.utf8ByteSize < 6 then
      some (s, .failed (.invalidInput "Password must be at least 6 characters"))
    else if s.usersHeld then none
    else if (s.users.lookup username).isSome then some (s, .failed .userExists)
    else
      match inp.hash with
      | .error e => some (s, .failed (hashError e))
      | .ok hash =>
        some (s, .registerSave ⟨inp.id, username, hash, role, inp.now, none, true⟩)
  | .registerSave user =>
    some ({ s with
      userRows := s.userRows.insert user.username user
      log := .created user.username user.id :: s.log
      hashes := (user.username, user.passwordHash) :: s.hashes }, .registerInsert user)
  | .registerInsert user =>
    if s.usersHeld then none
    else some ({ s with users := s.users.insert user.username user }, .registerToken user)
  | .registerToken user =>
    let token := generateToken env user inp.now
    some ({ s with issued := ⟨token, user.username, user.passwordHash⟩ :: s.issued },
      .registerRow user (env.tokenKey token)
        ⟨user.id, user.username, user.role, inp.now, inp.now + sessionDuration⟩)
  | .registerRow user key info =>
    some ({ s with sessionRows := s.sessionRows.insert key info }, .registerSession user key info)
  | .registerSession user key info =>
    if s.sessionsHeld then none
    else some ({ s with
      sessions := s.sessions.insert key info
      registered := (user.username, user.id) :: s.registered }, .returned)
  | .loginVerify username password =>
    if s.usersHeld then none
    else
      match s.users.lookup username with
      | none => some (s, .failed .invalidCredentials)
      | some user =>
        if user.active = false then some (s, .failed .userDisabled)
        else if verifyPassword env password user.passwordHash then
          some (s, .loginTouch ⟨username, user.id, user.role, user.createdAt, user.passwordHash⟩)
        else
          -- The offline command line may have written another hash to the database.
          match s.userRows.lookup username with
          | some dbu =>
            if dbu.passwordHash ≠ user.passwordHash ∧
                verifyPassword env password dbu.passwordHash then
              some (s, .loginRescue ⟨username, dbu.id, dbu.role, dbu.createdAt, dbu.passwordHash⟩)
            else some (s, .failed .invalidCredentials)
          | none => some (s, .failed .invalidCredentials)
  | .loginRescue v =>
    if s.usersHeld then none
    else some ({ s with users := UserState.modifyUser s.users v.username fun user =>
      { user with passwordHash := v.hash } }, .loginTouch v)
  | .loginTouch v =>
    if s.usersHeld then none
    else some ({ s with users := UserState.modifyUser s.users v.username fun user =>
      { user with lastLogin := some inp.now } }, .loginToken v)
  | .loginToken v =>
    if s.usersHeld then none
    else
      match s.users.lookup v.username with
      | none => some (s, .failed .userNotFound)
      | some user =>
        let token := generateToken env user inp.now
        some ({ s with issued := ⟨token, v.username, v.hash⟩ :: s.issued },
          .loginRow v (env.tokenKey token))
  | .loginRow v key =>
    if s.sessionsHeld then none
    else
      let info := ⟨v.userId, v.username, v.role, inp.now, inp.now + sessionDuration⟩
      some ({ s with
        sessionsHeld := true
        sessionRows := s.sessionRows.insert key info }, .loginSession v key info)
  | .loginSession _ key info =>
    some ({ s with
      sessionsHeld := false
      sessions := unexpired (s.sessions.insert key info) inp.now }, .returned)
  | .logoutRow key =>
    some ({ s with sessionRows := s.sessionRows.erase key }, .logoutSession key)
  | .logoutSession key =>
    if s.sessionsHeld then none
    else some ({ s with sessions := s.sessions.erase key }, .returned)
  | .changeVerify username oldPassword newPassword =>
    if newPassword.utf8ByteSize < 6 then
      some (s, .failed (.invalidInput "Password must be at least 6 characters"))
    else if s.usersHeld then none
    else
      match s.users.lookup username with
      | none => some (s, .failed .userNotFound)
      | some user =>
        if verifyPassword env oldPassword user.passwordHash then
          match inp.hash with
          | .error e => some (s, .failed (hashError e))
          | .ok hash =>
            some ({ s with usersHeld := true }, .changeSave { user with passwordHash := hash })
        else some (s, .failed .invalidCredentials)
  | .changeSave user =>
    some ({ s with
      userRows := s.userRows.insert user.username user
      hashes := (user.username, user.passwordHash) :: s.hashes },
      .changeApply user (s.hashesOf user.username))
  | .changeApply user replaced =>
    some ({ s with
      usersHeld := false
      users := UserState.modifyUser s.users user.username fun u =>
        { u with passwordHash := user.passwordHash } }, .revoke user.username replaced .keys)
  | .deleteCheck username =>
    if s.usersHeld then none
    else if (s.users.lookup username).isSome then
      some ({ s with usersHeld := true }, .deleteRow username)
    else some (s, .failed .userNotFound)
  | .deleteRow username =>
    some ({ s with
      userRows := s.userRows.erase username
      log := .removed username :: s.log }, .deleteApply username (s.hashesOf username))
  | .deleteApply username replaced =>
    some ({ s with
      usersHeld := false
      users := s.users.erase username }, .revoke username replaced .keys)
  | .revoke username replaced .keys =>
    if s.sessionsHeld then none
    else if sessionsOf s.sessions username = [] then some (s, .revoke username replaced .read)
    else some (s, .revoke username replaced .retain)
  | .revoke username replaced .retain =>
    if s.sessionsHeld then none
    else some ({ s with sessions := HashMap.removeAll s.sessions (sessionsOf s.sessions username) },
      .revoke username replaced .read)
  | .revoke username replaced .read =>
    match sessionsOf s.sessionRows username with
    | [] => some (s.revokeReturned username replaced, .returned)
    | key :: keys => some (s, .revoke username replaced (.delete (key :: keys)))
  | .revoke username replaced (.delete keys) =>
    some ({ s.revokeReturned username replaced with
      sessionRows := HashMap.removeAll s.sessionRows keys }, .returned)
  | .failed _ | .returned => none

/-! ## Steps -/

inductive Request where
  | register (username password : String) (role : UserRole)
  | login (username password : String)
  | logout (token : String)
  | changePassword (username oldPassword newPassword : String)
  | deleteUser (username : String)

def Request.call (env : TokenEnv) : Request → Call
  | .register username password role => .registerCheck username password role
  | .login username password => .loginVerify username password
  | .logout token => .logoutRow (env.tokenKey token)
  | .changePassword username oldPassword newPassword =>
    .changeVerify username oldPassword newPassword
  | .deleteUser username => .deleteCheck username

inductive UserAction where
  | request (r : Request)
  /-- The `i`th call runs its next section. -/
  | run (i : ℕ) (inp : Inputs)
  | restart (now : ℤ)

namespace UserState

def step (env : TokenEnv) (s : UserState) : UserAction → Option UserState
  | .request r => some { s with calls := s.calls ++ [r.call env] }
  | .run i inp =>
    match s.calls[i]? with
    | some c => (c.run env s inp).map fun r => { r.1 with calls := s.calls.set i r.2 }
    | none => none
  | .restart now => some (s.restart now)

end UserState

end HeraMind.Auth
