/-
The authentication use cases as transactions.

Each call is the statements of its one transaction, in the order they are sent: a state
of `AuthState` is how far the call has come and what it has read.  Looking a token up
`for_update` locks its row; a bulk update locks the rows it matches; an insert locks its
own row, and shares a lock on the user its foreign key names, which a write of that user
excludes.  The update that consumes the grants of a user also keeps others from
inserting one.

The hasher, the token service and the comparison of the email column are parameters.
What is drawn at random (ids, tokens, salts) and the clock come with the call.
-/
import Orqent.Auth.Tables
import Orqent.Lib.RowTxn
import Orqent.Lib.Text

namespace Orqent

open RowTxn

/-- What a token is for. -/
inductive TokenType
  | access
  | refresh
  deriving DecidableEq, Repr

/-- What the service uses of the claims of a token. -/
structure TokenClaims where
  jti : String
  tokenType : TokenType
  deriving DecidableEq, Repr

/-- What the service is given. -/
structure AuthPorts where
  /-- `str.lower`. -/
  lower : String → String
  /-- How the email column compares. -/
  sameEmail : String → String → Bool
  hashPassword : (salt : Nat) → (password : String) → String
  verifyPassword : (password passwordHash : String) → Bool
  needsRehash : (passwordHash : String) → Bool
  /-- The claims of a token whose signature and expiry hold. -/
  decode : (token : String) → Option TokenClaims
  hashToken : (token : String) → String
  passwordResetTtl : Nat

/-- Why a call of the service was refused. -/
inductive AuthError
  | authentication (message : String)
  | integrity
  deriving DecidableEq, Repr

/-- The answer to a wrong email or password. -/
def invalidCredentials : AuthError := .authentication "Either email or password is incorrect."

/-- The answer to a refresh token that is no good. -/
def invalidRefresh : AuthError := .authentication "Invalid or expired refresh token."

/-- The answer to a link that is no good. -/
def invalidReset : AuthError := .authentication "Password reset link is invalid or expired."

/-- A refresh token the token service has made. -/
structure Minted where
  token : String
  jti : String
  expiresAt : Nat
  deriving DecidableEq, Repr

/-- The calls of the service. -/
inductive AuthCall
  | login (email password : String) (salt : Nat) (familyId : String) (minted : Minted)
  | refresh (token : String) (now : Nat) (minted : Minted)
  | logout (token : String) (now : Nat)
  | forgotPassword (email : String) (now : Nat) (token : String)
  | resetPassword (token newPassword : String) (salt now : Nat)
  deriving DecidableEq, Repr

/-- Where a transaction stands. -/
inductive AuthState
  /-- About to leave without a commit; `forgot_password` answers nobody, and raises nothing. -/
  | refused (error : Option AuthError)
  | login (email password : String) (salt : Nat) (familyId : String) (minted : Minted)
  | verified (user : User) (rehashed : Option String) (row : RefreshToken)
  | loggedIn (user : User) (row : RefreshToken)
  | refreshing (token : String) (claims : TokenClaims) (now : Nat) (minted : Minted)
  | replayed (stored : RefreshToken) (now : Nat)
  | detected (stored : RefreshToken)
  | rotating (stored : RefreshToken) (now : Nat) (minted : Minted)
  | retiring (stored : RefreshToken) (user : User) (now : Nat) (minted : Minted)
  | succeeding (stored : RefreshToken) (user : User) (row : RefreshToken)
  | exchanged (stored : RefreshToken) (row : RefreshToken)
  | leaving (claims : TokenClaims) (now : Nat)
  | closing (stored : RefreshToken) (now : Nat)
  | loggedOut (stored : Option RefreshToken)
  | forgetting (email : String) (now : Nat) (token : String)
  | superseding (user : User) (now : Nat) (token : String)
  | issuing (user : User) (row : PasswordResetToken)
  | issued (row : PasswordResetToken)
  | redeeming (digest newPassword : String) (salt now : Nat)
  | granted (grant : PasswordResetToken) (newPassword : String) (salt now : Nat)
  | setting (grant : PasswordResetToken) (user : User) (newPassword : String) (salt now : Nat)
  | consuming (grant : PasswordResetToken) (user : User) (newPassword : String) (now : Nat)
  | ending (grant : PasswordResetToken) (user : User) (newPassword : String) (now : Nat)
  | passwordReset (grant : PasswordResetToken) (user : User) (newPassword : String)
  deriving DecidableEq, Repr

/-! ### Locks -/

/-- What a statement locks. -/
inductive AuthLock
  /-- The row of a user, written. -/
  | user (id : Nat)
  /-- The row of a user, which a foreign key was checked against. -/
  | userShared (id : Nat)
  | refreshToken (jti : String)
  | grant (digest : String)
  /-- The range of the grants of a user, which an update has been through. -/
  | grantsOf (userId : Nat)
  /-- A new grant in that range. -/
  | newGrant (userId : Nat)
  deriving DecidableEq, Repr

/-- Two locks that two transactions cannot both hold. -/
def AuthLock.conflicts : AuthLock → AuthLock → Bool
  | .user u, .user v => u = v
  | .user u, .userShared v => u = v
  | .userShared u, .user v => u = v
  | .refreshToken j, .refreshToken k => j = k
  | .grant d, .grant e => d = e
  | .grantsOf u, .newGrant v => u = v
  | .newGrant u, .grantsOf v => u = v
  | _, _ => false

theorem AuthLock.conflicts_symm (l l' : AuthLock) : l.conflicts l' = l'.conflicts l := by
  cases l <;> cases l' <;> simp [conflicts, eq_comm]

/-! ### The statements -/

/-- `_normalize_email`. -/
def normalizeEmail (P : AuthPorts) (email : String) : String :=
  P.lower (String.ofList (strip email.toList))

/-- `_decode_refresh_token`. -/
def decodeRefreshToken (P : AuthPorts) (token : String) : Except AuthError TokenClaims :=
  match P.decode token with
  | none => .error invalidRefresh
  | some claims => if claims.tokenType = .refresh then .ok claims else .error invalidRefresh

/-- The row `_issue_token_pair` adds. -/
def issuedRow (P : AuthPorts) (user : User) (familyId : String) (minted : Minted) :
    RefreshToken where
  userId := user.id
  jti := minted.jti
  tokenHash := P.hashToken minted.token
  familyId := familyId
  expiresAt := minted.expiresAt

/-- The insert of a refresh token, after the changes of the same flush; `jti` is unique. -/
def insertToken (row : RefreshToken) (flushed : AuthDb → AuthDb) (done : AuthState) (db : AuthDb) :
    AuthState × (AuthDb → AuthDb) :=
  if row.jti ∈ db.jtis then (.refused (some .integrity), id)
  else (done, fun db => (flushed db).addRefreshToken row)

/-- What `login` makes of the user it finds. -/
def loginUser (P : AuthPorts) (password : String) (salt : Nat) (familyId : String)
    (minted : Minted) : Option User → AuthState
  | none => .refused (some invalidCredentials)
  | some user =>
      if !P.verifyPassword password user.passwordHash then .refused (some invalidCredentials)
      else if !user.isActive then .refused (some invalidCredentials)
      else
        let rehashed :=
          if P.needsRehash user.passwordHash then some (P.hashPassword salt password) else none
        .verified user rehashed (issuedRow P user familyId minted)

/-- What `refresh` makes of the row it has locked. -/
def refreshStored (P : AuthPorts) (token : String) (now : Nat) (minted : Minted) :
    Option RefreshToken → AuthState
  | none => .refused (some invalidRefresh)
  | some stored =>
      if P.hashToken token ≠ stored.tokenHash then .refused (some invalidRefresh)
      else if stored.revokedAt.isSome then .replayed stored now
      else if stored.expiresAt ≤ now then .refused (some invalidRefresh)
      else .rotating stored now minted

/-- What `reset_password` makes of the grant it has locked. -/
def redeemGrant (newPassword : String) (salt now : Nat) : Option PasswordResetToken → AuthState
  | none => .refused (some invalidReset)
  | some grant =>
      if grant.consumedAt.isSome then .refused (some invalidReset)
      else if grant.expiresAt ≤ now then .refused (some invalidReset)
      else .granted grant newPassword salt now

/-- The live tokens of a family are locked and revoked. -/
def revokeFamily (stored : RefreshToken) (now : Nat) (done : AuthState) :
    RowStatement AuthDb AuthState AuthLock :=
  .lock (fun _ db => (db.liveOfFamily stored.familyId).map fun r => .refreshToken r.jti)
    fun _ db =>
      some (done, AuthDb.setRevoked ((db.liveOfFamily stored.familyId).map RefreshToken.jti) now)

/-- The live tokens of a user are locked and revoked. -/
def revokeAllForUser (userId now : Nat) (done : AuthState) :
    RowStatement AuthDb AuthState AuthLock :=
  .lock (fun _ db => (db.liveOfUser userId).map fun r => .refreshToken r.jti)
    fun _ db => some (done, AuthDb.setRevoked ((db.liveOfUser userId).map RefreshToken.jti) now)

/-- The outstanding grants of a user are locked and consumed, and their range is closed. -/
def consumeOutstandingForUser (userId now : Nat) (done : AuthState) :
    RowStatement AuthDb AuthState AuthLock :=
  .lock
    (fun _ db => .grantsOf userId :: (db.outstanding userId).map fun g => .grant g.tokenHash)
    fun _ db =>
      some
        (done, AuthDb.setConsumed ((db.outstanding userId).map PasswordResetToken.tokenHash) now)

/-- The first statement of a call is still to come; a token that does not decode has none. -/
def authStart (P : AuthPorts) : AuthCall → AuthState
  | .login email password salt familyId minted => .login email password salt familyId minted
  | .refresh token now minted =>
      match decodeRefreshToken P token with
      | .error error => .refused (some error)
      | .ok claims => .refreshing token claims now minted
  | .logout token now =>
      match decodeRefreshToken P token with
      | .error error => .refused (some error)
      | .ok claims => .leaving claims now
  | .forgotPassword email now token => .forgetting email now token
  | .resetPassword token newPassword salt now =>
      .redeeming (P.hashToken token) newPassword salt now

/-- The statement a transaction comes to next. -/
def authNext (P : AuthPorts) : AuthState → RowStatement AuthDb AuthState AuthLock
  | .refused _ => .raise
  | .login email password salt familyId minted =>
      .read fun db =>
        loginUser P password salt familyId minted
          (db.getByEmail P.sameEmail (normalizeEmail P email))
  | .verified user rehashed row =>
      .lock
        (fun _ _ =>
          (if rehashed.isSome then .user user.id else .userShared user.id) ::
            [.refreshToken row.jti])
        fun _ db =>
          some (insertToken row (fun db => rehashed.elim db (db.setPasswordHash user.id ·))
            (.loggedIn user row) db)
  | .loggedIn _ _ => .commit
  | .refreshing token claims now minted =>
      .lock
        (fun _ db => (db.getByJti claims.jti).toList.map fun r => .refreshToken r.jti)
        fun _ db => some (refreshStored P token now minted (db.getByJti claims.jti), id)
  | .replayed stored now => revokeFamily stored now (.detected stored)
  | .detected _ => .commit
  | .rotating stored now minted =>
      .read fun db =>
        match db.getById stored.userId with
        | none => .refused (some invalidRefresh)
        | some user =>
            if user.isActive then .retiring stored user now minted
            else .refused (some invalidRefresh)
  | .retiring stored user now minted =>
      .lock (fun _ _ => [.refreshToken stored.jti])
        fun _ _ =>
          some
            (.succeeding stored user (issuedRow P user stored.familyId minted),
              AuthDb.setRevoked [stored.jti] now)
  | .succeeding stored user row =>
      .lock (fun _ _ => [.userShared user.id, .refreshToken row.jti])
        fun _ db => some (insertToken row id (.exchanged stored row) db)
  | .exchanged _ _ => .commit
  | .leaving claims now =>
      .read fun db =>
        match db.getByJti claims.jti with
        | none => .loggedOut none
        | some stored => .closing stored now
  | .closing stored now => revokeFamily stored now (.loggedOut (some stored))
  | .loggedOut _ => .commit
  | .forgetting email now token =>
      .read fun db =>
        match db.getByEmail P.sameEmail (normalizeEmail P email) with
        | none => .refused none
        | some user => if user.isActive then .superseding user now token else .refused none
  | .superseding user now token =>
      consumeOutstandingForUser user.id now
        (.issuing user
          { userId := user.id
            tokenHash := P.hashToken token
            expiresAt := now + P.passwordResetTtl })
  | .issuing user row =>
      .lock (fun _ _ => [.userShared user.id, .newGrant user.id, .grant row.tokenHash])
        fun _ db =>
          if (db.getByDigest row.tokenHash).isSome then some (.refused (some .integrity), id)
          else some (.issued row, AuthDb.addPasswordResetToken row)
  | .issued _ => .commit
  | .redeeming digest newPassword salt now =>
      .lock (fun _ db => (db.getByDigest digest).toList.map fun g => .grant g.tokenHash)
        fun _ db => some (redeemGrant newPassword salt now (db.getByDigest digest), id)
  | .granted grant newPassword salt now =>
      .read fun db =>
        match db.getById grant.userId with
        | none => .refused (some invalidReset)
        | some user =>
            if user.isActive then .setting grant user newPassword salt now
            else .refused (some invalidReset)
  | .setting grant user newPassword salt now =>
      .lock (fun _ _ => [.user user.id, .grant grant.tokenHash])
        fun _ _ =>
          some
            (.consuming grant user newPassword now,
              fun db =>
                (db.setPasswordHash user.id (P.hashPassword salt newPassword)).setConsumed
                  [grant.tokenHash] now)
  | .consuming grant user newPassword now =>
      consumeOutstandingForUser user.id now (.ending grant user newPassword now)
  | .ending grant user newPassword now =>
      revokeAllForUser user.id now (.passwordReset grant user newPassword)
  | .passwordReset _ _ _ => .commit

/-- The authentication use cases, running side by side. -/
def authService (P : AuthPorts) : RowTxn AuthDb AuthCall AuthState AuthLock where
  start := authStart P
  next := authNext P
  conflicts := AuthLock.conflicts
  conflicts_symm := AuthLock.conflicts_symm

/-- Ports under which a token is its own `jti` and digest, and a hash names its password and
whether it was made with weaker parameters. -/
def plainPorts : AuthPorts where
  lower := id
  sameEmail := fun stored email => stored = email
  hashPassword := fun _ password => "hash of " ++ password
  verifyPassword := fun password passwordHash =>
    passwordHash = "hash of " ++ password || passwordHash = "weak hash of " ++ password
  needsRehash := fun passwordHash => passwordHash.toList.take 4 = "weak".toList
  decode := fun token => some ⟨token, .refresh⟩
  hashToken := id
  passwordResetTtl := 3600

end Orqent
