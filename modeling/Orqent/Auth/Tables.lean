/-
The users, their refresh tokens, and their password-reset grants.

The tables are lists of rows in the order of insertion.  A refresh token is found by its
`jti` and a grant by the digest of its token; both columns are unique, so writing by them
is writing by primary key.  A bulk update is in two steps, as the database does it: the
rows that match are found when the statement runs, and those rows are written.
-/
import Mathlib.Data.List.Nodup
import Mathlib.Data.List.Basic

namespace Orqent

/-- `users`; `deleted` is whether `deleted_at` is set. -/
structure User where
  id : Nat
  email : String
  passwordHash : String
  isActive : Bool
  deleted : Bool
  deriving DecidableEq, Repr

/-- `refresh_tokens`. -/
structure RefreshToken where
  userId : Nat
  jti : String
  tokenHash : String
  familyId : String
  expiresAt : Nat
  revokedAt : Option Nat := none
  deriving DecidableEq, Repr

/-- `password_reset_tokens`. -/
structure PasswordResetToken where
  userId : Nat
  tokenHash : String
  expiresAt : Nat
  consumedAt : Option Nat := none
  deriving DecidableEq, Repr

/-- The rows the authentication use cases read and write. -/
structure AuthDb where
  users : List User
  refreshTokens : List RefreshToken
  passwordResetTokens : List PasswordResetToken
  deriving DecidableEq, Repr

namespace AuthDb

/-! ### Users -/

/-- The live user with this email, as the column compares emails. -/
def getByEmail (sameEmail : String → String → Bool) (db : AuthDb) (email : String) : Option User :=
  db.users.find? fun u => !u.deleted && sameEmail u.email email

/-- The live user with this id. -/
def getById (db : AuthDb) (userId : Nat) : Option User :=
  db.users.find? fun u => u.id = userId && !u.deleted

/-- The user has another password. -/
def setPasswordHash (userId : Nat) (passwordHash : String) (db : AuthDb) : AuthDb :=
  { db with users := db.users.map fun u => if u.id = userId then { u with passwordHash } else u }

/-! ### Refresh tokens -/

/-- The refresh token of this id. -/
def getByJti (db : AuthDb) (jti : String) : Option RefreshToken :=
  db.refreshTokens.find? fun r => r.jti = jti

/-- The ids of all refresh tokens. -/
def jtis (db : AuthDb) : List String := db.refreshTokens.map RefreshToken.jti

/-- Insert a refresh token. -/
def addRefreshToken (row : RefreshToken) (db : AuthDb) : AuthDb :=
  { db with refreshTokens := db.refreshTokens ++ [row] }

/-- The live tokens of a family. -/
def liveOfFamily (db : AuthDb) (familyId : String) : List RefreshToken :=
  db.refreshTokens.filter fun r => r.familyId = familyId && r.revokedAt.isNone

/-- The live tokens of a user. -/
def liveOfUser (db : AuthDb) (userId : Nat) : List RefreshToken :=
  db.refreshTokens.filter fun r => r.userId = userId && r.revokedAt.isNone

/-- Writes `revoked_at` into the rows with these ids. -/
def setRevoked (ids : List String) (revokedAt : Nat) (db : AuthDb) : AuthDb :=
  { db with
    refreshTokens := db.refreshTokens.map fun r =>
      if r.jti ∈ ids then { r with revokedAt := some revokedAt } else r }

/-! ### Password-reset grants -/

/-- The grant of this digest. -/
def getByDigest (db : AuthDb) (digest : String) : Option PasswordResetToken :=
  db.passwordResetTokens.find? fun g => g.tokenHash = digest

/-- Insert a grant. -/
def addPasswordResetToken (row : PasswordResetToken) (db : AuthDb) : AuthDb :=
  { db with passwordResetTokens := db.passwordResetTokens ++ [row] }

/-- The grants of a user that are not consumed. -/
def outstanding (db : AuthDb) (userId : Nat) : List PasswordResetToken :=
  db.passwordResetTokens.filter fun g => g.userId = userId && g.consumedAt.isNone

/-- Writes `consumed_at` into the rows with these digests. -/
def setConsumed (digests : List String) (consumedAt : Nat) (db : AuthDb) : AuthDb :=
  { db with
    passwordResetTokens := db.passwordResetTokens.map fun g =>
      if g.tokenHash ∈ digests then { g with consumedAt := some consumedAt } else g }

end AuthDb

end Orqent
