/-
What a password reset leaves of the sessions of the old password.

A login reads the hash, and only later inserts its token.  Its insert shares a lock on
the user, which the reset holds from the write of the hash on; so a login that commits
before the reset has inserted its token before the reset revokes the tokens it sees.  A
login that read the old hash and commits after the reset keeps its token, and may write
the old password's hash back.  Nothing stops it, and that order is all that can go wrong.
-/
import Orqent.Auth.Service

namespace Orqent

open RowTxn

/-- A reset that was committed. -/
def AuthState.resets : AuthState → Bool
  | .passwordReset .. => true
  | _ => false

/-- A login that was committed. -/
def AuthState.logsIn : AuthState → Bool
  | .loggedIn .. => true
  | _ => false

/-- A login of the user with the old password, or a reset. -/
def AuthCall.LoginOrReset (email oldPassword : String) : AuthCall → Prop
  | .login e password .. => e = email ∧ password = oldPassword
  | .resetPassword .. => True
  | _ => False

/-- The stored hash verifies the new password, and no token a login got is live. -/
structure SessionsEnded (P : AuthPorts) (userId : Nat) (newPassword : String) (s : AuthDb)
    (log : List AuthState) : Prop where
  hash : ∀ u ∈ s.users, u.id = userId → P.verifyPassword newPassword u.passwordHash = true
  tokens : ∀ user row, .loggedIn user row ∈ log →
    ∀ r ∈ s.refreshTokens, r.jti = row.jti → r.revokedAt ≠ none

/-! ### Rows -/

namespace AuthDb

variable {s : AuthDb} {r : RefreshToken} {ids : List String} {now userId : Nat} {hash : String}

/-- The users without their hashes. -/
def accounts (s : AuthDb) : List User := s.users.map fun u => { u with passwordHash := "" }

theorem accounts_setPasswordHash : (s.setPasswordHash userId hash).accounts = s.accounts := by
  unfold accounts setPasswordHash
  rw [List.map_map]
  refine List.map_congr_left fun u _ => ?_
  dsimp only [Function.comp]
  split <;> rfl

/-- Who is found by an email does not depend on the hashes. -/
theorem getByEmail_id {sameEmail : String → String → Bool} (s : AuthDb) (email : String) :
    (s.getByEmail sameEmail email).map User.id =
      (s.accounts.find? fun u => !u.deleted && sameEmail u.email email).map User.id := by
  unfold getByEmail accounts
  rw [List.find?_map, Option.map_map]
  rfl

theorem mem_setRevoked (hr : r ∈ (s.setRevoked ids now).refreshTokens) :
    ∃ r₀ ∈ s.refreshTokens, r₀.jti = r.jti ∧ r₀.userId = r.userId ∧
      (r.revokedAt = none → r₀.revokedAt = none ∧ r₀.jti ∉ ids) := by
  obtain ⟨r₀, hr₀, rfl⟩ := List.mem_map.mp hr
  by_cases hids : r₀.jti ∈ ids
  · rw [if_pos hids]
    exact ⟨r₀, hr₀, rfl, rfl, fun h => by cases h⟩
  · rw [if_neg hids]
    exact ⟨r₀, hr₀, rfl, rfl, fun h => ⟨h, hids⟩⟩

theorem mem_liveOfUser : r ∈ s.liveOfUser userId ↔
    r ∈ s.refreshTokens ∧ r.userId = userId ∧ r.revokedAt = none := by
  unfold liveOfUser
  simp only [List.mem_filter, Bool.and_eq_true, decide_eq_true_eq, Option.isNone_iff_eq_none]

end AuthDb

/-- The email finds nobody but this user. -/
def Names (P : AuthPorts) (email : String) (userId : Nat) (s : AuthDb) : Prop :=
  ∀ u, s.getByEmail P.sameEmail (normalizeEmail P email) = some u → u.id = userId

theorem Names.of_accounts {P : AuthPorts} {email : String} {userId : Nat} {s s' : AuthDb}
    (h : Names P email userId s) (heq : s'.accounts = s.accounts) : Names P email userId s' := by
  intro u hu
  have hid : (s'.getByEmail P.sameEmail (normalizeEmail P email)).map User.id = _ :=
    AuthDb.getByEmail_id s' _
  rw [heq, ← AuthDb.getByEmail_id, hu] at hid
  obtain ⟨u', hu', hsame⟩ := Option.map_eq_some_iff.mp hid.symm
  rw [← hsame, h u' hu']

/-! ### What an open transaction knows -/

/-- A login is inserting this row. -/
structure Inserts (userId : Nat) (s : AuthDb) (held : List AuthLock)
    (changes : List (AuthDb → AuthDb)) (row : RefreshToken) : Prop where
  user : row.userId = userId
  live : row.revokedAt = none
  locked : .refreshToken row.jti ∈ held
  shared : .userShared userId ∈ held ∨ .user userId ∈ held
  fresh : row.jti ∉ s.jtis
  added : ∀ s, (view changes s).refreshTokens = s.refreshTokens ++ [row]

/-- A reset has written the new hash, and keeps the user locked. -/
structure Rewrites (P : AuthPorts) (held : List AuthLock) (changes : List (AuthDb → AuthDb))
    (user : User) (newPassword : String) : Prop where
  locked : .user user.id ∈ held
  hashed : ∃ salt, ∀ s, (view changes s).users =
    (s.setPasswordHash user.id (P.hashPassword salt newPassword)).users

/-- A reset has revoked these rows, which are all the live ones of the user. -/
structure Revokes (s : AuthDb) (changes : List (AuthDb → AuthDb)) (userId : Nat)
    (ids : List String) : Prop where
  revoked : ∃ now, ∀ s, (view changes s).refreshTokens = (s.setRevoked ids now).refreshTokens
  covers : ∀ r ∈ s.refreshTokens, r.userId = userId → r.revokedAt = none → r.jti ∈ ids

/-- What a login or a reset knows and has written, by how far it has come. -/
def ResetFacts (P : AuthPorts) (email : String) (userId : Nat) (s : AuthDb) (held : List AuthLock)
    (t : Txn AuthDb AuthState) : Prop :=
  match t.state with
  | .refused _ => True
  | .login e .. => e = email ∧ t.snap = none ∧ t.changes = []
  | .verified user _ row =>
      t.changes = [] ∧ user.id = userId ∧ row.userId = userId ∧ row.revokedAt = none
  | .loggedIn _ row => Inserts userId s held t.changes row
  | .redeeming .. | .granted .. | .setting .. => ∀ s, view t.changes s = s
  | .consuming _ user newPassword _ | .ending _ user newPassword _ =>
      Rewrites P held t.changes user newPassword ∧
        ∀ s, (view t.changes s).refreshTokens = s.refreshTokens
  | .passwordReset _ user newPassword =>
      Rewrites P held t.changes user newPassword ∧ ∃ ids, Revokes s t.changes user.id ids
  | _ => False

/-- The assertion about an open login or reset. -/
structure Resetting (P : AuthPorts) (email : String) (userId : Nat) (s : AuthDb)
    (_log : List AuthState) (held : List AuthLock) (t : Txn AuthDb AuthState) : Prop where
  accounts : ∀ s, (view t.changes s).accounts = s.accounts
  facts : ResetFacts P email userId s held t

/-! ### The committed rows and the log -/

/-- What holds once a reset of the user has committed, until a login does. -/
structure Settled (P : AuthPorts) (userId : Nat) (newPassword : String) (s : AuthDb) : Prop where
  hash : ∀ u ∈ s.users, u.id = userId → P.verifyPassword newPassword u.passwordHash = true
  tokens : ∀ r ∈ s.refreshTokens, r.userId = userId → r.revokedAt ≠ none

/-- What the tokens and the committed calls say of the user whose password is reset. -/
structure ResetOk (P : AuthPorts) (email : String) (userId : Nat) (s : AuthDb)
    (log : List AuthState) : Prop where
  named : Names P email userId s
  logged : ∀ user row, .loggedIn user row ∈ log →
    ∀ r ∈ s.refreshTokens, r.jti = row.jti → r.userId = userId
  settled : ∀ before after grant user newPassword,
    log = before ++ .passwordReset grant user newPassword :: after → user.id = userId →
    (∀ st ∈ after, st.resets = false) →
      ((∀ st ∈ after, st.logsIn = false) → Settled P userId newPassword s) ∧
        ∀ user row, .loggedIn user row ∈ after →
          ∃ r ∈ s.refreshTokens, r.jti = row.jti ∧ r.revokedAt = none

section Facts

variable {P : AuthPorts} {email : String} {userId : Nat} {s : AuthDb} {log : List AuthState}
  {held held' : List AuthLock} {t u : Txn AuthDb AuthState} {user : User} {newPassword : String}
  {row : RefreshToken} {ids : List String}

/-! ### What a commit beside it leaves true -/

/-- A committed row was there before, or its token and its user are locked by who committed it. -/
theorem ResetFacts.committed (h : ResetFacts P email userId s held u)
    (hnext : authNext P u.state = .commit) {r : RefreshToken}
    (hr : r ∈ (view u.changes s).refreshTokens) :
    (∃ r₀ ∈ s.refreshTokens, r₀.jti = r.jti ∧ r₀.userId = r.userId ∧
        (r.revokedAt = none → r₀.revokedAt = none)) ∨
      .refreshToken r.jti ∈ held ∧ r.userId = userId ∧
        (.userShared r.userId ∈ held ∨ .user r.userId ∈ held) := by
  obtain ⟨st, snap, changes⟩ := u
  cases st with
  | loggedIn user row =>
      have hinserts : Inserts userId s held changes row := h
      rw [hinserts.added] at hr
      rcases List.mem_append.mp hr with hold | hnew
      · exact Or.inl ⟨r, hold, rfl, rfl, id⟩
      · rw [List.mem_singleton.mp hnew]
        exact Or.inr ⟨hinserts.locked, hinserts.user, hinserts.user ▸ hinserts.shared⟩
  | passwordReset grant user newPassword =>
      obtain ⟨-, ids, hrevokes⟩ := h
      obtain ⟨now, hrevoked⟩ := hrevokes.revoked
      rw [hrevoked] at hr
      obtain ⟨r₀, hr₀, hjti, huser, hlive⟩ := AuthDb.mem_setRevoked hr
      exact Or.inl ⟨r₀, hr₀, hjti, huser, fun hnone => (hlive hnone).1⟩
  | detected | exchanged | loggedOut | issued => exact h.elim
  | _ => cases hnext

section Beside

variable (hfacts : ResetFacts P email userId s held' u) (hnext : authNext P u.state = .commit)
  (hapart : ∀ l ∈ held, ∀ l' ∈ held', l.conflicts l' = false)

include hfacts hnext hapart

theorem Inserts.beside {changes : List (AuthDb → AuthDb)}
    (h : Inserts userId s held changes row) :
    Inserts userId (view u.changes s) held changes row := by
  refine { h with fresh := fun hmem => ?_ }
  obtain ⟨r, hr, hjti⟩ := List.mem_map.mp hmem
  rcases hfacts.committed hnext hr with ⟨r₀, hr₀, hsame, -⟩ | ⟨hlocked, -⟩
  · exact h.fresh (List.mem_map.mpr ⟨r₀, hr₀, hsame.trans hjti⟩)
  · have hfree := hapart _ h.locked _ hlocked
    simp [AuthLock.conflicts, hjti] at hfree

/-- While the user is locked, no live token of the user is added. -/
theorem Revokes.beside {changes : List (AuthDb → AuthDb)} {v : Nat}
    (h : Revokes s changes v ids) (hlocked : .user v ∈ held) :
    Revokes (view u.changes s) changes v ids := by
  refine ⟨h.revoked, fun r hr huser hlive => ?_⟩
  rcases hfacts.committed hnext hr with ⟨r₀, hr₀, hjti, hsame, hlive₀⟩ | ⟨-, -, hshared⟩
  · rw [← hjti]
    exact h.covers r₀ hr₀ (hsame.trans huser) (hlive₀ hlive)
  · rw [huser] at hshared
    rcases hshared with hshared | hshared
    · have hfree := hapart _ hlocked _ hshared
      simp [AuthLock.conflicts] at hfree
    · have hfree := hapart _ hlocked _ hshared
      simp [AuthLock.conflicts] at hfree

end Beside

theorem resetting_other (h : Resetting P email userId s log held t)
    (hu : Resetting P email userId s log held' u)
    (hapart : ∀ l ∈ held, ∀ l' ∈ held', l.conflicts l' = false)
    (hnext : authNext P u.state = .commit) :
    Resetting P email userId (view u.changes s) (log ++ [u.state]) held t := by
  refine ⟨h.accounts, ?_⟩
  have hfacts := h.facts
  obtain ⟨st, snap, changes⟩ := t
  cases st with
  | loggedIn user row => exact Inserts.beside hu.facts hnext hapart hfacts
  | passwordReset grant user newPassword =>
      obtain ⟨hrewrites, ids, hrevokes⟩ := hfacts
      exact ⟨hrewrites, ids, hrevokes.beside hu.facts hnext hapart hrewrites.locked⟩
  | _ => exact hfacts

/-! ### The statements -/

theorem resetting_begin {oldPassword : String} {call : AuthCall}
    (hcall : call.LoginOrReset email oldPassword) :
    Resetting P email userId s log [] ⟨authStart P call, none, []⟩ := by
  refine ⟨fun _ => rfl, ?_⟩
  cases call with
  | login e password salt familyId minted => exact ⟨hcall.1, rfl, rfl⟩
  | resetPassword token newPassword salt now => exact fun _ => rfl
  | _ => exact hcall.elim

theorem resetting_read {k : AuthDb → AuthState} (hok : ResetOk P email userId s log)
    (h : Resetting P email userId s log held t) (hnext : authNext P t.state = .read k) :
    Resetting P email userId s log held
      ⟨k (view t.changes (t.snap.getD s)), some (t.snap.getD s), t.changes⟩ := by
  refine ⟨h.accounts, ?_⟩
  have hfacts := h.facts
  obtain ⟨st, snap, changes⟩ := t
  cases st with
  | login e password salt familyId minted =>
      obtain ⟨rfl, rfl, rfl⟩ := hfacts
      cases hnext
      cases hfound : s.getByEmail P.sameEmail (normalizeEmail P e) with
      | none =>
          simp only [Option.getD_none, view_nil, hfound]
          exact trivial
      | some user =>
          have hid := hok.named user hfound
          simp only [Option.getD_none, view_nil, hfound, loginUser]
          split
          · exact trivial
          · split
            · exact trivial
            · exact ⟨rfl, hid, hid, rfl⟩
  | granted grant newPassword salt now =>
      cases hnext
      dsimp only
      split
      · exact trivial
      · split
        · exact hfacts
        · exact trivial
  | rotating | leaving | forgetting => exact hfacts.elim
  | _ => cases hnext

theorem view_id {changes : List (AuthDb → AuthDb)} (h : ∀ s, view changes s = s) (s : AuthDb) :
    view (changes ++ [id]) s = s := by
  rw [view_snoc, h, id]

theorem resetting_lock {locks : (AuthLock → Bool) → AuthDb → List AuthLock}
    {run : (AuthLock → Bool) → AuthDb → Option (AuthState × (AuthDb → AuthDb))}
    {free : AuthLock → Bool} {state : AuthState} {d : AuthDb → AuthDb}
    (h : Resetting P email userId s log held t) (hnext : authNext P t.state = .lock locks run)
    (hrun : run free (view t.changes s) = some (state, d)) :
    Resetting P email userId s log (held ++ locks free (view t.changes s))
      ⟨state, t.snap, t.changes ++ [d]⟩ := by
  have hfacts := h.facts
  have haccounts := h.accounts
  obtain ⟨st, snap, changes⟩ := t
  dsimp only at haccounts hnext hrun ⊢
  -- A statement that writes no account leaves the accounts of the view alone.
  have hkeep : (∀ s : AuthDb, (d s).accounts = s.accounts) →
      ∀ s, (view (changes ++ [d]) s).accounts = s.accounts := by
    intro hd s
    rw [view_snoc, hd, haccounts]
  cases st with
  | verified user rehashed row =>
      obtain ⟨rfl, hid, huser, hlive⟩ := hfacts
      cases hnext
      dsimp only [insertToken] at hrun
      split at hrun
      · cases hrun
        exact ⟨hkeep fun _ => rfl, trivial⟩
      · rename_i hfresh
        cases hrun
        refine ⟨hkeep fun s => ?_, huser, hlive, ?_, ?_, hfresh, fun s => ?_⟩
        · cases rehashed with
          | none => rfl
          | some hash => exact AuthDb.accounts_setPasswordHash
        · exact List.mem_append_right _ (List.mem_cons_of_mem _ List.mem_cons_self)
        · rw [← hid]
          cases rehashed with
          | none => exact Or.inl (List.mem_append_right _ List.mem_cons_self)
          | some hash => exact Or.inr (List.mem_append_right _ List.mem_cons_self)
        · cases rehashed with
          | none => rfl
          | some hash => rfl
  | redeeming digest newPassword salt now =>
      cases hnext
      cases hrun
      refine ⟨hkeep fun _ => rfl, ?_⟩
      unfold redeemGrant
      split
      · exact trivial
      · split
        · exact trivial
        · split
          · exact trivial
          · exact view_id hfacts
  | setting grant user newPassword salt now =>
      cases hnext
      cases hrun
      refine ⟨hkeep fun s => ?_, ⟨List.mem_append_right _ List.mem_cons_self, salt, fun s => ?_⟩,
        fun s => ?_⟩
      · exact AuthDb.accounts_setPasswordHash
      · rw [view_snoc, hfacts]
        rfl
      · rw [view_snoc, hfacts]
        rfl
  | consuming grant user newPassword now =>
      obtain ⟨⟨hlocked, salt, hhashed⟩, htokens⟩ := hfacts
      cases hnext
      cases hrun
      refine ⟨hkeep fun _ => rfl, ⟨List.mem_append_left _ hlocked, salt, fun s => ?_⟩, fun s => ?_⟩
      · rw [view_snoc, ← hhashed]
        rfl
      · rw [view_snoc]
        exact htokens s
  | ending grant user newPassword now =>
      obtain ⟨⟨hlocked, salt, hhashed⟩, htokens⟩ := hfacts
      cases hnext
      cases hrun
      refine ⟨hkeep fun _ => rfl, ⟨List.mem_append_left _ hlocked, salt, fun s => ?_⟩,
        ((view changes s).liveOfUser user.id).map RefreshToken.jti,
        ⟨now, fun s => ?_⟩, fun r hr huser hlive => ?_⟩
      · rw [view_snoc, ← hhashed]
        rfl
      · rw [view_snoc]
        unfold AuthDb.setRevoked
        rw [htokens]
      · refine List.mem_map.mpr ⟨r, AuthDb.mem_liveOfUser.mpr ⟨?_, huser, hlive⟩, rfl⟩
        rw [htokens]
        exact hr
  | refreshing | replayed | retiring | succeeding | closing | superseding | issuing =>
      exact hfacts.elim
  | _ => cases hnext

/-- The commit of a login adds its token. -/
theorem ResetOk.login (hok : ResetOk P email userId s log)
    {changes : List (AuthDb → AuthDb)} (haccounts : ∀ s, (view changes s).accounts = s.accounts)
    (h : Inserts userId s held changes row) :
    ResetOk P email userId (view changes s) (log ++ [.loggedIn user row]) where
  named := hok.named.of_accounts (haccounts s)
  logged := by
    intro user' row' hlogged r hr hjti
    rw [h.added] at hr
    rcases List.mem_append.mp hr with hold | hnew
    · rcases List.mem_append.mp hlogged with hbefore | hlast
      · exact hok.logged user' row' hbefore r hold hjti
      · -- The token was free when it was inserted.
        obtain ⟨-, rfl⟩ := AuthState.loggedIn.inj (List.mem_singleton.mp hlast)
        exact absurd (List.mem_map.mpr ⟨r, hold, hjti⟩) h.fresh
    · rw [List.mem_singleton.mp hnew]
      exact h.user
  settled := by
    intro before after grant user' newPassword hlog huser hresets
    rcases Trace.snoc_eq_append_cons hlog with ⟨-, hlast, -⟩ | ⟨rest, rfl, hbefore⟩
    · cases hlast
    refine ⟨fun hlogins => ?_, fun user'' row' hlogged => ?_⟩
    · have hlogin := hlogins _ (List.mem_append_right _ (List.mem_singleton_self _))
      cases hlogin
    · rw [h.added]
      rcases List.mem_append.mp hlogged with hold | hlast
      · have hrest := hok.settled before rest grant user' newPassword hbefore huser
          fun st hst => hresets st (List.mem_append_left _ hst)
        obtain ⟨r, hr, hjti, hlive⟩ := hrest.2 user'' row' hold
        exact ⟨r, List.mem_append_left _ hr, hjti, hlive⟩
      · obtain ⟨-, rfl⟩ := AuthState.loggedIn.inj (List.mem_singleton.mp hlast)
        exact ⟨row', List.mem_append_right _ (List.mem_singleton_self _), rfl, h.live⟩

/-- The commit of a reset settles its user. -/
theorem ResetOk.reset (hverify : ∀ salt password,
      P.verifyPassword password (P.hashPassword salt password) = true)
    (hok : ResetOk P email userId s log) {changes : List (AuthDb → AuthDb)}
    (haccounts : ∀ s, (view changes s).accounts = s.accounts)
    (hrewrites : Rewrites P held changes user newPassword)
    (hrevokes : Revokes s changes user.id ids) (grant : PasswordResetToken) :
    ResetOk P email userId (view changes s) (log ++ [.passwordReset grant user newPassword]) where
  named := hok.named.of_accounts (haccounts s)
  logged := by
    intro user' row' hlogged r hr hjti
    obtain ⟨now, hrevoked⟩ := hrevokes.revoked
    rw [hrevoked] at hr
    obtain ⟨r₀, hr₀, hjti₀, huser₀, -⟩ := AuthDb.mem_setRevoked hr
    rcases List.mem_append.mp hlogged with hbefore | hlast
    · rw [← huser₀]
      exact hok.logged user' row' hbefore r₀ hr₀ (hjti₀.trans hjti)
    · cases List.mem_singleton.mp hlast
  settled := by
    intro before after grant' user' newPassword' hlog huser hresets
    rcases Trace.snoc_eq_append_cons hlog with ⟨-, hlast, rfl⟩ | ⟨rest, rfl, -⟩
    · obtain ⟨-, rfl, rfl⟩ := AuthState.passwordReset.inj hlast
      obtain ⟨now, hrevoked⟩ := hrevokes.revoked
      obtain ⟨salt, hhashed⟩ := hrewrites.hashed
      refine ⟨fun _ => ⟨fun u hu hid => ?_, fun r hr hid => ?_⟩,
        fun _ _ hlogged => by cases hlogged⟩
      · rw [hhashed] at hu
        obtain ⟨u₀, -, rfl⟩ := List.mem_map.mp hu
        split
        · exact hverify salt newPassword
        · rename_i hne
          rw [if_neg hne] at hid
          exact absurd (hid.trans huser.symm) hne
      · rw [hrevoked] at hr
        obtain ⟨r₀, hr₀, -, huser₀, hlive₀⟩ := AuthDb.mem_setRevoked hr
        intro hlive
        obtain ⟨hnone, hids⟩ := hlive₀ hlive
        exact hids (hrevokes.covers r₀ hr₀ (huser₀.trans (hid.trans huser.symm)) hnone)
    · have hlast := hresets _ (List.mem_append_right _ (List.mem_singleton_self _))
      cases hlast

theorem resetting_commit (hverify : ∀ salt password,
      P.verifyPassword password (P.hashPassword salt password) = true)
    (hok : ResetOk P email userId s log) (h : Resetting P email userId s log held t)
    (hnext : authNext P t.state = .commit) :
    ResetOk P email userId (view t.changes s) (log ++ [t.state]) := by
  have hfacts := h.facts
  have haccounts := h.accounts
  obtain ⟨st, snap, changes⟩ := t
  cases st with
  | loggedIn user row => exact hok.login haccounts hfacts
  | passwordReset grant user newPassword =>
      obtain ⟨hrewrites, ids, hrevokes⟩ := hfacts
      exact hok.reset hverify haccounts hrewrites hrevokes grant
  | detected | exchanged | loggedOut | issued => exact hfacts.elim
  | _ => cases hnext

theorem reset_keeps (hverify : ∀ salt password,
      P.verifyPassword password (P.hashPassword salt password) = true) (oldPassword : String) :
    Keeps (authService P) (fun _ _ call => call.LoginOrReset email oldPassword)
      (fun _ _ _ _ => True) (ResetOk P email userId) (Resetting P email userId) where
  begin := fun _ _ _ _ hcall => resetting_begin hcall
  read := fun _ _ _ _ _ hok h _ hnext => resetting_read hok h hnext
  lock := fun _ _ _ _ _ _ _ _ _ _ h _ hnext hrun => resetting_lock h hnext hrun
  commit := fun _ _ _ _ hok h _ hnext => resetting_commit hverify hok h hnext
  other := fun _ _ _ _ _ _ _ h hu _ hapart hnext => resetting_other h hu hapart hnext

end Facts

/-! ### A reset beside logins -/

/-- A list in which one element has `a`: what comes after it is without `b`. -/
theorem pairwise_after_iff {α : Type*} {a b : α → Bool} {before after : List α} {x : α}
    (hx : a x = true) (hbefore : ∀ y ∈ before, a y = false) (hafter : ∀ y ∈ after, a y = false) :
    ((before ++ x :: after).Pairwise fun y z => a y = true → b z = false) ↔
      ∀ z ∈ after, b z = false := by
  have hnone : ∀ ys : List α, (∀ y ∈ ys, a y = false) →
      ys.Pairwise fun y z => a y = true → b z = false := by
    intro ys hys
    refine List.pairwise_iff_forall_sublist.mpr fun {y z} hsub hy => ?_
    rw [hys y (hsub.subset List.mem_cons_self)] at hy
    cases hy
  rw [List.pairwise_append, List.pairwise_cons]
  constructor
  · exact fun h z hz => h.2.1.1 z hz hx
  · refine fun h => ⟨hnone before hbefore, ⟨fun z hz _ => h z hz, hnone after hafter⟩, ?_⟩
    intro y hy z _ ha
    rw [hbefore y hy] at ha
    cases ha

/--
**A reset ends the sessions of the old password, unless a login commits after it.**
Among logins of one user with the old password and one reset of the user that succeeds,
the stored hash verifies the new password and no token a login got is live, exactly if
no step of the run commits a login after the reset has committed.
-/
theorem reset_ends_sessions_iff {ι : Type*} [DecidableEq ι] (P : AuthPorts) (db : AuthDb)
    (email oldPassword : String) (events : List (Event AuthCall ι))
    (p : Pool AuthDb AuthState AuthLock ι) (before after : List AuthState)
    (grant : PasswordResetToken) (user : User) (newPassword : String)
    (hverify : ∀ salt password, P.verifyPassword password (P.hashPassword salt password) = true)
    (hnamed : ∀ u, db.getByEmail P.sameEmail (normalizeEmail P email) = some u → u.id = user.id)
    (hcalls : ∀ i call, Event.begin i call ∈ events → call.LoginOrReset email oldPassword)
    (hrun : Trace.run (poolStep (authService P)) (Pool.start db) events = some p)
    (hlog : p.log = before ++ .passwordReset grant user newPassword :: after)
    (hone : ∀ st ∈ before ++ after, st.resets = false) :
    SessionsEnded P user.id newPassword p.committed p.log ↔
      Trace.Along (poolStep (authService P))
        (fun p e => ¬ CommitsAfter (authService P) AuthState.resets AuthState.logsIn p e)
        (Pool.start db) events := by
  have hstart : ResetOk P email user.id db [] := by
    refine ⟨hnamed, fun _ _ hlogged => (by cases hlogged), fun before after _ _ _ h _ _ => ?_⟩
    simp at h
  have hok := (calls_rule (reset_keeps hverify oldPassword) hstart hcalls hrun).2.rows
  obtain ⟨hsettled, hlive⟩ := hok.settled before after grant user newPassword hlog rfl
    fun st hst => hone st (List.mem_append_right _ hst)
  rw [along_commits_iff hrun, hlog, pairwise_after_iff rfl
    (fun st hst => hone st (List.mem_append_left _ hst))
    (fun st hst => hone st (List.mem_append_right _ hst)), ← hlog]
  constructor
  · intro hended st hst
    cases st with
    | loggedIn user' row =>
        obtain ⟨r, hr, hjti, hnone⟩ := hlive user' row hst
        refine absurd hnone (hended.tokens user' row ?_ r hr hjti)
        rw [hlog]
        exact List.mem_append_right _ (List.mem_cons_of_mem _ hst)
    | _ => rfl
  · intro hnone
    have hclean := hsettled hnone
    refine ⟨hclean.hash, fun user' row hlogged r hr hjti => ?_⟩
    exact hclean.tokens r hr (hok.logged user' row hlogged r hr hjti)

/-! ### One login beside one reset -/

/-- A user with a hash that is to be renewed, and a link to reset the password. -/
def forgotten : AuthDb where
  users := [⟨1, "ada@example.com", "weak hash of old", true, false⟩]
  refreshTokens := []
  passwordResetTokens := [⟨1, "link", 100, none⟩]

/-- A login with the password that was forgotten. -/
def forgottenLogin : AuthCall := .login "ada@example.com" "old" 0 "family" ⟨"jwt", "jwt", 200⟩

/-- The login reads the hash, the reset does all it does, and the login goes on. -/
def overtaken : List (Event AuthCall Bool) :=
  [.begin true forgottenLogin, .begin false (.resetPassword "link" "new" 0 0), .step true] ++
    List.replicate 6 (.step false) ++ [.step true, .step true]

/-- The login has committed when the reset begins. -/
def inTurn : List (Event AuthCall Bool) :=
  [.begin true forgottenLogin, .step true, .step true, .step true,
    .begin false (.resetPassword "link" "new" 0 0)] ++ List.replicate 6 (.step false)

/-- The grant of the link. -/
def forgottenGrant : PasswordResetToken := ⟨1, "link", 100, none⟩

/-- The token of the login. -/
def forgottenRow : RefreshToken := ⟨1, "jwt", "jwt", "family", 200, none⟩

theorem forgotten_calls {events : List (Event AuthCall Bool)}
    (h : events = overtaken ∨ events = inTurn) (i : Bool) (call : AuthCall)
    (hcall : Event.begin i call ∈ events) :
    call.LoginOrReset "ada@example.com" "old" := by
  have hone : call = forgottenLogin ∨ call = .resetPassword "link" "new" 0 0 := by
    rcases h with rfl | rfl
    · simp [overtaken] at hcall
      exact hcall.imp And.right And.right
    · simp [inTurn] at hcall
      exact hcall.imp And.right And.right
  rcases hone with rfl | rfl
  · exact ⟨rfl, rfl⟩
  · exact trivial

theorem forgotten_named (u : User) (hu : forgotten.getByEmail plainPorts.sameEmail
    (normalizeEmail plainPorts "ada@example.com") = some u) : u.id = 1 := by
  have hid : (forgotten.getByEmail plainPorts.sameEmail
      (normalizeEmail plainPorts "ada@example.com")).map User.id = some 1 := by
    decide +kernel
  rw [hu] at hid
  exact Option.some.inj hid

/-- What the condition comes to where the reset follows the login. -/
theorem inTurn_ends_sessions_iff :
    ∃ p, Trace.run (poolStep (authService plainPorts)) (Pool.start forgotten) inTurn = some p ∧
      p.log.map AuthState.logsIn = [true, false] ∧
      (SessionsEnded plainPorts 1 "new" p.committed p.log ↔
        Trace.Along (poolStep (authService plainPorts))
          (fun p e =>
            ¬ CommitsAfter (authService plainPorts) AuthState.resets AuthState.logsIn p e)
          (Pool.start forgotten) inTurn) := by
  have hlog : (Trace.run (poolStep (authService plainPorts)) (Pool.start forgotten) inTurn).map
      Pool.log = some ([.loggedIn ⟨1, "ada@example.com", "weak hash of old", true, false⟩
        forgottenRow] ++ .passwordReset forgottenGrant
          ⟨1, "ada@example.com", "hash of old", true, false⟩ "new" :: []) := by
    decide +kernel
  obtain ⟨p, hrun, hlog⟩ := Option.map_eq_some_iff.mp hlog
  refine ⟨p, hrun, by rw [hlog]; rfl, ?_⟩
  refine reset_ends_sessions_iff plainPorts forgotten "ada@example.com" "old" inTurn p _ []
    forgottenGrant ⟨1, "ada@example.com", "hash of old", true, false⟩ "new" ?_ forgotten_named
    (forgotten_calls (Or.inr rfl)) hrun hlog (by decide)
  intro salt password
  simp [plainPorts]

/--
The login that was overtaken commits after the reset: the hash is that of the old
password again, and the token it got is live.
-/
theorem overtaken_keeps_session :
    ∃ p, Trace.run (poolStep (authService plainPorts)) (Pool.start forgotten) overtaken = some p ∧
      (∀ i, p.opened i = none) ∧
      p.log.map AuthState.resets = [true, false] ∧
      p.committed.users.map User.passwordHash = ["hash of old"] ∧
      p.committed.refreshTokens = [forgottenRow] ∧
      ¬ SessionsEnded plainPorts 1 "new" p.committed p.log := by
  have hfinal : (Trace.run (poolStep (authService plainPorts)) (Pool.start forgotten)
      overtaken).map (fun p =>
        (p.committed, p.log, (p.opened true).isNone, (p.opened false).isNone)) =
      some
        (⟨[⟨1, "ada@example.com", "hash of old", true, false⟩], [forgottenRow],
            [⟨1, "link", 100, some 0⟩]⟩,
          [.passwordReset forgottenGrant ⟨1, "ada@example.com", "weak hash of old", true, false⟩
              "new",
            .loggedIn ⟨1, "ada@example.com", "weak hash of old", true, false⟩ forgottenRow],
          true, true) := by
    decide +kernel
  obtain ⟨p, hrun, hp⟩ := Option.map_eq_some_iff.mp hfinal
  obtain ⟨hcommitted, hp⟩ := Prod.mk.inj hp
  obtain ⟨hlog, hp⟩ := Prod.mk.inj hp
  obtain ⟨htrue, hfalse⟩ := Prod.mk.inj hp
  refine ⟨p, hrun, fun i => ?_, by rw [hlog]; rfl, by rw [hcommitted]; rfl, by rw [hcommitted],
    fun hended => ?_⟩
  · cases i with
    | true => exact Option.isNone_iff_eq_none.mp htrue
    | false => exact Option.isNone_iff_eq_none.mp hfalse
  · rw [hcommitted, hlog] at hended
    exact hended.tokens _ forgottenRow (List.mem_cons_of_mem _ List.mem_cons_self) forgottenRow
      List.mem_cons_self rfl rfl

end Orqent
