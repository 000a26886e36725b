/-
A page that renews its session does not lose it.

Rotation answers a token that was rotated by revoking the family, so the tab must not
present one again.  It has one exchange under way at a time, and the cookie of the next
is the one the last has left; after an exchange that failed that may be the same token,
which was not rotated then.  Whatever others do in the meantime does not touch the rows
of the session: they hold none of its tokens.  So a refresh finds the row of its token
live, and that row is revoked only as its successor is inserted.

What is left are the ways to lose a cookie that the server has already replaced: the
answer that carries it is lost, or another tab presents the old one in the meantime.
-/
import Orqent.Auth.Browser
import Orqent.Auth.Rotation
import Orqent.Auth.Reset

namespace Orqent

open RowTxn

/-! ### What others do not touch -/

section Others

variable {P : AuthPorts} {ids jtis : List String} {familyId : String}

/-- The rows whose ids this browser was given. -/
def AuthDb.given (ids : List String) (s : AuthDb) : List RefreshToken :=
  s.refreshTokens.filter fun r => r.jti ∈ ids

/-- The family of the session is the rows whose ids this browser was given. -/
def AuthDb.Separate (ids : List String) (familyId : String) (s : AuthDb) : Prop :=
  ∀ r ∈ s.refreshTokens, r.jti ∈ ids ↔ r.familyId = familyId

/-- A change that leaves the session alone. -/
structure Spares (ids : List String) (familyId : String) (d : AuthDb → AuthDb) : Prop where
  given : ∀ s, (d s).given ids = s.given ids
  accounts : ∀ s, (d s).accounts = s.accounts
  separate : ∀ s, s.Separate ids familyId → (d s).Separate ids familyId

theorem spares_id : Spares ids familyId id := ⟨fun _ => rfl, fun _ => rfl, fun _ => id⟩

theorem Spares.comp {d e : AuthDb → AuthDb} (hd : Spares ids familyId d)
    (he : Spares ids familyId e) : Spares ids familyId fun s => e (d s) where
  given := fun s => (he.given _).trans (hd.given s)
  accounts := fun s => (he.accounts _).trans (hd.accounts s)
  separate := fun s h => he.separate _ (hd.separate s h)

theorem spares_setRevoked (hjtis : ∀ j ∈ jtis, j ∉ ids) (now : Nat) :
    Spares ids familyId (AuthDb.setRevoked jtis now) where
  given := by
    intro s
    unfold AuthDb.given AuthDb.setRevoked
    dsimp only
    rw [List.filter_map]
    have hsame : ∀ r : RefreshToken,
        (if r.jti ∈ jtis then { r with revokedAt := some now } else r).jti = r.jti := by
      intro r
      split <;> rfl
    have hkeep : ∀ r ∈ s.refreshTokens.filter fun r => r.jti ∈ ids,
        (if r.jti ∈ jtis then { r with revokedAt := some now } else r) = r := by
      intro r hr
      refine if_neg fun hc => hjtis _ hc ?_
      simpa using (List.mem_filter.mp hr).2
    simp only [Function.comp_def, hsame]
    exact (List.map_congr_left hkeep).trans (List.map_id _)
  accounts := fun _ => rfl
  separate := by
    intro s h r hr
    obtain ⟨r₀, hr₀, rfl⟩ := List.mem_map.mp hr
    have hrow := h r₀ hr₀
    split
    · exact hrow
    · exact hrow

theorem spares_addRefreshToken {row : RefreshToken} (hjti : row.jti ∉ ids)
    (hfamily : row.familyId ≠ familyId) : Spares ids familyId (AuthDb.addRefreshToken row) where
  given := by
    intro s
    simp [AuthDb.given, AuthDb.addRefreshToken, hjti]
  accounts := fun _ => rfl
  separate := by
    intro s h r hr
    rcases List.mem_append.mp hr with hold | hnew
    · exact h r hold
    · rw [List.mem_singleton.mp hnew]
      exact iff_of_false hjti hfamily

theorem spares_setPasswordHash (userId : Nat) (hash : String) :
    Spares ids familyId (AuthDb.setPasswordHash userId hash) where
  given := fun _ => rfl
  accounts := fun _ => AuthDb.accounts_setPasswordHash
  separate := fun _ => id

theorem spares_setConsumed (digests : List String) (now : Nat) :
    Spares ids familyId (AuthDb.setConsumed digests now) :=
  ⟨fun _ => rfl, fun _ => rfl, fun _ => id⟩

theorem spares_addPasswordResetToken (row : PasswordResetToken) :
    Spares ids familyId (AuthDb.addPasswordResetToken row) :=
  ⟨fun _ => rfl, fun _ => rfl, fun _ => id⟩

theorem spares_view {changes : List (AuthDb → AuthDb)}
    (h : ∀ d ∈ changes, Spares ids familyId d) : Spares ids familyId (view changes) := by
  induction changes with
  | nil => exact spares_id
  | cons d changes ih =>
      have htail := ih fun e he => h e (List.mem_cons_of_mem _ he)
      exact (h d List.mem_cons_self).comp htail

/-- A call of somebody who holds none of the session's tokens, and does not reset a
password. -/
def AuthCall.Foreign (P : AuthPorts) (ids : List String) (familyId : String) : AuthCall → Prop
  | .login _ _ _ f minted => f ≠ familyId ∧ minted.jti ∉ ids
  | .refresh token _ minted =>
      (∀ claims ∈ P.decode token, claims.jti ∉ ids) ∧ minted.jti ∉ ids
  | .logout token _ => ∀ claims ∈ P.decode token, claims.jti ∉ ids
  | .forgotPassword .. => True
  | .resetPassword .. => False

/-- What such a call knows, by how far it has come. -/
def AuthState.Foreign (ids : List String) (familyId : String) : AuthState → Prop
  | .refused _ | .forgetting .. | .superseding .. | .issuing .. | .issued .. => True
  | .login _ _ _ f minted => f ≠ familyId ∧ minted.jti ∉ ids
  | .verified _ _ row | .loggedIn _ row => row.familyId ≠ familyId ∧ row.jti ∉ ids
  | .refreshing _ claims _ minted => claims.jti ∉ ids ∧ minted.jti ∉ ids
  | .rotating stored _ minted | .retiring stored _ _ minted =>
      stored.familyId ≠ familyId ∧ stored.jti ∉ ids ∧ minted.jti ∉ ids
  | .succeeding stored _ row | .exchanged stored row =>
      stored.familyId ≠ familyId ∧ row.familyId ≠ familyId ∧ row.jti ∉ ids
  | .leaving claims _ => claims.jti ∉ ids
  | .replayed stored _ | .detected stored | .closing stored _ | .loggedOut (some stored) =>
      stored.familyId ≠ familyId
  | .loggedOut none => True
  | _ => False

/-- An open transaction of somebody else. -/
structure Stranger (ids : List String) (familyId : String) (t : Txn AuthDb AuthState) : Prop where
  state : t.state.Foreign ids familyId
  spares : ∀ d ∈ t.changes, Spares ids familyId d
  snap : ∀ s, t.snap = some s → s.Separate ids familyId

variable {s : AuthDb} {t : Txn AuthDb AuthState}

theorem decodeRefreshToken_ok {token : String} {claims : TokenClaims}
    (h : decodeRefreshToken P token = .ok claims) :
    P.decode token = some claims ∧ claims.tokenType = .refresh := by
  unfold decodeRefreshToken at h
  split at h
  · cases h
  · rename_i decoded hdecode
    split at h
    · rename_i htype
      cases h
      exact ⟨hdecode, htype⟩
    · cases h

theorem stranger_begin {call : AuthCall} (h : call.Foreign P ids familyId) :
    Stranger ids familyId ⟨authStart P call, none, []⟩ := by
  suffices hstate : (authStart P call).Foreign ids familyId by
    refine ⟨hstate, fun d hd => absurd hd List.not_mem_nil, fun s hs => ?_⟩
    cases hs
  cases call with
  | login email password salt f minted => exact h
  | refresh token now minted =>
      unfold authStart
      dsimp only
      split
      · exact trivial
      · rename_i claims hclaims
        exact ⟨h.1 claims (decodeRefreshToken_ok hclaims).1, h.2⟩
  | logout token now =>
      unfold authStart
      dsimp only
      split
      · exact trivial
      · rename_i claims hclaims
        exact h claims (decodeRefreshToken_ok hclaims).1
  | forgotPassword email now token => exact trivial
  | resetPassword token newPassword salt now => exact h.elim

/-- A token found by an id the browser was not given is of another family. -/
theorem AuthDb.Separate.other (h : s.Separate ids familyId) {jti : String} (hjti : jti ∉ ids)
    {stored : RefreshToken} (hstored : s.getByJti jti = some stored) :
    stored.familyId ≠ familyId ∧ stored.jti ∉ ids := by
  have hrow : stored.jti = jti := by simpa using List.find?_some hstored
  have hnot : stored.jti ∉ ids := hrow ▸ hjti
  exact ⟨fun hf => hnot ((h stored (AuthDb.getByJti_mem hstored)).mpr hf), hnot⟩

/-- The live rows of another family were not given to the browser. -/
theorem AuthDb.Separate.live_other (h : s.Separate ids familyId) {f : String}
    (hf : f ≠ familyId) : ∀ j ∈ (s.liveOfFamily f).map RefreshToken.jti, j ∉ ids := by
  intro j hj hids
  obtain ⟨r, hr, rfl⟩ := List.mem_map.mp hj
  have hlive := AuthDb.mem_liveOfFamily.mp hr
  exact hf (hlive.family.symm.trans ((h r hlive.mem).mp hids))

theorem stranger_read {k : AuthDb → AuthState} (hs : s.Separate ids familyId)
    (h : Stranger ids familyId t) (hnext : authNext P t.state = .read k) :
    Stranger ids familyId
      ⟨k (view t.changes (t.snap.getD s)), some (t.snap.getD s), t.changes⟩ := by
  obtain ⟨st, snap, changes⟩ := t
  obtain ⟨hstate, hspares, hsnap⟩ := h
  have hread : (snap.getD s).Separate ids familyId := by
    cases snap with
    | none => exact hs
    | some snap => exact hsnap snap rfl
  have hview := (spares_view hspares).separate _ hread
  refine ⟨?_, hspares, fun s' hs' => Option.some.inj hs' ▸ hread⟩
  dsimp only at hnext ⊢
  cases st with
  | login email password salt f minted =>
      cases hnext
      dsimp only
      unfold loginUser
      split
      · exact trivial
      · split
        · exact trivial
        · split
          · exact trivial
          · exact hstate
  | rotating stored now minted =>
      cases hnext
      dsimp only
      split
      · exact trivial
      · split
        · exact hstate
        · exact trivial
  | leaving claims now =>
      cases hnext
      dsimp only
      split
      · exact trivial
      · rename_i stored hstored
        exact (hview.other hstate hstored).1
  | forgetting email now token =>
      cases hnext
      dsimp only
      split
      · exact trivial
      · split
        · exact trivial
        · exact trivial
  | granted => exact hstate.elim
  | _ => cases hnext

/-- The insert of a token of another family. -/
theorem insertToken_foreign {row : RefreshToken} {flushed : AuthDb → AuthDb} (done : AuthState)
    (db : AuthDb) (hflushed : Spares ids familyId flushed) (hjti : row.jti ∉ ids)
    (hfamily : row.familyId ≠ familyId) (hdone : done.Foreign ids familyId) :
    (insertToken row flushed done db).1.Foreign ids familyId ∧
      Spares ids familyId (insertToken row flushed done db).2 := by
  unfold insertToken
  split
  · exact ⟨trivial, spares_id⟩
  · exact ⟨hdone, hflushed.comp (spares_addRefreshToken hjti hfamily)⟩

theorem stranger_lock {locks : (AuthLock → Bool) → AuthDb → List AuthLock}
    {run : (AuthLock → Bool) → AuthDb → Option (AuthState × (AuthDb → AuthDb))}
    {free : AuthLock → Bool} {state : AuthState} {d : AuthDb → AuthDb}
    (hs : s.Separate ids familyId) (h : Stranger ids familyId t)
    (hnext : authNext P t.state = .lock locks run)
    (hrun : run free (view t.changes s) = some (state, d)) :
    Stranger ids familyId ⟨state, t.snap, t.changes ++ [d]⟩ := by
  obtain ⟨st, snap, changes⟩ := t
  obtain ⟨hstate, hspares, hsnap⟩ := h
  have hview := (spares_view hspares).separate s hs
  suffices hnew : state.Foreign ids familyId ∧ Spares ids familyId d by
    refine ⟨hnew.1, fun e he => ?_, hsnap⟩
    rcases List.mem_append.mp he with hold | hlast
    · exact hspares e hold
    · exact List.mem_singleton.mp hlast ▸ hnew.2
  dsimp only at hnext hrun hview
  cases st with
  | verified user rehashed row =>
      cases hnext
      have hflush : Spares ids familyId fun db =>
          rehashed.elim db (db.setPasswordHash user.id ·) := by
        cases rehashed with
        | none => exact spares_id
        | some hash => exact spares_setPasswordHash user.id hash
      have hins := insertToken_foreign (.loggedIn user row) (view changes s) hflush hstate.2
        hstate.1 hstate
      rw [Option.some.inj hrun] at hins
      exact hins
  | refreshing token claims now minted =>
      cases hnext
      cases hrun
      refine ⟨?_, spares_id⟩
      unfold refreshStored
      split
      · exact trivial
      · rename_i stored hstored
        have hother := hview.other hstate.1 hstored
        split
        · exact trivial
        · split
          · exact hother.1
          · split
            · exact trivial
            · exact ⟨hother.1, hother.2, hstate.2⟩
  | replayed stored now =>
      cases hnext
      cases hrun
      exact ⟨hstate, spares_setRevoked (hview.live_other hstate) now⟩
  | closing stored now =>
      cases hnext
      cases hrun
      exact ⟨hstate, spares_setRevoked (hview.live_other hstate) now⟩
  | retiring stored user now minted =>
      cases hnext
      cases hrun
      refine ⟨⟨hstate.1, hstate.1, hstate.2.2⟩, spares_setRevoked (fun j hj => ?_) now⟩
      rw [List.mem_singleton.mp hj]
      exact hstate.2.1
  | succeeding stored user row =>
      cases hnext
      have hflush : Spares ids familyId id := spares_id
      have hins := insertToken_foreign (.exchanged stored row) (view changes s) hflush hstate.2.2
        hstate.2.1 hstate
      rw [Option.some.inj hrun] at hins
      exact hins
  | superseding user now token =>
      cases hnext
      cases hrun
      exact ⟨trivial, spares_setConsumed _ now⟩
  | issuing user row =>
      cases hnext
      dsimp only at hrun
      split at hrun
      · cases hrun
        exact ⟨trivial, spares_id⟩
      · cases hrun
        exact ⟨trivial, spares_addPasswordResetToken row⟩
  | redeeming | setting | consuming | ending => exact hstate.elim
  | _ => cases hnext

end Others

/-! ### The transaction of an exchange -/

/-- A refresh that revokes a family of which a revoked token was presented. -/
def AuthState.detects (familyId : String) : AuthState → Bool
  | .detected stored => stored.familyId = familyId
  | _ => false

/-- The one live row of the session. -/
structure CurrentRow (ids : List String) (s : AuthDb) (cur : RefreshToken) : Prop where
  keys : ((s.given ids).map RefreshToken.jti).Nodup
  mem : cur ∈ s.given ids
  live : cur.revokedAt = none
  single : ∀ r ∈ s.given ids, r.revokedAt = none → r = cur

/-- The token of a row. -/
structure TokenOf (P : AuthPorts) (row : RefreshToken) (token : String) : Prop where
  claims : P.decode token = some ⟨row.jti, .refresh⟩
  digest : P.hashToken token = row.tokenHash

/-- What the refresh of an exchange knows and has written, by how far it has come. -/
def Renewal (P : AuthPorts) (ids : List String) (familyId : String) (s : AuthDb)
    (cur : RefreshToken) (minted : Minted) (t : Txn AuthDb AuthState) : Prop :=
  match t.state with
  | .refused _ => True
  | .refreshing token claims _ m =>
      m = minted ∧ (∀ s, view t.changes s = s) ∧ claims.jti = cur.jti ∧
        P.hashToken token = cur.tokenHash
  | .rotating stored _ m | .retiring stored _ _ m =>
      m = minted ∧ (∀ s, view t.changes s = s) ∧ stored = cur
  | .succeeding stored user row =>
      row = issuedRow P user familyId minted ∧ stored = cur ∧
        ∃ now, ∀ s, view t.changes s = s.revise [cur.jti] now []
  | .exchanged stored row =>
      (∃ user, row = issuedRow P user familyId minted) ∧ stored = cur ∧
        row.jti ∉ (s.given ids).map RefreshToken.jti ∧
        ∃ now, ∀ s, view t.changes s = s.revise [cur.jti] now [row]
  | _ => False

section Renewals

variable {P : AuthPorts} {ids : List String} {familyId : String} {s s' : AuthDb}
  {cur row : RefreshToken} {minted : Minted} {t : Txn AuthDb AuthState}

theorem AuthDb.mem_given {r : RefreshToken} :
    r ∈ s.given ids ↔ r ∈ s.refreshTokens ∧ r.jti ∈ ids := by
  simp [AuthDb.given]

theorem AuthDb.given_jtis : (s.given ids).map RefreshToken.jti = s.jtis.filter (· ∈ ids) := by
  unfold AuthDb.given AuthDb.jtis
  rw [List.filter_map]
  rfl

/-- A token the browser was given is looked up among those it was given. -/
theorem AuthDb.getByJti_given {jti : String} (hjti : jti ∈ ids) :
    s.getByJti jti = (s.given ids).find? fun r => r.jti = jti := by
  unfold AuthDb.getByJti AuthDb.given
  rw [List.find?_filter]
  congr 1
  funext r
  by_cases hr : r.jti = jti
  · simp [hr, hjti]
  · simp [hr]

theorem CurrentRow.getByJti (h : CurrentRow ids s cur) : s.getByJti cur.jti = some cur := by
  rw [AuthDb.getByJti_given (AuthDb.mem_given.mp h.mem).2]
  cases hfind : (s.given ids).find? fun r => r.jti = cur.jti with
  | none => exact absurd (List.find?_eq_none.mp hfind cur h.mem) (by simp)
  | some r =>
      have hjti : r.jti = cur.jti := by simpa using List.find?_some hfind
      refine congrArg some ?_
      exact List.inj_on_of_nodup_map h.keys (List.mem_of_find?_eq_some hfind) h.mem hjti

/-- The rows of the session say all of it. -/
theorem CurrentRow.of_given (h : CurrentRow ids s cur) (heq : s'.given ids = s.given ids) :
    CurrentRow ids s' cur := by
  refine ⟨?_, ?_, h.live, ?_⟩
  · rw [heq]
    exact h.keys
  · rw [heq]
    exact h.mem
  · rw [heq]
    exact h.single

theorem Renewal.of_given (h : Renewal P ids familyId s cur minted t)
    (heq : s'.given ids = s.given ids) : Renewal P ids familyId s' cur minted t := by
  obtain ⟨st, snap, changes⟩ := t
  unfold Renewal at h ⊢
  cases st with
  | exchanged stored row =>
      dsimp only at h ⊢
      rw [heq]
      exact h
  | _ => exact h

theorem renewal_begin {token : String} {now : Nat} (h : TokenOf P cur token) :
    Renewal P ids familyId s cur minted ⟨authStart P (.refresh token now minted), none, []⟩ := by
  have hdecode : decodeRefreshToken P token = .ok ⟨cur.jti, .refresh⟩ := by
    unfold decodeRefreshToken
    rw [h.claims]
    rfl
  unfold authStart
  dsimp only
  rw [hdecode]
  exact ⟨rfl, fun _ => rfl, rfl, h.digest⟩

theorem renewal_read {k : AuthDb → AuthState} (h : Renewal P ids familyId s cur minted t)
    (hnext : authNext P t.state = .read k) :
    Renewal P ids familyId s cur minted
      ⟨k (view t.changes (t.snap.getD s)), some (t.snap.getD s), t.changes⟩ := by
  obtain ⟨st, snap, changes⟩ := t
  cases st with
  | rotating stored now m =>
      cases hnext
      dsimp only
      split
      · exact trivial
      · split
        · exact h
        · exact trivial
  | login | leaving | forgetting | granted => exact h.elim
  | _ => cases hnext

/-- The refresh finds the row of its token live. -/
theorem renewal_lock {locks : (AuthLock → Bool) → AuthDb → List AuthLock}
    {run : (AuthLock → Bool) → AuthDb → Option (AuthState × (AuthDb → AuthDb))}
    {free : AuthLock → Bool} {state : AuthState} {d : AuthDb → AuthDb}
    (hs : s.Separate ids familyId) (hcur : CurrentRow ids s cur)
    (h : Renewal P ids familyId s cur minted t)
    (hnext : authNext P t.state = .lock locks run)
    (hrun : run free (view t.changes s) = some (state, d)) :
    Renewal P ids familyId s cur minted ⟨state, t.snap, t.changes ++ [d]⟩ := by
  obtain ⟨st, snap, changes⟩ := t
  dsimp only at hnext hrun
  cases st with
  | refreshing token claims now m =>
      obtain ⟨rfl, hview, hjti, hdigest⟩ := h
      cases hnext
      cases hrun
      rw [hview, hjti, hcur.getByJti]
      have hsame : ∀ s, view (changes ++ [id]) s = s := by
        intro s
        rw [view_snoc, hview, id]
      have hstored : refreshStored P token now m (some cur) =
          if cur.expiresAt ≤ now then .refused (some invalidRefresh) else .rotating cur now m := by
        simp [refreshStored, hdigest, hcur.live]
      rw [hstored]
      split
      · exact trivial
      · exact ⟨rfl, hsame, rfl⟩
  | retiring stored user now m =>
      obtain ⟨rfl, hview, rfl⟩ := h
      cases hnext
      cases hrun
      refine ⟨?_, rfl, now, fun s => ?_⟩
      · rw [(hs stored (AuthDb.mem_given.mp hcur.mem).1).mp (AuthDb.mem_given.mp hcur.mem).2]
      · rw [view_snoc, hview, AuthDb.setRevoked_eq_revise]
  | succeeding stored user row =>
      obtain ⟨hrow, rfl, now, hview⟩ := h
      cases hnext
      dsimp only [insertToken] at hrun
      split at hrun
      · cases hrun
        exact trivial
      · rename_i hfresh
        cases hrun
        rw [hview, AuthDb.jtis_revise, List.map_nil, List.append_nil] at hfresh
        refine ⟨⟨user, hrow⟩, rfl, fun hmem => hfresh ?_, now, fun s => ?_⟩
        · obtain ⟨r, hr, hjti⟩ := List.mem_map.mp hmem
          exact List.mem_map.mpr ⟨r, (AuthDb.mem_given.mp hr).1, hjti⟩
        · rw [view_snoc, hview, id, AuthDb.addRefreshToken_revise]
  | verified | replayed | closing | superseding | issuing | redeeming | setting | consuming |
      ending => exact h.elim
  | _ => cases hnext

/-- The commit replaces the live row by the row of the token it issues. -/
theorem renewal_commit (hs : s.Separate ids familyId) (hcur : CurrentRow ids s cur)
    (h : Renewal P ids familyId s cur minted t) (hminted : minted.jti ∈ ids)
    (hclaims : P.decode minted.token = some ⟨minted.jti, .refresh⟩)
    (hnext : authNext P t.state = .commit) :
    (view t.changes s).Separate ids familyId ∧ t.state.detects familyId = false ∧
      (∃ stored row, t.state = .exchanged stored row) ∧
      ∃ cur', CurrentRow ids (view t.changes s) cur' ∧ TokenOf P cur' minted.token := by
  obtain ⟨st, snap, changes⟩ := t
  dsimp only at hnext ⊢
  cases st with
  | exchanged stored row =>
      obtain ⟨⟨user, rfl⟩, rfl, hfresh, now, hview⟩ := h
      rw [hview]
      obtain ⟨hmem, hid⟩ := AuthDb.mem_given.mp hcur.mem
      refine ⟨?_, rfl, ⟨_, _, rfl⟩, issuedRow P user familyId minted, ⟨?_, ?_, rfl, ?_⟩,
        ⟨hclaims, rfl⟩⟩
      · intro r hr
        rcases List.mem_append.mp hr with hold | hnew
        · obtain ⟨r₀, hr₀, rfl⟩ := List.mem_map.mp hold
          have hrow := hs r₀ hr₀
          split
          · exact hrow
          · exact hrow
        · rw [List.mem_singleton.mp hnew]
          exact iff_of_true hminted rfl
      · rw [AuthDb.given_jtis, AuthDb.jtis_revise, List.filter_append, ← AuthDb.given_jtis,
          List.filter_eq_self.mpr (by simpa [issuedRow] using hminted)]
        refine List.nodup_append.mpr ⟨hcur.keys, List.nodup_singleton _, ?_⟩
        rintro j hj _ hk rfl
        exact hfresh (List.mem_singleton.mp hk ▸ hj)
      · exact AuthDb.mem_given.mpr ⟨List.mem_append_right _ List.mem_cons_self, hminted⟩
      · intro r hr hlive
        obtain ⟨hr, hrid⟩ := AuthDb.mem_given.mp hr
        rcases AuthDb.live_revise hr hlive with ⟨hold, hjti⟩ | hnew
        · have hrcur := hcur.single r (AuthDb.mem_given.mpr ⟨hold, hrid⟩) hlive
          exact absurd (hrcur ▸ List.mem_singleton_self _) hjti
        · exact List.mem_singleton.mp hnew
  | detected | loggedIn | issued | passwordReset | loggedOut => exact h.elim
  | _ => cases hnext

end Renewals

/-! ### What is kept -/

/-- The cookie, if there is one, is the token of the live row. -/
def CookieOf (P : AuthPorts) (cur : RefreshToken) (cookie : Option String) : Prop :=
  ∀ token, cookie = some token → TokenOf P cur token

/-- What an exchange the server has received comes to. -/
def ServedOk (P : AuthPorts) (ids : List String) (familyId : String) (w : Browser Unit)
    (cur : RefreshToken) (n : Nat) : Served → Prop
  | .pending _ minted =>
      CookieOf P cur w.jar ∧ minted.jti ∈ ids ∧
        P.decode minted.token = some ⟨minted.jti, .refresh⟩ ∧
        ∃ t, w.pool.opened (.inl n) = some t ∧
          Renewal P ids familyId w.pool.committed cur minted t
  | .answered (.issued _ token) => w.pool.opened (.inl n) = none ∧ TokenOf P cur token
  | .answered _ => w.pool.opened (.inl n) = none ∧ CookieOf P cur w.jar

/-- How far the one exchange of the tab has come. -/
def InFlightOk (P : AuthPorts) (ids : List String) (familyId : String) (w : Browser Unit)
    (cur : RefreshToken) : Option InFlight → Prop
  | none => CookieOf P cur w.jar ∧ ∀ n, w.pool.opened (.inl n) = none
  | some (.sent cookie) =>
      cookie = w.jar ∧ CookieOf P cur w.jar ∧ ∀ n, w.pool.opened (.inl n) = none
  | some (.reached n) =>
      (∀ m ≠ n, w.pool.opened (.inl m) = none) ∧
        ∃ served, w.exchanges n = some served ∧ ServedOk P ids familyId w cur n served

/-- What holds of the session of one tab, whatever others do. -/
structure SessionOk (P : AuthPorts) (ids : List String) (familyId : String) (w : Browser Unit) :
    Prop where
  separate : w.pool.committed.Separate ids familyId
  strangers : ∀ i t, w.pool.opened (.inr i) = some t → Stranger ids familyId t
  undetected : ∀ st ∈ w.pool.log, st.detects familyId = false
  live : ∃ cur, CurrentRow ids w.pool.committed cur ∧
    InFlightOk P ids familyId w cur (w.tabs ()).refreshInFlight

/-- Others do not hold the session's tokens; the tokens drawn for this browser are those of
`ids`; and no connection is lost once the server has begun to answer with a new cookie. -/
def Received (P : AuthPorts) (ids : List String) (familyId : String) (w : Browser Unit) :
    BrowserEvent Unit → Prop
  | .arrive _ _ _ _ minted =>
      minted.jti ∈ ids ∧ P.decode minted.token = some ⟨minted.jti, .refresh⟩
  | .lose _ => ∀ n, (w.tabs ()).refreshInFlight = some (.reached n) →
      w.exchanges n = some (.answered .rejected) ∨ w.exchanges n = some (.answered .failed)
  | .other (.begin _ call) => call.Foreign P ids familyId
  | _ => True

section Kept

variable {P : AuthPorts} {ids : List String} {familyId : String} {w w' : Browser Unit}
  {cur : RefreshToken} {n : Nat}

/-- Only the tab moved on: its exchange is the one it had, or a new one. -/
theorem SessionOk.retab (h : SessionOk P ids familyId w) {tab : Tab}
    (htab : tab.refreshInFlight = (w.tabs ()).refreshInFlight ∨
      tab.refreshInFlight = some ((w.tabs ()).refreshInFlight.getD (.sent w.jar))) :
    SessionOk P ids familyId (w.setTab () tab) := by
  obtain ⟨hseparate, hstrangers, hundetected, cur, hcur, hinflight⟩ := h
  refine ⟨hseparate, hstrangers, hundetected, cur, hcur, ?_⟩
  have hmine : ((w.setTab () tab).tabs ()).refreshInFlight = tab.refreshInFlight := by
    simp [Browser.setTab]
  rw [hmine]
  rcases htab with hsame | hnew
  · rw [hsame]
    exact hinflight
  · rw [hnew]
    cases hold : (w.tabs ()).refreshInFlight with
    | none =>
        rw [hold] at hinflight
        exact ⟨rfl, hinflight⟩
    | some exchange =>
        rw [hold] at hinflight
        exact hinflight

theorem InFlightOk.of_sent {cookie : Option String} {served : Served}
    (h : InFlightOk P ids familyId w cur (some (.sent cookie)))
    (hserved : served = .answered .rejected ∨ served = .answered .failed) :
    InFlightOk P ids familyId (w.reach () n served) cur (some (.reached n)) := by
  obtain ⟨-, hcookie, hopened⟩ := h
  refine ⟨fun m _ => hopened m, served, ?_, ?_⟩
  · simp [Browser.reach, Browser.setExchange]
  · rcases hserved with rfl | rfl
    · exact ⟨hopened n, hcookie⟩
    · exact ⟨hopened n, hcookie⟩

/-- An exchange whose transaction is open is the tab's, and its tokens are drawn. -/
theorem InFlightOk.of_open {t : Txn AuthDb AuthState} {inFlight : Option InFlight}
    (h : InFlightOk P ids familyId w cur inFlight) (hopen : w.pool.opened (.inl n) = some t) :
    inFlight = some (.reached n) ∧ (∀ m ≠ n, w.pool.opened (.inl m) = none) ∧
      ∃ access minted, w.exchanges n = some (.pending access minted) ∧
        CookieOf P cur w.jar ∧ minted.jti ∈ ids ∧
        P.decode minted.token = some ⟨minted.jti, .refresh⟩ ∧
        Renewal P ids familyId w.pool.committed cur minted t := by
  have hclosed : ∀ {m}, w.pool.opened (.inl m) = none → m ≠ n := by
    rintro m hnone rfl
    rw [hnone] at hopen
    cases hopen
  cases inFlight with
  | none => exact absurd rfl (hclosed (h.2 n))
  | some inFlight =>
      cases inFlight with
      | sent cookie => exact absurd rfl (hclosed (h.2.2 n))
      | reached m =>
          obtain ⟨hothers, served, hserved, hok⟩ := h
          have hm : m = n := by
            by_contra hne
            exact absurd rfl (hclosed (hothers n (Ne.symm hne)))
          subst hm
          refine ⟨rfl, hothers, ?_⟩
          cases served with
          | pending access minted =>
              obtain ⟨hcookie, hmem, hclaims, t', ht', hrenewal⟩ := hok
              obtain rfl := Option.some.inj (hopen.symm.trans ht')
              exact ⟨access, minted, hserved, hcookie, hmem, hclaims, hrenewal⟩
          | answered reply =>
              cases reply with
              | issued access token => exact absurd rfl (hclosed hok.1)
              | rejected => exact absurd rfl (hclosed hok.1)
              | failed => exact absurd rfl (hclosed hok.1)

/-- The exchange reaches the server, and its transaction begins. -/
theorem SessionOk.arrive (h : SessionOk P ids familyId w) {token access : String} {now : Nat}
    {minted : Minted} {pool : Pool AuthDb AuthState AuthLock (Nat ⊕ Nat)}
    (hsent : (w.tabs ()).refreshInFlight = some (.sent (some token)))
    (hminted : minted.jti ∈ ids) (hclaims : P.decode minted.token = some ⟨minted.jti, .refresh⟩)
    (hstep : poolStep (authService P) w.pool (.begin (.inl n) (.refresh token now minted)) =
      some pool) :
    SessionOk P ids familyId ({ w with pool }.reach () n (.pending access minted)) := by
  obtain ⟨hseparate, hstrangers, hundetected, cur, hcur, hinflight⟩ := h
  rw [hsent] at hinflight
  obtain ⟨hjar, hcookie, hopened⟩ := hinflight
  cases poolStep_moves hstep with
  | begin i call hclosed =>
      refine ⟨hseparate, fun i t hi => hstrangers i t ?_, hundetected, cur, hcur, ?_⟩
      · rwa [← Pool.opened_put_ne (p := w.pool) (i := .inl n) (j := .inr i) (by simp)]
      · dsimp only [Browser.reach, Browser.setTab, Browser.setExchange]
        rw [Function.update_self]
        refine ⟨fun m hm => ?_, _, Function.update_self .., hcookie, hminted, hclaims, _,
          Pool.opened_put_self, renewal_begin (hcookie token hjar.symm)⟩
        exact (Pool.opened_put_ne (by simpa using hm)).trans (hopened m)
  | ended e i t hopen hend => rcases hend with hc | ⟨hc, -⟩ <;> cases hc

/-- An exchange whose transaction has not rotated the token issues none. -/
theorem replyOf_cases {access : String} {minted : Minted} {st : AuthState}
    (h : ∀ stored row, st ≠ .exchanged stored row) :
    replyOf access minted st = .rejected ∨ replyOf access minted st = .failed := by
  unfold replyOf
  split
  · rename_i stored row
    exact absurd rfl (h stored row)
  · exact Or.inl rfl
  · exact Or.inl rfl
  · exact Or.inr rfl

/-- The transaction of the exchange moves on, or ends without a commit, or commits. -/
theorem SessionOk.serve (h : SessionOk P ids familyId w) {access : String} {minted : Minted}
    (hpending : w.exchanges n = some (.pending access minted))
    (hstep : w.serve P n access minted = some w') : SessionOk P ids familyId w' := by
  obtain ⟨hseparate, hstrangers, hundetected, cur, hcur, hinflight⟩ := h
  unfold Browser.serve at hstep
  obtain ⟨t, hopen, hstep⟩ := Option.bind_eq_some_iff.mp hstep
  obtain ⟨pool, hpool, rfl⟩ := Option.map_eq_some_iff.mp hstep
  obtain ⟨hreached, hothers, access', minted', hserved, hcookie, hmem, hclaims, hrenewal⟩ :=
    hinflight.of_open hopen
  rw [hpending] at hserved
  cases hserved
  have hmoves := poolStep_moves hpool
  have hrest : ∀ i, pool.opened (.inr i) = w.pool.opened (.inr i) :=
    fun i => hmoves.opened_other (by simp [Event.txn])
  have hmine : ∀ m ≠ n, pool.opened (.inl m) = none :=
    fun m hm => (hmoves.opened_other (by simpa [Event.txn] using hm)).trans (hothers m hm)
  -- While it is open, the answer is pending.
  have hopenOk : ∀ u, pool.opened (.inl n) = some u → pool.committed = w.pool.committed →
      pool.log = w.pool.log → Renewal P ids familyId w.pool.committed cur minted u →
      SessionOk P ids familyId { w with pool } := by
    intro u hu hcommitted hlog hren
    refine ⟨?_, fun i t hi => hstrangers i t ((hrest i).symm.trans hi), ?_, cur, ?_, ?_⟩
    · rw [hcommitted]
      exact hseparate
    · rw [hlog]
      exact hundetected
    · rw [hcommitted]
      exact hcur
    · dsimp only
      rw [hreached]
      refine ⟨hmine, _, hpending, hcookie, hmem, hclaims, u, hu, ?_⟩
      rw [hcommitted]
      exact hren
  cases hmoves with
  | read i u k hu hnext =>
      obtain rfl := Option.some.inj (hopen.symm.trans hu)
      rw [if_pos (by simp)]
      exact hopenOk _ Pool.opened_put_self rfl rfl (renewal_read hrenewal hnext)
  | lock i u locks run state d hu hnext hfree hrun =>
      obtain rfl := Option.some.inj (hopen.symm.trans hu)
      rw [if_pos (by simp [Pool.put])]
      exact hopenOk _ (Function.update_self ..) rfl rfl
        (renewal_lock hseparate hcur hrenewal hnext hrun)
  | commit i u hu hnext =>
      obtain rfl := Option.some.inj (hopen.symm.trans hu)
      obtain ⟨hseparate', hquiet, ⟨stored, row, hexchanged⟩, cur', hcur', htoken⟩ :=
        renewal_commit hseparate hcur hrenewal hmem hclaims hnext
      rw [if_neg (by simp [Pool.ended])]
      refine ⟨hseparate', fun i t hi => hstrangers i t ((hrest i).symm.trans hi), ?_, cur', hcur',
        ?_⟩
      · intro st hst
        rcases List.mem_append.mp hst with hold | hlast
        · exact hundetected st hold
        · rw [List.mem_singleton.mp hlast]
          exact hquiet
      · dsimp only [Browser.setExchange]
        rw [hreached, hexchanged]
        exact ⟨hmine, _, Function.update_self .., Pool.opened_ended_self, htoken⟩
  | ended e i u hu hend =>
      obtain ⟨rfl, hnext⟩ : i = .inl n ∧ (authService P).next u.state ≠ .commit := by
        rcases hend with hc | ⟨hc, hnext⟩
        · cases hc
        · cases hc
          exact ⟨rfl, hnext⟩
      obtain rfl := Option.some.inj (hopen.symm.trans hu)
      rw [if_neg (by simp)]
      refine ⟨hseparate, fun i t hi => hstrangers i t ((hrest i).symm.trans hi), hundetected, cur,
        hcur, ?_⟩
      dsimp only [Browser.setExchange]
      rw [hreached]
      refine ⟨hmine, _, Function.update_self .., ?_⟩
      have hreply : replyOf access minted t.state = .rejected ∨
          replyOf access minted t.state = .failed := by
        refine replyOf_cases fun stored row hst => hnext ?_
        rw [hst]
        rfl
      rcases hreply with heq | heq
      · rw [heq]
        exact ⟨Pool.opened_ended_self, hcookie⟩
      · rw [heq]
        exact ⟨Pool.opened_ended_self, hcookie⟩

/-- The transaction of the exchange fails. -/
theorem SessionOk.crash (h : SessionOk P ids familyId w)
    {pool : Pool AuthDb AuthState AuthLock (Nat ⊕ Nat)}
    (hstep : poolStep (authService P) w.pool (.abort (.inl n)) = some pool) :
    SessionOk P ids familyId ({ w with pool }.setExchange n (.answered .failed)) := by
  obtain ⟨hseparate, hstrangers, hundetected, cur, hcur, hinflight⟩ := h
  obtain ⟨t, hopen, rfl⟩ := Option.map_eq_some_iff.mp hstep
  obtain ⟨hreached, hothers, -, -, -, hcookie, -⟩ := hinflight.of_open hopen
  refine ⟨hseparate, fun i t hi => hstrangers i t ?_, hundetected, cur, hcur, ?_⟩
  · rwa [← Pool.opened_ended_ne (p := w.pool) (i := .inl n) (j := .inr i) (by simp)]
  · dsimp only [Browser.setExchange]
    rw [hreached]
    refine ⟨fun m hm => ?_, _, Function.update_self .., Pool.opened_ended_self, hcookie⟩
    exact (Pool.opened_ended_ne (by simpa using hm)).trans (hothers m hm)

/-- The tab has no exchange any more, and the cookie is that of the live row. -/
theorem SessionOk.settle (h : SessionOk P ids familyId w) {jar : Option String}
    (issued : Option String)
    (hsettled : ∀ cur, InFlightOk P ids familyId w cur (w.tabs ()).refreshInFlight →
      CookieOf P cur jar ∧ ∀ n, w.pool.opened (.inl n) = none) :
    SessionOk P ids familyId
      { w.setTab () ((w.tabs ()).refreshed issued) with jar := jar } := by
  obtain ⟨hseparate, hstrangers, hundetected, cur, hcur, hinflight⟩ := h
  refine ⟨hseparate, hstrangers, hundetected, cur, hcur, ?_⟩
  simp only [Browser.setTab, Function.update_self, Tab.refreshed]
  exact hsettled cur hinflight

/-- The one exchange is over, so nothing of this browser is open. -/
theorem closed_of_answered (hothers : ∀ m ≠ n, w.pool.opened (.inl m) = none)
    (hclosed : w.pool.opened (.inl n) = none) : ∀ m, w.pool.opened (.inl m) = none := by
  intro m
  by_cases hm : m = n
  · exact hm ▸ hclosed
  · exact hothers m hm

theorem SessionOk.receive (h : SessionOk P ids familyId w) {reply : Reply}
    (hreached : (w.tabs ()).refreshInFlight = some (.reached n))
    (hanswered : w.exchanges n = some (.answered reply)) :
    SessionOk P ids familyId
      { w.setTab () ((w.tabs ()).refreshed reply.accessToken) with jar := reply.cookie w.jar } := by
  refine h.settle reply.accessToken fun cur hinflight => ?_
  rw [hreached] at hinflight
  obtain ⟨hothers, served, hserved, hok⟩ := hinflight
  obtain rfl := Option.some.inj (hanswered.symm.trans hserved)
  cases reply with
  | issued access token =>
      refine ⟨fun token' htoken => ?_, closed_of_answered hothers hok.1⟩
      exact Option.some.inj htoken ▸ hok.2
  | rejected => exact ⟨fun token htoken => (by cases htoken), closed_of_answered hothers hok.1⟩
  | failed => exact ⟨hok.2, closed_of_answered hothers hok.1⟩

theorem SessionOk.lose (h : SessionOk P ids familyId w) {inFlight : InFlight}
    (hinFlight : (w.tabs ()).refreshInFlight = some inFlight)
    (hharmless : ∀ n, (w.tabs ()).refreshInFlight = some (.reached n) →
      w.exchanges n = some (.answered .rejected) ∨ w.exchanges n = some (.answered .failed)) :
    SessionOk P ids familyId (w.setTab () ((w.tabs ()).refreshed none)) := by
  refine h.settle none fun cur hok => ?_
  cases inFlight with
  | sent cookie =>
      rw [hinFlight] at hok
      exact hok.2
  | reached n =>
      have hanswered := hharmless n hinFlight
      rw [hinFlight] at hok
      obtain ⟨hothers, served, hserved, hok⟩ := hok
      rcases hanswered with heq | heq
      · obtain rfl := Option.some.inj (heq.symm.trans hserved)
        exact ⟨hok.2, closed_of_answered hothers hok.1⟩
      · obtain rfl := Option.some.inj (heq.symm.trans hserved)
        exact ⟨hok.2, closed_of_answered hothers hok.1⟩

/-- What a transaction of somebody else does: its own state stays foreign, and what it
commits spares the session. -/
structure OthersMove (ids : List String) (familyId : String)
    (p p' : Pool AuthDb AuthState AuthLock (Nat ⊕ Nat)) : Prop where
  committed : ∃ d, Spares ids familyId d ∧ p'.committed = d p.committed
  strangers : ∀ i t, p'.opened (.inr i) = some t → Stranger ids familyId t
  log : ∀ st ∈ p'.log, st ∈ p.log ∨ st.Foreign ids familyId

theorem foreign_not_detects {st : AuthState} (h : st.Foreign ids familyId) :
    st.detects familyId = false := by
  cases st with
  | detected stored => exact decide_eq_false h
  | _ => rfl

theorem others_move {p p' : Pool AuthDb AuthState AuthLock (Nat ⊕ Nat)} {e : Event AuthCall Nat}
    (hseparate : p.committed.Separate ids familyId)
    (hstrangers : ∀ i t, p.opened (.inr i) = some t → Stranger ids familyId t)
    (hforeign : ∀ i call, e = .begin i call → call.Foreign P ids familyId)
    (hmoves : Moves (authService P) p (byOthers e) p') : OthersMove ids familyId p p' := by
  -- All but the one transaction are as they were.
  have hrest : ∀ i t, p'.opened (.inr i) = some t →
      (.inr i = (byOthers e).txn → Stranger ids familyId t) → Stranger ids familyId t := by
    intro i t hi hmine
    by_cases htxn : .inr i = (byOthers e).txn
    · exact hmine htxn
    · exact hstrangers i t ((hmoves.opened_other htxn).symm.trans hi)
  have hsame : ∀ st ∈ p.log, st ∈ p.log ∨ st.Foreign ids familyId := fun st hst => Or.inl hst
  cases e with
  | begin j call =>
      cases hmoves with
      | begin i call hclosed =>
          refine ⟨⟨id, spares_id, rfl⟩, fun i t hi => hrest i t hi fun htxn => ?_, hsame⟩
          rw [htxn] at hi
          obtain rfl := Option.some.inj (Pool.opened_put_self.symm.trans hi)
          exact stranger_begin (hforeign j call rfl)
      | ended e i t hopen hend => rcases hend with hc | ⟨hc, -⟩ <;> cases hc
  | abort j =>
      cases hmoves with
      | ended e i t hopen hend =>
          refine ⟨⟨id, spares_id, rfl⟩, fun k u hk => hrest k u hk fun htxn => ?_, hsame⟩
          rcases hend with hc | ⟨hc, -⟩
          · cases hc
            rw [htxn] at hk
            cases Pool.opened_ended_self.symm.trans hk
          · cases hc
  | step j =>
      cases hmoves with
      | read i t k hopen hnext =>
          refine ⟨⟨id, spares_id, rfl⟩, fun k u hk => hrest k u hk fun htxn => ?_, hsame⟩
          rw [htxn] at hk
          obtain rfl := Option.some.inj (Pool.opened_put_self.symm.trans hk)
          exact stranger_read hseparate (hstrangers j t hopen) hnext
      | lock i t locks run state d hopen hnext hfree hrun =>
          refine ⟨⟨id, spares_id, rfl⟩, fun k u hk => hrest k u hk fun htxn => ?_, hsame⟩
          rw [htxn] at hk
          dsimp only [Pool.put, byOthers, Event.txn] at hk
          rw [Function.update_self] at hk
          cases hk
          exact stranger_lock hseparate (hstrangers j t hopen) hnext hrun
      | commit i t hopen hnext =>
          have hstranger := hstrangers j t hopen
          refine ⟨⟨_, spares_view hstranger.spares, rfl⟩,
            fun k u hk => hrest k u hk fun htxn => ?_, fun st hst => ?_⟩
          · rw [htxn] at hk
            cases Pool.opened_ended_self.symm.trans hk
          · rcases List.mem_append.mp hst with hold | hlast
            · exact Or.inl hold
            · exact Or.inr (List.mem_singleton.mp hlast ▸ hstranger.state)
      | ended e i t hopen hend =>
          refine ⟨⟨id, spares_id, rfl⟩, fun k u hk => hrest k u hk fun htxn => ?_, hsame⟩
          rcases hend with hc | ⟨hc, -⟩
          · cases hc
          · cases hc
            rw [htxn] at hk
            cases Pool.opened_ended_self.symm.trans hk

theorem ServedOk.of_given {pool : Pool AuthDb AuthState AuthLock (Nat ⊕ Nat)} {served : Served}
    (h : ServedOk P ids familyId w cur n served)
    (hopened : pool.opened (.inl n) = w.pool.opened (.inl n))
    (hgiven : pool.committed.given ids = w.pool.committed.given ids) :
    ServedOk P ids familyId { w with pool } cur n served := by
  cases served with
  | pending access minted =>
      obtain ⟨hcookie, hmem, hclaims, t, ht, hrenewal⟩ := h
      exact ⟨hcookie, hmem, hclaims, t, hopened.trans ht, hrenewal.of_given hgiven⟩
  | answered reply =>
      cases reply with
      | issued access token => exact ⟨hopened.trans h.1, h.2⟩
      | rejected => exact ⟨hopened.trans h.1, h.2⟩
      | failed => exact ⟨hopened.trans h.1, h.2⟩

theorem SessionOk.other (h : SessionOk P ids familyId w) {e : Event AuthCall Nat}
    {pool : Pool AuthDb AuthState AuthLock (Nat ⊕ Nat)}
    (hforeign : ∀ i call, e = .begin i call → call.Foreign P ids familyId)
    (hstep : poolStep (authService P) w.pool (byOthers e) = some pool) :
    SessionOk P ids familyId { w with pool } := by
  obtain ⟨hseparate, hstrangers, hundetected, cur, hcur, hinflight⟩ := h
  have hmoves := poolStep_moves hstep
  obtain ⟨⟨d, hspares, hcommitted⟩, hstrangers', hlog⟩ :=
    others_move hseparate hstrangers hforeign hmoves
  have hgiven : pool.committed.given ids = w.pool.committed.given ids := by
    rw [hcommitted]
    exact hspares.given _
  have hmine : ∀ m, pool.opened (.inl m) = w.pool.opened (.inl m) := by
    intro m
    refine hmoves.opened_other ?_
    cases e <;> simp [byOthers, Event.txn]
  refine ⟨?_, hstrangers', fun st hst => ?_, cur, hcur.of_given hgiven, ?_⟩
  · rw [hcommitted]
    exact hspares.separate _ hseparate
  · rcases hlog st hst with hold | hforeign
    · exact hundetected st hold
    · exact foreign_not_detects hforeign
  · dsimp only
    cases hinFlight : (w.tabs ()).refreshInFlight with
    | none =>
        rw [hinFlight] at hinflight
        exact ⟨hinflight.1, fun m => (hmine m).trans (hinflight.2 m)⟩
    | some inFlight =>
        rw [hinFlight] at hinflight
        cases inFlight with
        | sent cookie =>
            exact ⟨hinflight.1, hinflight.2.1, fun m => (hmine m).trans (hinflight.2.2 m)⟩
        | reached m =>
            obtain ⟨hothers, served, hserved, hok⟩ := hinflight
            exact ⟨fun j hj => (hmine j).trans (hothers j hj), served, hserved,
              hok.of_given (hmine m) hgiven⟩

/-- A caller's answer leaves the exchange of its tab, or has it send one. -/
theorem answered_inFlight {tab tab' : Tab} {jar : Option String} {c : Nat} {unauthorized : Bool}
    (h : tab.answered jar c unauthorized = some tab') :
    tab'.refreshInFlight = tab.refreshInFlight ∨
      tab'.refreshInFlight = some (tab.refreshInFlight.getD (.sent jar)) := by
  unfold Tab.answered at h
  split at h
  · cases h
    exact Or.inr rfl
  · cases h
    exact Or.inl rfl
  · cases h
    exact Or.inl rfl
  · cases h
    exact Or.inl rfl
  · cases h

theorem SessionOk.step (h : SessionOk P ids familyId w) {e : BrowserEvent Unit}
    (hreceived : Received P ids familyId w e) (hstep : w.step P e = some w') :
    SessionOk P ids familyId w' := by
  cases e with
  | request k c =>
      unfold Browser.step at hstep
      dsimp only at hstep
      split at hstep
      · cases hstep
        exact h.retab (Or.inl rfl)
      · cases hstep
  | restore k c =>
      unfold Browser.step at hstep
      dsimp only at hstep
      split at hstep
      · cases hstep
        exact h.retab (Or.inr rfl)
      · cases hstep
  | answer k c unauthorized =>
      obtain ⟨tab, htab, rfl⟩ := Option.map_eq_some_iff.mp hstep
      exact h.retab (answered_inFlight htab)
  | arrive k m now access minted =>
      unfold Browser.step at hstep
      dsimp only at hstep
      split at hstep
      · rename_i hsent hfresh
        cases hstep
        obtain ⟨hseparate, hstrangers, hundetected, cur, hcur, hinflight⟩ := h
        rw [hsent] at hinflight
        refine ⟨hseparate, hstrangers, hundetected, cur, hcur, ?_⟩
        have hok := hinflight.of_sent (n := m) (Or.inl rfl)
        simpa [Browser.reach, Browser.setTab, Browser.setExchange] using hok
      · rename_i token hsent hfresh
        obtain ⟨pool, hpool, rfl⟩ := Option.map_eq_some_iff.mp hstep
        exact h.arrive hsent hreceived.1 hreceived.2 hpool
      · cases hstep
  | turnedAway k m =>
      unfold Browser.step at hstep
      dsimp only at hstep
      split at hstep
      · rename_i cookie hsent hfresh
        cases hstep
        obtain ⟨hseparate, hstrangers, hundetected, cur, hcur, hinflight⟩ := h
        rw [hsent] at hinflight
        refine ⟨hseparate, hstrangers, hundetected, cur, hcur, ?_⟩
        have hok := hinflight.of_sent (n := m) (Or.inr rfl)
        simpa [Browser.reach, Browser.setTab, Browser.setExchange] using hok
      · cases hstep
  | serve m =>
      unfold Browser.step at hstep
      dsimp only at hstep
      split at hstep
      · rename_i access minted hpending
        exact h.serve hpending hstep
      · cases hstep
  | crash m =>
      unfold Browser.step at hstep
      dsimp only at hstep
      split at hstep
      · obtain ⟨pool, hpool, rfl⟩ := Option.map_eq_some_iff.mp hstep
        exact h.crash hpool
      · cases hstep
  | receive k =>
      unfold Browser.step at hstep
      dsimp only at hstep
      split at hstep
      · rename_i m hreached
        split at hstep
        · rename_i reply hanswered
          cases hstep
          exact h.receive hreached hanswered
        · cases hstep
      · cases hstep
  | lose k =>
      unfold Browser.step at hstep
      dsimp only at hstep
      split at hstep
      · rename_i inFlight hinFlight
        cases hstep
        exact h.lose hinFlight hreceived
      · cases hstep
  | other e =>
      obtain ⟨pool, hpool, rfl⟩ := Option.map_eq_some_iff.mp hstep
      refine h.other (fun i call hcall => ?_) hpool
      subst hcall
      exact hreceived

end Kept

/-! ### The session is not lost -/

/-- A browser that has just signed in: the cookie is the token of the one row of the session. -/
structure SignedIn (P : AuthPorts) (ids : List String) (familyId : String) (db : AuthDb)
    (token : String) : Prop where
  separate : db.Separate ids familyId
  row : ∃ row, db.given ids = [row] ∧ row.revokedAt = none ∧ TokenOf P row token

theorem SignedIn.sessionOk {P : AuthPorts} {ids : List String} {familyId : String} {db : AuthDb}
    {token : String} (h : SignedIn P ids familyId db token) :
    SessionOk P ids familyId (Browser.start db (some token)) := by
  obtain ⟨hseparate, row, hgiven, hlive, htoken⟩ := h
  refine ⟨hseparate, fun i t hi => ?_, fun st hst => ?_, row, ⟨?_, ?_, hlive, ?_⟩, ?_⟩
  · cases hi
  · cases hst
  · simp [Browser.start, Pool.start, hgiven]
  · simp [Browser.start, Pool.start, hgiven]
  · intro r hr _
    simpa [Browser.start, Pool.start, hgiven] using hr
  · exact ⟨fun token' heq => Option.some.inj heq ▸ htoken, fun _ => rfl⟩

theorem session_kept {P : AuthPorts} {ids : List String} {familyId : String} {db : AuthDb}
    {token : String} {events : List (BrowserEvent Unit)} {w : Browser Unit}
    (hstart : SignedIn P ids familyId db token)
    (hreceived : Trace.Along (Browser.step P) (Received P ids familyId)
      (Browser.start db (some token)) events)
    (hrun : Trace.run (Browser.step P) (Browser.start db (some token)) events = some w) :
    SessionOk P ids familyId w := by
  refine Trace.run_induction_along (P := fun _ w => SessionOk P ids familyId w) hstart.sessionOk
    ?_ hrun hreceived
  intro _ w e w' _ hok hallowed hstep
  exact hok.step hallowed hstep

/--
**One tab never presents a token that was rotated.**  However its callers' 401s, its exchanges
and the transactions of others interleave, and whatever fails on the way, the server never takes
a token of the session for a stolen one; the session has one live token throughout; and
whenever no exchange is under way, the cookie, if it has not expired or been refused, is
that token.
-/
theorem one_tab_keeps_family (P : AuthPorts) (ids : List String) (familyId : String) (db : AuthDb)
    (token : String) (events : List (BrowserEvent Unit)) (w : Browser Unit)
    (hstart : SignedIn P ids familyId db token)
    (hreceived : Trace.Along (Browser.step P) (Received P ids familyId)
      (Browser.start db (some token)) events)
    (hrun : Trace.run (Browser.step P) (Browser.start db (some token)) events = some w) :
    (∀ st ∈ w.pool.log, st.detects familyId = false) ∧
      ∃ row, w.pool.committed.liveOfFamily familyId = [row] ∧
        ((w.tabs ()).refreshInFlight = none → ∀ token, w.jar = some token →
          TokenOf P row token) := by
  obtain ⟨hseparate, -, hundetected, cur, hcur, hinflight⟩ :=
    session_kept hstart hreceived hrun
  refine ⟨hundetected, cur, ?_, fun hnone token htoken => ?_⟩
  · have hrows : w.pool.committed.liveOfFamily familyId =
        (w.pool.committed.given ids).filter fun r => r.revokedAt.isNone := by
      unfold AuthDb.liveOfFamily AuthDb.given
      rw [List.filter_filter]
      refine List.filter_congr fun r hr => ?_
      have hrow := hseparate r hr
      by_cases hids : r.jti ∈ ids
      · simp [hids, hrow.mp hids]
      · simp [hids, mt hrow.mpr hids]
    rw [hrows]
    have hnodup := (List.Nodup.of_map _ hcur.keys).filter fun r => r.revokedAt.isNone
    refine List.perm_singleton.mp
      ((List.perm_ext_iff_of_nodup hnodup (List.nodup_singleton cur)).mpr fun r => ?_)
    rw [List.mem_filter, Option.isNone_iff_eq_none, List.mem_singleton]
    constructor
    · exact fun hr => hcur.single r hr.1 hr.2
    · rintro rfl
      exact ⟨hcur.mem, hcur.live⟩
  · rw [hnone] at hinflight
    exact hinflight.1 token htoken

/-- The tokens the browser is given in what follows. -/
def givenTokens : List String := ["first", "second"]

theorem oneSession_signedIn : SignedIn plainPorts givenTokens "family" oneSession "first" := by
  refine ⟨?_, ⟨1, "first", "first", "family", 100, none⟩, rfl, rfl, rfl, rfl⟩
  intro r hr
  obtain rfl := List.mem_singleton.mp hr
  exact iff_of_true (List.mem_cons_self ..) rfl

/-- Two requests of a page are answered 401; while they are renewed, the user signs in
somewhere else. -/
def pageLoad : List (BrowserEvent Unit) :=
  [.request () 0, .request () 1, .answer () 0 true, .answer () 1 true,
    .arrive () 0 0 "access" ⟨"second", "second", 200⟩, .serve 0, .serve 0,
    .other (.begin 0 (.login "ada@example.com" "ada" 0 "elsewhere" ⟨"third", "third", 300⟩)),
    .other (.step 0), .other (.step 0), .other (.step 0), .serve 0, .serve 0, .serve 0,
    .receive ()]

theorem pageLoad_received (w : Browser Unit) :
    Trace.Along (Browser.step plainPorts) (Received plainPorts givenTokens "family") w
      pageLoad := by
  intro before e after hsplit v _
  have he : e ∈ pageLoad := by simp [hsplit]
  simp only [pageLoad, List.mem_cons, List.not_mem_nil, or_false] at he
  rcases he with rfl | rfl | rfl | rfl | rfl | rfl | rfl | rfl | rfl | rfl | rfl | rfl | rfl |
    rfl | rfl
  case inr.inr.inr.inr.inl => exact ⟨by simp [givenTokens], rfl⟩
  case inr.inr.inr.inr.inr.inr.inr.inl =>
    simp [Received, AuthCall.Foreign, givenTokens]
  all_goals exact trivial

theorem pageLoad_keeps_family :
    ∃ w, Trace.run (Browser.step plainPorts) (Browser.start oneSession (some "first")) pageLoad
        = some w ∧
      w.jar = some "second" ∧ (w.tabs ()).callers 0 = .resent ∧
      (∀ st ∈ w.pool.log, st.detects "family" = false) ∧
      ∃ row, w.pool.committed.liveOfFamily "family" = [row] ∧
        ((w.tabs ()).refreshInFlight = none → ∀ token, w.jar = some token →
          TokenOf plainPorts row token) := by
  have hend : (Trace.run (Browser.step plainPorts) (Browser.start oneSession (some "first"))
      pageLoad).map (fun w => (w.jar, (w.tabs ()).callers 0)) =
        some (some "second", .resent) := by
    decide +kernel
  obtain ⟨w, hrun, hw⟩ := Option.map_eq_some_iff.mp hend
  obtain ⟨hjar, hcaller⟩ := Prod.mk.inj hw
  exact ⟨w, hrun, hjar, hcaller, one_tab_keeps_family plainPorts givenTokens "family" oneSession
    "first" pageLoad w oneSession_signedIn (pageLoad_received _) hrun⟩

-- Two tabs that are restored at once present the cookie twice, and the session is lost.
example :
    (Trace.run (Browser.step plainPorts) (Browser.start oneSession (some "first"))
      ([.restore true 0, .restore false 0, .arrive true 0 0 "access" ⟨"second", "second", 200⟩,
        .arrive false 1 0 "other access" ⟨"third", "third", 200⟩] ++
        List.replicate 5 (.serve 0) ++ List.replicate 3 (.serve 1) ++
        [.receive true, .receive false])).map
      (fun w => (w.jar, w.pool.log.map (·.detects "family"),
        w.pool.committed.liveOfFamily "family")) = some (none, [false, true], []) := by
  decide +kernel

end Orqent
