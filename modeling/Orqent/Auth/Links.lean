/-
At most one password-reset link is live, and it works once.

A request consumes the outstanding grants of the user and inserts a new one; a reset
locks its grant and consumes it and whatever else is outstanding.  The update that
consumes keeps everyone else from inserting a grant for the user, so what it has consumed
are all the live grants until the commit; and each grant that is written is locked, so a
grant that was found live stays so for the reset that found it.

So every commit of either call leaves the user the grant it inserted, or none.  Of two
requests that have both been through the grants neither can insert: one is rolled back.
-/
import Orqent.Auth.Reset
import Mathlib.Data.List.Count

namespace Orqent

open RowTxn

/-! ### What the log says -/

/-- A reset that redeemed the grant with this digest. -/
def AuthState.redeems (digest : String) : AuthState → Bool
  | .passwordReset grant .. => grant.tokenHash = digest
  | _ => false

/-- A newer link of the user, or a reset of the user. -/
def AuthState.endsLinks (userId : Nat) : AuthState → Bool
  | .issued row => row.userId = userId
  | .passwordReset _ user _ => user.id = userId
  | _ => false

/-- A request for a link, or a use of one. -/
def AuthCall.aboutLinks : AuthCall → Prop
  | .forgotPassword .. => True
  | .resetPassword .. => True
  | _ => False

/-- A grant of the user with this digest was there at first, or was issued in these commits. -/
def IssuedTo (db : AuthDb) (userId : Nat) (log : List AuthState) (digest : String) : Prop :=
  (∃ g ∈ db.passwordResetTokens, g.userId = userId ∧ g.tokenHash = digest) ∨
    ∃ row, .issued row ∈ log ∧ row.userId = userId ∧ row.tokenHash = digest

/-! ### Rows -/

namespace AuthDb

variable {s : AuthDb} {ids : List String} {now userId : Nat} {g : PasswordResetToken}

/-- The digests of all grants. -/
def digests (s : AuthDb) : List String := s.passwordResetTokens.map PasswordResetToken.tokenHash

/-- There is a grant with this digest, and it is consumed. -/
def Spent (s : AuthDb) (digest : String) : Prop :=
  digest ∈ s.digests ∧ ∀ g ∈ s.passwordResetTokens, g.tokenHash = digest → g.consumedAt ≠ none

theorem digests_setConsumed : (s.setConsumed ids now).digests = s.digests := by
  unfold digests setConsumed
  rw [List.map_map]
  refine List.map_congr_left fun g _ => ?_
  dsimp only [Function.comp]
  split <;> rfl

/-- Grants are written in place, and new ones come last. -/
theorem digests_written {s' : AuthDb} {rows : List PasswordResetToken}
    (hwritten : s'.passwordResetTokens = (s.setConsumed ids now).passwordResetTokens ++ rows) :
    s'.digests = s.digests ++ rows.map PasswordResetToken.tokenHash := by
  have hsame : (s.setConsumed ids now).digests = s.digests := digests_setConsumed
  rw [← hsame]
  unfold digests
  rw [hwritten, List.map_append]

/-- A grant that is not named is left as it is. -/
theorem mem_setConsumed_of_notMem (hg : g ∈ s.passwordResetTokens) (hids : g.tokenHash ∉ ids) :
    g ∈ (s.setConsumed ids now).passwordResetTokens := by
  refine List.mem_map.mpr ⟨g, hg, ?_⟩
  rw [if_neg hids]

/-- A grant after the write was there before, and if it is live it was not written. -/
theorem mem_setConsumed (hg : g ∈ (s.setConsumed ids now).passwordResetTokens) :
    ∃ g₀ ∈ s.passwordResetTokens, g₀.tokenHash = g.tokenHash ∧ g₀.userId = g.userId ∧
      (g.consumedAt = none → g₀.consumedAt = none ∧ g₀.tokenHash ∉ ids) := by
  obtain ⟨g₀, hg₀, rfl⟩ := List.mem_map.mp hg
  by_cases hids : g₀.tokenHash ∈ ids
  · rw [if_pos hids]
    exact ⟨g₀, hg₀, rfl, rfl, fun h => by simp at h⟩
  · rw [if_neg hids]
    exact ⟨g₀, hg₀, rfl, rfl, fun h => ⟨h, hids⟩⟩

/-- Two writes at one time are one write. -/
theorem setConsumed_setConsumed {ids' : List String} :
    (s.setConsumed ids now).setConsumed ids' now = s.setConsumed (ids ++ ids') now := by
  unfold setConsumed
  simp only [List.map_map]
  congr 1
  refine List.map_congr_left fun g _ => ?_
  dsimp only [Function.comp]
  by_cases hids : g.tokenHash ∈ ids <;> by_cases hids' : g.tokenHash ∈ ids' <;> simp [hids, hids']

/-- What is outstanding after the write was outstanding before, and not named. -/
theorem outstanding_setConsumed :
    (s.setConsumed ids now).outstanding userId =
      (s.outstanding userId).filter fun g => g.tokenHash ∉ ids := by
  unfold outstanding setConsumed
  dsimp only
  induction s.passwordResetTokens with
  | nil => rfl
  | cons g gs ih =>
      rw [List.map_cons, List.filter_cons, List.filter_cons, ih]
      by_cases hids : g.tokenHash ∈ ids <;> by_cases hlive : g.consumedAt = none <;>
        by_cases huser : g.userId = userId <;> simp [hids, hlive, huser]

theorem mem_outstanding : g ∈ s.outstanding userId ↔
    g ∈ s.passwordResetTokens ∧ g.userId = userId ∧ g.consumedAt = none := by
  unfold outstanding
  simp only [List.mem_filter, Bool.and_eq_true, decide_eq_true_eq, Option.isNone_iff_eq_none]

theorem getByDigest_some {digest : String} (h : s.getByDigest digest = some g) :
    g ∈ s.passwordResetTokens ∧ g.tokenHash = digest :=
  ⟨List.mem_of_find?_eq_some h, by simpa using List.find?_some h⟩

theorem notMem_digests {digest : String} (h : (s.getByDigest digest).isSome ≠ true) :
    digest ∉ s.digests := by
  intro hmem
  obtain ⟨g, hg, hdigest⟩ := List.mem_map.mp hmem
  refine h (List.find?_isSome.mpr ⟨g, hg, ?_⟩)
  simpa using hdigest

/-- The grant with a digest is the only one. -/
theorem eq_of_digest {g' : PasswordResetToken} (hkeys : s.digests.Nodup)
    (hg : g ∈ s.passwordResetTokens) (hg' : g' ∈ s.passwordResetTokens)
    (h : g.tokenHash = g'.tokenHash) : g = g' :=
  List.inj_on_of_nodup_map hkeys hg hg' h

end AuthDb

/-! ### What an open transaction knows -/

/-- The grant is locked and live. -/
structure Redeemable (s : AuthDb) (held : List AuthLock) (grant : PasswordResetToken) : Prop where
  mem : grant ∈ s.passwordResetTokens
  live : grant.consumedAt = none
  locked : .grant grant.tokenHash ∈ held

/-- The live grants of the user are consumed, and these rows are inserted. -/
structure Supersedes (s : AuthDb) (held : List AuthLock) (changes : List (AuthDb → AuthDb))
    (userId : Nat) (ids : List String) (rows : List PasswordResetToken) : Prop where
  written : ∃ now, ∀ s, (view changes s).passwordResetTokens =
    (s.setConsumed ids now).passwordResetTokens ++ rows
  range : .grantsOf userId ∈ held
  locked : ∀ digest ∈ ids, .grant digest ∈ held
  covers : ∀ g ∈ s.passwordResetTokens, g.userId = userId → g.consumedAt = none →
    g.tokenHash ∈ ids

/-- A new grant that nobody else can insert. -/
structure Issues (s : AuthDb) (held : List AuthLock) (row : PasswordResetToken) : Prop where
  locked : .grant row.tokenHash ∈ held
  range : .newGrant row.userId ∈ held
  fresh : row.tokenHash ∉ s.digests

/-- What a request or a reset knows and has written, by how far it has come. -/
def LinkFacts (s : AuthDb) (held : List AuthLock) (t : Txn AuthDb AuthState) : Prop :=
  match t.state with
  | .refused _ => True
  | .forgetting .. | .superseding .. | .redeeming .. => ∀ s, view t.changes s = s
  | .issuing user row =>
      row.userId = user.id ∧ ∃ ids, Supersedes s held t.changes user.id ids []
  | .issued row => Issues s held row ∧ ∃ ids, Supersedes s held t.changes row.userId ids [row]
  | .granted grant .. => (∀ s, view t.changes s = s) ∧ Redeemable s held grant
  | .setting grant user .. =>
      (∀ s, view t.changes s = s) ∧ Redeemable s held grant ∧ user.id = grant.userId
  | .consuming grant user _ now =>
      (∀ s, (view t.changes s).passwordResetTokens =
        (s.setConsumed [grant.tokenHash] now).passwordResetTokens) ∧
          Redeemable s held grant ∧ user.id = grant.userId
  | .ending grant user .. | .passwordReset grant user _ =>
      (∃ ids, Supersedes s held t.changes user.id ids []) ∧
        Redeemable s held grant ∧ user.id = grant.userId
  | _ => False

/-- The assertion about an open request or reset. -/
def Linking (s : AuthDb) (_log : List AuthState) (held : List AuthLock)
    (t : Txn AuthDb AuthState) : Prop :=
  LinkFacts s held t

/-! ### The committed rows and the log -/

/-- What the grants of a user and the committed calls have to do with one another. -/
structure LinksOk (db : AuthDb) (userId : Nat) (s : AuthDb) (log : List AuthState) : Prop where
  keys : s.digests.Nodup
  issued : ∀ digest, IssuedTo db userId log digest →
    ∃ g ∈ s.passwordResetTokens, g.userId = userId ∧ g.tokenHash = digest
  single : (s.outstanding userId).length ≤ 1
  once : ∀ digest, log.countP (AuthState.redeems digest) ≤ 1
  redeemed : ∀ digest, ∀ st ∈ log, st.redeems digest = true → s.Spent digest
  superseded : ∀ before x after, log = before ++ x :: after → x.endsLinks userId = true →
    ∀ digest, IssuedTo db userId before digest →
      (∀ st ∈ after, st.redeems digest = false) ∧ s.Spent digest

section Facts

variable {P : AuthPorts} {db s : AuthDb} {log : List AuthState} {held held' : List AuthLock}
  {t u : Txn AuthDb AuthState} {userId v : Nat} {ids : List String}
  {row grant : PasswordResetToken} {rows : List PasswordResetToken}
  {changes : List (AuthDb → AuthDb)}

/-! ### What a commit beside it leaves true -/

/-- What a commit writes is locked by who commits. -/
theorem LinkFacts.committed (h : LinkFacts s held u) (hnext : authNext P u.state = .commit) :
    ∃ now ids rows, (view u.changes s).passwordResetTokens =
        (s.setConsumed ids now).passwordResetTokens ++ rows ∧
      (∀ digest ∈ ids, .grant digest ∈ held) ∧
      ∀ row ∈ rows, .grant row.tokenHash ∈ held ∧ .newGrant row.userId ∈ held := by
  obtain ⟨st, snap, changes⟩ := u
  cases st with
  | issued row =>
      obtain ⟨hissues, ids, hsupersedes⟩ := h
      obtain ⟨now, hwritten⟩ := hsupersedes.written
      refine ⟨now, ids, [row], hwritten s, hsupersedes.locked, fun r hr => ?_⟩
      rw [List.mem_singleton.mp hr]
      exact ⟨hissues.locked, hissues.range⟩
  | passwordReset grant user newPassword =>
      obtain ⟨⟨ids, hsupersedes⟩, -⟩ := h
      obtain ⟨now, hwritten⟩ := hsupersedes.written
      exact ⟨now, ids, [], hwritten s, hsupersedes.locked, by simp⟩
  | detected | exchanged | loggedOut | loggedIn => exact h.elim
  | _ => simp [authNext, consumeOutstandingForUser, revokeAllForUser, revokeFamily] at hnext

section Beside

variable (hfacts : LinkFacts s held' u) (hnext : authNext P u.state = .commit)
  (hapart : ∀ l ∈ held, ∀ l' ∈ held', l.conflicts l' = false)

include hfacts hnext hapart

theorem Redeemable.beside (h : Redeemable s held grant) :
    Redeemable (view u.changes s) held grant := by
  obtain ⟨now, ids, rows, hwritten, hlocked, -⟩ := hfacts.committed hnext
  refine ⟨?_, h.live, h.locked⟩
  rw [hwritten]
  refine List.mem_append_left _ (AuthDb.mem_setConsumed_of_notMem h.mem fun hids => ?_)
  have hfree := hapart _ h.locked _ (hlocked _ hids)
  simp [AuthLock.conflicts] at hfree

theorem Issues.beside (h : Issues s held row) : Issues (view u.changes s) held row := by
  obtain ⟨now, ids, rows, hwritten, -, hrows⟩ := hfacts.committed hnext
  refine ⟨h.locked, h.range, fun hmem => ?_⟩
  rw [AuthDb.digests_written hwritten] at hmem
  rcases List.mem_append.mp hmem with hold | hnew
  · exact h.fresh hold
  · obtain ⟨r, hr, hdigest⟩ := List.mem_map.mp hnew
    have hfree := hapart _ h.locked _ (hrows r hr).1
    simp [AuthLock.conflicts, hdigest] at hfree

/-- While the range of the user is closed, no live grant of the user is added. -/
theorem Supersedes.beside (h : Supersedes s held changes v ids rows) :
    Supersedes (view u.changes s) held changes v ids rows := by
  obtain ⟨now, ids', rows', hwritten, -, hrows⟩ := hfacts.committed hnext
  refine { h with covers := fun g hg huser hlive => ?_ }
  rw [hwritten] at hg
  rcases List.mem_append.mp hg with hold | hnew
  · obtain ⟨g₀, hg₀, hdigest, hsame, hlive₀⟩ := AuthDb.mem_setConsumed hold
    rw [← hdigest]
    exact h.covers g₀ hg₀ (hsame.trans huser) (hlive₀ hlive).1
  · have hfree := hapart _ h.range _ (hrows g hnew).2
    simp [AuthLock.conflicts, huser] at hfree

end Beside

theorem linking_other (h : Linking s log held t) (hu : Linking s log held' u)
    (hapart : ∀ l ∈ held, ∀ l' ∈ held', l.conflicts l' = false)
    (hnext : authNext P u.state = .commit) :
    Linking (view u.changes s) (log ++ [u.state]) held t := by
  unfold Linking at h hu ⊢
  obtain ⟨st, snap, changes⟩ := t
  cases st with
  | issuing user row =>
      obtain ⟨huser, ids, hsupersedes⟩ := h
      exact ⟨huser, ids, hsupersedes.beside hu hnext hapart⟩
  | issued row =>
      obtain ⟨hissues, ids, hsupersedes⟩ := h
      exact ⟨hissues.beside hu hnext hapart, ids, hsupersedes.beside hu hnext hapart⟩
  | granted grant newPassword salt now => exact ⟨h.1, h.2.beside hu hnext hapart⟩
  | setting grant user newPassword salt now =>
      exact ⟨h.1, h.2.1.beside hu hnext hapart, h.2.2⟩
  | consuming grant user newPassword now => exact ⟨h.1, h.2.1.beside hu hnext hapart, h.2.2⟩
  | ending grant user newPassword now =>
      obtain ⟨⟨ids, hsupersedes⟩, hredeemable, huser⟩ := h
      exact ⟨⟨ids, hsupersedes.beside hu hnext hapart⟩, hredeemable.beside hu hnext hapart, huser⟩
  | passwordReset grant user newPassword =>
      obtain ⟨⟨ids, hsupersedes⟩, hredeemable, huser⟩ := h
      exact ⟨⟨ids, hsupersedes.beside hu hnext hapart⟩, hredeemable.beside hu hnext hapart, huser⟩
  | _ => exact h

/-! ### The statements -/

theorem linking_begin {call : AuthCall} (hcall : call.aboutLinks) :
    Linking s log [] ⟨authStart P call, none, []⟩ := by
  cases call with
  | forgotPassword email now token => exact fun _ => rfl
  | resetPassword token newPassword salt now => exact fun _ => rfl
  | _ => exact hcall.elim

theorem linking_read {k : AuthDb → AuthState} (h : Linking s log held t)
    (hnext : authNext P t.state = .read k) :
    Linking s log held
      ⟨k (view t.changes (t.snap.getD s)), some (t.snap.getD s), t.changes⟩ := by
  unfold Linking at h ⊢
  obtain ⟨st, snap, changes⟩ := t
  cases st with
  | forgetting email now token =>
      cases hnext
      dsimp only
      split
      · trivial
      · split
        · exact h
        · trivial
  | granted grant newPassword salt now =>
      cases hnext
      dsimp only
      split
      · trivial
      · rename_i user huser
        split
        · have hid := List.find?_some huser
          simp only [Bool.and_eq_true, decide_eq_true_eq] at hid
          exact ⟨h.1, h.2, hid.1⟩
        · trivial
  | login | rotating | leaving => exact h.elim
  | _ => simp [authNext, consumeOutstandingForUser, revokeAllForUser, revokeFamily] at hnext

theorem Redeemable.append (h : Redeemable s held grant) (locks : List AuthLock) :
    Redeemable s (held ++ locks) grant :=
  ⟨h.mem, h.live, List.mem_append_left _ h.locked⟩

/-- The update of a request, which has written nothing yet. -/
theorem supersedes_first {now : Nat} (h : ∀ s, view changes s = s) :
    Supersedes s
      (held ++ .grantsOf v :: ((view changes s).outstanding v).map fun g => .grant g.tokenHash)
      (changes ++
        [AuthDb.setConsumed (((view changes s).outstanding v).map PasswordResetToken.tokenHash)
          now])
      v (((view changes s).outstanding v).map PasswordResetToken.tokenHash) [] where
  written := by
    refine ⟨now, fun s' => ?_⟩
    rw [view_snoc, h s', List.append_nil]
  range := List.mem_append_right _ List.mem_cons_self
  locked := by
    intro digest hdigest
    obtain ⟨g, hg, rfl⟩ := List.mem_map.mp hdigest
    exact List.mem_append_right _ (List.mem_cons_of_mem _ (List.mem_map.mpr ⟨g, hg, rfl⟩))
  covers := by
    intro g hg huser hlive
    refine List.mem_map.mpr ⟨g, AuthDb.mem_outstanding.mpr ⟨?_, huser, hlive⟩, rfl⟩
    rw [h s]
    exact hg

/-- The update of a reset, which has consumed its own grant already. -/
theorem supersedes_rest {digest : String} {now : Nat} (hlocked : .grant digest ∈ held)
    (h : ∀ s, (view changes s).passwordResetTokens =
      (s.setConsumed [digest] now).passwordResetTokens) :
    Supersedes s
      (held ++ .grantsOf v :: ((view changes s).outstanding v).map fun g => .grant g.tokenHash)
      (changes ++
        [AuthDb.setConsumed (((view changes s).outstanding v).map PasswordResetToken.tokenHash)
          now])
      v ([digest] ++ ((view changes s).outstanding v).map PasswordResetToken.tokenHash) [] where
  written := by
    refine ⟨now, fun s' => ?_⟩
    rw [view_snoc, List.append_nil, ← AuthDb.setConsumed_setConsumed]
    unfold AuthDb.setConsumed
    rw [h s']
    rfl
  range := List.mem_append_right _ List.mem_cons_self
  locked := by
    intro digest' hdigest'
    rcases List.mem_append.mp hdigest' with hown | hother
    · rw [List.mem_singleton.mp hown]
      exact List.mem_append_left _ hlocked
    · obtain ⟨g, hg, rfl⟩ := List.mem_map.mp hother
      exact List.mem_append_right _ (List.mem_cons_of_mem _ (List.mem_map.mpr ⟨g, hg, rfl⟩))
  covers := by
    intro g hg huser hlive
    by_cases hown : g.tokenHash = digest
    · exact List.mem_append_left _ (List.mem_singleton.mpr hown)
    · refine List.mem_append_right _
        (List.mem_map.mpr ⟨g, AuthDb.mem_outstanding.mpr ⟨?_, huser, hlive⟩, rfl⟩)
      rw [h s]
      exact AuthDb.mem_setConsumed_of_notMem hg (by simpa using hown)

/-- A statement that leaves the grants alone. -/
theorem Supersedes.append {d : AuthDb → AuthDb} (h : Supersedes s held changes v ids rows)
    (hd : ∀ s, (d s).passwordResetTokens = s.passwordResetTokens) (locks : List AuthLock) :
    Supersedes s (held ++ locks) (changes ++ [d]) v ids rows where
  written := by
    obtain ⟨now, hwritten⟩ := h.written
    refine ⟨now, fun s' => ?_⟩
    rw [view_snoc, hd, hwritten]
  range := List.mem_append_left _ h.range
  locked := fun digest hdigest => List.mem_append_left _ (h.locked digest hdigest)
  covers := h.covers

/-- The insert of a request. -/
theorem Supersedes.insert (h : Supersedes s held changes v ids []) (locks : List AuthLock) :
    Supersedes s (held ++ locks) (changes ++ [AuthDb.addPasswordResetToken row]) v ids [row] where
  written := by
    obtain ⟨now, hwritten⟩ := h.written
    refine ⟨now, fun s' => ?_⟩
    rw [view_snoc, AuthDb.addPasswordResetToken, hwritten, List.append_nil]
  range := List.mem_append_left _ h.range
  locked := fun digest hdigest => List.mem_append_left _ (h.locked digest hdigest)
  covers := h.covers

theorem redeemGrant_facts {newPassword digest : String} {salt now : Nat} {snap : Option AuthDb}
    (h : ∀ s, view changes s = s) {locks : List AuthLock}
    (hlocks : ∀ g, s.getByDigest digest = some g → .grant g.tokenHash ∈ locks) :
    LinkFacts s (held ++ locks)
      ⟨redeemGrant newPassword salt now (s.getByDigest digest), snap, changes⟩ := by
  cases hfound : s.getByDigest digest with
  | none => exact trivial
  | some grant =>
      unfold redeemGrant
      dsimp only
      split
      · exact trivial
      · rename_i hlive
        split
        · exact trivial
        · refine ⟨h, (AuthDb.getByDigest_some hfound).1, ?_,
            List.mem_append_right _ (hlocks grant hfound)⟩
          simpa using hlive

theorem linking_lock {locks : (AuthLock → Bool) → AuthDb → List AuthLock}
    {run : (AuthLock → Bool) → AuthDb → Option (AuthState × (AuthDb → AuthDb))}
    {free : AuthLock → Bool} {state : AuthState} {d : AuthDb → AuthDb}
    (h : Linking s log held t) (hnext : authNext P t.state = .lock locks run)
    (hrun : run free (view t.changes s) = some (state, d)) :
    Linking s log (held ++ locks free (view t.changes s))
      ⟨state, t.snap, t.changes ++ [d]⟩ := by
  unfold Linking at h ⊢
  obtain ⟨st, snap, changes⟩ := t
  cases st with
  | superseding user now token =>
      cases hnext
      cases hrun
      exact ⟨rfl, _, supersedes_first h⟩
  | issuing user row =>
      obtain ⟨huser, ids, hsupersedes⟩ := h
      cases hnext
      dsimp only at hrun
      split at hrun
      · cases hrun
        exact trivial
      · rename_i hfresh
        cases hrun
        obtain ⟨now, hwritten⟩ := hsupersedes.written
        have hdigests : (view changes s).digests = s.digests := by
          rw [AuthDb.digests_written (hwritten s)]
          exact List.append_nil _
        refine ⟨⟨?_, ?_, ?_⟩, ids, ?_⟩
        · exact List.mem_append_right _ (by simp)
        · rw [huser]
          exact List.mem_append_right _ (by simp)
        · rw [← hdigests]
          exact AuthDb.notMem_digests hfresh
        · rw [huser]
          exact hsupersedes.insert _
  | redeeming digest newPassword salt now =>
      cases hnext
      cases hrun
      have hview : view changes s = s := h s
      dsimp only
      rw [hview]
      refine redeemGrant_facts (fun s => ?_) fun g hg => ?_
      · rw [view_snoc, id]
        exact h s
      · rw [hg]
        exact List.mem_singleton_self _
  | setting grant user newPassword salt now =>
      obtain ⟨hsame, hredeemable, huser⟩ := h
      cases hnext
      cases hrun
      refine ⟨fun s => ?_, hredeemable.append _, huser⟩
      rw [view_snoc, hsame]
      rfl
  | consuming grant user newPassword now =>
      obtain ⟨hconsumed, hredeemable, huser⟩ := h
      cases hnext
      cases hrun
      exact ⟨⟨_, supersedes_rest hredeemable.locked hconsumed⟩, hredeemable.append _, huser⟩
  | ending grant user newPassword now =>
      obtain ⟨⟨ids, hsupersedes⟩, hredeemable, huser⟩ := h
      cases hnext
      cases hrun
      refine ⟨⟨ids, hsupersedes.append ?_ _⟩, hredeemable.append _, huser⟩
      exact fun _ => rfl
  | verified | refreshing | replayed | retiring | succeeding | closing => exact h.elim
  | _ => simp [authNext] at hnext

/-! ### The commits -/

/-- What a commit that ends in `x` makes of the rows: the user's live grants are consumed. -/
structure Renews (s s' : AuthDb) (v : Nat) (x : AuthState) (rows : List PasswordResetToken) :
    Prop where
  written : ∃ ids now,
    s'.passwordResetTokens = (s.setConsumed ids now).passwordResetTokens ++ rows ∧
      ∀ g ∈ s.passwordResetTokens, g.userId = v → g.consumedAt = none → g.tokenHash ∈ ids
  atMostOne : rows.length ≤ 1
  fresh : ∀ row ∈ rows, row.userId = v ∧ row.tokenHash ∉ s.digests
  inserted : ∀ row, x = .issued row → row ∈ rows
  ends : ∀ userId, x.endsLinks userId = true → userId = v
  live : ∀ digest, x.redeems digest = true →
    ∃ g ∈ s.passwordResetTokens, g.tokenHash = digest ∧ g.userId = v ∧ g.consumedAt = none

namespace Renews

variable {s' : AuthDb} {x : AuthState} {digest : String}

theorem digests (h : Renews s s' v x rows) :
    s'.digests = s.digests ++ rows.map PasswordResetToken.tokenHash := by
  obtain ⟨ids, now, hwritten, -⟩ := h.written
  exact AuthDb.digests_written hwritten

theorem nodup (h : Renews s s' v x rows) (hkeys : s.digests.Nodup) : s'.digests.Nodup := by
  rw [h.digests]
  refine List.nodup_append.mpr ⟨hkeys, ?_, fun digest hold digest' hnew heq => ?_⟩
  · rcases Nat.le_one_iff_eq_zero_or_eq_one.mp h.atMostOne with hnone | hone
    · rw [List.length_eq_zero_iff.mp hnone]
      exact List.nodup_nil
    · obtain ⟨row, rfl⟩ := List.length_eq_one_iff.mp hone
      exact List.nodup_singleton _
  · obtain ⟨row, hrow, rfl⟩ := List.mem_map.mp hnew
    exact (h.fresh row hrow).2 (heq ▸ hold)

/-- A grant with an old digest was there before; if it is live it is not the user's. -/
theorem before (h : Renews s s' v x rows) {g : PasswordResetToken}
    (hg : g ∈ s'.passwordResetTokens) (hold : g.tokenHash ∈ s.digests) :
    ∃ g₀ ∈ s.passwordResetTokens, g₀.tokenHash = g.tokenHash ∧ g₀.userId = g.userId ∧
      (g.consumedAt = none → g₀.consumedAt = none ∧ g₀.userId ≠ v) := by
  obtain ⟨ids, now, hwritten, hcovers⟩ := h.written
  rw [hwritten] at hg
  rcases List.mem_append.mp hg with hg | hg
  · obtain ⟨g₀, hg₀, hdigest, huser, hlive⟩ := AuthDb.mem_setConsumed hg
    refine ⟨g₀, hg₀, hdigest, huser, fun hnone => ⟨(hlive hnone).1, fun hv => ?_⟩⟩
    exact (hlive hnone).2 (hcovers g₀ hg₀ hv (hlive hnone).1)
  · exact absurd hold (h.fresh g hg).2

theorem spent (h : Renews s s' v x rows) (hspent : s.Spent digest) : s'.Spent digest := by
  refine ⟨?_, fun g hg hdigest hlive => ?_⟩
  · rw [h.digests]
    exact List.mem_append_left _ hspent.1
  · subst hdigest
    obtain ⟨g₀, hg₀, hsame, -, hlive₀⟩ := h.before hg hspent.1
    exact hspent.2 g₀ hg₀ hsame (hlive₀ hlive).1

/-- The grants of the user that were there are spent. -/
theorem spends (h : Renews s s' v x rows) (hkeys : s.digests.Nodup) {g : PasswordResetToken}
    (hg : g ∈ s.passwordResetTokens) (huser : g.userId = v) : s'.Spent g.tokenHash := by
  have hold : g.tokenHash ∈ s.digests := List.mem_map.mpr ⟨g, hg, rfl⟩
  refine ⟨?_, fun g' hg' hdigest hlive => ?_⟩
  · rw [h.digests]
    exact List.mem_append_left _ hold
  · obtain ⟨g₀, hg₀, hsame, -, hlive₀⟩ := h.before hg' (hdigest ▸ hold)
    have heq : g₀ = g := AuthDb.eq_of_digest hkeys hg₀ hg (hsame.trans hdigest)
    exact (hlive₀ hlive).2 (heq ▸ huser)

theorem single (h : Renews s s' v x rows) (hone : (s.outstanding userId).length ≤ 1) :
    (s'.outstanding userId).length ≤ 1 := by
  obtain ⟨ids, now, hwritten, hcovers⟩ := h.written
  have hsplit : s'.outstanding userId = (s.setConsumed ids now).outstanding userId ++
      rows.filter fun g => g.userId = userId && g.consumedAt.isNone := by
    unfold AuthDb.outstanding
    rw [hwritten, List.filter_append]
  rw [hsplit, AuthDb.outstanding_setConsumed, List.length_append]
  have hrows := List.length_filter_le (fun g : PasswordResetToken =>
    g.userId = userId && g.consumedAt.isNone) rows
  have hkept := List.length_filter_le (fun g : PasswordResetToken => g.tokenHash ∉ ids)
    (s.outstanding userId)
  have hatMostOne := h.atMostOne
  by_cases huser : userId = v
  · have hnone : (s.outstanding userId).filter (fun g => g.tokenHash ∉ ids) = [] := by
      refine List.filter_eq_nil_iff.mpr fun g hg => ?_
      obtain ⟨hmem, hsame, hlive⟩ := AuthDb.mem_outstanding.mp hg
      simpa using hcovers g hmem (hsame.trans huser) hlive
    rw [hnone, List.length_nil]
    omega
  · have hnone : rows.filter (fun g => g.userId = userId && g.consumedAt.isNone) = [] := by
      refine List.filter_eq_nil_iff.mpr fun g hg => ?_
      have hne : g.userId ≠ userId := fun hsame => huser (hsame ▸ (h.fresh g hg).1)
      simp [hne]
    rw [hnone, List.length_nil]
    omega

end Renews

/-- A commit that renews keeps the invariant. -/
theorem LinksOk.renew (hok : LinksOk db userId s log) {s' : AuthDb} {x : AuthState}
    (h : Renews s s' v x rows) : LinksOk db userId s' (log ++ [x]) := by
  -- What `x` redeems is live, so no commit before it redeemed it.
  have hunspent : ∀ digest, x.redeems digest = true → ¬ s.Spent digest := by
    intro digest hredeems hspent
    obtain ⟨g, hg, hdigest, -, hlive⟩ := h.live digest hredeems
    exact hspent.2 g hg hdigest hlive
  refine ⟨h.nodup hok.keys, ?_, h.single hok.single, ?_, ?_, ?_⟩
  · intro digest hissued
    obtain ⟨ids, now, hwritten, -⟩ := h.written
    have hbefore : IssuedTo db userId log digest →
        ∃ g ∈ s'.passwordResetTokens, g.userId = userId ∧ g.tokenHash = digest := by
      intro hold
      obtain ⟨g, hg, huser, hdigest⟩ := hok.issued digest hold
      have hmem : (if g.tokenHash ∈ ids then { g with consumedAt := some now } else g) ∈
          (s.setConsumed ids now).passwordResetTokens := List.mem_map.mpr ⟨g, hg, rfl⟩
      refine ⟨_, hwritten ▸ List.mem_append_left _ hmem, ?_, ?_⟩ <;> split <;> assumption
    rcases hissued with hfirst | ⟨row, hrow, huser, hdigest⟩
    · exact hbefore (Or.inl hfirst)
    · rcases List.mem_append.mp hrow with hold | hlast
      · exact hbefore (Or.inr ⟨row, hold, huser, hdigest⟩)
      · have hinserted := h.inserted row (List.mem_singleton.mp hlast).symm
        exact ⟨row, hwritten ▸ List.mem_append_right _ hinserted, huser, hdigest⟩
  · intro digest
    have honce := hok.once digest
    rw [List.countP_append, List.countP_singleton]
    by_cases hredeems : x.redeems digest = true
    · have hnone : log.countP (AuthState.redeems digest) = 0 :=
        List.countP_eq_zero.mpr fun st hst hst' =>
          hunspent digest hredeems (hok.redeemed digest st hst hst')
      rw [if_pos hredeems, hnone]
    · rw [if_neg hredeems]
      omega
  · intro digest st hst hredeems
    rcases List.mem_append.mp hst with hold | hlast
    · exact h.spent (hok.redeemed digest st hold hredeems)
    · rw [List.mem_singleton.mp hlast] at hredeems
      obtain ⟨g, hg, rfl, huser, -⟩ := h.live digest hredeems
      exact h.spends hok.keys hg huser
  · intro before y after hlog hends digest hissued
    rcases Trace.snoc_eq_append_cons hlog with ⟨rfl, rfl, rfl⟩ | ⟨rest, rfl, hbefore⟩
    · obtain ⟨g, hg, huser, rfl⟩ := hok.issued digest hissued
      refine ⟨fun st hst => ?_, h.spends hok.keys hg (huser.trans (h.ends userId hends))⟩
      simp at hst
    · obtain ⟨hrest, hspent⟩ := hok.superseded before y rest hbefore hends digest hissued
      refine ⟨fun st hst => ?_, h.spent hspent⟩
      rcases List.mem_append.mp hst with hold | hlast
      · exact hrest st hold
      · rw [List.mem_singleton.mp hlast]
        exact Bool.of_not_eq_true fun hredeems => hunspent digest hredeems hspent

theorem linking_commit (hok : LinksOk db userId s log) (h : Linking s log held t)
    (hnext : authNext P t.state = .commit) :
    LinksOk db userId (view t.changes s) (log ++ [t.state]) := by
  unfold Linking at h
  obtain ⟨st, snap, changes⟩ := t
  cases st with
  | issued row =>
      obtain ⟨hissues, ids, hsupersedes⟩ := h
      obtain ⟨now, hwritten⟩ := hsupersedes.written
      have hrenews : Renews s (view changes s) row.userId (.issued row) [row] := by
        refine ⟨⟨ids, now, hwritten s, hsupersedes.covers⟩, by simp, ?_, ?_, ?_, ?_⟩
        · intro r hr
          rw [List.mem_singleton.mp hr]
          exact ⟨rfl, hissues.fresh⟩
        · intro r hr
          rw [AuthState.issued.inj hr]
          exact List.mem_singleton_self _
        · intro userId hends
          simpa [AuthState.endsLinks, eq_comm] using hends
        · intro digest hredeems
          simp [AuthState.redeems] at hredeems
      exact hok.renew hrenews
  | passwordReset grant user newPassword =>
      obtain ⟨⟨ids, hsupersedes⟩, hredeemable, huser⟩ := h
      obtain ⟨now, hwritten⟩ := hsupersedes.written
      have hrenews :
          Renews s (view changes s) user.id (.passwordReset grant user newPassword) [] := by
        refine ⟨⟨ids, now, hwritten s, hsupersedes.covers⟩, by simp, by simp, by simp, ?_, ?_⟩
        · intro userId hends
          simpa [AuthState.endsLinks, eq_comm] using hends
        · intro digest hredeems
          refine ⟨grant, hredeemable.mem, ?_, huser.symm, hredeemable.live⟩
          simpa [AuthState.redeems] using hredeems
      exact hok.renew hrenews
  | detected | exchanged | loggedOut | loggedIn => exact h.elim
  | _ => simp [authNext, consumeOutstandingForUser, revokeAllForUser, revokeFamily] at hnext

theorem link_keeps :
    Keeps (authService P) (fun _ _ call => call.aboutLinks) (fun _ _ _ _ => True)
      (LinksOk db userId) Linking where
  begin := fun _ _ _ _ hcall => linking_begin hcall
  read := fun _ _ _ _ _ _ h _ hnext => linking_read h hnext
  lock := fun _ _ _ _ _ _ _ _ _ _ h _ hnext hrun => linking_lock h hnext hrun
  commit := fun _ _ _ _ hok h _ hnext => linking_commit hok h hnext
  other := fun _ _ _ _ _ _ _ h hu _ hapart hnext => linking_other h hu hapart hnext

end Facts

/-! ### Links beside each other -/

/--
**At most one link is live, and it works once.**
Whatever requests and resets run side by side: the user has at most one grant that is not
consumed, no grant is redeemed twice, and after a commit that issues the user a newer link
or resets the user's password, no link issued before it is redeemed.
-/
theorem reset_link_works_once {ι : Type*} [DecidableEq ι] (P : AuthPorts) (db : AuthDb)
    (userId : Nat) (events : List (Event AuthCall ι)) (p : Pool AuthDb AuthState AuthLock ι)
    (hkeys : (db.passwordResetTokens.map PasswordResetToken.tokenHash).Nodup)
    (hone : (db.outstanding userId).length ≤ 1)
    (hcalls : ∀ i call, Event.begin i call ∈ events → call.aboutLinks)
    (hrun : Trace.run (poolStep (authService P)) (Pool.start db) events = some p) :
    (p.committed.outstanding userId).length ≤ 1 ∧
      (∀ digest, p.log.countP (AuthState.redeems digest) ≤ 1) ∧
      ∀ before x after, p.log = before ++ x :: after → x.endsLinks userId = true →
        ∀ digest, IssuedTo db userId before digest →
          ∀ st ∈ after, st.redeems digest = false := by
  have hstart : LinksOk db userId db [] := by
    refine ⟨hkeys, fun digest hissued => ?_, hone, by simp, by simp, by simp⟩
    rcases hissued with hfirst | ⟨row, hrow, -⟩
    · exact hfirst
    · cases hrow
  have hok := (calls_rule link_keeps hstart hcalls hrun).2.rows
  refine ⟨hok.single, hok.once, fun before x after hlog hends digest hissued => ?_⟩
  exact (hok.superseded before x after hlog hends digest hissued).1

/-- A newer link is asked for; the older is tried after it, and then the newer, twice. -/
def renewedLink : List (Event AuthCall Bool) :=
  .begin true (.forgotPassword "ada@example.com" 0 "newer") ::
    (List.replicate 4 (.step true) ++ [.begin false (.resetPassword "link" "new" 0 1)] ++
      List.replicate 2 (.step false) ++ [.begin false (.resetPassword "newer" "new" 0 2)] ++
      List.replicate 6 (.step false) ++ [.begin false (.resetPassword "newer" "newest" 0 3)] ++
      List.replicate 2 (.step false))

/-- The older link is refused, the newer works once, and no link is left. -/
theorem renewedLink_works_once :
    ∃ p, Trace.run (poolStep (authService plainPorts)) (Pool.start forgotten) renewedLink =
        some p ∧
      p.log.map (AuthState.redeems "newer") = [false, true] ∧
      (p.committed.outstanding 1).length ≤ 1 ∧
      (∀ digest, p.log.countP (AuthState.redeems digest) ≤ 1) ∧
      ∀ before x after, p.log = before ++ x :: after → x.endsLinks 1 = true →
        ∀ digest, IssuedTo forgotten 1 before digest →
          ∀ st ∈ after, st.redeems digest = false := by
  have hlog : (Trace.run (poolStep (authService plainPorts)) (Pool.start forgotten)
      renewedLink).map (fun p => p.log.map (AuthState.redeems "newer")) =
        some [false, true] := by
    decide +kernel
  obtain ⟨p, hrun, hlog⟩ := Option.map_eq_some_iff.mp hlog
  refine ⟨p, hrun, hlog, reset_link_works_once plainPorts forgotten 1 renewedLink p (by decide)
    (by decide) (fun i call hcall => ?_) hrun⟩
  simp [renewedLink] at hcall
  rcases hcall with ⟨-, rfl⟩ | ⟨-, rfl⟩ | ⟨-, rfl⟩ | ⟨-, rfl⟩ <;> exact trivial

end Orqent
