/-
A refresh token is exchanged once, and a family that is closed stays closed.

What a refresh or a logout changes is the revocation of some rows and at most one new
row, and it holds the locks of all of them.  So what a transaction knows of a row it has
locked stays true whatever commits beside it: the token it is exchanging is live, and
the rows it revoked are all the live rows of the family, since another could only have
been added by a transaction that held one of them.
-/
import Orqent.Auth.Service

namespace Orqent

open RowTxn

/-! ### What the log says -/

/-- A refresh that exchanged the token `jti`. -/
def AuthState.exchanges (jti : String) : AuthState → Bool
  | .exchanged stored _ => stored.jti = jti
  | _ => false

/-- A refresh that exchanged a token of the family. -/
def AuthState.extendsFamily (familyId : String) : AuthState → Bool
  | .exchanged stored _ => stored.familyId = familyId
  | _ => false

/-- A logout with a token of the family, or a refresh with one that was revoked. -/
def AuthState.closes (familyId : String) : AuthState → Bool
  | .detected stored => stored.familyId = familyId
  | .loggedOut (some stored) => stored.familyId = familyId
  | _ => false

/-- The calls that a refresh token is presented to. -/
def AuthCall.presentsToken : AuthCall → Prop
  | .refresh .. => True
  | .logout .. => True
  | _ => False

/-! ### Rows -/

namespace AuthDb

variable {s : AuthDb} {ids : List String} {now : Nat} {rows : List RefreshToken}
  {r r' : RefreshToken}

/-- The rows named by `ids` revoked, and new rows. -/
def revise (ids : List String) (now : Nat) (rows : List RefreshToken) (s : AuthDb) : AuthDb :=
  { s with refreshTokens := (s.setRevoked ids now).refreshTokens ++ rows }

theorem revise_nil (s : AuthDb) : s.revise [] now [] = s := by
  simp [revise, setRevoked]

theorem setRevoked_eq_revise : s.setRevoked ids now = s.revise ids now [] := by
  simp [revise, setRevoked]

theorem addRefreshToken_revise :
    (s.revise ids now []).addRefreshToken r = s.revise ids now [r] := by
  simp [revise, addRefreshToken]

theorem jtis_revise : (s.revise ids now rows).jtis = s.jtis ++ rows.map RefreshToken.jti := by
  have hkey : ∀ r : RefreshToken,
      (if r.jti ∈ ids then { r with revokedAt := some now } else r).jti = r.jti := by
    intro r
    split <;> rfl
  simp only [jtis, revise, setRevoked, List.map_append, List.map_map]
  exact congrArg (· ++ _) (List.map_congr_left fun r _ => hkey r)

theorem mem_revise_of_notMem (hr : r ∈ s.refreshTokens) (hids : r.jti ∉ ids) :
    r ∈ (s.revise ids now rows).refreshTokens := by
  refine List.mem_append_left _ (List.mem_map.mpr ⟨r, hr, ?_⟩)
  rw [if_neg hids]

/-- A live row of the revised table is an old one that was left alone, or a new one. -/
theorem live_revise (hr : r ∈ (s.revise ids now rows).refreshTokens)
    (hlive : r.revokedAt = none) :
    (r ∈ s.refreshTokens ∧ r.jti ∉ ids) ∨ r ∈ rows := by
  rcases List.mem_append.mp hr with hold | hnew
  · obtain ⟨r', hr', rfl⟩ := List.mem_map.mp hold
    by_cases hids : r'.jti ∈ ids
    · rw [if_pos hids] at hlive
      cases hlive
    · rw [if_neg hids]
      exact Or.inl ⟨hr', hids⟩
  · exact Or.inr hnew

/-- A row that is revoked stays so. -/
theorem revoked_revise (hr : r ∈ s.refreshTokens) (h : r.revokedAt ≠ none ∨ r.jti ∈ ids) :
    ∃ r' ∈ (s.revise ids now rows).refreshTokens, r'.jti = r.jti ∧ r'.revokedAt ≠ none := by
  by_cases hids : r.jti ∈ ids
  · refine ⟨{ r with revokedAt := some now }, ?_, rfl, Option.some_ne_none _⟩
    refine List.mem_append_left _ (List.mem_map.mpr ⟨r, hr, ?_⟩)
    rw [if_pos hids]
  · exact ⟨r, mem_revise_of_notMem hr hids, rfl, h.resolve_right hids⟩

theorem eq_of_jti (hkeys : s.jtis.Nodup) (hr : r ∈ s.refreshTokens) (hr' : r' ∈ s.refreshTokens)
    (h : r.jti = r'.jti) : r = r' :=
  List.inj_on_of_nodup_map hkeys hr hr' h

theorem getByJti_mem {jti : String} (h : s.getByJti jti = some r) : r ∈ s.refreshTokens :=
  List.mem_of_find?_eq_some h

/-- The row is a live one of the family. -/
structure LiveIn (s : AuthDb) (familyId : String) (r : RefreshToken) : Prop where
  mem : r ∈ s.refreshTokens
  family : r.familyId = familyId
  live : r.revokedAt = none

theorem mem_liveOfFamily {familyId : String} :
    r ∈ s.liveOfFamily familyId ↔ s.LiveIn familyId r := by
  unfold liveOfFamily
  simp only [List.mem_filter, Bool.and_eq_true, decide_eq_true_eq, Option.isNone_iff_eq_none]
  exact ⟨fun h => ⟨h.1, h.2.1, h.2.2⟩, fun h => ⟨h.mem, h.family, h.live⟩⟩

/-- Live rows that agree on their id are at most one. -/
theorem liveOfFamily_length_le {familyId : String} (hkeys : s.jtis.Nodup)
    (h : ∀ r r', s.LiveIn familyId r → s.LiveIn familyId r' → r.jti = r'.jti) :
    (s.liveOfFamily familyId).length ≤ 1 := by
  have hnodup : (s.liveOfFamily familyId).Nodup := (List.Nodup.of_map _ hkeys).filter _
  have hall : ∀ r ∈ s.liveOfFamily familyId, ∀ r' ∈ s.liveOfFamily familyId, r = r' := by
    intro r hr r' hr'
    have hlive := mem_liveOfFamily.mp hr
    have hlive' := mem_liveOfFamily.mp hr'
    exact eq_of_jti hkeys hlive.mem hlive'.mem (h r r' hlive hlive')
  rcases hrows : s.liveOfFamily familyId with _ | ⟨r, _ | ⟨r', rest⟩⟩
  · exact Nat.zero_le _
  · exact Nat.le_refl _
  · rw [hrows] at hnodup hall
    have heq := hall r List.mem_cons_self r' (List.mem_cons_of_mem _ List.mem_cons_self)
    exact absurd (heq ▸ List.mem_cons_self) (List.nodup_cons.mp hnodup).1

end AuthDb

/-! ### What an open transaction knows -/

/-- The token a refresh is exchanging: its row is live, and locked. -/
structure Presented (s : AuthDb) (held : List AuthLock) (stored : RefreshToken) : Prop where
  mem : stored ∈ s.refreshTokens
  live : stored.revokedAt = none
  locked : .refreshToken stored.jti ∈ held

/-- The changes of a transaction: rows it revoked and rows it added, all of them locked. -/
structure Writes (held : List AuthLock) (changes : List (AuthDb → AuthDb)) (ids : List String)
    (rows : List RefreshToken) : Prop where
  revised : ∃ now, ∀ s, view changes s = s.revise ids now rows
  revoked : ∀ jti ∈ ids, .refreshToken jti ∈ held
  added : ∀ r ∈ rows, .refreshToken r.jti ∈ held

/-- The rows it revoked are all that were live of the family. -/
def Covers (s : AuthDb) (familyId : String) (ids : List String) : Prop :=
  ∀ r, s.LiveIn familyId r → r.jti ∈ ids

/-- What a refresh or a logout knows and has written, by how far it has come. -/
def RotationFacts (s : AuthDb) (held : List AuthLock) (ids : List String)
    (rows : List RefreshToken) : AuthState → Prop
  | .refused _ => rows = []
  | .refreshing .. | .replayed .. | .leaving .. | .closing .. | .loggedOut none =>
      ids = [] ∧ rows = []
  | .rotating stored .. | .retiring stored .. =>
      ids = [] ∧ rows = [] ∧ Presented s held stored
  | .succeeding stored _ row =>
      ids = [stored.jti] ∧ rows = [] ∧ Presented s held stored ∧ row.familyId = stored.familyId
  | .exchanged stored row =>
      ids = [stored.jti] ∧ rows = [row] ∧ Presented s held stored ∧
        row.familyId = stored.familyId ∧ row.jti ∉ s.jtis
  | .detected stored | .loggedOut (some stored) => rows = [] ∧ Covers s stored.familyId ids
  | _ => False

/-- The assertion about an open refresh or logout. -/
def Rotating (s : AuthDb) (_ : List AuthState) (held : List AuthLock)
    (t : Txn AuthDb AuthState) : Prop :=
  ∃ ids rows, Writes held t.changes ids rows ∧ RotationFacts s held ids rows t.state

section Facts

variable {P : AuthPorts} {s : AuthDb} {held held' : List AuthLock} {ids ids' : List String}
  {now : Nat} {rows rows' : List RefreshToken} {changes changes' : List (AuthDb → AuthDb)}
  {st st' : AuthState} {stored row : RefreshToken}

theorem Writes.nil : Writes held [] [] [] where
  revised := ⟨0, fun s => s.revise_nil.symm⟩
  revoked := fun jti h => by cases h
  added := fun r h => by cases h

/-- A transaction that has written nothing sees the committed rows. -/
theorem Writes.view_eq (h : Writes held changes [] []) (s : AuthDb) : view changes s = s := by
  obtain ⟨now, hrevised⟩ := h.revised
  rw [hrevised, s.revise_nil]

theorem Writes.skip (h : Writes held changes ids rows) (locks : List AuthLock) :
    Writes (held ++ locks) (changes ++ [id]) ids rows := by
  obtain ⟨now, hrevised⟩ := h.revised
  refine ⟨⟨now, fun s => ?_⟩, fun jti hjti => List.mem_append_left _ (h.revoked jti hjti),
    fun r hr => List.mem_append_left _ (h.added r hr)⟩
  rw [view_snoc, hrevised, id]

theorem Writes.revoke (h : Writes held changes [] []) {locks : List AuthLock}
    (hlocks : ∀ jti ∈ ids, .refreshToken jti ∈ locks) :
    Writes (held ++ locks) (changes ++ [AuthDb.setRevoked ids now]) ids [] := by
  refine ⟨⟨now, fun s => ?_⟩, fun jti hjti => List.mem_append_right _ (hlocks jti hjti),
    fun r hr => by cases hr⟩
  rw [view_snoc, h.view_eq, AuthDb.setRevoked_eq_revise]

theorem Writes.add (h : Writes held changes ids []) {locks : List AuthLock}
    (hlock : .refreshToken row.jti ∈ locks) :
    Writes (held ++ locks) (changes ++ [fun db => (id db).addRefreshToken row]) ids [row] := by
  obtain ⟨now, hrevised⟩ := h.revised
  refine ⟨⟨now, fun s => ?_⟩, fun jti hjti => List.mem_append_left _ (h.revoked jti hjti), ?_⟩
  · rw [view_snoc, hrevised, id, AuthDb.addRefreshToken_revise]
  · intro r hr
    rw [List.mem_singleton.mp hr]
    exact List.mem_append_right _ hlock

theorem Presented.append (h : Presented s held stored) (locks : List AuthLock) :
    Presented s (held ++ locks) stored :=
  ⟨h.mem, h.live, List.mem_append_left _ h.locked⟩

/-- The locks of two transactions are on different tokens. -/
theorem token_ne {jti jti' : String} (hapart : ∀ l ∈ held, ∀ l' ∈ held', l.conflicts l' = false)
    (hl : .refreshToken jti ∈ held) (hl' : .refreshToken jti' ∈ held') : jti ≠ jti' := by
  have hfree := hapart _ hl _ hl'
  simpa [AuthLock.conflicts] using hfree

/-- A new row has the family of the live token its transaction is exchanging. -/
theorem RotationFacts.successor (h : RotationFacts s held ids rows st) :
    rows = [] ∨ ∃ stored row, rows = [row] ∧ Presented s held stored ∧
      row.familyId = stored.familyId := by
  cases st with
  | refused error => exact Or.inl h
  | refreshing | replayed | leaving | closing => exact Or.inl h.2
  | rotating | retiring | succeeding => exact Or.inl h.2.1
  | exchanged stored row => exact Or.inr ⟨stored, row, h.2.1, h.2.2.1, h.2.2.2.1⟩
  | detected stored => exact Or.inl h.1
  | loggedOut stored =>
      cases stored with
      | none => exact Or.inl h.2
      | some stored => exact Or.inl h.1
  | _ => exact h.elim

/-! ### What a commit beside it leaves true -/

section Beside

variable (hwrites : Writes held' changes' ids' rows')
  (hfacts : RotationFacts s held' ids' rows' st')
  (hapart : ∀ l ∈ held, ∀ l' ∈ held', l.conflicts l' = false)

include hwrites hapart

theorem Presented.beside (h : Presented s held stored) :
    Presented (s.revise ids' now rows') held stored := by
  refine ⟨AuthDb.mem_revise_of_notMem h.mem fun hids => ?_, h.live, h.locked⟩
  exact token_ne hapart h.locked (hwrites.revoked _ hids) rfl

theorem fresh_beside (hfresh : row.jti ∉ s.jtis) (hlock : .refreshToken row.jti ∈ held) :
    row.jti ∉ (s.revise ids' now rows').jtis := by
  rw [AuthDb.jtis_revise, List.mem_append, not_or]
  refine ⟨hfresh, fun hnew => ?_⟩
  obtain ⟨r, hr, hjti⟩ := List.mem_map.mp hnew
  exact token_ne hapart hlock (hwrites.added r hr) hjti.symm

include hfacts

omit hwrites in
/-- A new row in the family would come from a live one, which is locked. -/
theorem Covers.beside {familyId : String} (h : Covers s familyId ids)
    (hlocked : ∀ jti ∈ ids, .refreshToken jti ∈ held) :
    Covers (s.revise ids' now rows') familyId ids := by
  intro r hr
  rcases AuthDb.live_revise hr.mem hr.live with ⟨hold, -⟩ | hnew
  · exact h r ⟨hold, hr.family, hr.live⟩
  · rcases hfacts.successor with hnone | ⟨stored, row, hrows, hpresented, hfamily⟩
    · rw [hnone] at hnew
      cases hnew
    · rw [hrows, List.mem_singleton] at hnew
      have hstored : stored.jti ∈ ids :=
        h stored ⟨hpresented.mem, by rw [← hfamily, ← hnew, hr.family], hpresented.live⟩
      exact absurd rfl (token_ne hapart (hlocked _ hstored) hpresented.locked)

theorem RotationFacts.beside (h : RotationFacts s held ids rows st)
    (hlocked : ∀ jti ∈ ids, .refreshToken jti ∈ held)
    (hadded : ∀ r ∈ rows, .refreshToken r.jti ∈ held) :
    RotationFacts (s.revise ids' now rows') held ids rows st := by
  cases st with
  | refused error => exact h
  | refreshing | replayed | leaving | closing => exact h
  | rotating | retiring => exact ⟨h.1, h.2.1, h.2.2.beside hwrites hapart⟩
  | succeeding => exact ⟨h.1, h.2.1, h.2.2.1.beside hwrites hapart, h.2.2.2⟩
  | exchanged stored row =>
      obtain ⟨hids, hrows, hpresented, hfamily, hfresh⟩ := h
      refine ⟨hids, hrows, hpresented.beside hwrites hapart, hfamily, ?_⟩
      exact fresh_beside hwrites hapart hfresh (hadded _ (hrows ▸ List.mem_singleton_self _))
  | detected stored => exact ⟨h.1, h.2.beside hfacts hapart hlocked⟩
  | loggedOut stored =>
      cases stored with
      | none => exact h
      | some stored => exact ⟨h.1, h.2.beside hfacts hapart hlocked⟩
  | _ => exact h.elim

end Beside

end Facts

/-! ### The committed rows and the log -/

/-- What holds of a family, and of the calls that have committed. -/
structure FamilyOk (familyId : String) (s : AuthDb) (log : List AuthState) : Prop where
  keys : s.jtis.Nodup
  single : ∀ r r', s.LiveIn familyId r → s.LiveIn familyId r' → r.jti = r'.jti
  spent : ∀ jti, (∃ st ∈ log, st.exchanges jti = true) →
    ∃ r ∈ s.refreshTokens, r.jti = jti ∧ r.revokedAt ≠ none
  once : ∀ jti, log.countP (·.exchanges jti) ≤ 1
  closed : (∃ st ∈ log, st.closes familyId = true) → ∀ r, ¬ s.LiveIn familyId r
  apart : log.Pairwise fun earlier later =>
    earlier.closes familyId = true → later.extendsFamily familyId = false

section Family

variable {familyId : String} {s : AuthDb} {log : List AuthState} {ids : List String} {now : Nat}
  {st : AuthState} {stored row : RefreshToken} {held : List AuthLock}

theorem FamilyOk.start (hkeys : s.jtis.Nodup) (hone : (s.liveOfFamily familyId).length ≤ 1) :
    FamilyOk familyId s [] where
  keys := hkeys
  single := by
    intro r r' hr hr'
    have hmem := AuthDb.mem_liveOfFamily.mpr hr
    have hmem' := AuthDb.mem_liveOfFamily.mpr hr'
    rcases hrows : s.liveOfFamily familyId with _ | ⟨x, _ | ⟨y, rest⟩⟩
    · rw [hrows] at hmem
      cases hmem
    · rw [hrows, List.mem_singleton] at hmem hmem'
      rw [hmem, hmem']
    · rw [hrows] at hone
      simp at hone
  spent := by
    rintro jti ⟨st, hst, -⟩
    cases hst
  once := fun _ => Nat.zero_le _
  closed := by
    rintro ⟨st, hst, -⟩
    cases hst
  apart := List.Pairwise.nil

/-- Revoking rows keeps it. -/
theorem FamilyOk.revoke (h : FamilyOk familyId s log) (ids : List String) (now : Nat) :
    FamilyOk familyId (s.revise ids now []) log := by
  have hlive : ∀ r, (s.revise ids now []).LiveIn familyId r → s.LiveIn familyId r := by
    intro r hr
    rcases AuthDb.live_revise hr.mem hr.live with ⟨hold, -⟩ | hnew
    · exact ⟨hold, hr.family, hr.live⟩
    · cases hnew
  refine ⟨?_, fun r r' hr hr' => h.single r r' (hlive r hr) (hlive r' hr'), fun jti hjti => ?_,
    h.once, fun hclosed r hr => h.closed hclosed r (hlive r hr), h.apart⟩
  · rw [AuthDb.jtis_revise, List.map_nil, List.append_nil]
    exact h.keys
  · obtain ⟨r, hr, rfl, hrevoked⟩ := h.spent jti hjti
    exact AuthDb.revoked_revise hr (Or.inl hrevoked)

/-- A commit that exchanges nothing keeps it, and may close the family if nothing of it lives. -/
theorem FamilyOk.note (h : FamilyOk familyId s log) (hexchange : ∀ jti, st.exchanges jti = false)
    (hextend : st.extendsFamily familyId = false)
    (hclose : st.closes familyId = true → ∀ r, ¬ s.LiveIn familyId r) :
    FamilyOk familyId s (log ++ [st]) := by
  refine ⟨h.keys, h.single, fun jti hjti => ?_, fun jti => ?_, fun hclosed => ?_, ?_⟩
  · obtain ⟨st', hst', hexch⟩ := hjti
    rcases List.mem_append.mp hst' with hold | hlast
    · exact h.spent jti ⟨st', hold, hexch⟩
    · rw [List.mem_singleton.mp hlast, hexchange] at hexch
      cases hexch
  · rw [List.countP_append, List.countP_singleton, hexchange]
    exact h.once jti
  · obtain ⟨st', hst', hcl⟩ := hclosed
    rcases List.mem_append.mp hst' with hold | hlast
    · exact h.closed ⟨st', hold, hcl⟩
    · rw [List.mem_singleton.mp hlast] at hcl
      exact hclose hcl
  · refine List.pairwise_append.mpr ⟨h.apart, List.pairwise_singleton .., fun st' _ later hl => ?_⟩
    rw [List.mem_singleton.mp hl]
    exact fun _ => hextend

/-- An exchange revokes the live token of its family and adds another. -/
theorem FamilyOk.exchange (h : FamilyOk familyId s log) (hpresented : Presented s held stored)
    (hfamily : row.familyId = stored.familyId) (hfresh : row.jti ∉ s.jtis) :
    FamilyOk familyId (s.revise [stored.jti] now [row]) (log ++ [.exchanged stored row]) := by
  -- The token it presented was live, so it had not been exchanged, nor its family closed.
  have hunspent : ∀ st ∈ log, st.exchanges stored.jti = false := by
    intro st hst
    by_contra hexch
    obtain ⟨r, hr, hjti, hrevoked⟩ := h.spent stored.jti ⟨st, hst, Bool.of_not_eq_false hexch⟩
    exact hrevoked (AuthDb.eq_of_jti h.keys hr hpresented.mem hjti ▸ hpresented.live)
  have hopen : stored.familyId = familyId → ∀ st ∈ log, st.closes familyId = false := by
    intro hf st hst
    by_contra hcl
    exact h.closed ⟨st, hst, Bool.of_not_eq_false hcl⟩ stored ⟨hpresented.mem, hf, hpresented.live⟩
  have hlive : ∀ r, (s.revise [stored.jti] now [row]).LiveIn familyId r →
      (s.LiveIn familyId r ∧ r.jti ≠ stored.jti) ∨ (r = row ∧ stored.familyId = familyId) := by
    intro r hr
    rcases AuthDb.live_revise hr.mem hr.live with ⟨hold, hjti⟩ | hnew
    · exact Or.inl ⟨⟨hold, hr.family, hr.live⟩, fun hc => hjti (hc ▸ List.mem_singleton_self _)⟩
    · have hrow := List.mem_singleton.mp hnew
      exact Or.inr ⟨hrow, by rw [← hfamily, ← hrow, hr.family]⟩
  have hold : ∀ r, s.LiveIn familyId r → r.jti ≠ stored.jti → stored.familyId ≠ familyId := by
    intro r hr hjti hf
    exact hjti (h.single r stored hr ⟨hpresented.mem, hf, hpresented.live⟩)
  refine ⟨?_, fun r r' hr hr' => ?_, fun jti hjti => ?_, fun jti => ?_, fun hclosed r hr => ?_, ?_⟩
  · rw [AuthDb.jtis_revise]
    refine List.nodup_append.mpr ⟨h.keys, List.nodup_singleton _, ?_⟩
    intro j hj k hk hjk
    exact hfresh (List.mem_singleton.mp hk ▸ hjk ▸ hj)
  · rcases hlive r hr with ⟨hr, hjti⟩ | ⟨hr, hf⟩ <;>
      rcases hlive r' hr' with ⟨hr', hjti'⟩ | ⟨hr', hf'⟩
    · exact h.single r r' hr hr'
    · exact absurd hf' (hold r hr hjti)
    · exact absurd hf (hold r' hr' hjti')
    · rw [hr, hr']
  · obtain ⟨st, hst, hexch⟩ := hjti
    rcases List.mem_append.mp hst with hbefore | hlast
    · obtain ⟨r, hr, rfl, hrevoked⟩ := h.spent jti ⟨st, hbefore, hexch⟩
      exact AuthDb.revoked_revise hr (Or.inl hrevoked)
    · rw [List.mem_singleton.mp hlast] at hexch
      obtain rfl : stored.jti = jti := by simpa [AuthState.exchanges] using hexch
      exact AuthDb.revoked_revise hpresented.mem (Or.inr (List.mem_singleton_self _))
  · rw [List.countP_append, List.countP_singleton]
    by_cases hjti : stored.jti = jti
    · have hzero : log.countP (·.exchanges jti) = 0 := by
        rw [List.countP_eq_zero]
        intro st hst
        rw [← hjti, hunspent st hst]
        exact Bool.false_ne_true
      rw [hzero]
      split <;> omega
    · have hnot : AuthState.exchanges jti (.exchanged stored row) = false := by
        simpa [AuthState.exchanges] using hjti
      rw [hnot]
      exact h.once jti
  · obtain ⟨st, hst, hcl⟩ := hclosed
    rcases List.mem_append.mp hst with hbefore | hlast
    · rcases hlive r hr with ⟨hr, -⟩ | ⟨-, hf⟩
      · exact h.closed ⟨st, hbefore, hcl⟩ r hr
      · rw [hopen hf st hbefore] at hcl
        cases hcl
    · rw [List.mem_singleton.mp hlast] at hcl
      cases hcl
  · refine List.pairwise_append.mpr ⟨h.apart, List.pairwise_singleton .., ?_⟩
    intro st hst later hl hcl
    rw [List.mem_singleton.mp hl]
    refine decide_eq_false fun hf => ?_
    rw [hopen hf st hst] at hcl
    cases hcl

end Family

/-! ### The transactions -/

section Keeping

variable {P : AuthPorts} {s : AuthDb} {log : List AuthState} {held held' : List AuthLock}
  {t u : Txn AuthDb AuthState} {familyId : String}

theorem rotating_begin {call : AuthCall} (hcall : call.presentsToken) :
    Rotating s log [] ⟨authStart P call, none, []⟩ := by
  refine ⟨[], [], Writes.nil, ?_⟩
  cases call with
  | refresh token now minted =>
      unfold authStart
      dsimp only
      split
      · exact rfl
      · exact ⟨rfl, rfl⟩
  | logout token now =>
      unfold authStart
      dsimp only
      split
      · exact rfl
      · exact ⟨rfl, rfl⟩
  | _ => exact hcall.elim

theorem rotating_read {k : AuthDb → AuthState} (h : Rotating s log held t)
    (hnext : authNext P t.state = .read k) :
    Rotating s log held
      ⟨k (view t.changes (t.snap.getD s)), some (t.snap.getD s), t.changes⟩ := by
  obtain ⟨st, snap, changes⟩ := t
  obtain ⟨ids, rows, hwrites, hfacts⟩ := h
  refine ⟨ids, rows, hwrites, ?_⟩
  cases st with
  | rotating stored now minted =>
      cases hnext
      obtain ⟨hids, hrows, hpresented⟩ := hfacts
      dsimp only
      split
      · exact hrows
      · split
        · exact ⟨hids, hrows, hpresented⟩
        · exact hrows
  | leaving claims now =>
      cases hnext
      dsimp only
      split
      · exact hfacts
      · exact hfacts
  | login | forgetting | granted => exact hfacts.elim
  | _ => cases hnext

/-- The live tokens of the family, revoked under their locks. -/
theorem rotating_revokeFamily {changes : List (AuthDb → AuthDb)}
    (hwrites : Writes held changes [] []) (stored : RefreshToken) (now : Nat) :
    ∃ ids, Writes (held ++ (s.liveOfFamily stored.familyId).map fun r => .refreshToken r.jti)
        (changes ++
          [AuthDb.setRevoked ((s.liveOfFamily stored.familyId).map RefreshToken.jti) now]) ids [] ∧
      Covers s stored.familyId ids := by
  refine ⟨_, hwrites.revoke fun jti hjti => ?_, fun r hr => ?_⟩
  · obtain ⟨r, hr, rfl⟩ := List.mem_map.mp hjti
    exact List.mem_map.mpr ⟨r, hr, rfl⟩
  · exact List.mem_map.mpr ⟨r, AuthDb.mem_liveOfFamily.mpr hr, rfl⟩

theorem rotating_lock {locks : (AuthLock → Bool) → AuthDb → List AuthLock}
    {run : (AuthLock → Bool) → AuthDb → Option (AuthState × (AuthDb → AuthDb))}
    {free : AuthLock → Bool} {state : AuthState} {d : AuthDb → AuthDb}
    (h : Rotating s log held t) (hnext : authNext P t.state = .lock locks run)
    (hrun : run free (view t.changes s) = some (state, d)) :
    Rotating s log (held ++ locks free (view t.changes s)) ⟨state, t.snap, t.changes ++ [d]⟩ := by
  obtain ⟨st, snap, changes⟩ := t
  obtain ⟨ids, rows, hwrites, hfacts⟩ := h
  dsimp only at hwrites hfacts hnext hrun ⊢
  cases st with
  | refreshing token claims now minted =>
      obtain ⟨rfl, rfl⟩ := hfacts
      cases hnext
      cases hrun
      rw [hwrites.view_eq]
      refine ⟨[], [], hwrites.skip _, ?_⟩
      dsimp only
      cases hstored : s.getByJti claims.jti with
      | none => exact rfl
      | some stored =>
          unfold refreshStored
          dsimp only
          split
          · exact rfl
          · split
            · exact ⟨rfl, rfl⟩
            · rename_i hlive
              split
              · exact rfl
              · refine ⟨rfl, rfl, AuthDb.getByJti_mem hstored, ?_, ?_⟩
                · exact Option.not_isSome_iff_eq_none.mp hlive
                · exact List.mem_append_right _ List.mem_cons_self
  | replayed stored now =>
      obtain ⟨rfl, rfl⟩ := hfacts
      cases hnext
      cases hrun
      rw [hwrites.view_eq]
      obtain ⟨ids, hrevoked, hcovers⟩ := rotating_revokeFamily (s := s) hwrites stored now
      exact ⟨ids, [], hrevoked, rfl, hcovers⟩
  | closing stored now =>
      obtain ⟨rfl, rfl⟩ := hfacts
      cases hnext
      cases hrun
      rw [hwrites.view_eq]
      obtain ⟨ids, hrevoked, hcovers⟩ := rotating_revokeFamily (s := s) hwrites stored now
      exact ⟨ids, [], hrevoked, rfl, hcovers⟩
  | retiring stored user now minted =>
      obtain ⟨rfl, rfl, hpresented⟩ := hfacts
      cases hnext
      cases hrun
      refine ⟨[stored.jti], [], hwrites.revoke fun jti hjti => ?_, rfl, rfl,
        hpresented.append _, rfl⟩
      rw [List.mem_singleton.mp hjti]
      exact List.mem_singleton_self _
  | succeeding stored user row =>
      obtain ⟨rfl, rfl, hpresented, hfamily⟩ := hfacts
      cases hnext
      obtain ⟨now, hrevised⟩ := hwrites.revised
      dsimp only [insertToken] at hrun
      split at hrun
      · cases hrun
        exact ⟨_, [], hwrites.skip _, rfl⟩
      · rename_i hfresh
        cases hrun
        rw [hrevised, AuthDb.jtis_revise, List.map_nil, List.append_nil] at hfresh
        exact ⟨_, [row], hwrites.add (List.mem_cons_of_mem _ List.mem_cons_self), rfl, rfl,
          hpresented.append _, hfamily, hfresh⟩
  | verified | superseding | issuing | redeeming | setting | consuming | ending =>
      exact hfacts.elim
  | _ => cases hnext

theorem rotating_commit (hok : FamilyOk familyId s log) (h : Rotating s log held t)
    (hnext : authNext P t.state = .commit) :
    FamilyOk familyId (view t.changes s) (log ++ [t.state]) := by
  obtain ⟨st, snap, changes⟩ := t
  obtain ⟨ids, rows, hwrites, hfacts⟩ := h
  obtain ⟨now, hrevised⟩ := hwrites.revised
  dsimp only at hrevised hfacts hnext ⊢
  rw [hrevised]
  -- Where the rows that were live of a family have been revoked, none is live any more.
  have hclosed : ∀ f, Covers s f ids → f = familyId →
      ∀ r, ¬ (s.revise ids now []).LiveIn familyId r := by
    rintro f hcovers rfl r hr
    rcases AuthDb.live_revise hr.mem hr.live with ⟨hold, hjti⟩ | hnew
    · exact hjti (hcovers r ⟨hold, hr.family, hr.live⟩)
    · cases hnew
  cases st with
  | exchanged stored row =>
      obtain ⟨rfl, rfl, hpresented, hfamily, hfresh⟩ := hfacts
      exact hok.exchange hpresented hfamily hfresh
  | detected stored =>
      obtain ⟨rfl, hcovers⟩ := hfacts
      exact (hok.revoke ids now).note (fun _ => rfl) rfl fun hf =>
        hclosed _ hcovers (of_decide_eq_true hf)
  | loggedOut stored =>
      cases stored with
      | none =>
          obtain ⟨rfl, rfl⟩ := hfacts
          refine (hok.revoke [] now).note (fun _ => rfl) rfl fun hf => ?_
          cases hf
      | some stored =>
          obtain ⟨rfl, hcovers⟩ := hfacts
          exact (hok.revoke ids now).note (fun _ => rfl) rfl fun hf =>
            hclosed _ hcovers (of_decide_eq_true hf)
  | loggedIn | issued | passwordReset => exact hfacts.elim
  | _ => cases hnext

theorem rotating_other (h : Rotating s log held t) (hu : Rotating s log held' u)
    (hapart : ∀ l ∈ held, ∀ l' ∈ held', l.conflicts l' = false) :
    Rotating (view u.changes s) (log ++ [u.state]) held t := by
  obtain ⟨ids, rows, hwrites, hfacts⟩ := h
  obtain ⟨ids', rows', hwrites', hfacts'⟩ := hu
  obtain ⟨now, hrevised⟩ := hwrites'.revised
  rw [hrevised]
  exact ⟨ids, rows, hwrites,
    RotationFacts.beside hwrites' hfacts' hapart hfacts hwrites.revoked hwrites.added⟩

theorem rotation_keeps (P : AuthPorts) (familyId : String) :
    Keeps (authService P) (fun _ _ call => call.presentsToken) (fun _ _ _ _ => True)
      (FamilyOk familyId) Rotating where
  begin := fun _ _ _ _ hcall => rotating_begin hcall
  read := fun _ _ _ _ _ _ h _ hnext => rotating_read h hnext
  lock := fun _ _ _ _ _ _ _ _ _ _ h _ hnext hrun => rotating_lock h hnext hrun
  commit := fun _ _ _ _ hok h _ hnext => rotating_commit hok h hnext
  other := fun _ _ _ _ _ _ _ h hu _ hapart _ => rotating_other h hu hapart

end Keeping

/-! ### Rotation is single-use -/

/--
**A refresh token is exchanged once, and a family that is closed stays closed.**
Whatever refreshes and logouts run side by side, no token is exchanged twice; at most
one token of a family is live in the committed rows; and after a logout from the family,
or a refresh that presented a revoked token of it, no refresh with a token of the family
succeeds.
-/
theorem rotation_single_use {ι : Type*} [DecidableEq ι] (P : AuthPorts) (db : AuthDb)
    (familyId : String) (events : List (Event AuthCall ι))
    (p : Pool AuthDb AuthState AuthLock ι) (hkeys : db.jtis.Nodup)
    (hone : (db.liveOfFamily familyId).length ≤ 1)
    (hcalls : ∀ i call, Event.begin i call ∈ events → call.presentsToken)
    (hrun : Trace.run (poolStep (authService P)) (Pool.start db) events = some p) :
    (∀ jti, p.log.countP (·.exchanges jti) ≤ 1) ∧
      (p.committed.liveOfFamily familyId).length ≤ 1 ∧
      p.log.Pairwise fun earlier later =>
        earlier.closes familyId = true → later.extendsFamily familyId = false := by
  have hstart : FamilyOk familyId db [] := FamilyOk.start hkeys hone
  have hok := (calls_rule (rotation_keeps P familyId) hstart hcalls hrun).2.rows
  exact ⟨hok.once, AuthDb.liveOfFamily_length_le hok.keys hok.single, hok.apart⟩

/-- A user with one session, whose token is `first`. -/
def oneSession : AuthDb where
  users := [⟨1, "ada@example.com", "hash of ada", true, false⟩]
  refreshTokens := [⟨1, "first", "first", "family", 100, none⟩]
  passwordResetTokens := []

/-- The token is presented twice; the second refresh waits for the first, and is a replay. -/
def presentedTwice : List (Event AuthCall Bool) :=
  [.begin true (.refresh "first" 0 ⟨"second", "second", 200⟩),
    .begin false (.refresh "first" 0 ⟨"third", "third", 200⟩), .step true, .step true,
    .step true, .step true, .step true, .step false, .step false, .step false]

theorem presentedTwice_single_use :
    ∃ p, Trace.run (poolStep (authService plainPorts)) (Pool.start oneSession) presentedTwice
        = some p ∧
      p.log.map (·.closes "family") = [false, true] ∧
      (∀ jti, p.log.countP (·.exchanges jti) ≤ 1) ∧
      (p.committed.liveOfFamily "family").length ≤ 1 ∧
      p.log.Pairwise fun earlier later =>
        earlier.closes "family" = true → later.extendsFamily "family" = false := by
  have hlog : (Trace.run (poolStep (authService plainPorts)) (Pool.start oneSession)
      presentedTwice).map (fun p => p.log.map (·.closes "family")) = some [false, true] := by
    decide +kernel
  obtain ⟨p, hrun, hcloses⟩ := Option.map_eq_some_iff.mp hlog
  refine ⟨p, hrun, hcloses, rotation_single_use plainPorts oneSession "family" presentedTwice p
    (by decide) (by decide) (fun i call hcall => ?_) hrun⟩
  simp only [presentedTwice, List.mem_cons, Event.begin.injEq, reduceCtorEq, List.not_mem_nil,
    or_false] at hcall
  rcases hcall with ⟨-, rfl⟩ | ⟨-, rfl⟩ <;> exact trivial

end Orqent
