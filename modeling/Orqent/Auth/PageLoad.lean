/-
Loading a page does not sign its user out.

Any number of requests may be answered 401 at once.  They wait for one exchange; where it is
neither lost nor turned away, the token has not expired and the server does not fail, it is
answered with a new cookie and a new access token, and every one of them is sent again.  So
nobody is signed out who was not refused twice, the second time with a token that was just
issued.
-/
import Orqent.Auth.Session

namespace Orqent

open RowTxn

/-! ### The account -/

namespace AuthDb

variable {s s' : AuthDb} {ids : List String} {userId : Nat}

/-- The user may have a session. -/
def Active (s : AuthDb) (userId : Nat) : Prop :=
  ∃ user, s.getById userId = some user ∧ user.isActive = true

theorem getById_accounts (s : AuthDb) (userId : Nat) :
    (s.getById userId).map (fun u => { u with passwordHash := "" }) =
      s.accounts.find? fun u => u.id = userId && !u.deleted := by
  unfold getById accounts
  rw [List.find?_map]
  rfl

/-- Whether the user may have a session does not depend on the hash. -/
theorem Active.of_accounts (h : s.Active userId) (heq : s'.accounts = s.accounts) :
    s'.Active userId := by
  obtain ⟨user, hfound, hactive⟩ := h
  have hsame := s'.getById_accounts userId
  rw [heq, ← getById_accounts, hfound] at hsame
  obtain ⟨user', hfound', huser⟩ := Option.map_eq_some_iff.mp hsame
  refine ⟨user', hfound', ?_⟩
  have hflag := congrArg User.isActive huser
  exact hflag.trans hactive

theorem notMem_jtis {jti : String} (hjti : jti ∈ ids)
    (h : jti ∉ (s.given ids).map RefreshToken.jti) : jti ∉ s.jtis := by
  intro hmem
  rw [given_jtis] at h
  exact h (List.mem_filter.mpr ⟨hmem, by simpa using hjti⟩)

end AuthDb

/-! ### What is kept -/

/-- A refresh on its way to be answered with new tokens. -/
def Prompt (ids : List String) (s : AuthDb) (minted : Minted) (t : Txn AuthDb AuthState) : Prop :=
  match t.state with
  | .refreshing _ _ now _ =>
      t.snap = none ∧ (∀ r ∈ s.given ids, r.revokedAt = none → now < r.expiresAt) ∧
        minted.jti ∉ (s.given ids).map RefreshToken.jti
  | .rotating .. => t.snap = none ∧ minted.jti ∉ (s.given ids).map RefreshToken.jti
  | .retiring stored user _ _ | .succeeding stored user _ =>
      user.id = stored.userId ∧ minted.jti ∉ (s.given ids).map RefreshToken.jti
  | .exchanged stored row => row.userId = stored.userId
  | _ => False

/-- Nothing fails, no exchange is lost or turned away, the token has not expired when it is
presented, and the ids drawn are new. -/
def Untroubled (P : AuthPorts) (ids : List String) (familyId : String) (w : Browser Unit) :
    BrowserEvent Unit → Prop
  | .arrive _ _ now _ minted =>
      (minted.jti ∈ ids ∧ P.decode minted.token = some ⟨minted.jti, .refresh⟩) ∧
        minted.jti ∉ w.pool.committed.jtis ∧
        ∀ r ∈ w.pool.committed.given ids, r.revokedAt = none → now < r.expiresAt
  | .turnedAway _ _ | .crash _ | .lose _ => False
  | .other (.begin _ call) => call.Foreign P ids familyId
  | _ => True

/-- The exchange will be answered, or was answered, with a new token. -/
def ServedWell (ids : List String) (w : Browser Unit) (n : Nat) : Served → Prop
  | .pending _ minted =>
      ∀ t, w.pool.opened (.inl n) = some t → Prompt ids w.pool.committed minted t
  | .answered reply => ∃ access token, reply = .issued access token

/-- There is a cookie to exchange, or its exchange goes well. -/
def InFlightWell (ids : List String) (w : Browser Unit) : Option InFlight → Prop
  | none => w.jar ≠ none
  | some (.sent cookie) => cookie ≠ none
  | some (.reached n) => ∀ served, w.exchanges n = some served → ServedWell ids w n served

/-- The session goes on. -/
structure GoesOn (ids : List String) (w : Browser Unit) : Prop where
  active : ∀ r ∈ w.pool.committed.given ids, w.pool.committed.Active r.userId
  inFlight : InFlightWell ids w (w.tabs ()).refreshInFlight
  callers : ∀ c, (w.tabs ()).callers c ≠ .signedOut false

section Kept

variable {P : AuthPorts} {ids : List String} {familyId : String} {s s' : AuthDb}
  {w w' : Browser Unit} {cur : RefreshToken} {minted : Minted} {n : Nat}
  {t : Txn AuthDb AuthState}

theorem Untroubled.received {e : BrowserEvent Unit} (h : Untroubled P ids familyId w e) :
    Received P ids familyId w e := by
  cases e with
  | arrive k n now access minted => exact h.1
  | lose k => exact h.elim
  | other e =>
      cases e with
      | begin i call => exact h
      | _ => exact trivial
  | _ => exact trivial

theorem Prompt.of_given (h : Prompt ids s minted t) (heq : s'.given ids = s.given ids) :
    Prompt ids s' minted t := by
  obtain ⟨st, snap, changes⟩ := t
  unfold Prompt at h ⊢
  cases st with
  | refreshing | rotating | retiring | succeeding =>
      dsimp only at h ⊢
      rw [heq]
      exact h
  | _ => exact h

theorem prompt_begin {token : String} {now : Nat} (htoken : TokenOf P cur token)
    (hfresh : minted.jti ∉ s.jtis)
    (hlater : ∀ r ∈ s.given ids, r.revokedAt = none → now < r.expiresAt) :
    Prompt ids s minted ⟨authStart P (.refresh token now minted), none, []⟩ := by
  have hdecode : decodeRefreshToken P token = .ok ⟨cur.jti, .refresh⟩ := by
    unfold decodeRefreshToken
    rw [htoken.claims]
    rfl
  unfold authStart
  dsimp only
  rw [hdecode]
  refine ⟨rfl, hlater, fun hmem => hfresh ?_⟩
  obtain ⟨r, hr, hjti⟩ := List.mem_map.mp hmem
  exact List.mem_map.mpr ⟨r, (AuthDb.mem_given.mp hr).1, hjti⟩

theorem prompt_read {k : AuthDb → AuthState} (hactive : s.Active cur.userId)
    (hrenewal : Renewal P ids familyId s cur minted t) (h : Prompt ids s minted t)
    (hnext : authNext P t.state = .read k) :
    Prompt ids s minted
      ⟨k (view t.changes (t.snap.getD s)), some (t.snap.getD s), t.changes⟩ := by
  obtain ⟨st, snap, changes⟩ := t
  cases st with
  | rotating stored now m =>
      obtain ⟨rfl, hview, rfl⟩ := hrenewal
      obtain ⟨hsnap, hfresh⟩ := h
      obtain ⟨user, hfound, huser⟩ := hactive
      dsimp only at hsnap hview
      subst hsnap
      cases hnext
      dsimp only
      rw [Option.getD_none, hview, hfound]
      dsimp only
      rw [if_pos huser]
      have hid := List.find?_some hfound
      simp only [Bool.and_eq_true, decide_eq_true_eq] at hid
      exact ⟨hid.1, hfresh⟩
  | login | leaving | forgetting | granted => exact h.elim
  | _ => cases hnext

theorem prompt_lock {locks : (AuthLock → Bool) → AuthDb → List AuthLock}
    {run : (AuthLock → Bool) → AuthDb → Option (AuthState × (AuthDb → AuthDb))}
    {free : AuthLock → Bool} {state : AuthState} {d : AuthDb → AuthDb}
    (hcur : CurrentRow ids s cur) (hminted : minted.jti ∈ ids)
    (hrenewal : Renewal P ids familyId s cur minted t) (h : Prompt ids s minted t)
    (hnext : authNext P t.state = .lock locks run)
    (hrun : run free (view t.changes s) = some (state, d)) :
    Prompt ids s minted ⟨state, t.snap, t.changes ++ [d]⟩ := by
  obtain ⟨st, snap, changes⟩ := t
  dsimp only at hnext hrun
  cases st with
  | refreshing token claims now m =>
      obtain ⟨rfl, hview, hjti, hdigest⟩ := hrenewal
      obtain ⟨hsnap, hlater, hfresh⟩ := h
      cases hnext
      cases hrun
      rw [hview, hjti, hcur.getByJti]
      have hunexpired := hlater cur hcur.mem hcur.live
      have hstored : refreshStored P token now m (some cur) = .rotating cur now m := by
        simp [refreshStored, hdigest, hcur.live, Nat.not_le.mpr hunexpired]
      rw [hstored]
      exact ⟨hsnap, hfresh⟩
  | retiring stored user now m =>
      obtain ⟨rfl, hview, rfl⟩ := hrenewal
      cases hnext
      cases hrun
      exact h
  | succeeding stored user row =>
      obtain ⟨rfl, rfl, now, hview⟩ := hrenewal
      cases hnext
      dsimp only [insertToken] at hrun
      have hnew : (issuedRow P user familyId minted).jti ∉ (view changes s).jtis := by
        rw [hview, AuthDb.jtis_revise, List.map_nil, List.append_nil]
        exact AuthDb.notMem_jtis hminted h.2
      rw [if_neg hnew] at hrun
      cases hrun
      exact h.1
  | verified | replayed | closing | superseding | issuing | redeeming | setting | consuming |
      ending => exact h.elim
  | _ => cases hnext

/-- The statements of a refresh do not raise. -/
theorem Prompt.lock_some (h : Prompt ids s minted t)
    {locks : (AuthLock → Bool) → AuthDb → List AuthLock}
    {run : (AuthLock → Bool) → AuthDb → Option (AuthState × (AuthDb → AuthDb))}
    (hnext : authNext P t.state = .lock locks run) (free : AuthLock → Bool) (db : AuthDb) :
    run free db ≠ none := by
  obtain ⟨st, snap, changes⟩ := t
  cases st with
  | refreshing | retiring | succeeding =>
      cases hnext
      exact Option.some_ne_none _
  | verified | replayed | closing | superseding | issuing | redeeming | setting | consuming |
      ending => exact h.elim
  | _ => cases hnext

/-- So it ends by its commit only. -/
theorem Prompt.ends {p p' : Pool AuthDb AuthState AuthLock (Nat ⊕ Nat)} {i : Nat ⊕ Nat}
    (h : Prompt ids s minted t) (hstep : poolStep (authService P) p (.step i) = some p')
    (hopen : p.opened i = some t) (hclosed : p'.opened i = none) :
    ∃ stored row, t.state = .exchanged stored row := by
  rcases closed_by_step hstep hopen hclosed with hcommit | hraise | ⟨locks, run, free, db, hlock,
    hnone⟩
  · obtain ⟨st, snap, changes⟩ := t
    dsimp only at hcommit
    cases st with
    | exchanged stored row => exact ⟨stored, row, rfl⟩
    | detected | loggedIn | issued | passwordReset | loggedOut => exact h.elim
    | _ => cases hcommit
  · obtain ⟨st, snap, changes⟩ := t
    dsimp only at hraise
    cases st with
    | refused error => exact h.elim
    | _ => cases hraise
  · exact absurd hnone (h.lock_some hlock free db)

/-- The new row is of the user the old one was of. -/
theorem active_committed (hactive : ∀ r ∈ s.given ids, s.Active r.userId)
    (hcur : CurrentRow ids s cur) (hrenewal : Renewal P ids familyId s cur minted t)
    (h : Prompt ids s minted t) (hexchanged : ∃ stored row, t.state = .exchanged stored row) :
    ∀ r ∈ (view t.changes s).given ids, (view t.changes s).Active r.userId := by
  obtain ⟨st, snap, changes⟩ := t
  obtain ⟨stored, row, hst⟩ := hexchanged
  dsimp only at hst
  subst hst
  obtain ⟨-, rfl, -, now, hview⟩ := hrenewal
  dsimp only at hview ⊢
  rw [hview]
  intro r hr
  have huser : s.Active r.userId := by
    obtain ⟨hr, hid⟩ := AuthDb.mem_given.mp hr
    rcases List.mem_append.mp hr with hold | hnew
    · obtain ⟨r₀, hr₀, hsame, huser, -⟩ := AuthDb.mem_setRevoked hold
      rw [← huser]
      exact hactive r₀ (AuthDb.mem_given.mpr ⟨hr₀, hsame ▸ hid⟩)
    · rw [List.mem_singleton.mp hnew, show row.userId = _ from h]
      exact hactive _ hcur.mem
  exact huser.of_accounts rfl

/-- Only the tab moved on: its exchange is the one it had, or a new one. -/
theorem GoesOn.retab (h : GoesOn ids w) {tab : Tab}
    (htab : tab.refreshInFlight = (w.tabs ()).refreshInFlight ∨
      tab.refreshInFlight = some ((w.tabs ()).refreshInFlight.getD (.sent w.jar)))
    (hcallers : ∀ c, tab.callers c ≠ .signedOut false) : GoesOn ids (w.setTab () tab) := by
  refine ⟨h.active, ?_, ?_⟩
  · have hinFlight := h.inFlight
    simp only [Browser.setTab, Function.update_self]
    rcases htab with hsame | hnew
    · rw [hsame]
      exact hinFlight
    · rw [hnew]
      cases hold : (w.tabs ()).refreshInFlight with
      | none =>
          rw [hold] at hinFlight
          exact hinFlight
      | some exchange =>
          rw [hold] at hinFlight
          exact hinFlight
  · simpa [Browser.setTab] using hcallers

theorem setCaller_callers {tab : Tab} {c : Nat} {caller : Caller}
    (h : ∀ c, tab.callers c ≠ .signedOut false) (hcaller : caller ≠ .signedOut false) :
    ∀ c', (tab.setCaller c caller).callers c' ≠ .signedOut false := by
  intro c'
  by_cases hc : c' = c
  · subst hc
    simpa [Tab.setCaller] using hcaller
  · simpa [Tab.setCaller, Function.update_of_ne hc] using h c'

/-- A 401 signs a caller out at its second attempt only. -/
theorem answered_callers {tab tab' : Tab} {jar : Option String} {c : Nat} {unauthorized : Bool}
    (hcallers : ∀ c, tab.callers c ≠ .signedOut false)
    (h : tab.answered jar c unauthorized = some tab') :
    ∀ c, tab'.callers c ≠ .signedOut false := by
  unfold Tab.answered at h
  split at h
  · cases h
    exact setCaller_callers hcallers (by simp)
  · cases h
    exact setCaller_callers hcallers (by simp)
  · cases h
    exact setCaller_callers hcallers (by simp)
  · cases h
    exact setCaller_callers hcallers (by simp)
  · cases h

theorem GoesOn.arrive (hok : SessionOk P ids familyId w) (h : GoesOn ids w)
    {token access : String} {now : Nat} {pool : Pool AuthDb AuthState AuthLock (Nat ⊕ Nat)}
    (hsent : (w.tabs ()).refreshInFlight = some (.sent (some token)))
    (hfresh : minted.jti ∉ w.pool.committed.jtis)
    (hlater : ∀ r ∈ w.pool.committed.given ids, r.revokedAt = none → now < r.expiresAt)
    (hstep : poolStep (authService P) w.pool (.begin (.inl n) (.refresh token now minted)) =
      some pool) : GoesOn ids ({ w with pool }.reach () n (.pending access minted)) := by
  obtain ⟨-, -, -, cur, hcur, hinflight⟩ := hok
  rw [hsent] at hinflight
  obtain ⟨hjar, hcookie, -⟩ := hinflight
  cases poolStep_moves hstep with
  | begin i call hclosed =>
      refine ⟨h.active, ?_, ?_⟩
      · dsimp only [Browser.reach, Browser.setTab, Browser.setExchange]
        rw [Function.update_self]
        intro served hserved
        dsimp only at hserved
        rw [Function.update_self] at hserved
        cases hserved
        intro t ht
        obtain rfl := Option.some.inj (Pool.opened_put_self.symm.trans ht)
        exact prompt_begin (hcookie token hjar.symm) hfresh hlater
      · simpa [Browser.reach, Browser.setTab, Browser.setExchange] using h.callers
  | ended e i t hopen hend => rcases hend with hc | ⟨hc, -⟩ <;> cases hc

theorem GoesOn.serve (hok : SessionOk P ids familyId w) (h : GoesOn ids w) {access : String}
    (hpending : w.exchanges n = some (.pending access minted))
    (hstep : w.serve P n access minted = some w') : GoesOn ids w' := by
  obtain ⟨hseparate, hstrangers, hundetected, cur, hcur, hinflight⟩ := hok
  unfold Browser.serve at hstep
  obtain ⟨t, hopen, hstep⟩ := Option.bind_eq_some_iff.mp hstep
  obtain ⟨pool, hpool, rfl⟩ := Option.map_eq_some_iff.mp hstep
  obtain ⟨hreached, hothers, access', minted', hserved, hcookie, hmem, hclaims, hrenewal⟩ :=
    hinflight.of_open hopen
  obtain rfl : minted = minted' := by
    rw [hpending] at hserved
    cases hserved
    rfl
  have hactive := h.active
  have hwell := h.inFlight
  rw [hreached] at hwell
  have hprompt : Prompt ids w.pool.committed minted t := hwell _ hpending t hopen
  -- While it is open it is on its way.
  have hopenOk : ∀ u, pool.opened (.inl n) = some u → pool.committed = w.pool.committed →
      Prompt ids w.pool.committed minted u → GoesOn ids { w with pool } := by
    intro u hu hcommitted hprompt'
    refine ⟨?_, ?_, h.callers⟩
    · dsimp only
      rw [hcommitted]
      exact hactive
    · dsimp only
      rw [hreached]
      intro served hserved
      obtain rfl := Option.some.inj (hpending.symm.trans hserved)
      intro u' hu'
      obtain rfl := Option.some.inj (hu.symm.trans hu')
      dsimp only
      rw [hcommitted]
      exact hprompt'
  have hclosedOk : pool.opened (.inl n) = none → ∃ stored row, t.state = .exchanged stored row :=
    fun hclosed => hprompt.ends hpool hopen hclosed
  cases poolStep_moves hpool with
  | read i u k hu hnext =>
      obtain rfl := Option.some.inj (hopen.symm.trans hu)
      rw [if_pos (by simp)]
      exact hopenOk _ Pool.opened_put_self rfl
        (prompt_read (hactive cur hcur.mem) hrenewal hprompt hnext)
  | lock i u locks run state d hu hnext hfree hrun =>
      obtain rfl := Option.some.inj (hopen.symm.trans hu)
      rw [if_pos (by simp [Pool.put])]
      exact hopenOk _ (Function.update_self ..) rfl
        (prompt_lock hcur hmem hrenewal hprompt hnext hrun)
  | commit i u hu hnext =>
      obtain rfl := Option.some.inj (hopen.symm.trans hu)
      have hexchanged := hclosedOk Pool.opened_ended_self
      rw [if_neg (by simp [Pool.ended])]
      refine ⟨active_committed hactive hcur hrenewal hprompt hexchanged, ?_, h.callers⟩
      obtain ⟨stored, row, hst⟩ := hexchanged
      dsimp only [Browser.setExchange]
      rw [hreached, hst]
      intro served hserved
      dsimp only at hserved
      rw [Function.update_self] at hserved
      cases hserved
      exact ⟨access, minted.token, rfl⟩
  | ended e i u hu hend =>
      obtain ⟨rfl, hnext⟩ : i = .inl n ∧ (authService P).next u.state ≠ .commit := by
        rcases hend with hc | ⟨hc, hnext⟩
        · cases hc
        · cases hc
          exact ⟨rfl, hnext⟩
      obtain rfl := Option.some.inj (hopen.symm.trans hu)
      obtain ⟨stored, row, hst⟩ := hclosedOk Pool.opened_ended_self
      rw [hst] at hnext
      exact absurd rfl hnext

theorem GoesOn.receive (h : GoesOn ids w) {reply : Reply}
    (hreached : (w.tabs ()).refreshInFlight = some (.reached n))
    (hanswered : w.exchanges n = some (.answered reply)) :
    GoesOn ids
      { w.setTab () ((w.tabs ()).refreshed reply.accessToken) with jar := reply.cookie w.jar } := by
  have hwell := h.inFlight
  rw [hreached] at hwell
  obtain ⟨access, token, rfl⟩ := hwell _ hanswered
  refine ⟨h.active, ?_, fun c => ?_⟩
  · simp [Browser.setTab, Tab.refreshed, InFlightWell, Reply.cookie]
  · have hcaller := h.callers c
    simp only [Browser.setTab, Function.update_self, Tab.refreshed, Reply.accessToken,
      Option.isSome_some]
    unfold Tab.resume
    split
    · simp
    · simp
    · exact hcaller

theorem GoesOn.other (hok : SessionOk P ids familyId w) (h : GoesOn ids w)
    {e : Event AuthCall Nat} {pool : Pool AuthDb AuthState AuthLock (Nat ⊕ Nat)}
    (hforeign : ∀ i call, e = .begin i call → call.Foreign P ids familyId)
    (hstep : poolStep (authService P) w.pool (byOthers e) = some pool) :
    GoesOn ids { w with pool } := by
  have hmoves := poolStep_moves hstep
  obtain ⟨⟨d, hspares, hcommitted⟩, -, -⟩ :=
    others_move hok.separate hok.strangers hforeign hmoves
  have hgiven : pool.committed.given ids = w.pool.committed.given ids := by
    rw [hcommitted]
    exact hspares.given _
  have haccounts : pool.committed.accounts = w.pool.committed.accounts := by
    rw [hcommitted]
    exact hspares.accounts _
  refine ⟨fun r hr => ?_, ?_, h.callers⟩
  · dsimp only at hr ⊢
    rw [hgiven] at hr
    exact (h.active r hr).of_accounts haccounts
  · have hinFlight := h.inFlight
    dsimp only
    cases hcase : (w.tabs ()).refreshInFlight with
    | none =>
        rw [hcase] at hinFlight
        exact hinFlight
    | some exchange =>
        rw [hcase] at hinFlight
        cases exchange with
        | sent cookie => exact hinFlight
        | reached m =>
            intro served hserved
            have hwell := hinFlight served hserved
            cases served with
            | answered reply => exact hwell
            | pending access minted =>
                intro t ht
                have hsame : pool.opened (.inl m) = w.pool.opened (.inl m) := by
                  refine hmoves.opened_other ?_
                  cases e <;> simp [byOthers, Event.txn]
                exact (hwell t (hsame.symm.trans ht)).of_given hgiven

theorem GoesOn.step (hok : SessionOk P ids familyId w) (h : GoesOn ids w)
    {e : BrowserEvent Unit} (huntroubled : Untroubled P ids familyId w e)
    (hstep : w.step P e = some w') :
    GoesOn ids w' := by
  cases e with
  | request k c =>
      unfold Browser.step at hstep
      dsimp only at hstep
      split at hstep
      · cases hstep
        exact h.retab (Or.inl rfl) (setCaller_callers h.callers (by simp))
      · cases hstep
  | restore k c =>
      unfold Browser.step at hstep
      dsimp only at hstep
      split at hstep
      · cases hstep
        exact h.retab (Or.inr rfl) (setCaller_callers h.callers (by simp))
      · cases hstep
  | answer k c unauthorized =>
      obtain ⟨tab, htab, rfl⟩ := Option.map_eq_some_iff.mp hstep
      exact h.retab (answered_inFlight htab) (answered_callers h.callers htab)
  | arrive k m now access minted =>
      unfold Browser.step at hstep
      dsimp only at hstep
      split at hstep
      · rename_i hsent hfresh
        have hwell := h.inFlight
        rw [hsent] at hwell
        exact absurd rfl hwell
      · rename_i token hsent hnew
        obtain ⟨pool, hpool, rfl⟩ := Option.map_eq_some_iff.mp hstep
        exact h.arrive hok hsent huntroubled.2.1 huntroubled.2.2 hpool
      · cases hstep
  | serve m =>
      unfold Browser.step at hstep
      dsimp only at hstep
      split at hstep
      · rename_i access minted hpending
        exact h.serve hok hpending hstep
      · cases hstep
  | receive k =>
      unfold Browser.step at hstep
      dsimp only at hstep
      split at hstep
      · rename_i m hreached
        split at hstep
        · rename_i reply hanswered
          cases hstep
          exact h.receive hreached hanswered
        · cases hstep
      · cases hstep
  | turnedAway | crash | lose => exact huntroubled.elim
  | other e =>
      obtain ⟨pool, hpool, rfl⟩ := Option.map_eq_some_iff.mp hstep
      refine h.other hok (fun i call hcall => ?_) hpool
      subst hcall
      exact huntroubled

end Kept

/-! ### Nobody is signed out -/

/--
**Loading a page does not sign its user out.**  Where nothing fails, no exchange is lost or
turned away and the token does not expire, a caller of `request` or `restore` is never signed
out without a second attempt, however many of them are answered 401 at once and whatever others
do; and whenever no exchange is under way, the cookie is the one live token of the session.
-/
theorem page_load_keeps_session (P : AuthPorts) (ids : List String) (familyId : String)
    (db : AuthDb) (token : String) (events : List (BrowserEvent Unit)) (w : Browser Unit)
    (hstart : SignedIn P ids familyId db token)
    (hactive : ∀ r ∈ db.given ids, db.Active r.userId)
    (huntroubled : Trace.Along (Browser.step P) (Untroubled P ids familyId)
      (Browser.start db (some token))
      events)
    (hrun : Trace.run (Browser.step P) (Browser.start db (some token)) events = some w) :
    (∀ c, (w.tabs ()).callers c ≠ .signedOut false) ∧
      ((w.tabs ()).refreshInFlight = none → ∃ token row, w.jar = some token ∧
        TokenOf P row token ∧ CurrentRow ids w.pool.committed row) := by
  have hboth : SessionOk P ids familyId w ∧ GoesOn ids w := by
    refine Trace.run_induction_along (P := fun _ w => SessionOk P ids familyId w ∧ GoesOn ids w)
      ⟨hstart.sessionOk, ⟨hactive, ?_, fun c => ?_⟩⟩ ?_ hrun huntroubled
    · simp [Browser.start, InFlightWell]
    · simp [Browser.start]
    · intro _ w e w' _ hok hallowed hstep
      exact ⟨hok.1.step hallowed.received hstep, hok.2.step hok.1 hallowed hstep⟩
  obtain ⟨⟨-, -, -, cur, hcur, hinflight⟩, hgoes⟩ := hboth
  refine ⟨hgoes.callers, fun hnone => ?_⟩
  have hwell := hgoes.inFlight
  rw [hnone] at hinflight hwell
  obtain ⟨token', htoken⟩ := Option.ne_none_iff_exists'.mp hwell
  exact ⟨token', cur, htoken, hinflight.1 token' htoken, hcur⟩

instance (P : AuthPorts) (ids : List String) (familyId : String) :
    DecidablePred (AuthCall.Foreign P ids familyId)
  | .login .. => inferInstanceAs (Decidable (_ ∧ _))
  | .refresh token _ minted =>
      inferInstanceAs (Decidable ((∀ claims ∈ P.decode token, claims.jti ∉ ids) ∧ minted.jti ∉ ids))
  | .logout token _ => inferInstanceAs (Decidable (∀ claims ∈ P.decode token, claims.jti ∉ ids))
  | .forgotPassword .. => isTrue trivial
  | .resetPassword .. => isFalse id

instance (P : AuthPorts) (ids : List String) (familyId : String) (w : Browser Unit) :
    DecidablePred (Untroubled P ids familyId w)
  | .arrive _ _ _ _ _ => inferInstanceAs (Decidable ((_ ∧ _) ∧ _ ∧ _))
  | .turnedAway .. | .crash _ | .lose _ => isFalse id
  | .other (.begin _ call) => inferInstanceAs (Decidable (call.Foreign P ids familyId))
  | .other (.step _) | .other (.abort _) | .request .. | .restore .. | .answer .. | .serve _
  | .receive _ => isTrue trivial

theorem pageLoad_keeps_session :
    ∃ w, Trace.run (Browser.step plainPorts) (Browser.start oneSession (some "first")) pageLoad
        = some w ∧
      (∀ c, (w.tabs ()).callers c ≠ .signedOut false) ∧
      ((w.tabs ()).refreshInFlight = none → ∃ token row, w.jar = some token ∧
        TokenOf plainPorts row token ∧ CurrentRow givenTokens w.pool.committed row) := by
  have hend : (Trace.run (Browser.step plainPorts) (Browser.start oneSession (some "first"))
      pageLoad).isSome = true := by
    decide +kernel
  obtain ⟨w, hrun⟩ := Option.isSome_iff_exists.mp hend
  refine ⟨w, hrun, page_load_keeps_session plainPorts givenTokens "family" oneSession "first"
    pageLoad w oneSession_signedIn (fun r hr => ?_) (by decide +kernel) hrun⟩
  obtain rfl := List.mem_singleton.mp hr
  exact ⟨_, rfl, rfl⟩

end Orqent
