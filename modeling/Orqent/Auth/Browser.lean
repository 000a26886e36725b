/-
The browser's side of a session, and the refresh endpoint.

A tab keeps its access token in memory; the refresh token is in a cookie, which all tabs
share and no script reads.  A request that is answered 401 waits for `refreshSession`,
which has at most one exchange under way, and is then sent once more.

An exchange carries the cookie of the moment it is sent.  The server runs the transaction
of `refresh` beside those of others, and its answer sets the cookie, deletes it, or leaves
it as it is; an exchange that the tab has given up may still be running.  What the other
endpoints answer is left open.

An exchange whose connection is lost before the server takes it up is forgotten.  That its
request might reach the server all the same, later, is not modelled.
-/
import Orqent.Auth.Service

namespace Orqent

open RowTxn

/-! ### A tab -/

/-- Where a caller of `request` or of `restore` stands. -/
inductive Caller
  | idle
  /-- Its request is under way. -/
  | sent
  /-- Its request was answered 401, and it awaits `refreshSession`. -/
  | renewing
  /-- Its request is under way for the second time. -/
  | resent
  /-- `restore` awaits `refreshSession`. -/
  | restoring
  /-- It has an answer other than 401. -/
  | settled
  /-- The session is over for it, with or without a second attempt. -/
  | signedOut (retried : Bool)
  deriving DecidableEq, Repr

/-- The one exchange `refreshInFlight` stands for. -/
inductive InFlight
  | sent (cookie : Option String)
  /-- The server knows it by this number. -/
  | reached (n : Nat)
  deriving DecidableEq, Repr

/-- What a tab keeps in memory. -/
structure Tab where
  accessToken : Option String := none
  refreshInFlight : Option InFlight := none
  callers : Nat → Caller := fun _ => .idle

namespace Tab

/-- A caller comes to stand somewhere else. -/
def setCaller (tab : Tab) (c : Nat) (caller : Caller) : Tab :=
  { tab with callers := Function.update tab.callers c caller }

/-- The call of `refreshSession`: it joins the exchange under way, or sends one. -/
def refreshSession (tab : Tab) (jar : Option String) : Tab :=
  { tab with refreshInFlight := some (tab.refreshInFlight.getD (.sent jar)) }

/-- What a caller does once `refreshSession` returns; `restore` goes on to ask who it is. -/
def resume (renewed : Bool) : Caller → Caller
  | .renewing => if renewed then .resent else .signedOut false
  | .restoring => if renewed then .sent else .signedOut false
  | caller => caller

/-- `refreshSession` returns to all its callers, with an access token or none. -/
def refreshed (tab : Tab) (issued : Option String) : Tab where
  accessToken := issued
  refreshInFlight := none
  callers := fun c => resume issued.isSome (tab.callers c)

/-- The answer to a request; a 401 to a first attempt asks for a renewal. -/
def answered (tab : Tab) (jar : Option String) (c : Nat) (unauthorized : Bool) : Option Tab :=
  match tab.callers c, unauthorized with
  | .sent, true => some ((tab.setCaller c .renewing).refreshSession jar)
  | .resent, true => some { tab.setCaller c (.signedOut true) with accessToken := none }
  | .sent, false | .resent, false => some (tab.setCaller c .settled)
  | _, _ => none

end Tab

/-! ### The refresh endpoint -/

/-- The answer of `/auth/refresh`. -/
inductive Reply
  /-- An access token, and a cookie to set. -/
  | issued (access token : String)
  /-- 401, which deletes the cookie. -/
  | rejected
  /-- A failure of another kind. -/
  | failed
  deriving DecidableEq, Repr

/-- The cookie after the answer. -/
def Reply.cookie (jar : Option String) : Reply → Option String
  | .issued _ token => some token
  | .rejected => none
  | .failed => jar

/-- What the page makes of it. -/
def Reply.accessToken : Reply → Option String
  | .issued access _ => some access
  | _ => none

/-- What has become of an exchange the server has received. -/
inductive Served
  /-- Its transaction runs, and these are the tokens it would issue. -/
  | pending (access : String) (minted : Minted)
  | answered (reply : Reply)
  deriving DecidableEq, Repr

/-- The answer to an exchange whose transaction ended in this state. -/
def replyOf (access : String) (minted : Minted) : AuthState → Reply
  | .exchanged _ _ => .issued access minted.token
  | .detected _ => .rejected
  | .refused (some (.authentication _)) => .rejected
  | _ => .failed

/-! ### The browser and the server -/

/-- The server's transactions, those of this browser's exchanges and those of others; the
exchanges it has received; the refresh cookie; and the tabs. -/
structure Browser (κ : Type*) where
  pool : Pool AuthDb AuthState AuthLock (Nat ⊕ Nat)
  exchanges : Nat → Option Served
  jar : Option String
  tabs : κ → Tab

/-- What happens in the browser, on the way, and at the server. -/
inductive BrowserEvent (κ : Type*)
  /-- A component calls `request`. -/
  | request (k : κ) (c : Nat)
  /-- The app calls `restore`. -/
  | restore (k : κ) (c : Nat)
  /-- A caller's request is answered. -/
  | answer (k : κ) (c : Nat) (unauthorized : Bool)
  /-- The exchange of a tab reaches the server; the tokens are drawn, and the clock read. -/
  | arrive (k : κ) (n now : Nat) (access : String) (minted : Minted)
  /-- The exchange is turned away before the service is called. -/
  | turnedAway (k : κ) (n : Nat)
  /-- The next statement of the transaction of an exchange. -/
  | serve (n : Nat)
  /-- Its transaction fails. -/
  | crash (n : Nat)
  | receive (k : κ)
  /-- The connection of an exchange is lost. -/
  | lose (k : κ)
  /-- A transaction of somebody else. -/
  | other (e : Event AuthCall Nat)

/-- Others' transactions are numbered apart. -/
def byOthers : Event AuthCall Nat → Event AuthCall (Nat ⊕ Nat)
  | .begin i call => .begin (.inr i) call
  | .step i => .step (.inr i)
  | .abort i => .abort (.inr i)

namespace Browser

variable {κ : Type*} [DecidableEq κ]

/-- No tab has done anything yet. -/
def start (db : AuthDb) (jar : Option String) : Browser κ where
  pool := Pool.start db
  exchanges := fun _ => none
  jar := jar
  tabs := fun _ => {}

/-- One tab becomes another. -/
def setTab (w : Browser κ) (k : κ) (tab : Tab) : Browser κ :=
  { w with tabs := Function.update w.tabs k tab }

/-- An exchange has come further. -/
def setExchange (w : Browser κ) (n : Nat) (progress : Served) : Browser κ :=
  { w with exchanges := Function.update w.exchanges n (some progress) }

/-- The exchange of a tab is known to the server by a number it has not used. -/
def reach (w : Browser κ) (k : κ) (n : Nat) (progress : Served) : Browser κ :=
  (w.setTab k { w.tabs k with refreshInFlight := some (.reached n) }).setExchange n progress

/-- The transaction of an exchange moves on; when it is over there is an answer. -/
def serve (P : AuthPorts) (w : Browser κ) (n : Nat) (access : String) (minted : Minted) :
    Option (Browser κ) :=
  (w.pool.opened (.inl n)).bind fun t =>
    (poolStep (authService P) w.pool (.step (.inl n))).map fun pool =>
      let w := { w with pool }
      if (pool.opened (.inl n)).isSome then w
      else w.setExchange n (.answered (replyOf access minted t.state))

/-- One event. -/
def step (P : AuthPorts) (w : Browser κ) : BrowserEvent κ → Option (Browser κ)
  | .request k c =>
      if (w.tabs k).callers c = .idle then some (w.setTab k ((w.tabs k).setCaller c .sent))
      else none
  | .restore k c =>
      if (w.tabs k).callers c = .idle then
        some (w.setTab k (((w.tabs k).setCaller c .restoring).refreshSession w.jar))
      else none
  | .answer k c unauthorized =>
      ((w.tabs k).answered w.jar c unauthorized).map fun tab => w.setTab k tab
  | .arrive k n now access minted =>
      match (w.tabs k).refreshInFlight, w.exchanges n with
      | some (.sent none), none => some (w.reach k n (.answered .rejected))
      | some (.sent (some token)), none =>
          (poolStep (authService P) w.pool (.begin (.inl n) (.refresh token now minted))).map
            fun pool => { w with pool }.reach k n (.pending access minted)
      | _, _ => none
  | .turnedAway k n =>
      match (w.tabs k).refreshInFlight, w.exchanges n with
      | some (.sent _), none => some (w.reach k n (.answered .failed))
      | _, _ => none
  | .serve n =>
      match w.exchanges n with
      | some (.pending access minted) => w.serve P n access minted
      | _ => none
  | .crash n =>
      match w.exchanges n with
      | some (.pending _ _) =>
          (poolStep (authService P) w.pool (.abort (.inl n))).map fun pool =>
            { w with pool }.setExchange n (.answered .failed)
      | _ => none
  | .receive k =>
      match (w.tabs k).refreshInFlight with
      | some (.reached n) =>
          match w.exchanges n with
          | some (.answered reply) =>
              some
                { w.setTab k ((w.tabs k).refreshed reply.accessToken) with
                  jar := reply.cookie w.jar }
          | _ => none
      | _ => none
  | .lose k =>
      match (w.tabs k).refreshInFlight with
      | some _ => some (w.setTab k ((w.tabs k).refreshed none))
      | none => none
  | .other e => (poolStep (authService P) w.pool (byOthers e)).map fun pool => { w with pool }

end Browser

end Orqent
