/-
The pages on which a workflow is edited, and the server that keeps its draft.

A page loads the draft once it arrives, and again when one arrives that has another revision
than the one it has loaded.  It sends what is on its canvas with the revision it is at; what
the server answers makes the canvas clean.  Validating and publishing save first, if there is
something to save, and the publication of a draft is followed by a new request for it.  While
the first request for the draft is under way nothing can be clicked; if it fails, everything
can, and the canvas is what the store still holds.

Any number of pages are open, of one user or of several.  Every request takes its time.  It may
be given up, and arrive after all, and its answer may be lost.  A page may be left and opened
again while its requests are under way; their answers then reach the store of the new page.

The server takes the calls one after another.  What calls that overlap can do to one another is
the subject of the histories of versions; nothing here holds of them.  Also left out are a store
that holds another workflow when an answer arrives, a catalogue that arrives after the draft,
and a browser that is offline, where requests wait.

`SiteOk` says what the pages know of the draft: whatever a page was given is the draft as it
still is, or was given before a later save or a later publication.  Hence `save_builds_on`.
-/
import Orqent.Builder.Drafts
import Orqent.Builder.Drawing

namespace Orqent.Builder

open Trace

/-! ### A page -/

/-- A draft as it was given to a page, with the number of publications there had been. -/
structure Served (G : Type) extends Draft G where
  published : Nat
deriving DecidableEq, Repr

/-- A request for the draft that is under way. -/
inductive Fetch (G : Type)
  | sent
  | answered (reply : Option (Served G))

/-- What a save sends.  The server does not see `base`, which is what the page was last given
since it was opened. -/
structure SaveCall (G : Type) where
  revision : Nat
  graph : G
  base : Option (Served G)

/-- The calls that save first. -/
inductive Errand
  | validate
  | publish
deriving DecidableEq, Repr

/-- Where a mutation is: a save, and what awaits it, or the call itself. -/
inductive Task (G : Type)
  | saveSent (call : SaveCall G) (next : Option Errand)
  | saveAnswered (next : Option Errand) (reply : Option (Served G))
  | errandSent (errand : Errand)
  | errandAnswered (errand : Errand) (ok : Bool)

/-- A mutation that is under way.  It goes on when the page that started it is left. -/
structure Mutation (G : Type) where
  task : Task G
  orphan : Bool := false

/-- A save that is not over. -/
def Task.saving {G : Type} : Task G → Bool
  | .saveSent .. | .saveAnswered .. => true
  | _ => false

variable {Config : Type}

/-- What a tab holds of a workflow: the store, the page, and what the query client keeps. -/
structure Page (Config : Type) where
  store : BuilderState Config := {}
  /-- The revision of the draft that was loaded, since the page was opened. -/
  loaded : Option Nat := none
  /-- The draft as it was last fetched. -/
  data : Option (Served (Content Config)) := none
  fetch : Option (Fetch (Content Config)) := none
  mutations : List (Mutation (Content Config)) := []
  /-- What the server last gave this page, or took from it, since it was opened. -/
  base : Option (Served (Content Config)) := none

/-- What the page and the server are built with: the package and the catalogue, what the server
takes as a request, and what it publishes. -/
structure Setting (Config : Type) where
  flow : XyFlow Config
  catalogue : List NodeType
  accepts : Content Config → Bool
  valid : Content Config → Bool

/-- What happens at a page. -/
inductive PageAct (Config : Type)
  /-- The page is left, and opened again on what the store then holds; the query client may
  still have the draft. -/
  | mount (store : BuilderState Config) (cached : Bool)
  | act (a : BuilderAction Config)
  /-- The Save button. -/
  | save
  /-- The Validate and the Publish button. -/
  | start (errand : Errand)
  /-- The draft is asked for again, for whatever reason. -/
  | refetch
  | receiveDraft
  /-- The answer to a mutation arrives. -/
  | receive (k : Nat)

namespace Page

variable (P : Setting Config) (p : Page Config)

/-- The effect that loads the draft into the editor. -/
def effect : Page Config :=
  match p.data with
  | none => p
  | some draft =>
      if P.catalogue = [] ∨ p.loaded = some draft.revision then p
      else
        { p with
          loaded := some draft.revision
          store := .load draft.revision draft.graph P.catalogue
          base := some draft }

/-- The page as it is opened.  The mutations of the page that was left are none of its own, and
the draft is asked for if it is not there and not under way. -/
def mount (store : BuilderState Config) (cached : Bool) : Page Config :=
  let data := if cached then p.data else none
  effect P
    { store, data
      fetch := if data.isNone && p.fetch.isNone then some .sent else p.fetch
      mutations := p.mutations.map fun m => { m with orphan := true } }

/-- The spinner is shown. -/
def loading : Bool := p.data.isNone && p.fetch.isSome

/-- A save of this page is under way. -/
def saving : Bool := p.mutations.any fun m => !m.orphan && m.task.saving

/-- A save, a validation or a publication of this page is under way. -/
def busy : Bool := p.mutations.any fun m => !m.orphan

/-- The save that is sent now. -/
def saveCall : SaveCall (Content Config) := ⟨p.store.revision, p.store.toGraph, p.base⟩

/-- A mutation is started. -/
def begin (task : Task (Content Config)) : Page Config :=
  { p with mutations := p.mutations ++ [{ task }] }

/-- A mutation has come further. -/
def putTask (k : Nat) (m : Mutation (Content Config)) (task : Task (Content Config)) :
    Page Config :=
  { p with mutations := p.mutations.set k { m with task } }

/-- A mutation is over. -/
def drop (k : Nat) : Page Config := { p with mutations := p.mutations.eraseIdx k }

/-- The answer to a request for the draft. -/
def gotDraft (reply : Option (Served (Content Config))) : Page Config :=
  match reply with
  | some draft => effect P { p with fetch := none, data := some draft }
  | none => { p with fetch := none }

/-- A save was taken. -/
def gotSaved (saved : Served (Content Config)) : Page Config :=
  { p with
    store := (p.store.setRevision saved.revision).markClean
    base := some saved }

/-- The answer to a mutation.  What awaited a save is sent if it was taken, and dropped if not;
after a publication the draft is asked for. -/
def received (k : Nat) (m : Mutation (Content Config)) : Option (Page Config) :=
  match m.task with
  | .saveAnswered none (some saved) => some ((p.gotSaved saved).drop k)
  | .saveAnswered (some errand) (some saved) =>
      some ((p.gotSaved saved).putTask k m (.errandSent errand))
  | .saveAnswered _ none => some (p.drop k)
  | .errandAnswered .publish true => some { p.drop k with fetch := some .sent }
  | .errandAnswered _ _ => some (p.drop k)
  | _ => none

/-- What a page does, where it can be done: nothing can be clicked while the spinner is shown,
and a button not while what it started is under way. -/
def step [EmptyCollection Config] (p : Page Config) : PageAct Config → Option (Page Config)
  | .mount store cached => some (p.mount P store cached)
  | .act a => if p.loading = false then some { p with store := p.store.act P.flow a } else none
  | .save =>
      if p.loading = false ∧ p.saving = false ∧ p.store.dirty = true then
        some (p.begin (.saveSent p.saveCall none))
      else none
  | .start errand =>
      if p.loading = false ∧ p.busy = false then
        if p.store.dirty = true then some (p.begin (.saveSent p.saveCall (some errand)))
        else some (p.begin (.errandSent errand))
      else none
  | .refetch => if p.fetch.isNone then some { p with fetch := some .sent } else none
  | .receiveDraft =>
      match p.fetch with
      | some (.answered reply) => some (p.gotDraft P reply)
      | _ => none
  | .receive k => (p.mutations[k]?).bind (p.received k)

/-- What the answer to a mutation does. -/
inductive Receives (k : Nat) (m : Mutation (Content Config)) : Page Config → Prop
  | saved {saved : Served (Content Config)} (htask : m.task = .saveAnswered none (some saved)) :
      Receives k m ((p.gotSaved saved).drop k)
  | savedFirst {errand : Errand} {saved : Served (Content Config)}
      (htask : m.task = .saveAnswered (some errand) (some saved)) :
      Receives k m ((p.gotSaved saved).putTask k m (.errandSent errand))
  | ended {fetch : Option (Fetch (Content Config))}
      (htask : ∀ next saved, m.task ≠ .saveAnswered next (some saved))
      (hfetch : fetch = p.fetch ∨ fetch = some .sent) :
      Receives k m { p.drop k with fetch }

/-- **What an answer can come to.** -/
theorem receives_of_received {p p' : Page Config} {k : Nat} {m : Mutation (Content Config)}
    (h : p.received k m = some p') : p.Receives k m p' := by
  unfold received at h
  split at h
  · rename_i saved htask
    obtain rfl := Option.some.inj h
    exact .saved htask
  · rename_i errand saved htask
    obtain rfl := Option.some.inj h
    exact .savedFirst htask
  · rename_i next htask
    obtain rfl := Option.some.inj h
    exact .ended (fun _ _ hc => by rw [htask] at hc; cases hc) (Or.inl rfl)
  · rename_i htask
    obtain rfl := Option.some.inj h
    exact .ended (fun _ _ hc => by rw [htask] at hc; cases hc) (Or.inr rfl)
  · rename_i errand ok _ htask
    obtain rfl := Option.some.inj h
    exact .ended (fun _ _ hc => by rw [htask] at hc; cases hc) (Or.inl rfl)
  · cases h

end Page

/-! ### The server and its pages -/

/-- The draft, the pages that are open on it, and the requests that were given up and are still
on their way. -/
structure Site (ι Config : Type) where
  drafts : Drafts (Content Config) := {}
  /-- How many publications there were. -/
  published : Nat := 0
  pages : ι → Page Config
  late : List (Task (Content Config)) := []

/-- What happens: at a page, or to a request that is under way. -/
inductive SiteEvent (ι Config : Type)
  | page (i : ι) (a : PageAct Config)
  | serveDraft (i : ι)
  /-- The server takes up the request of a mutation. -/
  | serve (i : ι) (k : Nat)
  /-- The server takes up a request that was given up. -/
  | serveLate (k : Nat)
  /-- The server answers a request for the draft that nobody waits for any more. -/
  | readDraft
  | failDraft (i : ι)
  /-- The request is given up, or its answer is lost. -/
  | fail (i : ι) (k : Nat)

/-- What a mutation learns that is given up. -/
def Task.failed {G : Type} : Task G → Task G
  | .saveSent _ next | .saveAnswered next _ => .saveAnswered next none
  | .errandSent errand | .errandAnswered errand _ => .errandAnswered errand false

/-- A request that may still arrive when it is given up. -/
def Task.pending {G : Type} : Task G → Bool
  | .saveSent .. | .errandSent _ => true
  | _ => false

namespace Site

variable {ι : Type} [DecidableEq ι] (P : Setting Config) (s : Site ι Config)

/-- One page becomes another, and the others stay. -/
def putPage (i : ι) (p : Page Config) : Site ι Config :=
  { s with pages := Function.update s.pages i p }

/-- The draft, or the one that the next call makes. -/
def current : Draft (Content Config) := s.drafts.current (.blank Config)

/-- What the server answers to a request for the draft. -/
def served : Served (Content Config) := ⟨s.current, s.published⟩

/-- The draft that a save leaves, if it is taken. -/
def saved (call : SaveCall (Content Config)) : Option (Drafts (Content Config)) :=
  if P.accepts call.graph then s.drafts.replaceDraft (.blank Config) call.revision call.graph
  else none

/-- What the server answers to the request of a mutation, and what it leaves. -/
def serveTask : Task (Content Config) → Option (Task (Content Config) × Site ι Config)
  | .saveSent call next =>
      match s.saved P call with
      | some drafts =>
          some (.saveAnswered next (some ⟨⟨call.revision + 1, call.graph⟩, s.published⟩),
            { s with drafts })
      | none => some (.saveAnswered next none, s)
  | .errandSent .validate =>
      some (.errandAnswered .validate true,
        { s with drafts := s.drafts.getDraft (.blank Config) })
  | .errandSent .publish =>
      match s.drafts.publish P.valid with
      | some drafts =>
          some (.errandAnswered .publish true, { s with drafts, published := s.published + 1 })
      | none => some (.errandAnswered .publish false, s)
  | _ => none

/-- One event.  The server takes a request up and has done with it at once, so that no two calls
overlap. -/
def step [EmptyCollection Config] (s : Site ι Config) :
    SiteEvent ι Config → Option (Site ι Config)
  | .page i a => ((s.pages i).step P a).map (s.putPage i)
  | .serveDraft i =>
      match (s.pages i).fetch with
      | some .sent =>
          some { s.putPage i { s.pages i with fetch := some (.answered (some s.served)) } with
            drafts := s.drafts.getDraft (.blank Config) }
      | _ => none
  | .serve i k =>
      ((s.pages i).mutations[k]?).bind fun m =>
        (s.serveTask P m.task).map fun (task, after) =>
          after.putPage i ((s.pages i).putTask k m task)
  | .serveLate k =>
      (s.late[k]?).bind fun task =>
        (s.serveTask P task).map fun (_, after) => { after with late := s.late.eraseIdx k }
  | .readDraft => some { s with drafts := s.drafts.getDraft (.blank Config) }
  | .failDraft i =>
      if (s.pages i).fetch.isSome then
        some (s.putPage i { s.pages i with fetch := some (.answered none) })
      else none
  | .fail i k =>
      (s.pages i).mutations[k]?.map fun m =>
        { s.putPage i ((s.pages i).putTask k m m.task.failed) with
          late := if m.task.pending then s.late ++ [m.task] else s.late }

/-- The save that is taken up now. -/
def taking : SiteEvent ι Config → Option (SaveCall (Content Config))
  | .serve i k =>
      match (s.pages i).mutations[k]? with
      | some ⟨.saveSent call _, _⟩ => some call
      | _ => none
  | .serveLate k =>
      match s.late[k]? with
      | some (.saveSent call _) => some call
      | _ => none
  | _ => none

/-- Every page has just been opened, on what its store still holds. -/
def start (drafts : Drafts (Content Config)) (stores : ι → BuilderState Config) :
    Site ι Config where
  drafts := drafts
  pages := fun i => { store := stores i, fetch := some .sent }

@[simp] theorem pages_putPage (i j : ι) (p : Page Config) :
    (s.putPage i p).pages j = if j = i then p else s.pages j := by
  simp [putPage, Function.update_apply]

@[simp] theorem drafts_putPage (i : ι) (p : Page Config) : (s.putPage i p).drafts = s.drafts := rfl

@[simp] theorem published_putPage (i : ι) (p : Page Config) :
    (s.putPage i p).published = s.published := rfl

@[simp] theorem late_putPage (i : ι) (p : Page Config) : (s.putPage i p).late = s.late := rfl

/-- What the server does with the request of a mutation. -/
inductive Serves : Task (Content Config) → Task (Content Config) → Site ι Config → Prop
  | saved {call : SaveCall (Content Config)} {next : Option Errand}
      {drafts : Drafts (Content Config)} (hsaved : s.saved P call = some drafts) :
      Serves (.saveSent call next)
        (.saveAnswered next (some ⟨⟨call.revision + 1, call.graph⟩, s.published⟩))
        { s with drafts }
  | refused {call : SaveCall (Content Config)} {next : Option Errand}
      (hrefused : s.saved P call = none) :
      Serves (.saveSent call next) (.saveAnswered next none) s
  | validated : Serves (.errandSent .validate) (.errandAnswered .validate true)
      { s with drafts := s.drafts.getDraft (.blank Config) }
  | published {drafts : Drafts (Content Config)}
      (hpublish : s.drafts.publish P.valid = some drafts) :
      Serves (.errandSent .publish) (.errandAnswered .publish true)
        { s with drafts, published := s.published + 1 }
  | unpublished (hinvalid : s.drafts.publish P.valid = none) :
      Serves (.errandSent .publish) (.errandAnswered .publish false) s

omit [DecidableEq ι] in
/-- **What a request can come to.** -/
theorem serves_of_serveTask {P : Setting Config} {s s' : Site ι Config}
    {task task' : Task (Content Config)} (h : s.serveTask P task = some (task', s')) :
    s.Serves P task task' s' := by
  cases task with
  | saveSent call next =>
      simp only [serveTask] at h
      split at h
      · rename_i drafts hsaved
        cases h
        exact .saved hsaved
      · rename_i hrefused
        cases h
        exact .refused hrefused
  | errandSent errand =>
      cases errand with
      | validate =>
          cases h
          exact .validated
      | publish =>
          simp only [serveTask] at h
          split at h
          · rename_i drafts hpublish
            cases h
            exact .published hpublish
          · rename_i hinvalid
            cases h
            exact .unpublished hinvalid
  | saveAnswered next reply => cases h
  | errandAnswered errand ok => cases h

end Site

end Orqent.Builder
