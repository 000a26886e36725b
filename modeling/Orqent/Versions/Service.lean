/-
The calls that edit and publish a workflow.

Each call is one transaction.  All it reads, it reads in the snapshot its first query
took: the draft, its revision, its graph.  From that it decides whether to refuse and
which statements to issue (`Call.body`); the statements then act on the latest
committed rows (`versionStore`).

`Edit` is what a step of any number of such calls can do to the committed rows, and
`step_edit` says that every step is one.  Which calls have saved or published what is
read off the steps of a run: `accepted` and `publications`.

Left out of a publish are the webhook and the schedule it registers, which are not rows
of the version; the next ids the database hands out are part of the call.
-/
import Orqent.Versions.Tables
import Orqent.Graph.Validation

namespace Orqent

open LockStore

variable {Value : Type}

/-- The ids the database hands out next. -/
structure NewIds where
  version : Nat
  node : Nat
  edge : Nat
deriving DecidableEq, Repr

/-- The next ids once a graph was inserted. -/
def NewIds.after (ids : NewIds) (g : WorkflowGraph Value) : NewIds :=
  { ids with node := ids.node + g.nodes.length, edge := ids.edge + g.edges.length }

/-- Replace a version's graph wholesale: delete, then insert. -/
def replaceGraph (id : Nat) (ids : NewIds) (g : WorkflowGraph Value) : List (Statement Value) :=
  let rows := graphRows ids.node ids.edge g
  [.deleteEdges id, .deleteNodes id, .insertNodes id rows.nodes, .insertEdges id rows.edges]

/-- The draft a call works on, and the statements that make it if there was none. -/
structure EnsuredDraft (Value : Type) where
  id : Nat
  revision : Nat
  statements : List (Statement Value)
  ids : NewIds

/-- One past the highest number this workflow has used. -/
def nextVersionNo (t : Tables Value) : Nat :=
  (t.versions.filterMap fun e => e.2.versionNo).max?.getD 0 + 1

section Calls

variable [DecidableEq Value]

/-- The draft, or a new one that starts as a copy of the active version. -/
def ensureDraft (ids : NewIds) (t : Tables Value) : Option (EnsuredDraft Value) :=
  match t.getDraft with
  | some (id, row) => some ⟨id, row.revision, [], ids⟩
  | none =>
      match t.activeVersionId with
      | none => some ⟨ids.version, 1, [.insertVersion ids.version], ids⟩
      | some source =>
          (loadGraph (t.graphs source)).map fun g =>
            ⟨ids.version, 1, .insertVersion ids.version :: replaceGraph ids.version ids g,
              ids.after g⟩

/-- The calls on one workflow. -/
inductive Call (Value : Type)
  | getDraft (ids : NewIds)
  | replaceDraft (ids : NewIds) (revision : Nat) (graph : WorkflowGraph Value)
  | publish

/-- The statements a call issues, given the rows it reads; `none` if it is refused. -/
def Call.body (registry : NodeRegistry Value) : Call Value → Tables Value →
    Option (List (Statement Value))
  | .getDraft ids, t => (ensureDraft ids t).map (·.statements)
  | .replaceDraft ids revision graph, t => do
      let draft ← ensureDraft ids t
      -- Checked before the write, on what was read.
      if draft.revision ≠ revision then none
      else some (draft.statements ++ replaceGraph draft.id draft.ids graph ++
        [.bumpRevision draft.id])
  | .publish, t => do
      let (id, _) ← t.getDraft
      let graph ← loadGraph (t.graphs id)
      if (validateGraph graph registry).isValid then
        some [.publishVersion id (nextVersionNo t), .activate id]
      else none

/-- The rows of a workflow as a store with locks. -/
def versionStore (registry : NodeRegistry Value) :
    LockStore (Tables Value) (Call Value) (Statement Value) (Change Value) Lockable
      (Lockable.Contents Value) where
  body := Call.body registry
  exec := Statement.exec
  apply := Change.apply
  locks := Statement.locks
  part r t := t.part r
  exec_congr := Statement.exec_congr
  frame := Statement.frame
  apply_congr := Change.apply_congr

/-- Any number of calls on one workflow. -/
abbrev Editing (Value ι : Type) :=
  Pool (Tables Value) (Call Value) (Statement Value) (Change Value) Lockable ι

/-- What happens to the transactions. -/
abbrev EditEvent (Value ι : Type) := Event (Call Value) ι

/-- A workflow as it is created, without a version. -/
def Editing.start (Value ι : Type) : Editing Value ι := Pool.start {}

/-! ### What was saved, what was published -/

/-- A save: the version it writes, the revision it was based on, and its graph. -/
structure Save (Value : Type) where
  version : Nat
  base : Nat
  graph : WorkflowGraph Value

/-- A publication: the version, and the graph that was validated for it. -/
structure Publication (Value : Type) where
  version : Nat
  graph : WorkflowGraph Value

variable {ι : Type}

/-- The save a commit makes. -/
def saving (p : Editing Value ι) : EditEvent Value ι → List (Save Value)
  | .commit i =>
      match p.opened i with
      | some ⟨.replaceDraft ids revision graph, snap, _, _, _⟩ =>
          ((ensureDraft ids snap).map fun draft => ⟨draft.id, revision, graph⟩).toList
      | _ => []
  | _ => []

/-- The publication a commit makes. -/
def publishing (p : Editing Value ι) : EditEvent Value ι → List (Publication Value)
  | .commit i =>
      match p.opened i with
      | some ⟨.publish, snap, _, _, _⟩ =>
          match snap.getDraft with
          | some (id, _) => ((loadGraph (snap.graphs id)).map fun graph => ⟨id, graph⟩).toList
          | none => []
      | _ => []
  | _ => []

/-- The revision of a version; none is stored as zero. -/
def Tables.revision (t : Tables Value) (id : Nat) : Nat :=
  ((t.version id).map WorkflowVersion.revision).getD 0

/-- The graph of a version, as the committed rows have it. -/
def storedGraph (p : Editing Value ι) (id : Nat) : Option (WorkflowGraph Value) :=
  loadGraph (p.committed.graphs id)

/-- Whether a version is published. -/
def Tables.isPublished (t : Tables Value) (id : Nat) : Bool :=
  (t.version id).any fun row => row.status = .published

/-- An accepted save, with the revision its commit left. -/
structure Accepted (Value : Type) extends Save Value where
  revision : Nat

variable [DecidableEq ι]

/-- The saves that were accepted in a run, in order. -/
def accepted (registry : NodeRegistry Value) : List (EditEvent Value ι) → List (Accepted Value) :=
  Trace.collect (versionStore registry).poolStep
    (fun p e p' => (saving p e).map fun s => ⟨s, p'.committed.revision s.version⟩)
    (Editing.start Value ι)

/-- The publications of a run, in order. -/
def publications (registry : NodeRegistry Value) :
    List (EditEvent Value ι) → List (Publication Value) :=
  Trace.collect (versionStore registry).poolStep (fun p e _ => publishing p e)
    (Editing.start Value ι)

end Calls

/-! ### What a call does to the rows -/

section Perform

variable [DecidableEq Value] {registry : NodeRegistry Value} {t t' snap : Tables Value} {id : Nat}
  {ids : NewIds} {g : WorkflowGraph Value} {draft : EnsuredDraft Value}

/-- Replacing a graph leaves its rows and no others. -/
theorem perform_replaceGraph :
    (versionStore registry).perform (replaceGraph id ids g) t
      = some (t.onGraph id fun _ => graphRows ids.node ids.edge g) := by
  have hdrop : ∀ {α : Type} (f : α → Nat) (rows : List α),
      rows.filter (fun a => !decide (∃ b, b ∈ rows ∧ f b = f a)) = [] := by
    intro α f rows
    rw [List.filter_eq_nil_iff]
    intro a ha
    simpa using ⟨a, ha, rfl⟩
  simp [perform, replaceGraph, versionStore, Statement.exec, Change.apply, Tables.onGraph, hdrop]

theorem perform_bumpRevision :
    (versionStore registry).perform [.bumpRevision id] t = some t' ↔
      ∃ row, t.version id = some row ∧
        t' = t.putVersion id { row with revision := row.revision + 1 } := by
  simp [perform, versionStore, Statement.exec, Change.apply, eq_comm]

theorem perform_insertVersion :
    (versionStore registry).perform [.insertVersion id] t = some t' ↔
      (t.getDraft = none ∧ t.version id = none) ∧ t' = t.putVersion id { status := .draft } := by
  simp [perform, versionStore, Statement.exec, Change.apply, eq_comm]

theorem perform_publish {versionNo : Nat} :
    (versionStore registry).perform [.publishVersion id versionNo, .activate id] t = some t' ↔
      ∃ row, t.version id = some row ∧
        t' = (t.putVersion id
          { row with status := .published, versionNo := some versionNo }).putActive id := by
  cases h : t.version id <;>
    simp [perform, versionStore, Statement.exec, Change.apply, h, eq_comm]

/-- A version that was not there is a draft now, and nothing else has changed but its graph. -/
structure Created (t : Tables Value) (id : Nat) (t' : Tables Value) : Prop where
  fresh : t.version id = none
  version : ∀ u, t'.version u = if id = u then some { status := .draft } else t.version u
  graphs : ∀ u, u ≠ id → t'.graphs u = t.graphs u

/-- The draft a call works on is the one it read, or one it has just made. -/
theorem perform_ensureDraft (h : ensureDraft ids snap = some draft)
    (hperform : (versionStore registry).perform draft.statements t = some t') :
    (t' = t ∧ ∃ row, snap.version draft.id = some row ∧ row.revision = draft.revision) ∨
      Created t draft.id t' ∧ draft.revision = 1 := by
  unfold ensureDraft at h
  split at h
  · rename_i id row hdraft
    obtain rfl := Option.some.inj h
    exact Or.inl ⟨(Option.some.inj hperform).symm, row, (snap.getDraft_eq_some hdraft).1, rfl⟩
  · split at h
    · obtain rfl := Option.some.inj h
      obtain ⟨⟨-, hfresh⟩, rfl⟩ := perform_insertVersion.mp hperform
      exact Or.inr ⟨⟨hfresh, t.version_putVersion _ _, fun _ _ => rfl⟩, rfl⟩
    · obtain ⟨copy, -, rfl⟩ := Option.map_eq_some_iff.mp h
      obtain ⟨mid, hinsert, hcopy⟩ := perform_append.mp
        (show (versionStore registry).perform ([Statement.insertVersion ids.version] ++
          replaceGraph ids.version ids copy) t = some t' from hperform)
      obtain ⟨⟨-, hfresh⟩, rfl⟩ := perform_insertVersion.mp hinsert
      rw [perform_replaceGraph, Option.some.injEq] at hcopy
      subst hcopy
      refine Or.inr ⟨⟨hfresh, fun u => ?_, fun u hu => ?_⟩, rfl⟩
      · rw [Tables.version_onGraph, Tables.version_putVersion]
      · rw [Tables.graphs_onGraph, Function.update_of_ne hu, Tables.graphs_putVersion]

end Perform

/-! ### What a step does to the rows -/

section Step

variable [DecidableEq Value] {ι : Type} {registry : NodeRegistry Value}
  {p p' : Editing Value ι} {e : EditEvent Value ι}

/-- What a step can do to the committed rows. -/
inductive Edit (registry : NodeRegistry Value) (p : Editing Value ι) (e : EditEvent Value ι) :
    Tables Value → Prop
  | quiet (hsaving : saving p e = []) (hpublishing : publishing p e = []) :
      Edit registry p e p.committed
  /-- A draft was made. -/
  | created {id : Nat} {t' : Tables Value} (hsaving : saving p e = [])
      (hpublishing : publishing p e = []) (hcreated : Created p.committed id t') :
      Edit registry p e t'
  /-- The draft a call read was saved. -/
  | saved {save : Save Value} {row : WorkflowVersion} {t' : Tables Value}
      (hsaving : saving p e = [save]) (hpublishing : publishing p e = [])
      (hrow : p.committed.version save.version = some row)
      (hsnap : ∃ i t old, p.opened i = some t ∧ t.snap.version save.version = some old ∧
        old.revision = save.base)
      (hversion : ∀ u, t'.version u =
        if save.version = u then some { row with revision := row.revision + 1 }
        else p.committed.version u)
      (hload : loadGraph (t'.graphs save.version) = some save.graph)
      (hgraphs : ∀ u, u ≠ save.version → t'.graphs u = p.committed.graphs u) :
      Edit registry p e t'
  /-- A draft was made and saved. -/
  | savedNew {save : Save Value} {t' : Tables Value} (hsaving : saving p e = [save])
      (hpublishing : publishing p e = []) (hfresh : p.committed.version save.version = none)
      (hbase : save.base = 1)
      (hversion : ∀ u, t'.version u =
        if save.version = u then some { status := .draft, revision := 2 }
        else p.committed.version u)
      (hload : loadGraph (t'.graphs save.version) = some save.graph)
      (hgraphs : ∀ u, u ≠ save.version → t'.graphs u = p.committed.graphs u) :
      Edit registry p e t'
  | published {pub : Publication Value} {row : WorkflowVersion} {versionNo : Nat}
      {t' : Tables Value} (hsaving : saving p e = []) (hpublishing : publishing p e = [pub])
      (hvalid : (validateGraph pub.graph registry).isValid = true)
      (hrow : p.committed.version pub.version = some row)
      (hversion : ∀ u, t'.version u =
        if pub.version = u then
          some { row with status := .published, versionNo := some versionNo }
        else p.committed.version u)
      (hgraphs : t'.graphs = p.committed.graphs) :
      Edit registry p e t'

/-- What a commit of `get_draft` does. -/
theorem edit_getDraft {ids : NewIds} {ws : List (Statement Value)} {snap t' : Tables Value}
    (hsaving : saving p e = []) (hpublishing : publishing p e = [])
    (hbody : Call.body registry (.getDraft ids) snap = some ws)
    (hperform : (versionStore registry).perform ws p.committed = some t') :
    Edit registry p e t' := by
  obtain ⟨draft, hdraft, rfl⟩ := Option.map_eq_some_iff.mp hbody
  rcases perform_ensureDraft hdraft hperform with ⟨rfl, -⟩ | ⟨hcreated, -⟩
  · exact .quiet hsaving hpublishing
  · exact .created hsaving hpublishing hcreated

/-- What a commit of `replace_draft` does. -/
theorem edit_replaceDraft {i : ι}
    {txn : Txn (Tables Value) (Call Value) (Statement Value) (Change Value)} {ids : NewIds}
    {revision : Nat} {graph : WorkflowGraph Value} {ws : List (Statement Value)}
    {t' : Tables Value} (hopen : p.opened i = some txn)
    (hcall : txn.call = .replaceDraft ids revision graph)
    (hbody : Call.body registry (.replaceDraft ids revision graph) txn.snap = some ws)
    (hperform : (versionStore registry).perform ws p.committed = some t') :
    Edit registry p (.commit i) t' := by
  obtain ⟨draft, hdraft, hchecked⟩ := Option.bind_eq_some_iff.mp hbody
  obtain ⟨call, snap, issued, changes, todo⟩ := txn
  obtain rfl : call = _ := hcall
  have hsaving : saving p (.commit i) = [⟨draft.id, revision, graph⟩] := by
    simp only [saving, hopen, show ensureDraft ids snap = some draft from hdraft]
    rfl
  have hpublishing : publishing p (.commit i) = [] := by simp only [publishing, hopen]
  split at hchecked
  · exact nomatch hchecked
  rename_i hrevision
  obtain rfl : draft.revision = revision := not_not.mp hrevision
  obtain rfl := Option.some.inj hchecked
  obtain ⟨replaced, hreplace, hbump⟩ := perform_append.mp hperform
  obtain ⟨ensured, hensure, hreplace⟩ := perform_append.mp hreplace
  rw [perform_replaceGraph, Option.some.injEq] at hreplace
  subst hreplace
  obtain ⟨row, hrow, rfl⟩ := perform_bumpRevision.mp hbump
  rw [Tables.version_onGraph] at hrow
  have hload : loadGraph (((ensured.onGraph draft.id fun _ =>
      graphRows draft.ids.node draft.ids.edge graph).putVersion draft.id
        { row with revision := row.revision + 1 }).graphs draft.id) = some graph := by
    rw [Tables.graphs_putVersion, Tables.graphs_onGraph, Function.update_self]
    exact loadGraph_graphRows _ _ graph
  have hgraphs : ∀ u, u ≠ draft.id → ((ensured.onGraph draft.id fun _ =>
      graphRows draft.ids.node draft.ids.edge graph).putVersion draft.id
        { row with revision := row.revision + 1 }).graphs u = ensured.graphs u := by
    intro u hu
    rw [Tables.graphs_putVersion, Tables.graphs_onGraph, Function.update_of_ne hu]
  rcases perform_ensureDraft hdraft hensure with ⟨rfl, old, hold, hbase⟩ | ⟨hcreated, hone⟩
  · refine .saved hsaving hpublishing hrow ⟨i, _, old, hopen, hold, hbase⟩ (fun u => ?_)
      hload hgraphs
    rw [Tables.version_putVersion, Tables.version_onGraph]
  · refine .savedNew hsaving hpublishing hcreated.fresh hone (fun u => ?_) hload
      fun u hu => (hgraphs u hu).trans (hcreated.graphs u hu)
    rw [hcreated.version, if_pos rfl, Option.some.injEq] at hrow
    subst hrow
    rw [Tables.version_putVersion, Tables.version_onGraph, hcreated.version]
    by_cases hu : draft.id = u <;> simp [hu]

/-- What a commit of `publish` does. -/
theorem edit_publish {i : ι}
    {txn : Txn (Tables Value) (Call Value) (Statement Value) (Change Value)}
    {ws : List (Statement Value)} {t' : Tables Value} (hopen : p.opened i = some txn)
    (hcall : txn.call = .publish) (hbody : Call.body registry .publish txn.snap = some ws)
    (hperform : (versionStore registry).perform ws p.committed = some t') :
    Edit registry p (.commit i) t' := by
  obtain ⟨call, snap, issued, changes, todo⟩ := txn
  obtain rfl : call = _ := hcall
  obtain ⟨⟨id, old⟩, hdraft, hbody⟩ := Option.bind_eq_some_iff.mp hbody
  obtain ⟨graph, hload, hbody⟩ := Option.bind_eq_some_iff.mp hbody
  split at hbody
  swap
  · exact nomatch hbody
  rename_i hvalid
  obtain rfl := Option.some.inj hbody
  have hsaving : saving p (.commit i) = [] := by simp only [saving, hopen]
  have hpublishing : publishing p (.commit i) = [⟨id, graph⟩] := by
    simp only [publishing, hopen, show snap.getDraft = some (id, old) from hdraft,
      show loadGraph (snap.graphs id) = some graph from hload]
    rfl
  obtain ⟨row, hrow, rfl⟩ := perform_publish.mp hperform
  have hversion : ∀ u, ((p.committed.putVersion id { row with
      status := .published, versionNo := some (nextVersionNo snap) }).putActive id).version u =
        if id = u then
          some { row with status := .published, versionNo := some (nextVersionNo snap) }
        else p.committed.version u := by
    intro u
    rw [Tables.version_putActive, Tables.version_putVersion]
  exact .published hsaving hpublishing hvalid hrow hversion rfl

variable [DecidableEq ι]

/-- **Every step is one of these edits.** -/
theorem step_edit (hok : PoolOk (versionStore registry) p)
    (hstep : (versionStore registry).poolStep p e = some p') :
    Edit registry p e p'.committed := by
  by_cases hcommit : ∃ i, e = .commit i
  · obtain ⟨i, rfl⟩ := hcommit
    obtain ⟨txn, ws, hopen, hbody, hperform⟩ := commit_performs hok hstep
    cases hcall : txn.call with
    | getDraft ids =>
        have hbody' : Call.body registry (.getDraft ids) txn.snap = some ws := hcall ▸ hbody
        obtain ⟨call, snap, issued, changes, todo⟩ := txn
        obtain rfl : call = _ := hcall
        exact edit_getDraft (by simp only [saving, hopen]) (by simp only [publishing, hopen])
          hbody' hperform
    | replaceDraft ids revision graph =>
        exact edit_replaceDraft hopen hcall (hcall ▸ hbody) hperform
    | publish => exact edit_publish hopen hcall (hcall ▸ hbody) hperform
  · have hne : ∀ i, e ≠ .commit i := fun i hi => hcommit ⟨i, hi⟩
    rw [poolStep_committed hstep hne]
    cases e with
    | commit i => exact absurd rfl (hne i)
    | begin i call => exact .quiet rfl rfl
    | issue i => exact .quiet rfl rfl
    | rollback i => exact .quiet rfl rfl

end Step

/-! ### Calls to try it on -/

/-- All the events of a call with this many statements, one after another. -/
def wholeCall {ι : Type} (i : ι) (call : Call Value) (statements : Nat) :
    List (EditEvent Value ι) :=
  .begin i call :: List.replicate statements (.issue i) ++ [.commit i]

end Orqent
