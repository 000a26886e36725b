/-
The versions of one workflow and their graphs, as rows.

A draft is a version whose `status` says so; the generated column `draft_key` is
unique, so that there is at most one.  A statement acts on the rows it finds and
refuses what the database refuses: a second draft, a row that is not there.

What a statement locks is stated here too.  A delete also locks the gap its rows were
in, so that no other transaction inserts rows for that version: the rows of one graph
are one thing to lock.  An insert holds the version row its foreign key names.
-/
import Orqent.Versions.GraphRows
import Orqent.Lib.LockStore

namespace Orqent

variable {Value : Type}

/-- Whether a version can still be changed. -/
inductive VersionStatus
  | draft
  | published
deriving DecidableEq, Repr

/-- A row of `workflow_versions`, under its id. -/
structure WorkflowVersion where
  status : VersionStatus
  /-- Assigned when it is published. -/
  versionNo : Option Nat := none
  /-- The optimistic lock. -/
  revision : Nat := 1
deriving DecidableEq, Repr

/-- The rows of one workflow. -/
structure Tables (Value : Type) where
  activeVersionId : Option Nat := none
  versions : Dict Nat WorkflowVersion := []
  graphs : Nat → GraphRows Value := fun _ => {}
  ids_nodup : (versions.map Prod.fst).Nodup := by exact List.nodup_nil

namespace Tables

variable (t : Tables Value)

/-- The version with this id. -/
def version (id : Nat) : Option WorkflowVersion := t.versions.get? id

/-- The workflow's draft, if it has one. -/
def getDraft : Option (Nat × WorkflowVersion) :=
  t.versions.find? fun e => e.2.status = .draft

/-- Write a version row. -/
def putVersion (id : Nat) (row : WorkflowVersion) : Tables Value :=
  { t with versions := t.versions.set id row, ids_nodup := t.versions.nodup_set id row t.ids_nodup }

/-- Write to the rows of one graph. -/
def onGraph (id : Nat) (f : GraphRows Value → GraphRows Value) : Tables Value :=
  { t with graphs := Function.update t.graphs id (f (t.graphs id)) }

/-- Point the workflow at a version. -/
def putActive (id : Nat) : Tables Value := { t with activeVersionId := some id }

@[simp] theorem version_putVersion (id : Nat) (row : WorkflowVersion) (v : Nat) :
    (t.putVersion id row).version v = if id = v then some row else t.version v :=
  Dict.get?_set _ _ _ _

@[simp] theorem graphs_putVersion (id : Nat) (row : WorkflowVersion) :
    (t.putVersion id row).graphs = t.graphs := rfl

@[simp] theorem version_onGraph (id : Nat) (f : GraphRows Value → GraphRows Value) (v : Nat) :
    (t.onGraph id f).version v = t.version v := rfl

@[simp] theorem graphs_onGraph (id : Nat) (f : GraphRows Value → GraphRows Value) :
    (t.onGraph id f).graphs = Function.update t.graphs id (f (t.graphs id)) := rfl

@[simp] theorem version_putActive (id v : Nat) : (t.putActive id).version v = t.version v := rfl

theorem getDraft_eq_none_iff :
    t.getDraft = none ↔ ∀ id row, t.version id = some row → row.status ≠ .draft := by
  unfold getDraft
  rw [List.find?_eq_none]
  constructor
  · intro h id row hrow hdraft
    exact h (id, row) (Dict.mem_of_get? _ hrow) (by simpa using hdraft)
  · intro h entry hmem
    obtain ⟨id, row⟩ := entry
    simpa using h id row (Dict.get?_of_mem _ t.ids_nodup hmem)

theorem getDraft_eq_some {id : Nat} {row : WorkflowVersion} (h : t.getDraft = some (id, row)) :
    t.version id = some row ∧ row.status = .draft :=
  ⟨Dict.get?_of_mem _ t.ids_nodup (List.mem_of_find?_eq_some h), by simpa using List.find?_some h⟩

end Tables

/-! ### Statements -/

/-- What the transactions of the service write. -/
inductive Statement (Value : Type)
  | insertVersion (id : Nat)
  | deleteEdges (id : Nat)
  | deleteNodes (id : Nat)
  | insertNodes (id : Nat) (rows : List (NodeRow Value))
  | insertEdges (id : Nat) (rows : List EdgeRow)
  /-- `revision = revision + 1`, whatever it is by now. -/
  | bumpRevision (id : Nat)
  /-- Set `status` and `version_no`, whatever they are by now. -/
  | publishVersion (id versionNo : Nat)
  | activate (id : Nat)

/-- What a statement changed, kept until the commit. -/
inductive Change (Value : Type)
  | putVersion (id : Nat) (row : WorkflowVersion)
  | dropEdges (id : Nat) (ids : List Nat)
  | dropNodes (id : Nat) (ids : List Nat)
  | addNodes (id : Nat) (rows : List (NodeRow Value))
  | addEdges (id : Nat) (rows : List EdgeRow)
  | putActive (id : Nat)

/-- Issue a statement on the rows it finds. -/
def Statement.exec : Statement Value → Tables Value → Option (Change Value)
  | .insertVersion id, t =>
      -- The draft key and the id are unique.
      if t.getDraft = none ∧ t.version id = none then
        some (.putVersion id { status := .draft })
      else none
  | .deleteEdges id, t => some (.dropEdges id ((t.graphs id).edges.map EdgeRow.id))
  | .deleteNodes id, t => some (.dropNodes id ((t.graphs id).nodes.map NodeRow.id))
  | .insertNodes id rows, _ => some (.addNodes id rows)
  | .insertEdges id rows, _ => some (.addEdges id rows)
  | .bumpRevision id, t =>
      (t.version id).map fun row => .putVersion id { row with revision := row.revision + 1 }
  | .publishVersion id versionNo, t =>
      (t.version id).map fun row =>
        .putVersion id { row with status := .published, versionNo := some versionNo }
  | .activate id, _ => some (.putActive id)

/-- Make a change. -/
def Change.apply : Change Value → Tables Value → Tables Value
  | .putVersion id row, t => t.putVersion id row
  | .dropEdges id ids, t =>
      t.onGraph id fun g => { g with edges := g.edges.filter fun e => e.id ∉ ids }
  | .dropNodes id ids, t =>
      t.onGraph id fun g => { g with nodes := g.nodes.filter fun n => n.id ∉ ids }
  | .addNodes id rows, t => t.onGraph id fun g => { g with nodes := g.nodes ++ rows }
  | .addEdges id rows, t => t.onGraph id fun g => { g with edges := g.edges ++ rows }
  | .putActive id, t => t.putActive id

/-! ### Locks -/

/-- What a statement can lock. -/
inductive Lockable
  | version (id : Nat)
  | graph (id : Nat)
  /-- The entries of the unique index on `draft_key`. -/
  | draftKey
  | workflow
deriving DecidableEq, Repr

/-- The contents of what is locked. -/
def Lockable.Contents (Value : Type) : Lockable → Type
  | .version _ => Option WorkflowVersion
  | .graph _ => GraphRows Value
  | .draftKey => Nat → Prop
  | .workflow => Option Nat

/-- Whether this version is a draft. -/
def Tables.IsDraft (t : Tables Value) (id : Nat) : Prop :=
  ∃ row, t.version id = some row ∧ row.status = .draft

/-- What is in a part of the tables. -/
def Tables.part (t : Tables Value) : ∀ r : Lockable, r.Contents Value
  | .version id => t.version id
  | .graph id => t.graphs id
  | .draftKey => t.IsDraft
  | .workflow => t.activeVersionId

/-- The parts a statement locks. -/
def Statement.locks : Statement Value → List Lockable
  | .insertVersion id => [.version id, .draftKey]
  | .deleteEdges id => [.graph id]
  | .deleteNodes id => [.graph id]
  | .insertNodes id rows => .graph id :: if rows.isEmpty then [] else [.version id]
  | .insertEdges id rows => .graph id :: if rows.isEmpty then [] else [.version id]
  | .bumpRevision id => [.version id]
  | .publishVersion id _ => [.version id, .draftKey]
  | .activate _ => [.workflow]

theorem Tables.getDraft_none_iff_isDraft (t : Tables Value) :
    t.getDraft = none ↔ ∀ id, ¬ t.IsDraft id := by
  rw [t.getDraft_eq_none_iff]
  constructor
  · intro h id hdraft
    obtain ⟨row, hrow, hdraft⟩ := hdraft
    exact h id row hrow hdraft
  · intro h id row hrow hdraft
    exact h id ⟨row, hrow, hdraft⟩

theorem Tables.isDraft_putVersion (t : Tables Value) (id : Nat) (row : WorkflowVersion) (v : Nat) :
    (t.putVersion id row).IsDraft v ↔ if id = v then row.status = .draft else t.IsDraft v := by
  by_cases h : id = v <;> simp [IsDraft, h]

/-- A statement acts on what it locks. -/
theorem Statement.exec_congr {w : Statement Value} {t t' : Tables Value}
    (h : ∀ r ∈ w.locks, t.part r = t'.part r) : w.exec t = w.exec t' := by
  cases w with
  | insertVersion id =>
      have hversion : t.version id = t'.version id := h (.version id) (by simp [locks])
      have hdraft : t.IsDraft = t'.IsDraft := h .draftKey (by simp [locks])
      have hfree : (t.getDraft = none ∧ t.version id = none) ↔
          (t'.getDraft = none ∧ t'.version id = none) := by
        rw [t.getDraft_none_iff_isDraft, t'.getDraft_none_iff_isDraft, hdraft, hversion]
      exact if_congr hfree rfl rfl
  | deleteEdges id =>
      have hgraph : t.graphs id = t'.graphs id := h (.graph id) (by simp [locks])
      simp only [exec, hgraph]
  | deleteNodes id =>
      have hgraph : t.graphs id = t'.graphs id := h (.graph id) (by simp [locks])
      simp only [exec, hgraph]
  | insertNodes id rows => rfl
  | insertEdges id rows => rfl
  | bumpRevision id =>
      have hversion : t.version id = t'.version id := h (.version id) (by simp [locks])
      simp only [exec, hversion]
  | publishVersion id versionNo =>
      have hversion : t.version id = t'.version id := h (.version id) (by simp [locks])
      simp only [exec, hversion]
  | activate id => rfl

/-- Writing a version row changes that row, and the draft key with its status. -/
theorem Tables.part_putVersion (t : Tables Value) {id : Nat} {row : WorkflowVersion} {r : Lockable}
    (hid : r ≠ .version id)
    (hdraft : r = .draftKey → ∃ old, t.version id = some old ∧ old.status = row.status) :
    (t.putVersion id row).part r = t.part r := by
  cases r with
  | version v =>
      have hne : id ≠ v := fun hc => hid (hc ▸ rfl)
      exact (t.version_putVersion id row v).trans (if_neg hne)
  | graph v => rfl
  | draftKey =>
      obtain ⟨old, hold, hstatus⟩ := hdraft rfl
      funext v
      refine propext ?_
      show (t.putVersion id row).IsDraft v ↔ t.IsDraft v
      rw [t.isDraft_putVersion]
      by_cases h : id = v
      · subst h
        simp [IsDraft, hold, hstatus]
      · rw [if_neg h]
  | workflow => rfl

/-- Writing to one graph changes no other part. -/
theorem Tables.part_onGraph (t : Tables Value) {id : Nat} {f : GraphRows Value → GraphRows Value}
    {r : Lockable} (h : r ≠ .graph id) : (t.onGraph id f).part r = t.part r := by
  cases r with
  | graph v =>
      have hne : v ≠ id := fun hc => h (hc ▸ rfl)
      exact Function.update_of_ne hne _ _
  | version v => rfl
  | draftKey => rfl
  | workflow => rfl

/-- A statement changes nothing but what it locks. -/
theorem Statement.frame {w : Statement Value} {t : Tables Value} {d : Change Value} {r : Lockable}
    (hexec : w.exec t = some d) (hr : r ∉ w.locks) : (d.apply t).part r = t.part r := by
  cases w with
  | insertVersion id =>
      simp only [exec, Option.ite_none_right_eq_some, Option.some.injEq] at hexec
      obtain ⟨-, rfl⟩ := hexec
      exact t.part_putVersion (fun hc => hr (by simp [locks, hc])) fun hc => absurd hc fun hc =>
        hr (by simp [locks, hc])
  | deleteEdges id =>
      obtain rfl := Option.some.inj hexec
      exact t.part_onGraph fun hc => hr (by simp [locks, hc])
  | deleteNodes id =>
      obtain rfl := Option.some.inj hexec
      exact t.part_onGraph fun hc => hr (by simp [locks, hc])
  | insertNodes id rows =>
      obtain rfl := Option.some.inj hexec
      exact t.part_onGraph fun hc => hr (by simp [locks, hc])
  | insertEdges id rows =>
      obtain rfl := Option.some.inj hexec
      exact t.part_onGraph fun hc => hr (by simp [locks, hc])
  | bumpRevision id =>
      obtain ⟨row, hrow, rfl⟩ := Option.map_eq_some_iff.mp hexec
      exact t.part_putVersion (fun hc => hr (by simp [locks, hc])) fun _ => ⟨row, hrow, rfl⟩
  | publishVersion id versionNo =>
      obtain ⟨row, hrow, rfl⟩ := Option.map_eq_some_iff.mp hexec
      exact t.part_putVersion (fun hc => hr (by simp [locks, hc])) fun hc => absurd hc fun hc =>
        hr (by simp [locks, hc])
  | activate id =>
      obtain rfl := Option.some.inj hexec
      cases r with
      | workflow => exact absurd (by simp [locks]) hr
      | version v => rfl
      | graph v => rfl
      | draftKey => rfl

/-- A change makes the same of what is the same. -/
theorem Change.apply_congr {d : Change Value} {t t' : Tables Value} {r : Lockable}
    (h : t.part r = t'.part r) : (d.apply t).part r = (d.apply t').part r := by
  have hgraph : ∀ (id : Nat) (f : GraphRows Value → GraphRows Value),
      (t.onGraph id f).part r = (t'.onGraph id f).part r := by
    intro id f
    by_cases hr : r = .graph id
    · subst hr
      have hrows : t.graphs id = t'.graphs id := h
      show Function.update t.graphs id _ id = Function.update t'.graphs id _ id
      rw [Function.update_self, Function.update_self, hrows]
    · rw [t.part_onGraph hr, t'.part_onGraph hr, h]
  cases d with
  | putVersion id row =>
      cases r with
      | version v =>
          have hversion : t.version v = t'.version v := h
          show (t.putVersion id row).version v = (t'.putVersion id row).version v
          rw [t.version_putVersion, t'.version_putVersion, hversion]
      | graph v => exact h
      | draftKey =>
          have hdraft : t.IsDraft = t'.IsDraft := h
          funext v
          refine propext ?_
          show (t.putVersion id row).IsDraft v ↔ (t'.putVersion id row).IsDraft v
          rw [t.isDraft_putVersion, t'.isDraft_putVersion, hdraft]
      | workflow => exact h
  | dropEdges id ids => exact hgraph id _
  | dropNodes id ids => exact hgraph id _
  | addNodes id rows => exact hgraph id _
  | addEdges id rows => exact hgraph id _
  | putActive id =>
      cases r with
      | workflow => rfl
      | version v => exact h
      | graph v => exact h
      | draftKey => exact h

end Orqent
