/-
The webhook registrations and schedules of one workflow, beside its versions.

Both point at a node row.  Deleting a node deletes what points at it, and pointing at a
node that is not there is refused; so a registration or a schedule always has its node.

A statement on the version tables does what it does there.  A delete of nodes also locks
the two tables it cascades into, where the database locks only the rows it deletes, and a
statement that points at a node locks the graph of that node, where the database shares
the lock of one row.  A lock that is wider than the real one only makes a statement wait.
-/
import Orqent.Versions.Service

namespace Orqent

open LockStore

variable {Value : Type}

/-- A row of `workflow_nodes`: the rows of a graph are kept by its version. -/
structure NodeRef where
  version : Nat
  node : Nat
deriving DecidableEq, Repr

/-- Whether the address of a registration is good. -/
inductive RegistrationStatus
  | active
  | revoked
deriving DecidableEq, Repr

/-- `trigger_registrations`; the digest is unique. -/
structure TriggerRegistration where
  target : NodeRef
  status : RegistrationStatus := .active
  tokenDigest : String
deriving DecidableEq, Repr

/-- `schedules`; no two point at one node. -/
structure Schedule where
  id : Nat
  target : NodeRef
  nextRunAt : Nat
deriving DecidableEq, Repr

/-- The rows of one workflow with its triggers; `deleted` is whether `deleted_at` is set. -/
structure TriggerDb (Value : Type) where
  tables : Tables Value := {}
  deleted : Bool := false
  registrations : List TriggerRegistration := []
  schedules : List Schedule := []

namespace TriggerDb

variable (db : TriggerDb Value)

/-- The node is there. -/
def hasNode (r : NodeRef) : Bool := (db.tables.graphs r.version).nodes.any fun n => n.id = r.node

/-- `TriggerRegistrationRepository.get_for_workflow`. -/
def registration : Option TriggerRegistration := db.registrations.head?

/-- `ScheduleRepository.get_for_workflow`. -/
def schedule : Option Schedule := db.schedules.head?

/-- Whether a trigger node is in the version the workflow publishes. -/
def isLive (target : NodeRef) : Bool :=
  db.tables.activeVersionId = some target.version && !db.deleted

/-- `TriggerRegistrationRepository.get_by_token_digest`. -/
def getByTokenDigest (digest : String) : Option TriggerRegistration :=
  db.registrations.find? fun r =>
    r.tokenDigest = digest && r.status = .active && db.isLive r.target

end TriggerDb

/-! ### Statements -/

/-- The statements of the service. -/
inductive TriggerStatement (Value : Type)
  | version (w : Statement Value)
  | addRegistration (target : NodeRef) (digest : String)
  /-- Set `workflow_node_id` of the registration with this digest. -/
  | pointRegistration (digest : String) (target : NodeRef)
  /-- Set the status of the registration with this digest to `REVOKED`. -/
  | revoke (digest : String)
  | addSchedule (id : Nat) (target : NodeRef) (nextRunAt : Nat)
  /-- Set `workflow_node_id` and `next_run_at` of the schedule with this id. -/
  | pointSchedule (id : Nat) (target : NodeRef) (nextRunAt : Nat)
  /-- Set the workflow's `deleted_at`. -/
  | delete

/-- What a statement changed. -/
inductive TriggerChange (Value : Type)
  | version (d : Change Value)
  | addRegistration (row : TriggerRegistration)
  | pointRegistration (digest : String) (target : NodeRef)
  | revoke (digest : String)
  | addSchedule (row : Schedule)
  | pointSchedule (id : Nat) (target : NodeRef) (nextRunAt : Nat)
  | delete

/-- Issue a statement.  An update of one row that finds none is an error of the mapper. -/
def TriggerStatement.exec : TriggerStatement Value → TriggerDb Value → Option (TriggerChange Value)
  | .version w, db => (w.exec db.tables).map .version
  | .addRegistration target digest, db =>
      if db.hasNode target ∧ digest ∉ db.registrations.map TriggerRegistration.tokenDigest then
        some (.addRegistration { target, tokenDigest := digest })
      else none
  | .pointRegistration digest target, db =>
      if db.hasNode target ∧ digest ∈ db.registrations.map TriggerRegistration.tokenDigest then
        some (.pointRegistration digest target)
      else none
  | .revoke digest, _ => some (.revoke digest)
  | .addSchedule id target nextRunAt, db =>
      if db.hasNode target ∧ target ∉ db.schedules.map Schedule.target ∧
          id ∉ db.schedules.map Schedule.id then
        some (.addSchedule ⟨id, target, nextRunAt⟩)
      else none
  | .pointSchedule id target nextRunAt, db =>
      if db.hasNode target ∧ id ∈ db.schedules.map Schedule.id ∧
          ∀ s ∈ db.schedules, s.target = target → s.id = id then
        some (.pointSchedule id target nextRunAt)
      else none
  | .delete, _ => some .delete

/-- The node rows a change deletes. -/
def Change.drops : Change Value → NodeRef → Bool
  | .dropNodes id ids, target => target.version = id && target.node ∈ ids
  | _, _ => false

/-- Make a change. -/
def TriggerChange.apply : TriggerChange Value → TriggerDb Value → TriggerDb Value
  | .version d, db =>
      { db with
        tables := d.apply db.tables
        registrations := db.registrations.filter fun r => !d.drops r.target
        schedules := db.schedules.filter fun s => !d.drops s.target }
  | .addRegistration row, db => { db with registrations := db.registrations ++ [row] }
  | .pointRegistration digest target, db =>
      { db with
        registrations := db.registrations.map fun r =>
          if r.tokenDigest = digest then { r with target } else r }
  | .revoke digest, db =>
      { db with
        registrations := db.registrations.map fun r =>
          if r.tokenDigest = digest then { r with status := .revoked } else r }
  | .addSchedule row, db => { db with schedules := db.schedules ++ [row] }
  | .pointSchedule id target nextRunAt, db =>
      { db with
        schedules :=
          db.schedules.map fun s => if s.id = id then { s with target, nextRunAt } else s }
  | .delete, db => { db with deleted := true }

/-! ### Locks -/

/-- What a statement can lock. -/
inductive TriggerPart
  | version (r : Lockable)
  /-- The workflow's `deleted_at`. -/
  | deleted
  | registrations
  | schedules
deriving DecidableEq, Repr

/-- The contents of what is locked. -/
def TriggerPart.Contents (Value : Type) : TriggerPart → Type
  | .version r => r.Contents Value
  | .deleted => Bool
  | .registrations => List TriggerRegistration
  | .schedules => List Schedule

/-- What is in a part of the database. -/
def TriggerDb.part (db : TriggerDb Value) : ∀ r : TriggerPart, r.Contents Value
  | .version r => db.tables.part r
  | .deleted => db.deleted
  | .registrations => db.registrations
  | .schedules => db.schedules

/-- The tables a delete cascades into. -/
def Statement.cascades : Statement Value → List TriggerPart
  | .deleteNodes _ => [.registrations, .schedules]
  | _ => []

/-- The parts a statement locks. -/
def TriggerStatement.locks : TriggerStatement Value → List TriggerPart
  | .version w => w.locks.map .version ++ w.cascades
  | .addRegistration target _ => [.version (.graph target.version), .registrations]
  | .pointRegistration _ target => [.version (.graph target.version), .registrations]
  | .revoke _ => [.registrations]
  | .addSchedule _ target _ => [.version (.graph target.version), .schedules]
  | .pointSchedule _ target _ => [.version (.graph target.version), .schedules]
  | .delete => [.version .workflow, .deleted]

variable {w : TriggerStatement Value} {d : TriggerChange Value} {db db' : TriggerDb Value}
  {r : TriggerPart}

theorem TriggerDb.hasNode_congr {target : NodeRef}
    (h : db.part (.version (.graph target.version)) = db'.part (.version (.graph target.version))) :
    db.hasNode target = db'.hasNode target := by
  have hgraph : db.tables.graphs target.version = db'.tables.graphs target.version := h
  unfold hasNode
  rw [hgraph]

/-- A statement acts on what it locks. -/
theorem TriggerStatement.exec_congr (h : ∀ r ∈ w.locks, db.part r = db'.part r) :
    w.exec db = w.exec db' := by
  cases w with
  | version w =>
      have hexec : w.exec db.tables = w.exec db'.tables :=
        Statement.exec_congr fun r hr =>
          h (.version r) (List.mem_append_left _ (List.mem_map_of_mem hr))
      simp only [exec, hexec]
  | addRegistration target digest =>
      have hnode := TriggerDb.hasNode_congr (h (.version (.graph target.version)) (by simp [locks]))
      have hrows : db.registrations = db'.registrations := h .registrations (by simp [locks])
      simp only [exec, hnode, hrows]
  | pointRegistration digest target =>
      have hnode := TriggerDb.hasNode_congr (h (.version (.graph target.version)) (by simp [locks]))
      have hrows : db.registrations = db'.registrations := h .registrations (by simp [locks])
      simp only [exec, hnode, hrows]
  | revoke digest => rfl
  | addSchedule id target nextRunAt =>
      have hnode := TriggerDb.hasNode_congr (h (.version (.graph target.version)) (by simp [locks]))
      have hrows : db.schedules = db'.schedules := h .schedules (by simp [locks])
      simp only [exec, hnode, hrows]
  | pointSchedule id target nextRunAt =>
      have hnode := TriggerDb.hasNode_congr (h (.version (.graph target.version)) (by simp [locks]))
      have hrows : db.schedules = db'.schedules := h .schedules (by simp [locks])
      simp only [exec, hnode, hrows]
  | delete => rfl

theorem Statement.drops_of_cascades {w : Statement Value} {t : Tables Value} {d : Change Value}
    (hexec : w.exec t = some d) (hnone : w.cascades = []) (target : NodeRef) :
    d.drops target = false := by
  cases w with
  | deleteNodes id => cases hnone
  | insertVersion id =>
      simp only [exec, Option.ite_none_right_eq_some, Option.some.injEq] at hexec
      obtain ⟨-, rfl⟩ := hexec
      rfl
  | bumpRevision id | publishVersion id versionNo =>
      obtain ⟨row, -, rfl⟩ := Option.map_eq_some_iff.mp hexec
      rfl
  | deleteEdges id | insertNodes id rows | insertEdges id rows | activate id =>
      obtain rfl := Option.some.inj hexec
      rfl

/-- A statement changes nothing but what it locks. -/
theorem TriggerStatement.frame (hexec : w.exec db = some d) (hr : r ∉ w.locks) :
    (d.apply db).part r = db.part r := by
  cases w with
  | version v =>
      obtain ⟨change, hversion, rfl⟩ := Option.map_eq_some_iff.mp hexec
      have hkept : ∀ part ∈ [TriggerPart.registrations, .schedules], r = part →
          ∀ target, change.drops target = false := by
        intro part hpart hrpart
        refine Statement.drops_of_cascades hversion ?_
        cases v with
        | deleteNodes id => exact absurd (List.mem_append_right _ (hrpart ▸ hpart)) hr
        | _ => rfl
      cases r with
      | version r =>
          exact Statement.frame hversion fun hc =>
            hr (List.mem_append_left _ (List.mem_map_of_mem hc))
      | deleted => rfl
      | registrations =>
          refine List.filter_eq_self.mpr fun row _ => ?_
          rw [hkept .registrations (by simp) rfl]
          rfl
      | schedules =>
          refine List.filter_eq_self.mpr fun row _ => ?_
          rw [hkept .schedules (by simp) rfl]
          rfl
  | addRegistration target digest =>
      obtain ⟨-, hd⟩ := Option.ite_none_right_eq_some.mp hexec
      obtain rfl := Option.some.inj hd
      cases r with
      | registrations => exact absurd (by simp [locks]) hr
      | _ => rfl
  | pointRegistration digest target =>
      obtain ⟨-, hd⟩ := Option.ite_none_right_eq_some.mp hexec
      obtain rfl := Option.some.inj hd
      cases r with
      | registrations => exact absurd (by simp [locks]) hr
      | _ => rfl
  | revoke digest =>
      obtain rfl := Option.some.inj hexec
      cases r with
      | registrations => exact absurd (by simp [locks]) hr
      | _ => rfl
  | addSchedule id target nextRunAt =>
      obtain ⟨-, hd⟩ := Option.ite_none_right_eq_some.mp hexec
      obtain rfl := Option.some.inj hd
      cases r with
      | schedules => exact absurd (by simp [locks]) hr
      | _ => rfl
  | pointSchedule id target nextRunAt =>
      obtain ⟨-, hd⟩ := Option.ite_none_right_eq_some.mp hexec
      obtain rfl := Option.some.inj hd
      cases r with
      | schedules => exact absurd (by simp [locks]) hr
      | _ => rfl
  | delete =>
      obtain rfl := Option.some.inj hexec
      cases r with
      | deleted => exact absurd (by simp [locks]) hr
      | _ => rfl

/-- A change makes the same of what is the same. -/
theorem TriggerChange.apply_congr (h : db.part r = db'.part r) :
    (d.apply db).part r = (d.apply db').part r := by
  cases r with
  | version r =>
      cases d with
      | version d => exact Change.apply_congr h
      | _ => exact h
  | deleted =>
      cases d with
      | delete => rfl
      | _ => exact h
  | registrations =>
      have hrows : db.registrations = db'.registrations := h
      cases d with
      | version d => exact congrArg _ hrows
      | addRegistration row => exact congrArg (· ++ _) hrows
      | pointRegistration digest target => exact congrArg _ hrows
      | revoke digest => exact congrArg _ hrows
      | _ => exact h
  | schedules =>
      have hrows : db.schedules = db'.schedules := h
      cases d with
      | version d => exact congrArg _ hrows
      | addSchedule row => exact congrArg (· ++ _) hrows
      | pointSchedule id target nextRunAt => exact congrArg _ hrows
      | _ => exact h

/-! ### What points at a node has its node -/

/-- The foreign keys of registrations and schedules hold. -/
structure TriggerDb.Anchored (db : TriggerDb Value) : Prop where
  registrations : ∀ r ∈ db.registrations, db.hasNode r.target = true
  schedules : ∀ s ∈ db.schedules, db.hasNode s.target = true

/-- A node that a change does not delete stays. -/
theorem TriggerDb.hasNode_apply {d : Change Value} {target : NodeRef}
    (h : db.hasNode target = true) (hkeep : d.drops target = false) :
    TriggerDb.hasNode { db with tables := d.apply db.tables } target = true := by
  obtain ⟨n, hn, hid⟩ := List.any_eq_true.mp h
  refine List.any_eq_true.mpr ⟨n, ?_, hid⟩
  have hgraph : ∀ (id : Nat) (f : GraphRows Value → GraphRows Value),
      (target.version = id → n ∈ (f (db.tables.graphs target.version)).nodes) →
        n ∈ ((db.tables.onGraph id f).graphs target.version).nodes := by
    intro id f hf
    rw [Tables.graphs_onGraph]
    by_cases hversion : target.version = id
    · subst hversion
      rw [Function.update_self]
      exact hf rfl
    · rw [Function.update_of_ne hversion]
      exact hn
  cases d with
  | putVersion id row | putActive id => exact hn
  | dropEdges id ids =>
      exact hgraph id (fun g => { g with edges := g.edges.filter fun e => e.id ∉ ids }) fun _ => hn
  | addEdges id rows => exact hgraph id (fun g => { g with edges := g.edges ++ rows }) fun _ => hn
  | addNodes id rows =>
      exact hgraph id (fun g => { g with nodes := g.nodes ++ rows }) fun _ =>
        List.mem_append_left _ hn
  | dropNodes id ids =>
      refine hgraph id (fun g => { g with nodes := g.nodes.filter fun n => n.id ∉ ids })
        fun hversion => List.mem_filter.mpr ⟨hn, ?_⟩
      have hnot : target.node ∉ ids := by simpa [Change.drops, hversion] using hkeep
      rw [of_decide_eq_true hid]
      exact decide_eq_true hnot

theorem TriggerDb.Anchored.exec (h : db.Anchored) {w : TriggerStatement Value}
    {d : TriggerChange Value} (hexec : w.exec db = some d) : (d.apply db).Anchored := by
  cases w with
  | version w =>
      obtain ⟨change, -, rfl⟩ := Option.map_eq_some_iff.mp hexec
      refine ⟨fun r hr => ?_, fun s hs => ?_⟩
      · obtain ⟨hmem, hkeep⟩ := List.mem_filter.mp hr
        exact TriggerDb.hasNode_apply (h.registrations r hmem) (by simpa using hkeep)
      · obtain ⟨hmem, hkeep⟩ := List.mem_filter.mp hs
        exact TriggerDb.hasNode_apply (h.schedules s hmem) (by simpa using hkeep)
  | addRegistration target digest =>
      obtain ⟨⟨hnode, -⟩, hd⟩ := Option.ite_none_right_eq_some.mp hexec
      obtain rfl := Option.some.inj hd
      refine ⟨fun r hr => ?_, h.schedules⟩
      rcases List.mem_append.mp hr with hold | hnew
      · exact h.registrations r hold
      · rw [List.mem_singleton.mp hnew]
        exact hnode
  | pointRegistration digest target =>
      obtain ⟨⟨hnode, -⟩, hd⟩ := Option.ite_none_right_eq_some.mp hexec
      obtain rfl := Option.some.inj hd
      refine ⟨fun r hr => ?_, h.schedules⟩
      obtain ⟨old, hold, rfl⟩ := List.mem_map.mp hr
      split
      · exact hnode
      · exact h.registrations old hold
  | revoke digest =>
      obtain rfl := Option.some.inj hexec
      refine ⟨fun r hr => ?_, h.schedules⟩
      obtain ⟨old, hold, rfl⟩ := List.mem_map.mp hr
      split
      · exact h.registrations old hold
      · exact h.registrations old hold
  | addSchedule id target nextRunAt =>
      obtain ⟨⟨hnode, -⟩, hd⟩ := Option.ite_none_right_eq_some.mp hexec
      obtain rfl := Option.some.inj hd
      refine ⟨h.registrations, fun s hs => ?_⟩
      rcases List.mem_append.mp hs with hold | hnew
      · exact h.schedules s hold
      · rw [List.mem_singleton.mp hnew]
        exact hnode
  | pointSchedule id target nextRunAt =>
      obtain ⟨⟨hnode, -⟩, hd⟩ := Option.ite_none_right_eq_some.mp hexec
      obtain rfl := Option.some.inj hd
      refine ⟨h.registrations, fun s hs => ?_⟩
      obtain ⟨old, hold, rfl⟩ := List.mem_map.mp hs
      split
      · exact hnode
      · exact h.schedules old hold
  | delete =>
      obtain rfl := Option.some.inj hexec
      exact ⟨h.registrations, h.schedules⟩

end Orqent
