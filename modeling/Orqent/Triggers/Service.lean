/-
Publishing with its triggers, and what else happens to them.

A publish decides in its snapshot which node is the webhook trigger and which the
schedule trigger of the draft, and whether the workflow has a registration and a schedule
already; then it points what there is at the new nodes, or adds what there is not.  The
raw token and the id of a new schedule come with the call, and so does the clock.

Nothing in the source revokes a registration yet; `revoke` is the write of its status,
which publishing is meant to be safe for.
-/
import Orqent.Triggers.Tables

namespace Orqent

open LockStore

variable {Value : Type}

/-- What publishing is given. -/
structure TriggerPorts (Value : Type) where
  registry : NodeRegistry Value
  hashToken : (token : String) → String
  /-- A JSON value that is a string. -/
  asText : Value → Option String
  isValidCron : (cron : String) → Bool
  /-- `croniter(cron, base).get_next`, which raises where there is no such time. -/
  getNext : (cron : String) → (base : Nat) → Option Nat

/-- The type of a webhook. -/
def webhookTrigger : String := "trigger.webhook"

/-- The type of a schedule. -/
def scheduleTrigger : String := "trigger.schedule"

/-- How long a cron expression may be. -/
def maxCronLength : Nat := 128

/-- The expression where none is given. -/
def defaultCron : String := "0 0 * * *"

/-- The `cron` of a `ScheduleTriggerConfig`, which forbids other fields. -/
def scheduleCron (P : TriggerPorts Value) (config : Dict String Value) : Option String :=
  if config.all fun e => e.1 = "cron" then
    match config.get? "cron" with
    | none => some defaultCron
    | some value =>
        (P.asText value).filter fun cron => cron.length ≤ maxCronLength && P.isValidCron cron
  else none

/-- The first node of this type. -/
def triggerNode (nodeType : String) (rows : GraphRows Value) : Option (NodeRow Value) :=
  (listNodes rows).find? fun n => n.node.nodeType = nodeType

/-- A schedule that `claim_due` may return, and the expression of its node. -/
structure DueSchedule where
  schedule : Schedule
  cron : String
deriving DecidableEq, Repr

/-- The expression of the node a schedule points at. -/
def TriggerDb.cronAt (P : TriggerPorts Value) (db : TriggerDb Value) (target : NodeRef) :
    Option String :=
  (joined (db.tables.graphs target.version).nodes target.node).bind fun n =>
    scheduleCron P n.node.config

/-- Whether a schedule is due, and its node live. -/
def TriggerDb.isDue (db : TriggerDb Value) (now : Nat) (s : Schedule) : Bool :=
  s.nextRunAt ≤ now && db.isLive s.target

/-- `claim_due`, where no row is locked; `none` also where the expression is not valid. -/
def claimDue (P : TriggerPorts Value) (now : Nat) (db : TriggerDb Value) : Option DueSchedule := do
  let schedule ← db.schedules.find? (db.isDue now)
  let cron ← db.cronAt P schedule.target
  some ⟨schedule, cron⟩

/-- The calls of the service that touch triggers. -/
inductive TriggerCall (Value : Type)
  | getDraft (ids : NewIds)
  | replaceDraft (ids : NewIds) (revision : Nat) (graph : WorkflowGraph Value)
  | publish (token : String) (scheduleId now : Nat)
  | softDelete
  | revoke (digest : String)

/-- The workflow is deleted. -/
def TriggerCall.isDelete : TriggerCall Value → Bool
  | .softDelete => true
  | _ => false

/-- `_register_webhook_trigger`: the statements, and the digest of the token it returns. -/
def registerWebhook (P : TriggerPorts Value) (token : String) (version : Nat)
    (db : TriggerDb Value) : List (TriggerStatement Value) × Option String :=
  match triggerNode webhookTrigger (db.tables.graphs version) with
  | none => ([], none)
  | some hook =>
      match db.registration with
      | some existing => ([.pointRegistration existing.tokenDigest ⟨version, hook.id⟩], none)
      | none =>
          ([.addRegistration ⟨version, hook.id⟩ (P.hashToken token)], some (P.hashToken token))

/-- `_register_schedule_trigger`. -/
def registerSchedule (P : TriggerPorts Value) (scheduleId now version : Nat)
    (db : TriggerDb Value) : Option (List (TriggerStatement Value)) :=
  match triggerNode scheduleTrigger (db.tables.graphs version) with
  | none => some []
  | some trigger => do
      let cron ← scheduleCron P trigger.node.config
      let due ← P.getNext cron now
      match db.schedule with
      | some existing => some [.pointSchedule existing.id ⟨version, trigger.id⟩ due]
      | none => some [.addSchedule scheduleId ⟨version, trigger.id⟩ due]

section Calls

variable [DecidableEq Value]

/-- The statements a call issues, given the rows it reads; `none` if it is refused. -/
def TriggerCall.body (P : TriggerPorts Value) : TriggerCall Value → TriggerDb Value →
    Option (List (TriggerStatement Value))
  | .getDraft ids, db =>
      if db.deleted then none
      else (Call.body P.registry (.getDraft ids) db.tables).map (·.map .version)
  | .replaceDraft ids revision graph, db =>
      if db.deleted then none
      else (Call.body P.registry (.replaceDraft ids revision graph) db.tables).map (·.map .version)
  | .publish token scheduleId now, db =>
      if db.deleted then none
      else do
        let statements ← Call.body P.registry .publish db.tables
        let (version, _) ← db.tables.getDraft
        let webhook := (registerWebhook P token version db).1
        let schedule ← registerSchedule P scheduleId now version db
        some (statements.map .version ++ (webhook ++ schedule))
  | .softDelete, db => if db.deleted then none else some [.delete]
  | .revoke digest, _ => some [.revoke digest]

/-- The rows of a workflow and its triggers as a store with locks. -/
def triggerStore (P : TriggerPorts Value) :
    LockStore (TriggerDb Value) (TriggerCall Value) (TriggerStatement Value) (TriggerChange Value)
      TriggerPart (TriggerPart.Contents Value) where
  body := TriggerCall.body P
  exec := TriggerStatement.exec
  apply := TriggerChange.apply
  locks := TriggerStatement.locks
  part r db := db.part r
  exec_congr := TriggerStatement.exec_congr
  frame := TriggerStatement.frame
  apply_congr := TriggerChange.apply_congr

/-- Any number of calls on one workflow with triggers. -/
abbrev Triggering (Value ι : Type) :=
  Pool (TriggerDb Value) (TriggerCall Value) (TriggerStatement Value) (TriggerChange Value)
    TriggerPart ι

/-- What happens to the transactions. -/
abbrev TriggerEvent (Value ι : Type) := Event (TriggerCall Value) ι

/-- A transaction under way. -/
abbrev TriggerTxn (Value : Type) :=
  Txn (TriggerDb Value) (TriggerCall Value) (TriggerStatement Value) (TriggerChange Value)

variable {P : TriggerPorts Value} {db db' : TriggerDb Value}

omit [DecidableEq Value] in
/-- Of what there is one at most, any two are the same. -/
theorem eq_of_single {α : Type} {rows : List α} (h : rows.length ≤ 1) {a b : α} (ha : a ∈ rows)
    (hb : b ∈ rows) : a = b := by
  obtain ⟨row, rfl⟩ := List.length_eq_one_iff.mp (Nat.le_antisymm h (List.length_pos_of_mem ha))
  rw [List.mem_singleton.mp ha, List.mem_singleton.mp hb]

/-! ### What the statements of a call do -/

/-- Statements that cascade into nothing act on the version tables alone. -/
theorem perform_versions {ws : List (Statement Value)} (h : ∀ w ∈ ws, w.cascades = []) :
    (triggerStore P).perform (ws.map .version) db = some db' ↔
      ∃ t, (versionStore P.registry).perform ws db.tables = some t ∧
        db' = { db with tables := t } := by
  induction ws generalizing db with
  | nil =>
      constructor
      · intro heq
        exact ⟨db.tables, rfl, (Option.some.inj heq).symm⟩
      · rintro ⟨t, ht, rfl⟩
        obtain rfl := Option.some.inj ht
        rfl
  | cons w ws ih =>
      have hstep : ∀ d, w.exec db.tables = some d →
          TriggerChange.apply (.version d) db = { db with tables := d.apply db.tables } := by
        intro d hd
        have hkeep := Statement.drops_of_cascades hd (h w List.mem_cons_self)
        simp [TriggerChange.apply, hkeep]
      have hrest := fun d => @ih { db with tables := Change.apply d db.tables }
        fun v hv => h v (List.mem_cons_of_mem _ hv)
      rw [List.map_cons, perform_cons]
      constructor
      · rintro ⟨change, hexec, hperform⟩
        obtain ⟨d, hd, rfl⟩ := Option.map_eq_some_iff.mp hexec
        change (triggerStore P).perform _ (TriggerChange.apply (.version d) db) = _ at hperform
        rw [hstep d hd] at hperform
        obtain ⟨t, ht, rfl⟩ := (hrest d).mp hperform
        exact ⟨t, perform_cons.mpr ⟨d, hd, ht⟩, rfl⟩
      · rintro ⟨t, ht, rfl⟩
        obtain ⟨d, hd, hperform⟩ := perform_cons.mp ht
        refine ⟨.version d, Option.map_eq_some_iff.mpr ⟨d, hd, rfl⟩, ?_⟩
        change (triggerStore P).perform _ (TriggerChange.apply (.version d) db) = _
        rw [hstep d hd]
        exact (hrest d).mpr ⟨t, hperform, rfl⟩

/-- Whatever they cascade into, statements do to the version tables what they do there. -/
theorem perform_tables {ws : List (Statement Value)}
    (h : (triggerStore P).perform (ws.map .version) db = some db') :
    (versionStore P.registry).perform ws db.tables = some db'.tables := by
  induction ws generalizing db with
  | nil =>
      obtain rfl := Option.some.inj h
      rfl
  | cons w ws ih =>
      obtain ⟨change, hexec, hrest⟩ := perform_cons.mp h
      obtain ⟨d, hd, rfl⟩ := Option.map_eq_some_iff.mp hexec
      exact perform_cons.mpr ⟨d, hd, ih hrest⟩

/-- The statement writes to one version and its graph, and to nothing that points elsewhere. -/
def Statement.About (id : Nat) : Statement Value → Prop
  | .insertVersion v | .deleteEdges v | .deleteNodes v | .bumpRevision v => v = id
  | .insertNodes v _ | .insertEdges v _ => v = id
  | .publishVersion .. | .activate _ => False

/-- What editing one version leaves as it was. -/
structure Drafted (id : Nat) (db db' : TriggerDb Value) : Prop where
  version : ∀ u, u ≠ id → db'.tables.version u = db.tables.version u
  graphs : ∀ u, u ≠ id → db'.tables.graphs u = db.tables.graphs u
  active : db'.tables.activeVersionId = db.tables.activeVersionId
  deleted : db'.deleted = db.deleted
  registrations : (db'.registrations.filter fun r => r.target.version ≠ id) =
    db.registrations.filter fun r => r.target.version ≠ id
  schedules : (db'.schedules.filter fun s => s.target.version ≠ id) =
    db.schedules.filter fun s => s.target.version ≠ id
  keptRegistrations : db'.registrations.Sublist db.registrations
  keptSchedules : db'.schedules.Sublist db.schedules

omit [DecidableEq Value] in
theorem Drafted.refl (id : Nat) (db : TriggerDb Value) : Drafted id db db :=
  ⟨fun _ _ => rfl, fun _ _ => rfl, rfl, rfl, rfl, rfl, List.Sublist.refl _, List.Sublist.refl _⟩

omit [DecidableEq Value] in
theorem Drafted.trans {id : Nat} {mid : TriggerDb Value} (h : Drafted id db mid)
    (h' : Drafted id mid db') : Drafted id db db' where
  version := fun u hu => (h'.version u hu).trans (h.version u hu)
  graphs := fun u hu => (h'.graphs u hu).trans (h.graphs u hu)
  active := h'.active.trans h.active
  deleted := h'.deleted.trans h.deleted
  registrations := h'.registrations.trans h.registrations
  schedules := h'.schedules.trans h.schedules
  keptRegistrations := h'.keptRegistrations.trans h.keptRegistrations
  keptSchedules := h'.keptSchedules.trans h.keptSchedules

omit [DecidableEq Value] in
theorem exec_about {id : Nat} {w : Statement Value} {d : Change Value} (habout : w.About id)
    (hexec : w.exec db.tables = some d) :
    Drafted id db (TriggerChange.apply (.version d) db) := by
  have hputs : ∀ row, Drafted id db (TriggerChange.apply (.version (.putVersion id row)) db) := by
    intro row
    refine ⟨fun u hu => ?_, fun _ _ => rfl, rfl, rfl, ?_, ?_, List.filter_sublist,
      List.filter_sublist⟩
    · exact (Tables.version_putVersion _ _ _ _).trans (if_neg (Ne.symm hu))
    · simp [TriggerChange.apply, Change.drops]
    · simp [TriggerChange.apply, Change.drops]
  have hgraph : ∀ (d : Change Value) (f : GraphRows Value → GraphRows Value),
      (∀ t : Tables Value, d.apply t = t.onGraph id f) →
      (∀ target : NodeRef, target.version ≠ id → d.drops target = false) →
        Drafted id db (TriggerChange.apply (.version d) db) := by
    intro d f hd hkeep
    have happly : (TriggerChange.apply (.version d) db).tables = db.tables.onGraph id f := hd _
    refine ⟨fun u _ => ?_, fun u hu => ?_, ?_, rfl, ?_, ?_, List.filter_sublist,
      List.filter_sublist⟩
    · rw [happly]
      rfl
    · rw [happly, Tables.graphs_onGraph, Function.update_of_ne hu]
    · rw [happly]
      rfl
    · show (db.registrations.filter _).filter _ = _
      rw [List.filter_filter]
      refine List.filter_congr fun r _ => ?_
      by_cases hr : r.target.version = id
      · simp [hr]
      · simp [hr, hkeep r.target hr]
    · show (db.schedules.filter _).filter _ = _
      rw [List.filter_filter]
      refine List.filter_congr fun s _ => ?_
      by_cases hs : s.target.version = id
      · simp [hs]
      · simp [hs, hkeep s.target hs]
  cases w with
  | insertVersion v =>
      obtain rfl : v = id := habout
      obtain ⟨-, hd⟩ := Option.ite_none_right_eq_some.mp hexec
      obtain rfl := Option.some.inj hd
      exact hputs _
  | bumpRevision v =>
      obtain rfl : v = id := habout
      obtain ⟨row, -, rfl⟩ := Option.map_eq_some_iff.mp hexec
      exact hputs _
  | deleteEdges v =>
      obtain rfl : v = id := habout
      obtain rfl := Option.some.inj hexec
      exact hgraph (.dropEdges v ((db.tables.graphs v).edges.map EdgeRow.id))
        (fun g => { g with
          edges := g.edges.filter fun e => e.id ∉ (db.tables.graphs v).edges.map EdgeRow.id })
        (fun _ => rfl) fun _ _ => rfl
  | deleteNodes v =>
      obtain rfl : v = id := habout
      obtain rfl := Option.some.inj hexec
      refine hgraph (.dropNodes v ((db.tables.graphs v).nodes.map NodeRow.id))
        (fun g => { g with
          nodes := g.nodes.filter fun n => n.id ∉ (db.tables.graphs v).nodes.map NodeRow.id })
        (fun _ => rfl) fun target hne => ?_
      simp [Change.drops, hne]
  | insertNodes v rows =>
      obtain rfl : v = id := habout
      obtain rfl := Option.some.inj hexec
      exact hgraph _ (fun g => { g with nodes := g.nodes ++ rows }) (fun _ => rfl) fun _ _ => rfl
  | insertEdges v rows =>
      obtain rfl : v = id := habout
      obtain rfl := Option.some.inj hexec
      exact hgraph _ (fun g => { g with edges := g.edges ++ rows }) (fun _ => rfl) fun _ _ => rfl
  | publishVersion v versionNo | activate v => exact habout.elim

/-- Statements about one version leave the others and what points at them as they were. -/
theorem perform_about {id : Nat} {ws : List (Statement Value)} (habout : ∀ w ∈ ws, w.About id)
    (hperform : (triggerStore P).perform (ws.map .version) db = some db') :
    Drafted id db db' := by
  induction ws generalizing db with
  | nil =>
      obtain rfl := Option.some.inj hperform
      exact Drafted.refl id db
  | cons w ws ih =>
      rw [List.map_cons, perform_cons] at hperform
      obtain ⟨change, hexec, hrest⟩ := hperform
      obtain ⟨d, hd, rfl⟩ := Option.map_eq_some_iff.mp hexec
      exact (exec_about (habout w List.mem_cons_self) hd).trans
        (ih (fun v hv => habout v (List.mem_cons_of_mem _ hv)) hrest)

omit [DecidableEq Value] in
theorem replaceGraph_about {id : Nat} {ids : NewIds} {g : WorkflowGraph Value} :
    ∀ w ∈ replaceGraph id ids g, w.About id := by
  intro w hw
  simp only [replaceGraph, List.mem_cons, List.not_mem_nil, or_false] at hw
  rcases hw with rfl | rfl | rfl | rfl <;> rfl

theorem ensureDraft_about {ids : NewIds} {t : Tables Value} {draft : EnsuredDraft Value}
    (h : ensureDraft ids t = some draft) : ∀ w ∈ draft.statements, w.About draft.id := by
  unfold ensureDraft at h
  split at h
  · obtain rfl := Option.some.inj h
    intro w hw
    cases hw
  · split at h
    · obtain rfl := Option.some.inj h
      intro w hw
      rw [List.mem_singleton.mp hw]
      exact rfl
    · obtain ⟨copy, -, rfl⟩ := Option.map_eq_some_iff.mp h
      intro w hw
      rcases List.mem_cons.mp hw with rfl | hcopy
      · exact rfl
      · exact replaceGraph_about w hcopy

/-- Replacing a graph deletes what points into it. -/
theorem perform_replaceGraph_clears {id : Nat} {ids : NewIds} {g : WorkflowGraph Value}
    {rest : List (Statement Value)} (hanchored : db.Anchored)
    (hrest : ∀ w ∈ rest, w.cascades = [])
    (hperform : (triggerStore P).perform ((replaceGraph id ids g ++ rest).map .version) db
      = some db') :
    (∀ r ∈ db'.registrations, r.target.version ≠ id) ∧
      ∀ s ∈ db'.schedules, s.target.version ≠ id := by
  have hsplit : replaceGraph id ids g ++ rest = [.deleteEdges id, .deleteNodes id] ++
      ([.insertNodes id (graphRows ids.node ids.edge g).nodes,
        .insertEdges id (graphRows ids.node ids.edge g).edges] ++ rest) := rfl
  rw [hsplit, List.map_append, perform_append] at hperform
  obtain ⟨mid, hdelete, hinsert⟩ := hperform
  have hmid : mid.Anchored :=
    perform_keeps (fun _ _ _ h hexec => h.exec hexec) hanchored hdelete
  have hempty : (mid.tables.graphs id).nodes = [] := by
    obtain rfl := Option.some.inj hdelete
    simp only [triggerStore, TriggerChange.apply, Change.apply, Tables.graphs_onGraph,
      Function.update_self, List.filter_eq_nil_iff]
    intro n hn
    simpa using ⟨n, hn, rfl⟩
  have hnone : ∀ target : NodeRef, mid.hasNode target = true → target.version ≠ id := by
    intro target hnode hversion
    rw [TriggerDb.hasNode, hversion, hempty] at hnode
    cases hnode
  have hkept := (perform_versions (fun w hw => ?_)).mp hinsert
  · obtain ⟨t, -, rfl⟩ := hkept
    exact ⟨fun r hr => hnone _ (hmid.registrations r hr), fun s hs => hnone _ (hmid.schedules s hs)⟩
  · rcases List.mem_append.mp hw with hnew | hlast
    · simp only [List.mem_cons, List.not_mem_nil, or_false] at hnew
      rcases hnew with rfl | rfl <;> rfl
    · exact hrest w hlast

/-! ### What a call does -/

section Effects

variable {snap : TriggerDb Value} {ws : List (TriggerStatement Value)} {ids : NewIds}

omit [DecidableEq Value] in
/-- What points at no version that was edited is what it was. -/
theorem Drafted.registrations_eq {id : Nat} (h : Drafted id db db')
    (hnone : ∀ r ∈ db.registrations, r.target.version ≠ id) :
    db'.registrations = db.registrations := by
  have hnone' : ∀ r ∈ db'.registrations, r.target.version ≠ id := fun r hr =>
    hnone r (h.keptRegistrations.subset hr)
  have heq := h.registrations
  rwa [List.filter_eq_self.mpr fun r hr => decide_eq_true (hnone' r hr),
    List.filter_eq_self.mpr fun r hr => decide_eq_true (hnone r hr)] at heq

omit [DecidableEq Value] in
theorem Drafted.schedules_eq {id : Nat} (h : Drafted id db db')
    (hnone : ∀ s ∈ db.schedules, s.target.version ≠ id) : db'.schedules = db.schedules := by
  have hnone' : ∀ s ∈ db'.schedules, s.target.version ≠ id := fun s hs =>
    hnone s (h.keptSchedules.subset hs)
  have heq := h.schedules
  rwa [List.filter_eq_self.mpr fun s hs => decide_eq_true (hnone' s hs),
    List.filter_eq_self.mpr fun s hs => decide_eq_true (hnone s hs)] at heq

/-- A draft that a call has to make was not there before. -/
theorem ensureDraft_fresh {t : Tables Value} {draft : EnsuredDraft Value}
    (h : ensureDraft ids t = some draft)
    (hperform : (triggerStore P).perform (draft.statements.map .version) db = some db') :
    draft.statements = [] ∨ db.tables.version draft.id = none := by
  have hinsert : ∀ {id : Nat} {rest : List (Statement Value)},
      (triggerStore P).perform ((Statement.insertVersion id :: rest).map .version) db = some db' →
        db.tables.version id = none := by
    intro id rest hp
    obtain ⟨change, hexec, -⟩ := perform_cons.mp hp
    obtain ⟨d, hd, -⟩ := Option.map_eq_some_iff.mp hexec
    exact (Option.ite_none_right_eq_some.mp hd).1.2
  unfold ensureDraft at h
  split at h
  · obtain rfl := Option.some.inj h
    exact Or.inl rfl
  · split at h
    · obtain rfl := Option.some.inj h
      exact Or.inr (hinsert hperform)
    · obtain ⟨copy, -, rfl⟩ := Option.map_eq_some_iff.mp h
      exact Or.inr (hinsert hperform)

/-- `get_draft` changes nothing, or makes a version. -/
theorem getDraft_effect (hbody : (TriggerCall.getDraft ids).body P snap = some ws)
    (hperform : (triggerStore P).perform ws db = some db') :
    db' = db ∨ ∃ id, db.tables.version id = none ∧ Drafted id db db' := by
  obtain ⟨-, hws⟩ := Option.ite_none_left_eq_some.mp hbody
  obtain ⟨statements, hcall, rfl⟩ := Option.map_eq_some_iff.mp hws
  obtain ⟨draft, hdraft, rfl⟩ := Option.map_eq_some_iff.mp hcall
  rcases ensureDraft_fresh hdraft hperform with hnone | hfresh
  · rw [hnone] at hperform
    exact Or.inl (Option.some.inj hperform).symm
  · exact Or.inr ⟨draft.id, hfresh, perform_about (ensureDraft_about hdraft) hperform⟩

/-- `replace_draft` edits the draft it read or made, and deletes what points at its nodes. -/
theorem replaceDraft_effect {revision : Nat} {graph : WorkflowGraph Value}
    (hanchored : db.Anchored)
    (hbody : (TriggerCall.replaceDraft ids revision graph).body P snap = some ws)
    (hperform : (triggerStore P).perform ws db = some db') :
    ∃ draft, ensureDraft ids snap.tables = some draft ∧
      (draft.statements = [] ∨ db.tables.version draft.id = none) ∧ Drafted draft.id db db' ∧
      (∀ r ∈ db'.registrations, r.target.version ≠ draft.id) ∧
        ∀ s ∈ db'.schedules, s.target.version ≠ draft.id := by
  obtain ⟨-, hws⟩ := Option.ite_none_left_eq_some.mp hbody
  obtain ⟨statements, hcall, rfl⟩ := Option.map_eq_some_iff.mp hws
  obtain ⟨draft, hdraft, hchecked⟩ := Option.bind_eq_some_iff.mp hcall
  obtain ⟨-, hstatements⟩ := Option.ite_none_left_eq_some.mp hchecked
  obtain rfl := Option.some.inj hstatements
  have habout : Drafted draft.id db db' := by
    refine perform_about (fun w hw => ?_) hperform
    rcases List.mem_append.mp hw with hfirst | hbump
    · rcases List.mem_append.mp hfirst with hensure | hreplace
      · exact ensureDraft_about hdraft w hensure
      · exact replaceGraph_about w hreplace
    · rw [List.mem_singleton.mp hbump]
      exact rfl
  rw [List.append_assoc, List.map_append, perform_append] at hperform
  obtain ⟨mid, hensure, hreplace⟩ := hperform
  refine ⟨draft, hdraft, ensureDraft_fresh hdraft hensure, habout, ?_⟩
  have hmid : mid.Anchored :=
    perform_keeps (fun _ _ _ h hexec => h.exec hexec) hanchored hensure
  refine perform_replaceGraph_clears hmid (fun w hw => ?_) hreplace
  rw [List.mem_singleton.mp hw]
  rfl

/-- What publishing does to the versions. -/
structure Promoted (version : Nat) (db db' : TriggerDb Value) : Prop where
  published : db'.tables.isPublished version = true
  versions : ∀ u, u ≠ version → db'.tables.version u = db.tables.version u
  graphs : db'.tables.graphs = db.tables.graphs
  active : db'.tables.activeVersionId = some version
  deleted : db'.deleted = db.deleted

/-- What publishing does to the registrations. -/
inductive WebhookEffect (P : TriggerPorts Value) (token : String) (version : Nat)
    (snap db db' : TriggerDb Value) : Prop
  | absent (hnone : triggerNode webhookTrigger (snap.tables.graphs version) = none)
      (hsame : db'.registrations = db.registrations)
  | pointed (hook : NodeRow Value) (existing : TriggerRegistration)
      (hhook : triggerNode webhookTrigger (snap.tables.graphs version) = some hook)
      (hexisting : snap.registration = some existing)
      (hmem : existing.tokenDigest ∈ db.registrations.map TriggerRegistration.tokenDigest)
      (hrows : db'.registrations = db.registrations.map fun r =>
        if r.tokenDigest = existing.tokenDigest then { r with target := ⟨version, hook.id⟩ }
        else r)
  | minted (hook : NodeRow Value)
      (hhook : triggerNode webhookTrigger (snap.tables.graphs version) = some hook)
      (hnone : snap.registration = none)
      (hnew : P.hashToken token ∉ db.registrations.map TriggerRegistration.tokenDigest)
      (hrows : db'.registrations =
        db.registrations ++ [{ target := ⟨version, hook.id⟩, tokenDigest := P.hashToken token }])

/-- What publishing does to the schedules. -/
inductive ScheduleEffect (P : TriggerPorts Value) (scheduleId now version : Nat)
    (snap db db' : TriggerDb Value) : Prop
  | absent (hnone : triggerNode scheduleTrigger (snap.tables.graphs version) = none)
      (hsame : db'.schedules = db.schedules)
  | pointed (trigger : NodeRow Value) (cron : String) (due : Nat) (existing : Schedule)
      (htrigger : triggerNode scheduleTrigger (snap.tables.graphs version) = some trigger)
      (hcron : scheduleCron P trigger.node.config = some cron)
      (hdue : P.getNext cron now = some due) (hexisting : snap.schedule = some existing)
      (hmem : existing.id ∈ db.schedules.map Schedule.id)
      (hrows : db'.schedules = db.schedules.map fun s =>
        if s.id = existing.id then { s with target := ⟨version, trigger.id⟩, nextRunAt := due }
        else s)
  | added (trigger : NodeRow Value) (cron : String) (due : Nat)
      (htrigger : triggerNode scheduleTrigger (snap.tables.graphs version) = some trigger)
      (hcron : scheduleCron P trigger.node.config = some cron)
      (hdue : P.getNext cron now = some due) (hnone : snap.schedule = none)
      (hnew : scheduleId ∉ db.schedules.map Schedule.id)
      (hrows : db'.schedules = db.schedules ++ [⟨scheduleId, ⟨version, trigger.id⟩, due⟩])

/-- What a publish does. -/
structure PublishEffect (P : TriggerPorts Value) (token : String) (scheduleId now version : Nat)
    (snap db db' : TriggerDb Value) : Prop where
  draft : ∃ row, snap.tables.getDraft = some (version, row)
  live : snap.deleted = false
  promoted : Promoted version db db'
  webhook : WebhookEffect P token version snap db db'
  schedule : ScheduleEffect P scheduleId now version snap db db'

theorem perform_singleton {w : TriggerStatement Value} :
    (triggerStore P).perform [w] db = some db' ↔ ∃ d, w.exec db = some d ∧ d.apply db = db' := by
  rw [perform_cons]
  refine exists_congr fun d => and_congr_right fun _ => ?_
  exact Option.some_inj

/-- The webhook statements write registrations only. -/
theorem webhook_effect {token : String} {version : Nat}
    (hperform : (triggerStore P).perform (registerWebhook P token version snap).1 db = some db') :
    WebhookEffect P token version snap db db' ∧ db' = { db with registrations := db'.registrations }
    := by
  unfold registerWebhook at hperform
  split at hperform
  · rename_i hnone
    obtain rfl := Option.some.inj hperform
    exact ⟨.absent hnone rfl, rfl⟩
  · rename_i hook hhook
    split at hperform
    · rename_i existing hexisting
      obtain ⟨d, hexec, rfl⟩ := perform_singleton.mp hperform
      obtain ⟨⟨-, hmem⟩, hd⟩ := Option.ite_none_right_eq_some.mp hexec
      obtain rfl := Option.some.inj hd
      exact ⟨.pointed hook existing hhook hexisting hmem rfl, rfl⟩
    · rename_i hnone
      obtain ⟨d, hexec, rfl⟩ := perform_singleton.mp hperform
      obtain ⟨⟨-, hnew⟩, hd⟩ := Option.ite_none_right_eq_some.mp hexec
      obtain rfl := Option.some.inj hd
      exact ⟨.minted hook hhook hnone hnew rfl, rfl⟩

/-- The schedule statements write schedules only. -/
theorem schedule_effect {scheduleId now version : Nat}
    (hplan : registerSchedule P scheduleId now version snap = some ws)
    (hperform : (triggerStore P).perform ws db = some db') :
    ScheduleEffect P scheduleId now version snap db db' ∧
      db' = { db with schedules := db'.schedules } := by
  unfold registerSchedule at hplan
  split at hplan
  · rename_i hnone
    obtain rfl := Option.some.inj hplan
    obtain rfl := Option.some.inj hperform
    exact ⟨.absent hnone rfl, rfl⟩
  · rename_i trigger htrigger
    obtain ⟨cron, hcron, hplan⟩ := Option.bind_eq_some_iff.mp hplan
    obtain ⟨due, hdue, hplan⟩ := Option.bind_eq_some_iff.mp hplan
    split at hplan
    · rename_i existing hexisting
      obtain rfl := Option.some.inj hplan
      obtain ⟨d, hexec, rfl⟩ := perform_singleton.mp hperform
      obtain ⟨⟨-, hmem, -⟩, hd⟩ := Option.ite_none_right_eq_some.mp hexec
      obtain rfl := Option.some.inj hd
      exact ⟨.pointed trigger cron due existing htrigger hcron hdue hexisting hmem rfl, rfl⟩
    · rename_i hnone
      obtain rfl := Option.some.inj hplan
      obtain ⟨d, hexec, rfl⟩ := perform_singleton.mp hperform
      obtain ⟨⟨-, -, hnew⟩, hd⟩ := Option.ite_none_right_eq_some.mp hexec
      obtain rfl := Option.some.inj hd
      exact ⟨.added trigger cron due htrigger hcron hdue hnone hnew rfl, rfl⟩

theorem publish_effect {token : String} {scheduleId now : Nat}
    (hbody : (TriggerCall.publish token scheduleId now).body P snap = some ws)
    (hperform : (triggerStore P).perform ws db = some db') :
    ∃ version, PublishEffect P token scheduleId now version snap db db' := by
  obtain ⟨hlive, hws⟩ := Option.ite_none_left_eq_some.mp hbody
  obtain ⟨statements, hcall, hws⟩ := Option.bind_eq_some_iff.mp hws
  obtain ⟨⟨version, draft⟩, hdraft, hws⟩ := Option.bind_eq_some_iff.mp hws
  obtain ⟨schedule, hschedule, hws⟩ := Option.bind_eq_some_iff.mp hws
  obtain rfl := Option.some.inj hws
  have hstatements : statements =
      [.publishVersion version (nextVersionNo snap.tables), .activate version] := by
    obtain ⟨⟨id, row⟩, hdraft', hcall⟩ := Option.bind_eq_some_iff.mp hcall
    obtain ⟨rfl, rfl⟩ := Prod.mk.inj (Option.some.inj (hdraft.symm.trans hdraft'))
    obtain ⟨graph, -, hcall⟩ := Option.bind_eq_some_iff.mp hcall
    exact (Option.some.inj (Option.ite_none_right_eq_some.mp hcall).2).symm
  rw [perform_append] at hperform
  obtain ⟨mid, hversions, hrest⟩ := hperform
  rw [perform_append] at hrest
  obtain ⟨last, hwebhook, hschedules⟩ := hrest
  obtain ⟨t, htables, rfl⟩ := (perform_versions (fun w hw => by
    rw [hstatements, List.mem_cons, List.mem_singleton] at hw
    rcases hw with rfl | rfl <;> rfl)).mp hversions
  rw [hstatements] at htables
  obtain ⟨row, hrow, rfl⟩ := perform_publish.mp htables
  obtain ⟨hweb, hlast⟩ := webhook_effect hwebhook
  obtain ⟨hsched, hdb'⟩ := schedule_effect hschedule hschedules
  have htables' : db'.tables = (db.tables.putVersion version { row with
      status := .published, versionNo := some (nextVersionNo snap.tables) }).putActive version := by
    rw [hdb', hlast]
  have hregistrations : db'.registrations = last.registrations := by
    rw [hdb']
  have hbefore : last.schedules = db.schedules := by
    rw [hlast]
  refine ⟨version, ⟨draft, hdraft⟩, Bool.eq_false_iff.mpr hlive, ?_, ?_, ?_⟩
  · refine ⟨?_, fun u hu => ?_, ?_, ?_, ?_⟩
    · rw [htables', Tables.isPublished, Tables.version_putActive, Tables.version_putVersion,
        if_pos rfl]
      rfl
    · rw [htables', Tables.version_putActive, Tables.version_putVersion, if_neg (Ne.symm hu)]
    · rw [htables']
      rfl
    · rw [htables']
      rfl
    · rw [hdb', hlast]
  · cases hweb with
    | absent hnone hsame => exact .absent hnone (hregistrations.trans hsame)
    | pointed hook existing hhook hexisting hmem hrows =>
        exact .pointed hook existing hhook hexisting hmem (hregistrations.trans hrows)
    | minted hook hhook hnone hnew hrows =>
        exact .minted hook hhook hnone hnew (hregistrations.trans hrows)
  · cases hsched with
    | absent hnone hsame => exact .absent hnone (hsame.trans hbefore)
    | pointed trigger cron due existing htrigger hcron hdue hexisting hmem hrows =>
        exact .pointed trigger cron due existing htrigger hcron hdue hexisting (hbefore ▸ hmem)
          (hbefore ▸ hrows)
    | added trigger cron due htrigger hcron hdue hnone hnew hrows =>
        exact .added trigger cron due htrigger hcron hdue hnone (hbefore ▸ hnew) (hbefore ▸ hrows)

end Effects

end Calls

/-! ### A workflow that is only its trigger -/

/-- The type of a trigger node. -/
def triggerType (nodeType : String) : NodeDescriptor String where
  nodeType
  version := 1
  category := .trigger
  configModel := ⟨fun _ => [], fun _ => ""⟩
  outputs := [⟨"main", .json⟩]
  inputs_nodup := by decide
  outputs_nodup := by decide

/-- Time is in whole minutes, and the one expression there is means every minute. -/
def minutePorts : TriggerPorts String where
  registry := ⟨fun nodeType version =>
    ([webhookTrigger, scheduleTrigger].map triggerType).find? fun d =>
      d.nodeType = nodeType && d.version = version⟩
  hashToken token := "digest of " ++ token
  asText := some
  isValidCron cron := cron = "* * * * *"
  getNext _ base := some (base + 1)

/-- Every minute comes after the minute it is counted from. -/
theorem minutePorts_later : ∀ cron base due, minutePorts.getNext cron base = some due →
    base < due := by
  intro cron base due h
  obtain rfl : base + 1 = due := Option.some.inj h
  exact Nat.lt_succ_self base

/-- A graph of one node. -/
def lone (node : GraphNode String) : WorkflowGraph String where
  nodes := [node]
  edges := []
  keys_nodup := List.nodup_singleton _
  source_mem := fun _ he => absurd he List.not_mem_nil
  target_mem := fun _ he => absurd he List.not_mem_nil
  edges_nodup := List.nodup_nil

/-- A webhook and nothing else. -/
def hookGraph : WorkflowGraph String := lone ⟨"trigger", webhookTrigger, 1, [], none⟩

/-- A schedule of every minute and nothing else. -/
def scheduleGraph : WorkflowGraph String :=
  lone ⟨"trigger", scheduleTrigger, 1, [("cron", "* * * * *")], none⟩

/-- A call from its beginning to its commit. -/
def wholeTriggerCall {ι : Type} (i : ι) (call : TriggerCall Value) (statements : Nat) :
    List (TriggerEvent Value ι) :=
  .begin i call :: List.replicate statements (.issue i) ++ [.commit i]

end Orqent
