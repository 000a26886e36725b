/-
Publishing a draft, with everything it can raise.

`publish` is the use case from the caller's account to the commit.  Up to the report it
reads; then it numbers the draft, points the workflow at it and registers its triggers,
all in one transaction.  What it can raise after the report is what this module is about:
a version number that is taken, a registration or a schedule the database refuses, a
configuration the schedule trigger does not accept, and an expression that no date
matches.

The report covers the configuration, and what the rows of a workflow are like in every
state the calls can leave covers the statements: what a schedule points at is published,
so it is not the draft.  Nothing covers the last: `publish_commits_iff`.
-/
import Orqent.Triggers.Service
import Orqent.Versions.Publishing
import Orqent.Graph.Publishable

namespace Orqent

open LockStore

variable {Value : Type}

/-! ### The use case -/

/-- What a publish raises. -/
inductive PublishError
  | authentication (message : String)
  | notFound (message : String)
  | authorization (message : String)
  /-- With the issues its details list. -/
  | conflict (message : String) (issues : List ValidationIssue)
  /-- The rows of the draft are not those of a graph. -/
  | graphStructure
  /-- `ScheduleTriggerConfig` does not accept the configuration. -/
  | configuration
  /-- No date matches the expression. -/
  | badDate (cron : String)
  /-- The database refused a statement. -/
  | integrity
deriving DecidableEq, Repr

/-- An authenticated caller. -/
structure AuthenticatedUser where
  publicId : String
  roles : List String
deriving DecidableEq, Repr

/-- The roles that may publish what others have made. -/
def publisherRoles : List String := ["owner", "admin"]

/-- One workflow, and the accounts that may ask for it. -/
structure WorkflowDb (Value : Type) where
  publicId : String
  organizationId : Nat
  /-- The public id of who made the workflow. -/
  creator : Option String
  /-- The organization of each live account. -/
  organizationOf : (publicId : String) → Option Nat
  rows : TriggerDb Value

/-- `_caller`: the organization of the caller's account. -/
def WorkflowDb.caller (w : WorkflowDb Value) (user : AuthenticatedUser) : Except PublishError Nat :=
  match w.organizationOf user.publicId with
  | some organizationId => .ok organizationId
  | none => .error (.authentication "This account no longer exists.")

/-- `_workflow`: another tenant's workflow is reported as not found. -/
def WorkflowDb.workflow (w : WorkflowDb Value) (organizationId : Nat) (publicId : String) :
    Except PublishError Unit :=
  if w.publicId = publicId ∧ w.organizationId = organizationId ∧ w.rows.deleted = false then .ok ()
  else .error (.notFound "This workflow does not exist.")

/-- `_may_publish`: the creator, or an administrator. -/
def WorkflowDb.mayPublish (w : WorkflowDb Value) (user : AuthenticatedUser) : Bool :=
  publisherRoles.any (fun role => role ∈ user.roles) || w.creator = some user.publicId

/-- The check that refuses a publication. -/
def WorkflowDb.requirePublishPermission (w : WorkflowDb Value) (user : AuthenticatedUser) :
    Except PublishError Unit :=
  if w.mayPublish user then .ok ()
  else .error (.authorization "Only the workflow's creator or an administrator may publish it.")

section Publish

variable [DecidableEq Value]

/-- The draft, if the report on its graph has no error. -/
def publishableDraft (P : TriggerPorts Value) (db : TriggerDb Value) : Except PublishError Nat :=
  match db.tables.getDraft with
  | none => .error (.conflict "There is nothing to publish: this workflow has no draft." [])
  | some (version, _) =>
      match loadGraph (db.tables.graphs version) with
      | none => .error .graphStructure
      | some graph =>
          let report := validateGraph graph P.registry
          if report.isValid then .ok version
          else
            .error (.conflict "This workflow cannot be published until its errors are fixed."
              (report.issues.filter ValidationIssue.isError))

/-- Issue statements one after another. -/
def issueAll (P : TriggerPorts Value) (statements : List (TriggerStatement Value))
    (db : TriggerDb Value) : Except PublishError (TriggerDb Value) :=
  match (triggerStore P).perform statements db with
  | some db' => .ok db'
  | none => .error .integrity

/-- Number the draft and point the workflow at it; a version number is used once. -/
def promote (P : TriggerPorts Value) (version : Nat) (db : TriggerDb Value) :
    Except PublishError (TriggerDb Value) :=
  let versionNo := nextVersionNo db.tables
  if versionNo ∈ db.tables.versions.filterMap fun e => e.2.versionNo then .error .integrity
  else issueAll P [.version (.publishVersion version versionNo), .version (.activate version)] db

/-- `_register_webhook_trigger`, with the token it returns. -/
def registerWebhookTrigger (P : TriggerPorts Value) (token : String) (version : Nat)
    (db : TriggerDb Value) : Except PublishError (TriggerDb Value × Option String) :=
  let (statements, minted) := registerWebhook P token version db
  (issueAll P statements db).map fun db' => (db', minted.map fun _ => token)

/-- The moment a schedule with this configuration is due next. -/
def firstDue (P : TriggerPorts Value) (config : Dict String Value) (now : Nat) :
    Except PublishError Nat :=
  match scheduleCron P config with
  | none => .error .configuration
  | some cron =>
      match P.getNext cron now with
      | none => .error (.badDate cron)
      | some due => .ok due

/-- `_register_schedule_trigger`. -/
def registerScheduleTrigger (P : TriggerPorts Value) (scheduleId now version : Nat)
    (db : TriggerDb Value) : Except PublishError (TriggerDb Value) :=
  match triggerNode scheduleTrigger (db.tables.graphs version) with
  | none => .ok db
  | some trigger => do
      let due ← firstDue P trigger.node.config now
      match db.schedule with
      | some existing => issueAll P [.pointSchedule existing.id ⟨version, trigger.id⟩ due] db
      | none => issueAll P [.addSchedule scheduleId ⟨version, trigger.id⟩ due] db

/-- The rows a publish commits, the version it made, and the webhook token it returns. -/
structure PublishResult (Value : Type) where
  rows : TriggerDb Value
  version : Nat
  webhookToken : Option String

/-- `publish`: what it commits and returns, or what it raises. -/
def publish (P : TriggerPorts Value) (w : WorkflowDb Value) (user : AuthenticatedUser)
    (publicId token : String) (scheduleId now : Nat) :
    Except PublishError (PublishResult Value) := do
  let organizationId ← w.caller user
  w.workflow organizationId publicId
  w.requirePublishPermission user
  let version ← publishableDraft P w.rows
  let promoted ← promote P version w.rows
  let (registered, webhookToken) ← registerWebhookTrigger P token version promoted
  let rows ← registerScheduleTrigger P scheduleId now version registered
  return ⟨rows, version, webhookToken⟩

end Publish

/-! ### What the calls leave -/

variable {P : TriggerPorts Value} {db db' : TriggerDb Value} {w : WorkflowDb Value}
  {user : AuthenticatedUser} {publicId token : String} {scheduleId now version : Nat}

/-- What a schedule points at is published. -/
def TriggerDb.Scheduled (db : TriggerDb Value) : Prop :=
  ∀ s ∈ db.schedules, db.tables.isPublished s.target.version = true

/-- The dispatcher moves due times, and nothing else a publish reads. -/
def TriggerDb.redated (due : Schedule → Nat) (db : TriggerDb Value) : TriggerDb Value :=
  { db with schedules := db.schedules.map fun s => { s with nextRunAt := due s } }

theorem TriggerDb.Scheduled.redated (h : db.Scheduled) (due : Schedule → Nat) :
    (db.redated due).Scheduled := by
  intro s hs
  obtain ⟨old, hold, rfl⟩ := List.mem_map.mp hs
  exact h old hold

/-- Editing a version that no schedule points at afterwards. -/
theorem TriggerDb.Scheduled.drafted (h : db.Scheduled) {id : Nat} (hdrafted : Drafted id db db')
    (hclear : ∀ s ∈ db'.schedules, s.target.version ≠ id) : db'.Scheduled := by
  intro s hs
  have hpublished := h s (hdrafted.keptSchedules.subset hs)
  rw [Tables.isPublished] at hpublished ⊢
  rw [hdrafted.version _ (hclear s hs)]
  exact hpublished

/-- Publishing a version points schedules at it, or leaves them. -/
theorem TriggerDb.Scheduled.published (h : db.Scheduled) {snap : TriggerDb Value}
    (heffect : PublishEffect P token scheduleId now version snap db db') : db'.Scheduled := by
  have hkept : ∀ id, db.tables.isPublished id = true → db'.tables.isPublished id = true := by
    intro id hid
    by_cases hversion : id = version
    · rw [hversion]
      exact heffect.promoted.published
    · rw [Tables.isPublished] at hid ⊢
      rw [heffect.promoted.versions id hversion]
      exact hid
  intro s hs
  cases heffect.schedule with
  | absent hnone hsame =>
      rw [hsame] at hs
      exact hkept _ (h s hs)
  | pointed trigger cron due existing htrigger hcron hdue hexisting hmem hrows =>
      rw [hrows] at hs
      obtain ⟨old, hold, rfl⟩ := List.mem_map.mp hs
      by_cases hid : old.id = existing.id
      · rw [if_pos hid]
        exact heffect.promoted.published
      · rw [if_neg hid]
        exact hkept _ (h old hold)
  | added trigger cron due htrigger hcron hdue hnone hnew hrows =>
      rw [hrows] at hs
      rcases List.mem_append.mp hs with hold | hadded
      · exact hkept _ (h s hold)
      · rw [List.mem_singleton.mp hadded]
        exact heffect.promoted.published

section Runs

variable [DecidableEq Value]

variable {ι : Type} [DecidableEq ι] {p p' : Triggering Value ι} {e : TriggerEvent Value ι}
  {events : List (TriggerEvent Value ι)}

theorem TriggerDb.Scheduled.step (h : p.committed.Scheduled) (hanchored : p.committed.Anchored)
    (hok : PoolOk (triggerStore P) p) (hstep : (triggerStore P).poolStep p e = some p') :
    p'.committed.Scheduled := by
  rcases poolStep_performs hok hstep with ⟨-, hsame⟩ | ⟨t, ws, -, hbody, hperform⟩
  · rw [hsame]
    exact h
  cases hcall : t.call with
  | getDraft ids =>
      rw [hcall] at hbody
      rcases getDraft_effect hbody hperform with hsame | ⟨id, hfresh, hdrafted⟩
      · rw [hsame]
        exact h
      · refine h.drafted hdrafted fun s hs hversion => ?_
        exact not_published_of_fresh (hversion ▸ hfresh) (h s (hdrafted.keptSchedules.subset hs))
  | replaceDraft ids revision graph =>
      rw [hcall] at hbody
      obtain ⟨draft, -, -, hdrafted, -, hclear⟩ := replaceDraft_effect hanchored hbody hperform
      exact h.drafted hdrafted hclear
  | publish token scheduleId now =>
      rw [hcall] at hbody
      obtain ⟨version, heffect⟩ := publish_effect hbody hperform
      exact h.published heffect
  | softDelete =>
      rw [hcall] at hbody
      obtain ⟨-, hws⟩ := Option.ite_none_left_eq_some.mp hbody
      obtain rfl := Option.some.inj hws
      obtain ⟨d, hexec, happly⟩ := perform_singleton.mp hperform
      obtain rfl := Option.some.inj hexec
      rw [← happly]
      exact h
  | revoke digest =>
      rw [hcall] at hbody
      obtain rfl := Option.some.inj hbody
      obtain ⟨d, hexec, happly⟩ := perform_singleton.mp hperform
      obtain rfl := Option.some.inj hexec
      rw [← happly]
      exact h

/-- **In every state the calls can leave, no schedule points at a draft.** -/
theorem scheduled_of_run
    (hrun : Trace.run (triggerStore P).poolStep (Pool.start {}) events = some p) :
    p.committed.Scheduled := by
  have hall : PoolOk (triggerStore P) p ∧ p.committed.Anchored ∧ p.committed.Scheduled := by
    refine Trace.run_invariant (P := fun q => PoolOk (triggerStore P) q ∧
      q.committed.Anchored ∧ q.committed.Scheduled) ⟨PoolOk.start _, ⟨?_, ?_⟩, ?_⟩ ?_ hrun
    · intro r hr
      simp [Pool.start] at hr
    · intro s hs
      simp [Pool.start] at hs
    · intro s hs
      simp [Pool.start] at hs
    · intro q e q' hbefore hstep
      obtain ⟨hok, hanchored, hscheduled⟩ := hbefore
      exact ⟨hok.step hstep, hok.keeps (fun _ _ _ hs hexec => hs.exec hexec) hanchored hstep,
        hscheduled.step hanchored hok hstep⟩
  exact hall.2.2

end Runs

/-! ### Its steps -/

/-- The configuration model registered for the schedule trigger is `ScheduleTriggerConfig`. -/
def TriggerPorts.ChecksSchedules (P : TriggerPorts Value) : Prop :=
  ∀ version d, P.registry.find scheduleTrigger version = some d →
    ∀ config, d.configModel.errors config = [] ↔ (scheduleCron P config).isSome = true

/-- The caller is of the workflow's organization, and may publish it. -/
structure WorkflowDb.Authorised (w : WorkflowDb Value) (user : AuthenticatedUser)
    (publicId : String) : Prop where
  account : w.organizationOf user.publicId = some w.organizationId
  asked : w.publicId = publicId
  live : w.rows.deleted = false
  permitted : w.mayPublish user = true

/-- The number of the next version is one that no version has. -/
theorem nextVersionNo_fresh (t : Tables Value) :
    nextVersionNo t ∉ t.versions.filterMap fun e => e.2.versionNo := by
  intro hmem
  have hle := List.le_max?_getD_of_mem (k := 0) hmem
  unfold nextVersionNo at hle
  omega

theorem hasNode_trigger {nodeType : String} {n : NodeRow Value}
    (h : triggerNode nodeType (db.tables.graphs version) = some n) :
    db.hasNode ⟨version, n.id⟩ = true := by
  have hmem : n ∈ listNodes (db.tables.graphs version) := List.mem_of_find?_eq_some h
  refine List.any_eq_true.mpr ⟨n, (List.mem_insertionSort _).mp hmem, by simp⟩

/-- A configuration that is accepted has a time to be due at if its expression has. -/
theorem firstDue_ok_iff {config : Dict String Value} (h : (scheduleCron P config).isSome = true) :
    (∃ due, firstDue P config now = .ok due) ↔
      ∀ cron, scheduleCron P config = some cron → (P.getNext cron now).isSome = true := by
  obtain ⟨cron, hcron⟩ := Option.isSome_iff_exists.mp h
  unfold firstDue
  rw [hcron]
  cases hnext : P.getNext cron now with
  | none => simp [hnext]
  | some due => simp [hnext]

section Steps

variable [DecidableEq Value]

theorem issueAll_iff {statements : List (TriggerStatement Value)} :
    issueAll P statements db = .ok db' ↔ (triggerStore P).perform statements db = some db' := by
  unfold issueAll
  cases (triggerStore P).perform statements db <;> simp

theorem issueAll_one {statement : TriggerStatement Value} {d : TriggerChange Value}
    (h : statement.exec db = some d) : issueAll P [statement] db = .ok (d.apply db) :=
  issueAll_iff.mpr (perform_singleton.mpr ⟨d, h, rfl⟩)

/-- The nodes of the graph that is loaded are those that are listed. -/
theorem loadGraph_nodes {rows : GraphRows Value} {graph : WorkflowGraph Value}
    (h : loadGraph rows = some graph) : graph.nodes = (listNodes rows).map NodeRow.node := by
  unfold loadGraph WorkflowGraph.of? at h
  split at h
  · obtain rfl := Option.some.inj h
    rfl
  · simp at h

theorem promote_ok (P : TriggerPorts Value) {row : WorkflowVersion}
    (hrow : db.tables.version version = some row) :
    ∃ db', promote P version db = .ok db' ∧ db'.tables.graphs = db.tables.graphs ∧
      db'.registrations = db.registrations ∧ db'.schedules = db.schedules := by
  have hperform : (triggerStore P).perform ([Statement.publishVersion version
      (nextVersionNo db.tables), .activate version].map .version) db = some
        { db with
          tables := (db.tables.putVersion version { row with
            status := .published
            versionNo := some (nextVersionNo db.tables) }).putActive version } := by
    refine (perform_versions fun w hw => ?_).mpr ⟨_, perform_publish.mpr ⟨row, hrow, rfl⟩, rfl⟩
    rw [List.mem_cons, List.mem_singleton] at hw
    rcases hw with rfl | rfl <;> rfl
  simp only [List.map_cons, List.map_nil] at hperform
  refine ⟨{ db with tables := (db.tables.putVersion version { row with
    status := .published, versionNo := some (nextVersionNo db.tables) }).putActive version },
    ?_, rfl, rfl, rfl⟩
  unfold promote issueAll
  rw [if_neg (nextVersionNo_fresh _), hperform]

/-- The webhook's address is pointed or minted. -/
theorem registerWebhookTrigger_ok (P : TriggerPorts Value) (token : String) (version : Nat)
    (db : TriggerDb Value) : ∃ r, registerWebhookTrigger P token version db = .ok r ∧
    r.1.tables = db.tables ∧ r.1.schedules = db.schedules := by
  have hissued : ∃ db', issueAll P (registerWebhook P token version db).1 db = .ok db' ∧
      db'.tables = db.tables ∧ db'.schedules = db.schedules := by
    unfold registerWebhook
    cases hhook : triggerNode webhookTrigger (db.tables.graphs version) with
    | none => exact ⟨db, rfl, rfl, rfl⟩
    | some hook =>
        have hnode := hasNode_trigger hhook
        cases hexisting : db.registration with
        | some existing =>
            have hmem : existing ∈ db.registrations := List.mem_of_mem_head? hexisting
            have hexec : (TriggerStatement.pointRegistration existing.tokenDigest
                ⟨version, hook.id⟩).exec db =
                  some (.pointRegistration existing.tokenDigest ⟨version, hook.id⟩) :=
              if_pos ⟨hnode, List.mem_map_of_mem hmem⟩
            exact ⟨_, issueAll_one hexec, rfl, rfl⟩
        | none =>
            have hnone : db.registrations = [] := List.head?_eq_none_iff.mp hexisting
            have hexec : (TriggerStatement.addRegistration ⟨version, hook.id⟩
                (P.hashToken token)).exec db = some (.addRegistration
                  { target := ⟨version, hook.id⟩, tokenDigest := P.hashToken token }) :=
              if_pos ⟨hnode, by simp [hnone]⟩
            exact ⟨_, issueAll_one hexec, rfl, rfl⟩
  obtain ⟨db', hdb', htables, hschedules⟩ := hissued
  refine ⟨(db', (registerWebhook P token version db).2.map fun _ => token), ?_, htables, hschedules⟩
  unfold registerWebhookTrigger
  simp only [hdb', Except.map]

/-- The schedule is pointed or added wherever it has a time to be due at. -/
theorem registerScheduleTrigger_ok_iff (P : TriggerPorts Value) (scheduleId now : Nat)
    (hclear : ∀ s ∈ db.schedules, s.target.version ≠ version) :
    (∃ db', registerScheduleTrigger P scheduleId now version db = .ok db') ↔
      ∀ trigger, triggerNode scheduleTrigger (db.tables.graphs version) = some trigger →
        ∃ due, firstDue P trigger.node.config now = .ok due := by
  unfold registerScheduleTrigger
  cases htrigger : triggerNode scheduleTrigger (db.tables.graphs version) with
  | none => simp
  | some trigger =>
      have hnode := hasNode_trigger htrigger
      cases hdue : firstDue P trigger.node.config now with
      | error e => simp [hdue, bind, Except.bind]
      | ok due =>
          refine iff_of_true ?_ ?_
          · simp only [hdue, bind, Except.bind]
            cases hexisting : db.schedule with
            | some existing =>
                have hmem : existing ∈ db.schedules := List.mem_of_mem_head? hexisting
                have hexec : (TriggerStatement.pointSchedule existing.id ⟨version, trigger.id⟩
                    due).exec db = some (.pointSchedule existing.id ⟨version, trigger.id⟩ due) := by
                  refine if_pos ⟨hnode, List.mem_map_of_mem hmem, fun s hs htarget => ?_⟩
                  exact absurd (congrArg NodeRef.version htarget) (hclear s hs)
                exact ⟨_, issueAll_one hexec⟩
            | none =>
                have hnone : db.schedules = [] := List.head?_eq_none_iff.mp hexisting
                have hexec : (TriggerStatement.addSchedule scheduleId ⟨version, trigger.id⟩
                    due).exec db = some (.addSchedule ⟨scheduleId, ⟨version, trigger.id⟩, due⟩) :=
                  if_pos ⟨hnode, by simp [hnone], by simp [hnone]⟩
                exact ⟨_, issueAll_one hexec⟩
          · intro other hother
            rw [← Option.some.inj hother]
            exact ⟨due, hdue⟩

/-- A draft without an error is published up to its schedule. -/
theorem publish_eq (token : String) (scheduleId now : Nat)
    (hauthorised : w.Authorised user publicId) {row : WorkflowVersion}
    (hdraft : w.rows.tables.getDraft = some (version, row)) {graph : WorkflowGraph Value}
    (hload : loadGraph (w.rows.tables.graphs version) = some graph)
    (hvalid : (validateGraph graph P.registry).isValid = true) :
    ∃ db returned, db.tables.graphs = w.rows.tables.graphs ∧ db.schedules = w.rows.schedules ∧
      publish P w user publicId token scheduleId now =
        (registerScheduleTrigger P scheduleId now version db).map fun rows =>
          ⟨rows, version, returned⟩ := by
  obtain ⟨hrow, -⟩ := w.rows.tables.getDraft_eq_some hdraft
  have hcaller : w.caller user = .ok w.organizationId := by
    unfold WorkflowDb.caller
    rw [hauthorised.account]
  have hworkflow : w.workflow w.organizationId publicId = .ok () :=
    if_pos ⟨hauthorised.asked, rfl, hauthorised.live⟩
  have hpermitted : w.requirePublishPermission user = .ok () := if_pos hauthorised.permitted
  have hready : publishableDraft P w.rows = .ok version := by
    unfold publishableDraft
    simp only [hdraft, hload, hvalid, if_true]
  obtain ⟨promoted, hpromoted, hgraphs, -, hschedules⟩ := promote_ok P hrow
  obtain ⟨⟨db, returned⟩, hwebhook, htables, hkept⟩ :=
    registerWebhookTrigger_ok P token version promoted
  refine ⟨db, returned, ?_, hkept.trans hschedules, ?_⟩
  · rw [htables, hgraphs]
  · unfold publish
    rw [hcaller]
    simp only [bind, Except.bind, hworkflow, hpermitted, hready, hpromoted, hwebhook]
    cases registerScheduleTrigger P scheduleId now version db <;> rfl

/-- The configuration of the schedule trigger in a draft without an error is accepted. -/
theorem scheduleCron_of_valid (hchecks : P.ChecksSchedules) {rows : GraphRows Value}
    {graph : WorkflowGraph Value} (hload : loadGraph rows = some graph)
    (hvalid : (validateGraph graph P.registry).isValid = true) {trigger : NodeRow Value}
    (htrigger : triggerNode scheduleTrigger rows = some trigger) :
    (scheduleCron P trigger.node.config).isSome = true := by
  have hnode : trigger.node ∈ graph.nodes := by
    rw [loadGraph_nodes hload]
    exact List.mem_map_of_mem (List.mem_of_find?_eq_some htrigger)
  have htype : trigger.node.nodeType = scheduleTrigger := by
    simpa using List.find?_some htrigger
  obtain ⟨d, hfind, -⟩ := descriptor_of_valid hvalid hnode
  rw [htype] at hfind
  exact (hchecks _ d hfind _).mp (config_of_valid hvalid hnode (by rw [htype]; exact hfind))

end Steps

/-! ### The use case and the statements of the call -/

section Published

variable [DecidableEq Value]

theorem publishableDraft_inv (h : publishableDraft P db = .ok version) :
    ∃ row graph, db.tables.getDraft = some (version, row) ∧
      loadGraph (db.tables.graphs version) = some graph ∧
      (validateGraph graph P.registry).isValid = true := by
  unfold publishableDraft at h
  split at h
  · simp at h
  · rename_i id row hdraft
    split at h
    · simp at h
    · rename_i graph hload
      by_cases hvalid : (validateGraph graph P.registry).isValid = true
      · simp only [hvalid, if_true, Except.ok.injEq] at h
        subst h
        exact ⟨row, graph, hdraft, hload, hvalid⟩
      · simp only [if_neg hvalid] at h
        simp at h

theorem promote_inv (h : promote P version db = .ok db') :
    (triggerStore P).perform ([Statement.publishVersion version (nextVersionNo db.tables),
      .activate version].map .version) db = some db' := by
  unfold promote at h
  dsimp only at h
  rw [if_neg (nextVersionNo_fresh _)] at h
  exact issueAll_iff.mp h

omit [DecidableEq Value] in
/-- Which webhook statements there are depends on the graphs and the registrations. -/
theorem registerWebhook_congr (hgraphs : db'.tables.graphs = db.tables.graphs)
    (hrows : db'.registrations = db.registrations) :
    registerWebhook P token version db' = registerWebhook P token version db := by
  unfold registerWebhook TriggerDb.registration
  rw [hgraphs, hrows]

omit [DecidableEq Value] in
theorem registerSchedule_congr (hgraphs : db'.tables.graphs = db.tables.graphs)
    (hrows : db'.schedules = db.schedules) :
    registerSchedule P scheduleId now version db' =
      registerSchedule P scheduleId now version db := by
  unfold registerSchedule TriggerDb.schedule
  rw [hgraphs, hrows]

theorem registerScheduleTrigger_performs
    (h : registerScheduleTrigger P scheduleId now version db = .ok db') :
    ∃ ws, registerSchedule P scheduleId now version db = some ws ∧
      (triggerStore P).perform ws db = some db' := by
  unfold registerScheduleTrigger at h
  unfold registerSchedule
  cases htrigger : triggerNode scheduleTrigger (db.tables.graphs version) with
  | none =>
      simp only [htrigger, Except.ok.injEq] at h
      exact ⟨[], rfl, h ▸ rfl⟩
  | some trigger =>
      simp only [htrigger] at h
      obtain ⟨due, hdue, hissued⟩ := except_bind_eq_ok_iff.mp h
      unfold firstDue at hdue
      cases hcron : scheduleCron P trigger.node.config with
      | none => simp [hcron] at hdue
      | some cron =>
          cases hnext : P.getNext cron now with
          | none => simp [hcron, hnext] at hdue
          | some next =>
              simp only [hcron, hnext, Except.ok.injEq] at hdue
              subst hdue
              cases hexisting : db.schedule with
              | none =>
                  simp only [hexisting] at hissued
                  exact ⟨_, by simp [hcron, hnext], issueAll_iff.mp hissued⟩
              | some existing =>
                  simp only [hexisting] at hissued
                  exact ⟨_, by simp [hcron, hnext], issueAll_iff.mp hissued⟩

/-- **What a publish commits is what the statements of its call make of the rows.** -/
theorem publish_performs {r : PublishResult Value}
    (h : publish P w user publicId token scheduleId now = .ok r) :
    ∃ ws, (TriggerCall.publish token scheduleId now).body P w.rows = some ws ∧
      (triggerStore P).perform ws w.rows = some r.rows := by
  unfold publish at h
  obtain ⟨organizationId, -, h⟩ := except_bind_eq_ok_iff.mp h
  obtain ⟨found, hworkflow, h⟩ := except_bind_eq_ok_iff.mp h
  obtain ⟨permitted, -, h⟩ := except_bind_eq_ok_iff.mp h
  obtain ⟨version, hready, h⟩ := except_bind_eq_ok_iff.mp h
  obtain ⟨promoted, hpromoted, h⟩ := except_bind_eq_ok_iff.mp h
  obtain ⟨⟨registered, returned⟩, hwebhook, h⟩ := except_bind_eq_ok_iff.mp h
  obtain ⟨rows, hschedule, h⟩ := except_bind_eq_ok_iff.mp h
  obtain rfl := Except.ok.inj h
  have hlive : w.rows.deleted = false := by
    unfold WorkflowDb.workflow at hworkflow
    by_contra hdeleted
    simp [hdeleted] at hworkflow
  obtain ⟨row, graph, hdraft, hload, hvalid⟩ := publishableDraft_inv hready
  obtain ⟨promoted', hpromoted', hgraphs, hregistrations, hschedules⟩ :=
    promote_ok P (w.rows.tables.getDraft_eq_some hdraft).1
  obtain rfl : promoted' = promoted := Except.ok.inj (hpromoted'.symm.trans hpromoted)
  have hregistered : (triggerStore P).perform
      (registerWebhook P token version promoted').1 promoted'
      = some registered := by
    unfold registerWebhookTrigger at hwebhook
    cases hissued : issueAll P (registerWebhook P token version promoted').1 promoted' with
    | error e => simp [hissued, Except.map] at hwebhook
    | ok db =>
        simp only [hissued, Except.map, Except.ok.injEq, Prod.mk.injEq] at hwebhook
        exact hwebhook.1 ▸ issueAll_iff.mp hissued
  obtain ⟨-, hkept⟩ := webhook_effect hregistered
  obtain ⟨ws, hplan, hperform⟩ := registerScheduleTrigger_performs hschedule
  rw [registerWebhook_congr hgraphs hregistrations] at hregistered
  have hsame : registered.tables.graphs = w.rows.tables.graphs ∧
      registered.schedules = w.rows.schedules := by
    rw [hkept]
    exact ⟨hgraphs, hschedules⟩
  rw [registerSchedule_congr hsame.1 hsame.2] at hplan
  have hcall : Call.body P.registry .publish w.rows.tables =
      some [.publishVersion version (nextVersionNo w.rows.tables), .activate version] := by
    simp [Call.body, hdraft, hload, hvalid]
  refine ⟨[Statement.publishVersion version (nextVersionNo w.rows.tables),
    .activate version].map .version ++ ((registerWebhook P token version w.rows).1 ++ ws), ?_, ?_⟩
  · simp [TriggerCall.body, hlive, hcall, hdraft, hplan]
  · rw [perform_append]
    refine ⟨promoted', promote_inv hpromoted, ?_⟩
    rw [perform_append]
    exact ⟨registered, hregistered, hperform⟩

variable {ι : Type} [DecidableEq ι] {p : Triggering Value ι}
  {events : List (TriggerEvent Value ι)}

/--
**A draft without an error is published exactly if its schedule will ever be due.**  Of a
workflow in any state that calls on it can leave, however they were interleaved, and
wherever the dispatcher has moved its due times: a caller who may publish it commits the
publish of a draft on which the report has no error, if and only if the draft has no
schedule trigger or some date after now matches its expression.
-/
theorem publish_commits_iff (hchecks : P.ChecksSchedules)
    (hrun : Trace.run (triggerStore P).poolStep (Pool.start {}) events = some p)
    {due : Schedule → Nat} (hrows : w.rows = p.committed.redated due)
    (hauthorised : w.Authorised user publicId) {row : WorkflowVersion}
    (hdraft : w.rows.tables.getDraft = some (version, row)) {graph : WorkflowGraph Value}
    (hload : loadGraph (w.rows.tables.graphs version) = some graph)
    (hvalid : (validateGraph graph P.registry).isValid = true) :
    (∃ r, publish P w user publicId token scheduleId now = .ok r) ↔
      ∀ trigger cron, triggerNode scheduleTrigger (w.rows.tables.graphs version) = some trigger →
        scheduleCron P trigger.node.config = some cron → (P.getNext cron now).isSome = true := by
  have hscheduled : w.rows.Scheduled := by
    rw [hrows]
    exact (scheduled_of_run hrun).redated due
  obtain ⟨hrow, hstatus⟩ := w.rows.tables.getDraft_eq_some hdraft
  obtain ⟨db, returned, hgraphs, hschedules, hpublish⟩ :=
    publish_eq token scheduleId now hauthorised hdraft hload hvalid
  have hclear : ∀ s ∈ db.schedules, s.target.version ≠ version := by
    intro s hs hversion
    rw [hschedules] at hs
    obtain ⟨row', hrow', hpublished⟩ := isPublished_iff.mp (hscheduled s hs)
    rw [hversion, hrow, Option.some.injEq] at hrow'
    rw [← hrow', hstatus] at hpublished
    cases hpublished
  have hiff := registerScheduleTrigger_ok_iff P scheduleId now hclear
  have hmap : (∃ r, publish P w user publicId token scheduleId now = .ok r) ↔
      ∃ rows, registerScheduleTrigger P scheduleId now version db = .ok rows := by
    rw [hpublish]
    cases registerScheduleTrigger P scheduleId now version db <;> simp [Except.map]
  rw [hmap, hiff, hgraphs]
  refine forall_congr' fun trigger => ?_
  constructor
  · intro h cron htrigger hcron
    exact (firstDue_ok_iff (scheduleCron_of_valid hchecks hload hvalid htrigger)).mp (h htrigger)
      cron hcron
  · intro h htrigger
    refine (firstDue_ok_iff (scheduleCron_of_valid hchecks hload hvalid htrigger)).mpr ?_
    exact fun cron hcron => h cron htrigger hcron

end Published

/-! ### A day no month has -/

/-- Time is in minutes; one expression means midnight, the other the 31st of February. -/
def calendarBase : TriggerPorts String where
  registry := ⟨fun _ _ => none⟩
  hashToken token := "digest of " ++ token
  asText := some
  isValidCron cron := cron = defaultCron || cron = "0 0 31 2 *"
  getNext cron base := if cron = defaultCron then some ((base / 1440 + 1) * 1440) else none

/-- The schedule trigger, configured by `ScheduleTriggerConfig`. -/
def scheduleType : NodeDescriptor String :=
  { triggerType scheduleTrigger with
    configModel :=
      { errors := fun config =>
          if (scheduleCron calendarBase config).isSome then []
          else [⟨["cron"], "Value error, not a valid cron expression."⟩]
        errorText := fun _ => "" } }

/-- A server that knows the schedule alone. -/
def calendarPorts : TriggerPorts String :=
  { calendarBase with
    registry := ⟨fun nodeType version =>
      [scheduleType].find? fun d => d.nodeType = nodeType && d.version = version⟩ }

theorem calendarPorts_checks : calendarPorts.ChecksSchedules := by
  intro version d hfind config
  have hfind' : [scheduleType].find? (fun d => d.nodeType = scheduleTrigger && d.version = version)
      = some d := hfind
  obtain rfl : d = scheduleType := List.mem_singleton.mp (List.mem_of_find?_eq_some hfind')
  show (if (scheduleCron calendarBase config).isSome then _ else _) = [] ↔
    (scheduleCron calendarBase config).isSome = true
  by_cases h : (scheduleCron calendarBase config).isSome = true <;> simp [h]

/-- A schedule and nothing else. -/
def cronGraph (cron : String) : WorkflowGraph String :=
  lone ⟨"trigger", scheduleTrigger, 1, [("cron", cron)], none⟩

/-- A draft is made and saved. -/
def savedDraft (cron : String) : List (TriggerEvent String Nat) :=
  wholeTriggerCall 0 (.replaceDraft ⟨1, 1, 1⟩ 1 (cronGraph cron)) 6

/-- The workflow with these rows, and its author's account. -/
def authored (rows : TriggerDb String) : WorkflowDb String where
  publicId := "workflow"
  organizationId := 1
  creator := some "author"
  organizationOf publicId := if publicId = "author" then some 1 else none
  rows

/-- The user who has made the workflow. -/
def author : AuthenticatedUser := ⟨"author", []⟩

/-- The draft of the saved rows. -/
def HasDraft (p : Triggering String Nat) (cron : String) : Prop :=
  p.committed.deleted = false ∧ p.committed.tables.getDraft.map Prod.fst = some 1 ∧
    loadGraph (p.committed.tables.graphs 1) = some (cronGraph cron)

instance (p : Triggering String Nat) (cron : String) : Decidable (HasDraft p cron) :=
  inferInstanceAs (Decidable (_ ∧ _ ∧ _))

/-- A draft that runs every midnight is published. -/
theorem midnight_published : ∃ p, Trace.run (triggerStore calendarPorts).poolStep (Pool.start {})
      (savedDraft defaultCron) = some p ∧
    ∃ r, publish calendarPorts (authored (p.committed.redated Schedule.nextRunAt)) author "workflow"
      "token" 1 0 = .ok r := by
  have heval : (Trace.run (triggerStore calendarPorts).poolStep (Pool.start {})
      (savedDraft defaultCron)).map (fun p => decide (HasDraft p defaultCron)) = some true := by
    decide +kernel
  obtain ⟨p, hrun, hsaved⟩ := Option.map_eq_some_iff.mp heval
  obtain ⟨hlive, hdraft, hload⟩ := of_decide_eq_true hsaved
  obtain ⟨⟨version, row⟩, hdraft, rfl⟩ := Option.map_eq_some_iff.mp hdraft
  refine ⟨p, hrun, (publish_commits_iff calendarPorts_checks hrun rfl ⟨rfl, rfl, hlive, rfl⟩ hdraft
    hload (by decide +kernel)).mpr fun trigger cron htrigger hcron => ?_⟩
  have hnode : trigger.node ∈ (cronGraph defaultCron).nodes := by
    rw [loadGraph_nodes hload]
    exact List.mem_map_of_mem (List.mem_of_find?_eq_some htrigger)
  rw [List.mem_singleton.mp hnode] at hcron
  obtain rfl : defaultCron = cron := Option.some.inj hcron
  rfl

/-- The report has no error on a draft that runs on the 31st of February; publishing it
raises. -/
theorem never_due_unpublished : calendarPorts.ChecksSchedules ∧
    ∃ p, Trace.run (triggerStore calendarPorts).poolStep (Pool.start {})
        (savedDraft "0 0 31 2 *") = some p ∧
      (authored p.committed).Authorised author "workflow" ∧ HasDraft p "0 0 31 2 *" ∧
      (validateGraph (cronGraph "0 0 31 2 *") calendarPorts.registry).isValid = true ∧
      ∀ r, publish calendarPorts (authored p.committed) author "workflow" "token" 1 0 ≠ .ok r := by
  have heval : (Trace.run (triggerStore calendarPorts).poolStep (Pool.start {})
      (savedDraft "0 0 31 2 *")).map (fun p => (decide (HasDraft p "0 0 31 2 *"),
        (publish calendarPorts (authored p.committed) author "workflow" "token" 1 0).isOk))
      = some (true, false) := by
    decide +kernel
  obtain ⟨p, hrun, hvalues⟩ := Option.map_eq_some_iff.mp heval
  obtain ⟨hsaved, hraised⟩ := Prod.mk.inj hvalues
  have hdraft : HasDraft p "0 0 31 2 *" := of_decide_eq_true hsaved
  refine ⟨calendarPorts_checks, p, hrun, ⟨rfl, rfl, hdraft.1, rfl⟩, hdraft, by decide +kernel, ?_⟩
  intro r hr
  rw [hr] at hraised
  simp [Except.isOk, Except.toBool] at hraised

end Orqent
