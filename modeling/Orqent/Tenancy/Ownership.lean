/-
What belongs to an organization.

`Db.only` keeps the rows of one organization.  A row belongs where it says, or where the
row it hangs from belongs: a version with its workflow, a graph with its version.

Under `Db.Tenanted` each query an operation makes for an organization gives what it gives
on the organization's own rows, also where it does not ask for the organization; and each
write changes the organization's own rows as it would change them alone, and no row of
another.
-/
import Orqent.Tenancy.Database

namespace Orqent

namespace Tenancy

variable {Value : Type}

section Lists

variable {α : Type} {p q : α → Bool} {xs : List α}

/-- What is only found among these is found when the others are left out. -/
theorem find?_filter_of_imp (h : ∀ a ∈ xs, p a → q a) : (xs.filter q).find? p = xs.find? p := by
  induction xs with
  | nil => rfl
  | cons a rest ih =>
      have hrest := ih fun b hb => h b (List.mem_cons_of_mem a hb)
      by_cases hp : p a = true
      · rw [List.filter_cons_of_pos (h a List.mem_cons_self hp), List.find?_cons_of_pos hp,
          List.find?_cons_of_pos hp]
      · rw [List.find?_cons_of_neg hp]
        by_cases hq : q a = true
        · rw [List.filter_cons_of_pos hq, List.find?_cons_of_neg hp, hrest]
        · rw [List.filter_cons_of_neg hq, hrest]

theorem any_filter_of_imp (h : ∀ a ∈ xs, p a → q a) : (xs.filter q).any p = xs.any p := by
  rw [Bool.eq_iff_iff, List.any_eq_true, List.any_eq_true]
  constructor
  · intro hany
    obtain ⟨a, ha, hp⟩ := hany
    exact ⟨a, (List.mem_filter.mp ha).1, hp⟩
  · intro hany
    obtain ⟨a, ha, hp⟩ := hany
    exact ⟨a, List.mem_filter.mpr ⟨ha, h a ha hp⟩, hp⟩

theorem filter_filter_of_imp (h : ∀ a ∈ xs, p a → q a) : (xs.filter q).filter p = xs.filter p := by
  rw [List.filter_filter]
  refine List.filter_congr fun a ha => ?_
  cases hp : p a with
  | false => rfl
  | true => rw [h a ha hp]; rfl

/-- An update that leaves the condition alone is made to the rows that satisfy it. -/
theorem filter_map_of_kept {f : α → α} (h : ∀ a, p (f a) = p a) :
    (xs.map f).filter p = (xs.filter p).map f := by
  rw [List.filter_map]
  refine congrArg (List.map f) (List.filter_congr fun a _ => ?_)
  exact h a

theorem filter_append_of_pos {ys : List α} (h : ∀ a ∈ ys, p a) :
    (xs ++ ys).filter p = xs.filter p ++ ys := by
  rw [List.filter_append, List.filter_eq_self.mpr h]

theorem filter_append_of_neg {ys : List α} (h : ∀ a ∈ ys, ¬ p a) :
    (xs ++ ys).filter p = xs.filter p := by
  rw [List.filter_append, List.filter_eq_nil_iff.mpr h, List.append_nil]

end Lists

namespace Db

/-- Whether a version's workflow belongs to the organization. -/
def owns (db : Db Value) (o : Nat) (v : VersionRecord) : Bool :=
  db.workflows.any fun w => w.id = v.workflowId && w.organizationId = o

/-- The rows of one organization. -/
def only (db : Db Value) (o : Nat) : Db Value where
  organizations := db.organizations.filter fun x => x.id = o
  users := db.users.filter fun u => u.organizationId = o
  workflows := db.workflows.filter fun w => w.organizationId = o
  versions := db.versions.filter (db.owns o)
  graphs := fun i => if db.versions.any fun v => v.id = i && db.owns o v then db.graphs i else {}
  runs := db.runs.filter fun r => r.organizationId = o
  executions := db.executions.filter fun x => x.organizationId = o
  events := db.events.filter fun e => e.organizationId = o
  tasks := db.tasks.filter fun k => k.organizationId = o

/-- The keys are keys, the foreign keys name rows, and what hangs together belongs together. -/
structure Tenanted (db : Db Value) : Prop where
  users_nodup : (db.users.map User.publicId).Nodup
  workflows_nodup : (db.workflows.map Workflow.id).Nodup
  versions_nodup : (db.versions.map VersionRecord.id).Nodup
  runs_nodup : (db.runs.map RunRecord.id).Nodup
  executions_nodup : (db.executions.map ExecutionRecord.id).Nodup
  active : ∀ w ∈ db.workflows, ∀ i ∈ w.activeVersionId,
    ∃ v ∈ db.versions, v.id = i ∧ v.workflowId = w.id
  run_workflow : ∀ r ∈ db.runs, ∃ w ∈ db.workflows,
    w.id = r.workflowId ∧ w.organizationId = r.organizationId
  run_version : ∀ r ∈ db.runs, ∃ v ∈ db.versions,
    v.id = r.workflowVersionId ∧ v.workflowId = r.workflowId
  event_run : ∀ e ∈ db.events, ∃ r ∈ db.runs,
    r.id = e.runId ∧ r.organizationId = e.organizationId
  task_run : ∀ k ∈ db.tasks, ∃ r ∈ db.runs,
    r.id = k.task.runId ∧ r.organizationId = k.organizationId

/-- The public id is that of a user of the organization. -/
def IsMember (db : Db Value) (o : Nat) (publicId : String) : Prop :=
  ∃ u ∈ db.users, u.publicId = publicId ∧ u.organizationId = o

/-! ### Queries -/

section Queries

variable {db : Db Value} {o : Nat}

theorem getOrganization_only : (db.only o).getOrganization o = db.getOrganization o :=
  find?_filter_of_imp fun _ _ h => h

theorem getWorkflow_only (publicId : String) :
    (db.only o).getWorkflow publicId o = db.getWorkflow publicId o := by
  refine find?_filter_of_imp fun w _ h => ?_
  simp only [Bool.and_eq_true] at h
  exact h.1.2

theorem getRun_only (publicId : String) : (db.only o).getRun publicId o = db.getRun publicId o := by
  refine find?_filter_of_imp fun r _ h => ?_
  rw [Bool.and_eq_true] at h
  exact h.2

theorem scopedRuns_only (workflowId : Option Nat) :
    (db.only o).scopedRuns o workflowId = db.scopedRuns o workflowId := by
  refine filter_filter_of_imp fun r _ h => ?_
  rw [Bool.and_eq_true] at h
  exact h.1

theorem listExecutions_only (runId : Nat) :
    (db.only o).listExecutions runId o = db.listExecutions runId o := by
  refine congrArg (List.insertionSort _) (filter_filter_of_imp fun x _ h => ?_)
  rw [Bool.and_eq_true] at h
  exact h.2

theorem getByResumeToken_only (token : String) :
    (db.only o).getByResumeToken token o = db.getByResumeToken token o := by
  refine find?_filter_of_imp fun x _ h => ?_
  rw [Bool.and_eq_true] at h
  exact h.2

theorem listEvents_only (runId : Nat) : (db.only o).listEvents runId o = db.listEvents runId o := by
  refine congrArg (List.insertionSort _) (filter_filter_of_imp fun e _ h => ?_)
  rw [Bool.and_eq_true] at h
  exact h.2

theorem tokenTaken_only {token : String} {executionId : Nat}
    (h : ∀ x ∈ db.executions, x.row.resumeToken = some token → x.organizationId = o) :
    (db.only o).tokenTaken token executionId = db.tokenTaken token executionId := by
  refine any_filter_of_imp fun x hx htaken => ?_
  rw [Bool.and_eq_true] at htaken
  exact decide_eq_true (h x hx (of_decide_eq_true htaken.2))

namespace Tenanted

variable (h : db.Tenanted)
include h

/-- The user a member's public id finds is of the member's organization. -/
theorem user_organization {publicId : String} (hmember : db.IsMember o publicId) {u : User}
    (hu : u ∈ db.users) (hid : u.publicId = publicId) : u.organizationId = o := by
  obtain ⟨m, hm, hmid, hmo⟩ := hmember
  rw [List.inj_on_of_nodup_map h.users_nodup hu hm (hid.trans hmid.symm)]
  exact hmo

theorem getUser_only {publicId : String} (hmember : db.IsMember o publicId) :
    (db.only o).getUser publicId = db.getUser publicId := by
  refine find?_filter_of_imp fun u hu hfound => ?_
  rw [Bool.and_eq_true] at hfound
  exact decide_eq_true (h.user_organization hmember hu (of_decide_eq_true hfound.1))

/-- The workflow of a run belongs where the run belongs. -/
theorem workflowById_only {r : RunRecord Value} (hr : r ∈ db.runs) (ho : r.organizationId = o) :
    (db.only o).workflowById r.workflowId = db.workflowById r.workflowId := by
  obtain ⟨w, hw, hwid, hwo⟩ := h.run_workflow r hr
  refine find?_filter_of_imp fun w' hw' hid => ?_
  rw [List.inj_on_of_nodup_map h.workflows_nodup hw' hw ((of_decide_eq_true hid).trans hwid.symm)]
  exact decide_eq_true (hwo.trans ho)

/-- A version found by id belongs to the organization if the row with that id does. -/
theorem versionById_only {v : VersionRecord} (hv : v ∈ db.versions) (hown : db.owns o v) :
    (db.only o).versionById v.id = db.versionById v.id := by
  refine find?_filter_of_imp fun v' hv' hid => ?_
  rwa [List.inj_on_of_nodup_map h.versions_nodup hv' hv (of_decide_eq_true hid)]

theorem owns_active {w : Workflow} (hw : w ∈ db.workflows) (ho : w.organizationId = o) {i : Nat}
    (hi : w.activeVersionId = some i) : ∃ v ∈ db.versions, v.id = i ∧ db.owns o v := by
  obtain ⟨v, hv, hid, hworkflow⟩ := h.active w hw i hi
  exact ⟨v, hv, hid, List.any_eq_true.mpr ⟨w, hw, by simp [hworkflow, ho]⟩⟩

theorem owns_run {r : RunRecord Value} (hr : r ∈ db.runs) (ho : r.organizationId = o) :
    ∃ v ∈ db.versions, v.id = r.workflowVersionId ∧ db.owns o v := by
  obtain ⟨v, hv, hid, hworkflow⟩ := h.run_version r hr
  obtain ⟨w, hw, hwid, hwo⟩ := h.run_workflow r hr
  exact ⟨v, hv, hid, List.any_eq_true.mpr ⟨w, hw, by simp [hworkflow, hwid, hwo, ho]⟩⟩

theorem eventsOf_only {r : RunRecord Value} (hr : r ∈ db.runs) (ho : r.organizationId = o) :
    (db.only o).eventsOf r.id = db.eventsOf r.id := by
  refine congrArg (List.map _) (filter_filter_of_imp fun e he hrun => ?_)
  obtain ⟨r', hr', hid, horg⟩ := h.event_run e he
  have hsame : r' = r :=
    List.inj_on_of_nodup_map h.runs_nodup hr' hr (hid.trans (of_decide_eq_true hrun))
  exact decide_eq_true (by rw [← horg, hsame, ho])

/-- The outstanding tasks of a run belong where the run belongs. -/
theorem pendingKey_organization {r : RunRecord Value} (hr : r ∈ db.runs)
    (ho : r.organizationId = o) {k : TaskRecord} (hk : k ∈ db.tasks)
    (hkey : k.task.pendingKey = some r.id) : k.organizationId = o := by
  obtain ⟨r', hr', hid, horg⟩ := h.task_run k hk
  have hrun : k.task.runId = r.id := by
    unfold QueueTask.pendingKey at hkey
    split at hkey
    · exact Option.some.inj hkey
    · cases hkey
  have hsame : r' = r := List.inj_on_of_nodup_map h.runs_nodup hr' hr (hid.trans hrun)
  rw [← horg, hsame, ho]

end Tenanted

theorem graphs_only {v : VersionRecord} (hv : v ∈ db.versions) (hown : db.owns o v) :
    (db.only o).graphs v.id = db.graphs v.id :=
  if_pos (List.any_eq_true.mpr ⟨v, hv, by simp [hown]⟩)

end Queries

/-! ### Writes -/

/-- Some rows of one organization were written, and nothing else. -/
structure Confined (o : Nat) (db db' : Db Value) : Prop where
  tenanted : db'.Tenanted
  others : ∀ b, b ≠ o → db'.only b = db.only b
  organizations : db'.organizations = db.organizations

theorem Confined.refl {db : Db Value} (o : Nat) (h : db.Tenanted) : Confined o db db :=
  ⟨h, fun _ _ => rfl, rfl⟩

theorem Confined.trans {o : Nat} {db db' db'' : Db Value} (h : Confined o db db')
    (h' : Confined o db' db'') : Confined o db db'' :=
  ⟨h'.tenanted, fun b hb => (h'.others b hb).trans (h.others b hb),
    h'.organizations.trans h.organizations⟩

section Writes

variable {db : Db Value} {o : Nat}

theorem only_runs (runs : List (RunRecord Value)) :
    ({ db with runs } : Db Value).only o =
      { db.only o with runs := runs.filter fun r => r.organizationId = o } := rfl

theorem only_executions (executions : List (ExecutionRecord Value)) :
    ({ db with executions } : Db Value).only o =
      { db.only o with executions := executions.filter fun x => x.organizationId = o } := rfl

theorem only_events (events : List EventRecord) :
    ({ db with events } : Db Value).only o =
      { db.only o with events := events.filter fun e => e.organizationId = o } := rfl

theorem only_tasks (tasks : List TaskRecord) :
    ({ db with tasks } : Db Value).only o =
      { db.only o with tasks := tasks.filter fun k => k.organizationId = o } := rfl

theorem only_updateRun {f : RunRecord Value → RunRecord Value}
    (hf : ∀ r, (f r).organizationId = r.organizationId) :
    (db.updateRun f).only o = (db.only o).updateRun f := by
  have hruns : (db.runs.map f).filter (fun r => r.organizationId = o)
      = (db.runs.filter fun r => r.organizationId = o).map f :=
    filter_map_of_kept fun r => by rw [hf]
  refine (only_runs (db.runs.map f)).trans ?_
  rw [hruns]
  rfl

theorem only_updateExecutions {f : ExecutionRecord Value → ExecutionRecord Value}
    (hf : ∀ x, (f x).organizationId = x.organizationId) :
    (db.updateExecutions f).only o = (db.only o).updateExecutions f := by
  have hrows : (db.executions.map f).filter (fun x => x.organizationId = o)
      = (db.executions.filter fun x => x.organizationId = o).map f :=
    filter_map_of_kept fun x => by rw [hf]
  refine (only_executions (db.executions.map f)).trans ?_
  rw [hrows]
  rfl

theorem only_appendEvents {events : List EventRecord} (ho : ∀ e ∈ events, e.organizationId = o) :
    (db.appendEvents events).only o = (db.only o).appendEvents events := by
  refine (only_events (db.events ++ events)).trans ?_
  rw [filter_append_of_pos fun e he => decide_eq_true (ho e he)]
  rfl

/-- A refused or accepted run is so among the organization's own rows. -/
theorem only_insertRun {r : RunRecord Value} (ho : r.organizationId = o)
    (hfresh : ∀ other ∈ db.runs, other.organizationId ≠ o →
      other.id ≠ r.id ∧ other.publicId ≠ r.publicId) :
    (db.only o).insertRun r = (db.insertRun r).map fun db => db.only o := by
  have hused : ((db.only o).runs.any fun other => other.id = r.id || other.publicId = r.publicId)
      = db.runs.any fun other => other.id = r.id || other.publicId = r.publicId := by
    refine any_filter_of_imp fun other hmem hsame => ?_
    by_contra hother
    obtain ⟨hid, hpublic⟩ := hfresh other hmem fun hc => hother (decide_eq_true hc)
    simp [hid, hpublic] at hsame
  unfold insertRun
  rw [hused]
  split
  · rfl
  · refine congrArg Except.ok ((only_runs (db.runs ++ [r])).trans ?_).symm
    rw [filter_append_of_pos]
    · rfl
    · exact List.forall_mem_singleton.mpr (decide_eq_true ho)

theorem mem_insertExecution {x other : ExecutionRecord Value} {db' : Db Value}
    (hok : db.insertExecution x = .ok db') (hmem : other ∈ db'.executions) :
    other ∈ db.executions ∨ other = x := by
  unfold insertExecution at hok
  split at hok
  · cases hok
  · obtain rfl := Except.ok.inj hok
    exact (List.mem_append.mp hmem).imp_right List.mem_singleton.mp

theorem only_insertExecution {x : ExecutionRecord Value} (ho : x.organizationId = o)
    (hfresh : ∀ other ∈ db.executions, other.organizationId ≠ o →
      other.id ≠ x.id ∧ other.publicId ≠ x.publicId) :
    (db.only o).insertExecution x = (db.insertExecution x).map fun db => db.only o := by
  have hused : ((db.only o).executions.any fun other =>
      other.id = x.id || other.publicId = x.publicId)
      = db.executions.any fun other => other.id = x.id || other.publicId = x.publicId := by
    refine any_filter_of_imp fun other hmem hsame => ?_
    by_contra hother
    obtain ⟨hid, hpublic⟩ := hfresh other hmem fun hc => hother (decide_eq_true hc)
    simp [hid, hpublic] at hsame
  unfold insertExecution
  rw [hused]
  split
  · rfl
  · refine congrArg Except.ok ((only_executions (db.executions ++ [x])).trans ?_).symm
    rw [filter_append_of_pos]
    · rfl
    · exact List.forall_mem_singleton.mpr (decide_eq_true ho)

theorem insertExecutions_cons (x : ExecutionRecord Value) (rest : List (ExecutionRecord Value)) :
    db.insertExecutions (x :: rest)
      = db.insertExecution x >>= fun db => db.insertExecutions rest := rfl

theorem only_insertExecutions {xs : List (ExecutionRecord Value)}
    (ho : ∀ x ∈ xs, x.organizationId = o)
    (hfresh : ∀ x ∈ xs, ∀ other ∈ db.executions, other.organizationId ≠ o →
      other.id ≠ x.id ∧ other.publicId ≠ x.publicId) :
    (db.only o).insertExecutions xs = (db.insertExecutions xs).map fun db => db.only o := by
  induction xs generalizing db with
  | nil => rfl
  | cons x rest ih =>
      rw [insertExecutions_cons, insertExecutions_cons,
        only_insertExecution (ho x List.mem_cons_self) (hfresh x List.mem_cons_self)]
      cases hok : db.insertExecution x with
      | error e => rfl
      | ok db' =>
          refine ih (fun y hy => ho y (List.mem_cons_of_mem x hy)) fun y hy other hmem hother => ?_
          rcases mem_insertExecution hok hmem with hmem | rfl
          · exact hfresh y (List.mem_cons_of_mem x hy) other hmem hother
          · exact absurd (ho other List.mem_cons_self) hother

theorem only_enqueue {id runId runAfter : Nat}
    (hfresh : ∀ k ∈ db.tasks, k.organizationId ≠ o → k.task.id ≠ id)
    (hrun : ∀ k ∈ db.tasks, k.task.pendingKey = some runId → k.organizationId = o) :
    (db.enqueue id runId o runAfter).only o = (db.only o).enqueue id runId o runAfter := by
  have hused : ((db.only o).tasks.any fun k => k.task.id = id || k.task.pendingKey = some runId)
      = db.tasks.any fun k => k.task.id = id || k.task.pendingKey = some runId := by
    refine any_filter_of_imp fun k hk hsame => ?_
    rw [Bool.or_eq_true] at hsame
    refine decide_eq_true ?_
    rcases hsame with hid | hkey
    · by_contra hother
      exact hfresh k hk hother (of_decide_eq_true hid)
    · exact hrun k hk (of_decide_eq_true hkey)
  unfold enqueue
  rw [hused]
  split
  · rfl
  · refine (only_tasks (db.tasks ++ [_])).trans ?_
    rw [filter_append_of_pos]
    · rfl
    · exact List.forall_mem_singleton.mpr (decide_eq_true rfl)

theorem only_finishOutstanding {runId organizationId : Nat} :
    (db.finishOutstanding runId organizationId).only o
      = (db.only o).finishOutstanding runId organizationId := by
  refine (only_tasks (db.tasks.map _)).trans ?_
  rw [filter_map_of_kept fun k => ?_]
  · rfl
  · split <;> rfl

/-! Written rows stay within their organization -/

namespace Tenanted

variable (h : db.Tenanted)
include h

theorem updateRun {f : RunRecord Value → RunRecord Value}
    (hf : ∀ r, (f r).id = r.id ∧ (f r).organizationId = r.organizationId ∧
      (f r).workflowId = r.workflowId ∧ (f r).workflowVersionId = r.workflowVersionId)
    (hown : ∀ r ∈ db.runs, r.organizationId ≠ o → f r = r) : Confined o db (db.updateRun f) where
  tenanted :=
    have hrefer : ∀ id organization, (∃ r ∈ db.runs, r.id = id ∧ r.organizationId = organization) →
        ∃ r ∈ db.runs.map f, r.id = id ∧ r.organizationId = organization := by
      intro id organization hr
      obtain ⟨r, hr, hid, ho⟩ := hr
      exact ⟨f r, List.mem_map_of_mem hr, (hf r).1.trans hid, (hf r).2.1.trans ho⟩
    { h with
      runs_nodup := by
        have hids : (db.runs.map f).map RunRecord.id = db.runs.map RunRecord.id := by
          rw [List.map_map]
          exact List.map_congr_left fun r _ => (hf r).1
        exact hids ▸ h.runs_nodup
      run_workflow := by
        intro r' hr'
        obtain ⟨r, hr, rfl⟩ := List.mem_map.mp hr'
        rw [(hf r).2.2.1, (hf r).2.1]
        exact h.run_workflow r hr
      run_version := by
        intro r' hr'
        obtain ⟨r, hr, rfl⟩ := List.mem_map.mp hr'
        rw [(hf r).2.2.2, (hf r).2.2.1]
        exact h.run_version r hr
      event_run := fun e he => hrefer _ _ (h.event_run e he)
      task_run := fun k hk => hrefer _ _ (h.task_run k hk) }
  others b hb := by
    rw [only_updateRun fun r => (hf r).2.1]
    have hsame : ((db.only b).runs.map f) = (db.only b).runs := by
      refine (List.map_congr_left fun r hr => ?_).trans (List.map_id _)
      obtain ⟨hmem, hro⟩ := List.mem_filter.mp hr
      exact hown r hmem fun hc => hb ((of_decide_eq_true hro).symm.trans hc)
    show { db.only b with runs := (db.only b).runs.map f } = db.only b
    rw [hsame]
  organizations := rfl

theorem updateExecutions {f : ExecutionRecord Value → ExecutionRecord Value}
    (hf : ∀ x, (f x).id = x.id ∧ (f x).organizationId = x.organizationId)
    (hown : ∀ x ∈ db.executions, x.organizationId ≠ o → f x = x) :
    Confined o db (db.updateExecutions f) where
  tenanted :=
    { h with
      executions_nodup := by
        have hids : (db.executions.map f).map ExecutionRecord.id
            = db.executions.map ExecutionRecord.id := by
          rw [List.map_map]
          exact List.map_congr_left fun x _ => (hf x).1
        exact hids ▸ h.executions_nodup }
  others b hb := by
    rw [only_updateExecutions fun x => (hf x).2]
    have hsame : ((db.only b).executions.map f) = (db.only b).executions := by
      refine (List.map_congr_left fun x hx => ?_).trans (List.map_id _)
      obtain ⟨hmem, hxo⟩ := List.mem_filter.mp hx
      exact hown x hmem fun hc => hb ((of_decide_eq_true hxo).symm.trans hc)
    show { db.only b with executions := (db.only b).executions.map f } = db.only b
    rw [hsame]
  organizations := rfl

theorem appendEvents {events : List EventRecord}
    (hown : ∀ e ∈ events, e.organizationId = o ∧
      ∃ r ∈ db.runs, r.id = e.runId ∧ r.organizationId = o) :
    Confined o db (db.appendEvents events) where
  tenanted :=
    { h with
      event_run := by
        intro e he
        rcases List.mem_append.mp he with he | he
        · exact h.event_run e he
        · obtain ⟨ho, r, hr, hid, hro⟩ := hown e he
          exact ⟨r, hr, hid, hro.trans ho.symm⟩ }
  others b hb := by
    refine (only_events (db.events ++ events)).trans ?_
    rw [filter_append_of_neg fun e he hc => hb ((of_decide_eq_true hc).symm.trans (hown e he).1)]
    rfl
  organizations := rfl

theorem insertRun {r : RunRecord Value} {db' : Db Value} (ho : r.organizationId = o)
    (hworkflow : ∃ w ∈ db.workflows, w.id = r.workflowId ∧ w.organizationId = r.organizationId)
    (hversion : ∃ v ∈ db.versions, v.id = r.workflowVersionId ∧ v.workflowId = r.workflowId)
    (hok : db.insertRun r = .ok db') :
    Confined o db db' ∧ db'.runs = db.runs ++ [r] ∧ db'.versions = db.versions ∧
      db'.workflows = db.workflows := by
  unfold Db.insertRun at hok
  split at hok
  · cases hok
  · rename_i hfresh
    obtain rfl := Except.ok.inj hok
    have hnew : ∀ other ∈ db.runs, other.id ≠ r.id := by
      intro other hmem hid
      exact hfresh (List.any_eq_true.mpr ⟨other, hmem, by simp [hid]⟩)
    have hrefer : ∀ id organization, (∃ r ∈ db.runs, r.id = id ∧ r.organizationId = organization) →
        ∃ r' ∈ db.runs ++ [r], r'.id = id ∧ r'.organizationId = organization := by
      intro id organization hr
      obtain ⟨r', hr', hsame⟩ := hr
      exact ⟨r', List.mem_append_left _ hr', hsame⟩
    refine ⟨⟨?_, ?_, rfl⟩, rfl, rfl, rfl⟩
    · exact
        { h with
          runs_nodup := by
            show ((db.runs ++ [r]).map RunRecord.id).Nodup
            rw [List.map_append, List.nodup_append]
            refine ⟨h.runs_nodup, List.nodup_singleton _, ?_⟩
            intro i hi j hj hij
            obtain ⟨other, hmem, rfl⟩ := List.mem_map.mp hi
            exact hnew other hmem (hij.trans (List.mem_singleton.mp hj))
          run_workflow := by
            intro r' hr'
            rcases List.mem_append.mp hr' with hr' | hr'
            · exact h.run_workflow r' hr'
            · rw [List.mem_singleton.mp hr']
              exact hworkflow
          run_version := by
            intro r' hr'
            rcases List.mem_append.mp hr' with hr' | hr'
            · exact h.run_version r' hr'
            · rw [List.mem_singleton.mp hr']
              exact hversion
          event_run := fun e he => hrefer _ _ (h.event_run e he)
          task_run := fun k hk => hrefer _ _ (h.task_run k hk) }
    · intro b hb
      refine (only_runs (db.runs ++ [r])).trans ?_
      rw [filter_append_of_neg (List.forall_mem_singleton.mpr fun hc =>
        hb ((of_decide_eq_true hc).symm.trans ho))]
      rfl

theorem insertExecution {x : ExecutionRecord Value} {db' : Db Value} (ho : x.organizationId = o)
    (hok : db.insertExecution x = .ok db') : Confined o db db' ∧ db'.runs = db.runs := by
  unfold Db.insertExecution at hok
  split at hok
  · cases hok
  · rename_i hfresh
    obtain rfl := Except.ok.inj hok
    have hnew : ∀ other ∈ db.executions, other.id ≠ x.id := by
      intro other hmem hid
      exact hfresh (List.any_eq_true.mpr ⟨other, hmem, by simp [hid]⟩)
    refine ⟨⟨?_, ?_, rfl⟩, rfl⟩
    · exact
        { h with
          executions_nodup := by
            show ((db.executions ++ [x]).map ExecutionRecord.id).Nodup
            rw [List.map_append, List.nodup_append]
            refine ⟨h.executions_nodup, List.nodup_singleton _, ?_⟩
            intro i hi j hj hij
            obtain ⟨other, hmem, rfl⟩ := List.mem_map.mp hi
            exact hnew other hmem (hij.trans (List.mem_singleton.mp hj)) }
    · intro b hb
      refine (only_executions (db.executions ++ [x])).trans ?_
      rw [filter_append_of_neg (List.forall_mem_singleton.mpr fun hc =>
        hb ((of_decide_eq_true hc).symm.trans ho))]
      rfl

theorem insertExecutions {xs : List (ExecutionRecord Value)} {db' : Db Value}
    (ho : ∀ x ∈ xs, x.organizationId = o) (hok : db.insertExecutions xs = .ok db') :
    Confined o db db' ∧ db'.runs = db.runs := by
  induction xs generalizing db with
  | nil =>
      obtain rfl := Except.ok.inj hok
      exact ⟨Confined.refl o h, rfl⟩
  | cons x rest ih =>
      rw [insertExecutions_cons] at hok
      cases hx : db.insertExecution x with
      | error e =>
          rw [hx] at hok
          cases hok
      | ok db₁ =>
          rw [hx] at hok
          obtain ⟨hconfined, hruns⟩ := h.insertExecution (ho x List.mem_cons_self) hx
          obtain ⟨hconfined', hruns'⟩ :=
            ih hconfined.tenanted (fun y hy => ho y (List.mem_cons_of_mem x hy)) hok
          exact ⟨hconfined.trans hconfined', hruns'.trans hruns⟩

theorem enqueue {id runId runAfter : Nat}
    (hrun : ∃ r ∈ db.runs, r.id = runId ∧ r.organizationId = o) :
    Confined o db (db.enqueue id runId o runAfter) := by
  unfold Db.enqueue
  split
  · exact Confined.refl o h
  · refine ⟨?_, ?_, rfl⟩
    · exact
        { h with
          task_run := by
            intro k hk
            rcases List.mem_append.mp hk with hk | hk
            · exact h.task_run k hk
            · rw [List.mem_singleton.mp hk]
              exact hrun }
    · intro b hb
      refine (only_tasks (db.tasks ++ [_])).trans ?_
      rw [filter_append_of_neg (List.forall_mem_singleton.mpr fun hc =>
        hb (of_decide_eq_true hc).symm)]
      rfl

theorem finishOutstanding {runId : Nat} : Confined o db (db.finishOutstanding runId o) where
  tenanted :=
    { h with
      task_run := by
        intro k' hk'
        obtain ⟨k, hk, rfl⟩ := List.mem_map.mp hk'
        split
        · exact h.task_run k hk
        · exact h.task_run k hk }
  others b hb := by
    rw [only_finishOutstanding]
    have hsame : ((db.only b).finishOutstanding runId o).tasks = (db.only b).tasks := by
      refine (List.map_congr_left fun k hk => ?_).trans (List.map_id _)
      obtain ⟨-, hko⟩ := List.mem_filter.mp hk
      rw [if_neg]
      · rfl
      · simp only [Bool.and_eq_true, decide_eq_true_eq]
        exact fun hc => hb ((of_decide_eq_true hko).symm.trans hc.1.2)
    show { db.only b with tasks := ((db.only b).finishOutstanding runId o).tasks } = db.only b
    rw [hsame]
  organizations := rfl

end Tenanted

end Writes

end Db

end Tenancy

end Orqent
