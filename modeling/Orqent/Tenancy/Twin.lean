/-
Two runs that an organization cannot tell apart.

`Twin` relates the runs of one operation from two databases that hold the same rows of
the caller's organization.  On each side what was written so far is confined to that
organization; between the sides its rows stay the same.  A statement keeps the relation
if it is right on one side: a query has to give what it gives on the organization's own
rows, a write has to commute with keeping only those, and to be confined.  Those are the
facts of `Tenancy/Ownership`.  What a transaction knows about the rows it has loaded is
the predicate `p`, which holds on both sides.
-/
import Orqent.Tenancy.Ownership
import Orqent.Tenancy.RunService

namespace Orqent

namespace Tenancy

open TwoRun

variable {Value : Type}

/-- No other organization's row has an id that is given out, or holds a token that a runner
returns for this organization, whose public id is `name`. -/
structure RunPorts.Fresh (P : RunPorts Value) (o : Nat) (name : String) (db : Db Value) : Prop where
  publicId : ∀ organization, db.getOrganization o = some organization → organization.publicId = name
  run : ∀ r ∈ db.runs, r.organizationId ≠ o → ∀ n, r.id ≠ P.runId n ∧ r.publicId ≠ P.runPublicId n
  execution : ∀ x ∈ db.executions, x.organizationId ≠ o →
    ∀ n i, x.id ≠ P.executionId n i ∧ x.publicId ≠ P.executionPublicId n i
  task : ∀ k ∈ db.tasks, k.organizationId ≠ o → ∀ n, k.task.id ≠ P.taskId n
  token : ∀ x ∈ db.executions, x.organizationId ≠ o → ∀ nodeType version context token hint,
    context.organizationPublicId = name →
      P.runner nodeType version context = .returned (.suspended token hint) →
        x.row.resumeToken ≠ some token

/-- It is about the rows of the others. -/
theorem RunPorts.Fresh.of_confined {P : RunPorts Value} {o : Nat} {name : String}
    {db db' : Db Value} (h : P.Fresh o name db) (hconfined : Db.Confined o db db') :
    P.Fresh o name db' where
  publicId organization hfound := by
    refine h.publicId organization ?_
    unfold Db.getOrganization at hfound ⊢
    rw [← hconfined.organizations]
    exact hfound
  run r hr ho := by
    have hmem : r ∈ (db'.only r.organizationId).runs :=
      List.mem_filter.mpr ⟨hr, decide_eq_true rfl⟩
    rw [hconfined.others _ ho] at hmem
    exact h.run r (List.mem_filter.mp hmem).1 ho
  execution x hx ho := by
    have hmem : x ∈ (db'.only x.organizationId).executions :=
      List.mem_filter.mpr ⟨hx, decide_eq_true rfl⟩
    rw [hconfined.others _ ho] at hmem
    exact h.execution x (List.mem_filter.mp hmem).1 ho
  task k hk ho := by
    have hmem : k ∈ (db'.only k.organizationId).tasks :=
      List.mem_filter.mpr ⟨hk, decide_eq_true rfl⟩
    rw [hconfined.others _ ho] at hmem
    exact h.task k (List.mem_filter.mp hmem).1 ho
  token x hx ho := by
    have hmem : x ∈ (db'.only x.organizationId).executions :=
      List.mem_filter.mpr ⟨hx, decide_eq_true rfl⟩
    rw [hconfined.others _ ho] at hmem
    exact h.token x (List.mem_filter.mp hmem).1 ho

/-- The rows of one side: what was written to `db₀`, and what is known of it. -/
structure Side (P : RunPorts Value) (o : Nat) (name : String) (p : Db Value → Prop)
    (db₀ db : Db Value) : Prop where
  confined : Db.Confined o db₀ db
  fresh : P.Fresh o name db
  holds : p db

/-- Both sides, with the same rows of the organization. -/
structure Twin (P : RunPorts Value) (o : Nat) (name : String) (s₀ t₀ : Db Value)
    (p : Db Value → Prop) (s t : World Value) : Prop where
  left : Side P o name p s₀ s.db
  right : Side P o name p t₀ t.db
  own : s.db.only o = t.db.only o
  drawn : s.drawn = t.drawn

section Statements

variable {P : RunPorts Value} {o : Nat} {name : String} {s₀ t₀ : Db Value} {p q : Db Value → Prop}
  {α : Type}

theorem Side.imp {db₀ db : Db Value} (h : Side P o name p db₀ db) (hp : p db → q db) :
    Side P o name q db₀ db := ⟨h.confined, h.fresh, hp h.holds⟩

theorem Side.step {db₀ db db' : Db Value} (h : Side P o name p db₀ db)
    (hconfined : Db.Confined o db db') (hq : q db') : Side P o name q db₀ db' :=
  ⟨h.confined.trans hconfined, h.fresh.of_confined hconfined, hq⟩

theorem Twin.imp {s t : World Value} (h : Twin P o name s₀ t₀ p s t) (hp : ∀ db, p db → q db) :
    Twin P o name s₀ t₀ q s t :=
  ⟨h.left.imp (hp _), h.right.imp (hp _), h.own, h.drawn⟩

/-- What depends on the organization's own rows is the same on both sides. -/
theorem Twin.same {f f' : Db Value → α} {s t : World Value} (h : Twin P o name s₀ t₀ p s t)
    (hf : ∀ db, db.Tenanted → P.Fresh o name db → p db → f (db.only o) = f' db) :
    f' s.db = f' t.db := by
  rw [← hf s.db h.left.confined.tenanted h.left.fresh h.left.holds, h.own,
    hf t.db h.right.confined.tenanted h.right.fresh h.right.holds]

/-- A query that gives what it gives on the organization's own rows. -/
theorem twin_ask {f : Db Value → α} {q : α → Db Value → Prop}
    (hf : ∀ db, db.Tenanted → P.Fresh o name db → p db → f (db.only o) = f db)
    (hq : ∀ db, p db → q (f db) db) :
    Same (Twin P o name s₀ t₀ p) (ask f) fun a => Twin P o name s₀ t₀ (q a) := by
  refine same_ask (fun s t h => congrArg Except.ok (h.same hf)) fun s t a h ha => ?_
  obtain rfl := Except.ok.inj ha
  exact ⟨h.left.imp (hq _), h.right.imp fun hp => h.same hf ▸ hq _ hp, h.own, h.drawn⟩

theorem twin_find {f : Db Value → Option α} {e : RunError} {q : α → Db Value → Prop}
    (hf : ∀ db, db.Tenanted → P.Fresh o name db → p db → f (db.only o) = f db)
    (hq : ∀ db a, db.Tenanted → P.Fresh o name db → p db → f db = some a → q a db) :
    Same (Twin P o name s₀ t₀ p) (find f e) fun a => Twin P o name s₀ t₀ (q a) := by
  refine same_ask (fun s t h => by rw [h.same hf]) fun s t a h ha => ?_
  have hs : f s.db = some a := by
    cases hfound : f s.db with
    | none => rw [hfound] at ha; cases ha
    | some b => rw [hfound] at ha; rw [Except.ok.inj ha]
  have ht : f t.db = some a := (h.same hf).symm.trans hs
  exact ⟨h.left.imp fun hp => hq _ a h.left.confined.tenanted h.left.fresh hp hs,
    h.right.imp fun hp => hq _ a h.right.confined.tenanted h.right.fresh hp ht, h.own, h.drawn⟩

theorem twin_read {f : Db Value → α}
    (hf : ∀ db, db.Tenanted → P.Fresh o name db → p db → f (db.only o) = f db) :
    Same (Twin P o name s₀ t₀ p) (ask f) fun _ => Twin P o name s₀ t₀ p :=
  twin_ask hf fun _ hp => hp

theorem twin_look {f : Db Value → Option α} {e : RunError}
    (hf : ∀ db, db.Tenanted → P.Fresh o name db → p db → f (db.only o) = f db) :
    Same (Twin P o name s₀ t₀ p) (find f e) fun _ => Twin P o name s₀ t₀ p :=
  twin_find hf fun _ _ _ _ hp _ => hp

/-- A write that is made to the organization's own rows. -/
theorem twin_write {g : Db Value → Db Value}
    (hg : ∀ db, db.Tenanted → P.Fresh o name db → p db → (g db).only o = g (db.only o))
    (hconfined : ∀ db, db.Tenanted → p db → Db.Confined o db (g db))
    (hkept : ∀ db, p db → p (g db)) :
    Same (Twin P o name s₀ t₀ p) (write g) fun _ => Twin P o name s₀ t₀ p := by
  refine same_write fun s t h => ?_
  have hs := hconfined s.db h.left.confined.tenanted h.left.holds
  have ht := hconfined t.db h.right.confined.tenanted h.right.holds
  exact ⟨h.left.step hs (hkept _ h.left.holds), h.right.step ht (hkept _ h.right.holds),
    h.same fun db htenanted hfresh hp => (hg db htenanted hfresh hp).symm, h.drawn⟩

theorem twin_insert {g : Db Value → Except EngineError (Db Value)}
    (hg : ∀ db, db.Tenanted → P.Fresh o name db → p db →
      g (db.only o) = (g db).map fun db => db.only o)
    (hq : ∀ db db', db.Tenanted → p db → g db = .ok db' → Db.Confined o db db' ∧ q db') :
    Same (Twin P o name s₀ t₀ p) (insert g) fun _ => Twin P o name s₀ t₀ q := by
  intro s t h
  have hsame : (g s.db).map (fun db => db.only o) = (g t.db).map fun db => db.only o := h.same hg
  unfold insert
  cases hs : g s.db with
  | error e =>
      cases ht : g t.db with
      | error e' =>
          rw [hs, ht] at hsame
          obtain rfl := Except.error.inj hsame
          exact .inl ⟨.engine e, rfl, rfl⟩
      | ok t' =>
          rw [hs, ht] at hsame
          cases hsame
  | ok s' =>
      cases ht : g t.db with
      | error e' =>
          rw [hs, ht] at hsame
          cases hsame
      | ok t' =>
          rw [hs, ht] at hsame
          obtain ⟨hconfined, hleft⟩ := hq s.db s' h.left.confined.tenanted h.left.holds hs
          obtain ⟨hconfined', hright⟩ := hq t.db t' h.right.confined.tenanted h.right.holds ht
          exact .inr ⟨(), _, _, rfl, rfl, h.left.step hconfined hleft,
            h.right.step hconfined' hright, Except.ok.inj hsame, h.drawn⟩

theorem twin_draw : Same (Twin P o name s₀ t₀ p) draw fun _ => Twin P o name s₀ t₀ p := by
  intro s t h
  refine .inr ⟨s.drawn, ⟨s.db, s.drawn + 1⟩, ⟨t.db, t.drawn + 1⟩, rfl, ?_, h.left, h.right, h.own,
    congrArg (· + 1) h.drawn⟩
  rw [h.drawn]
  rfl

theorem twin_engine (x : Except EngineError α) :
    Same (Twin P o name s₀ t₀ p) (engine x) fun _ => Twin P o name s₀ t₀ p :=
  same_lift fun _ _ _ h _ => h

theorem twin_require {c : Prop} [Decidable c] (e : RunError) :
    Same (Twin P o name s₀ t₀ p) (require c e) fun _ => Twin P o name s₀ t₀ p :=
  same_require fun _ _ h _ => h

/-- What is known on both sides apart from the rows may be used. -/
theorem twin_and {c : Prop} {m : Txn Value α} {Q : α → World Value → World Value → Prop}
    (h : c → Same (Twin P o name s₀ t₀ p) m Q) :
    Same (Twin P o name s₀ t₀ fun db => c ∧ p db) m Q :=
  fun s t hst => h hst.left.holds.1 s t (hst.imp fun _ hp => hp.2)

end Statements

/-! ### Shared steps -/

section Steps

variable {P : RunPorts Value} {o : Nat} {name : String} {s₀ t₀ : Db Value} {p : Db Value → Prop}

/-- A run of the organization. -/
def HasRun (o : Nat) (r : RunRecord Value) (db : Db Value) : Prop :=
  r ∈ db.runs ∧ r.organizationId = o

theorem twin_callerOrganization {caller : String} :
    Same (Twin P o name s₀ t₀ fun db => db.IsMember o caller) (callerOrganization caller)
      fun i => Twin P o name s₀ t₀ fun _ => i = o ∧ True := by
  refine same_bind (Q := fun u => Twin P o name s₀ t₀ fun _ => u.organizationId = o)
    (twin_find ?_ ?_) fun u => same_pure fun _ _ h => h.imp fun _ hp => ⟨hp, trivial⟩
  · intro db htenanted _ hmember
    exact htenanted.getUser_only hmember
  · intro db u htenanted _ hmember hfound
    have hid := List.find?_some hfound
    rw [Bool.and_eq_true] at hid
    exact htenanted.user_organization hmember (List.mem_of_find?_eq_some hfound)
      (of_decide_eq_true hid.1)

theorem twin_runOf (runPublicId : String) :
    Same (Twin P o name s₀ t₀ p) (runOf o runPublicId) fun r =>
      Twin P o name s₀ t₀ (HasRun o r) := by
  refine twin_find (fun db _ _ _ => Db.getRun_only runPublicId) fun db r _ _ _ hfound => ⟨?_, ?_⟩
  · exact List.mem_of_find?_eq_some hfound
  · have horg := List.find?_some hfound
    rw [Bool.and_eq_true] at horg
    exact of_decide_eq_true horg.2

theorem twin_workflowOf (workflowPublicId : String) :
    Same (Twin P o name s₀ t₀ p) (workflowOf o workflowPublicId) fun w =>
      Twin P o name s₀ t₀ fun db => w ∈ db.workflows ∧ w.organizationId = o := by
  refine twin_find (fun db _ _ _ => Db.getWorkflow_only workflowPublicId)
    fun db w _ _ _ hfound => ?_
  have horg := List.find?_some hfound
  simp only [Bool.and_eq_true] at horg
  exact ⟨List.mem_of_find?_eq_some hfound, of_decide_eq_true horg.1.2⟩

theorem twin_organizationPublicIdOf :
    Same (Twin P o name s₀ t₀ p) (organizationPublicIdOf o) fun found =>
      Twin P o name s₀ t₀ fun db => found = name ∧ p db :=
  same_bind
    (Q := fun organization => Twin P o name s₀ t₀ fun db => organization.publicId = name ∧ p db)
    (twin_find (fun _ _ _ _ => Db.getOrganization_only)
      fun _ organization _ hfresh hp hfound => ⟨hfresh.publicId organization hfound, hp⟩)
    fun _ => same_pure fun _ _ h => h

/-- The version a run will pin is the workflow's. -/
theorem twin_publishedVersion {w : Workflow} :
    Same (Twin P o name s₀ t₀ fun db => w ∈ db.workflows ∧ w.organizationId = o)
      (publishedVersion w) fun v => Twin P o name s₀ t₀ fun db =>
        (w ∈ db.workflows ∧ w.organizationId = o) ∧ v ∈ db.versions ∧ v.workflowId = w.id := by
  unfold publishedVersion
  refine same_bind (Q := fun i => Twin P o name s₀ t₀ fun db =>
    w.activeVersionId = some i ∧ w ∈ db.workflows ∧ w.organizationId = o)
    (twin_find (fun _ _ _ _ => rfl) fun _ _ _ _ hp hi => ⟨hi, hp⟩) fun i => ?_
  refine twin_and fun hi => ?_
  refine same_bind (Q := fun v => Twin P o name s₀ t₀ fun db =>
    (w ∈ db.workflows ∧ w.organizationId = o) ∧ v ∈ db.versions ∧ v.workflowId = w.id)
    (twin_find ?_ ?_) fun v => ?_
  · intro db htenanted _ hw
    obtain ⟨v, hv, rfl, hown⟩ := htenanted.owns_active hw.1 hw.2 hi
    exact htenanted.versionById_only hv hown
  · intro db v htenanted _ hw hfound
    have hv := List.mem_of_find?_eq_some hfound
    have hvid := List.find?_some hfound
    obtain ⟨v', hv', hid, hworkflow⟩ := htenanted.active w hw.1 i hi
    have hsame : v = v' := List.inj_on_of_nodup_map htenanted.versions_nodup hv hv'
      ((of_decide_eq_true hvid).trans hid.symm)
    exact ⟨hw, hv, hsame ▸ hworkflow⟩
  · exact same_bind (twin_require _) fun _ => same_pure fun _ _ h => h

/-- The rows of the version a run pins are the organization's. -/
theorem graphs_only_run {db : Db Value} (h : db.Tenanted) {r : RunRecord Value}
    (hr : HasRun o r db) :
    (db.only o).graphs r.workflowVersionId = db.graphs r.workflowVersionId := by
  obtain ⟨v, hv, hid, hown⟩ := h.owns_run hr.1 hr.2
  rw [← hid]
  exact Db.graphs_only hv hown

end Steps

/-! ### Loading and saving -/

/-- The rows were loaded from the organization's. -/
structure Loaded.Of (l : Loaded Value) (o : Nat) (db : Db Value) : Prop where
  organization : l.run.organizationId = o
  run : ∃ r ∈ db.runs, r.id = l.run.id ∧ r.organizationId = o
  executions : ∀ x ∈ l.executions, ∃ y ∈ db.executions, y.id = x.id ∧ y.organizationId = o

section Loading

variable {P : RunPorts Value} {o : Nat} {name : String} {s₀ t₀ db : Db Value} {l : Loaded Value}

theorem savedExecution_kept (l : Loaded Value) (rows : RunRows Value) (x : ExecutionRecord Value) :
    (l.savedExecution rows x).id = x.id ∧
      (l.savedExecution rows x).organizationId = x.organizationId := by
  unfold Loaded.savedExecution
  split
  · exact ⟨rfl, rfl⟩
  · exact ⟨rfl, rfl⟩

theorem savedExecution_of_other (h : db.Tenanted) (hl : l.Of o db) (rows : RunRows Value)
    {x : ExecutionRecord Value} (hx : x ∈ db.executions) (ho : x.organizationId ≠ o) :
    l.savedExecution rows x = x := by
  unfold Loaded.savedExecution
  split
  · rename_i e he
    have hid : e.2.id = x.id := by simpa using List.find?_some he
    obtain ⟨y, hy, hyid, hyo⟩ := hl.executions e.2 (l.mem_byKey (List.mem_of_find?_eq_some he))
    rw [List.inj_on_of_nodup_map h.executions_nodup hy hx (hyid.trans hid)] at hyo
    exact absurd hyo ho
  · rfl

theorem newEvents_organization (ho : l.run.organizationId = o) (now : Time) (rows : RunRows Value) :
    ∀ e ∈ l.newEvents now rows, e.organizationId = o := by
  intro e he
  obtain ⟨event, -, rfl⟩ := List.mem_map.mp he
  exact ho

theorem Loaded.Of.updateExecutions (hl : l.Of o db) (rows : RunRows Value) :
    l.Of o (db.updateExecutions (l.savedExecution rows)) := by
  refine ⟨hl.organization, hl.run, fun x hx => ?_⟩
  obtain ⟨y, hy, hid, ho⟩ := hl.executions x hx
  have hkept := savedExecution_kept l rows y
  exact ⟨_, List.mem_map_of_mem hy, hkept.1.trans hid, hkept.2.trans ho⟩

/-- The task that is enqueued or done with is the organization's. -/
theorem twin_queued (n : Nat) (now : Time) (op : QueueOp) :
    Same (Twin P o name s₀ t₀ (l.Of o)) (write (l.queued (P.taskId n) now op))
      fun _ => Twin P o name s₀ t₀ (l.Of o) := by
  cases op with
  | enqueue =>
      refine twin_write (fun db h hfresh hl => ?_) (fun db h hl => ?_) fun db hl => ?_
      · show (db.enqueue _ _ l.run.organizationId _).only o = (db.only o).enqueue _ _ _ _
        rw [hl.organization]
        refine Db.only_enqueue (fun k hk ho => hfresh.task k hk ho n) fun k hk hkey => ?_
        obtain ⟨r, hr, hid, ho⟩ := hl.run
        exact h.pendingKey_organization hr ho hk (hkey.trans (congrArg some hid.symm))
      · show Db.Confined o db (db.enqueue (P.taskId n) l.run.id l.run.organizationId now)
        rw [hl.organization]
        exact h.enqueue hl.run
      · refine ⟨hl.organization, ?_, ?_⟩
        · exact (db.runs_enqueue _ _ _ _).symm ▸ hl.run
        · exact (db.executions_enqueue _ _ _ _).symm ▸ hl.executions
  | finishOutstanding =>
      refine twin_write (fun db _ _ _ => Db.only_finishOutstanding) (fun db h hl => ?_)
        fun db hl => ?_
      · show Db.Confined o db (db.finishOutstanding l.run.id l.run.organizationId)
        rw [hl.organization]
        exact h.finishOutstanding
      · exact ⟨hl.organization, hl.run, hl.executions⟩

section

variable [DecidableEq Value]

theorem twin_load {r : RunRecord Value} :
    Same (Twin P o name s₀ t₀ (HasRun o r)) (load r o) fun l => Twin P o name s₀ t₀ (l.Of o) := by
  unfold load
  refine same_bind (Q := fun xs => Twin P o name s₀ t₀ fun db =>
    HasRun o r db ∧ ∀ x ∈ xs, ∃ y ∈ db.executions, y.id = x.id ∧ y.organizationId = o)
    (twin_ask (fun _ _ _ _ => Db.listExecutions_only r.id) ?_) fun xs => ?_
  · intro db hr
    refine ⟨hr, fun x hx => ?_⟩
    obtain ⟨hmem, hrun⟩ := List.mem_filter.mp ((List.mem_insertionSort _).mp hx)
    rw [Bool.and_eq_true] at hrun
    exact ⟨x, hmem, rfl, of_decide_eq_true hrun.2⟩
  refine same_bind (twin_read fun db h _ hp => ?_) fun nodes => ?_
  · rw [graphs_only_run h hp.1]
  refine same_bind (twin_look fun db h _ hp => ?_) fun g => ?_
  · rw [graphs_only_run h hp.1]
  refine same_bind (twin_read fun db h _ hp => h.eventsOf_only hp.1.1 hp.1.2) fun events => ?_
  exact same_pure fun _ _ h => h.imp fun db hp => ⟨hp.1.2, ⟨r, hp.1.1, rfl, hp.1.2⟩, hp.2⟩

theorem savedRun_kept (l : Loaded Value) (now : Time) (rows : RunRows Value) (r : RunRecord Value) :
    (l.savedRun now rows r).id = r.id ∧ (l.savedRun now rows r).organizationId = r.organizationId ∧
      (l.savedRun now rows r).workflowId = r.workflowId ∧
      (l.savedRun now rows r).workflowVersionId = r.workflowVersionId := by
  unfold Loaded.savedRun
  split
  · exact ⟨rfl, rfl, rfl, rfl⟩
  · exact ⟨rfl, rfl, rfl, rfl⟩

/-- The row of the run is the organization's, so no row of another is written. -/
theorem savedRun_of_other (h : db.Tenanted) (hl : l.Of o db) (now : Time) (rows : RunRows Value)
    {r : RunRecord Value} (hr : r ∈ db.runs) (ho : r.organizationId ≠ o) :
    l.savedRun now rows r = r := by
  refine if_neg fun hid => ho ?_
  obtain ⟨r', hr', hid', ho'⟩ := hl.run
  rw [List.inj_on_of_nodup_map h.runs_nodup hr hr' (hid.trans hid'.symm)]
  exact ho'

theorem Loaded.Of.updateRun (hl : l.Of o db) (now : Time) (rows : RunRows Value) :
    l.Of o (db.updateRun (l.savedRun now rows)) := by
  obtain ⟨r, hr, hid, ho⟩ := hl.run
  have hkept := savedRun_kept l now rows r
  exact ⟨hl.organization, ⟨_, List.mem_map_of_mem hr, hkept.1.trans hid, hkept.2.1.trans ho⟩,
    hl.executions⟩

/-- The rows of a run are written back. -/
theorem twin_save (n : Nat) (work : RunRows Value × List QueueOp) :
    Same (Twin P o name s₀ t₀ (l.Of o)) (save P l n work) fun _ =>
      Twin P o name s₀ t₀ (l.Of o) := by
  unfold save
  refine same_bind (twin_write (fun _ _ _ _ => ?_) (fun db h hl => ?_) fun _ hl => ?_) fun _ => ?_
  · exact Db.only_updateRun fun r => (savedRun_kept l _ _ r).2.1
  · exact h.updateRun (savedRun_kept l _ _) fun r => savedRun_of_other h hl _ _
  · exact hl.updateRun _ _
  refine same_bind (twin_write (fun _ _ _ _ => ?_) (fun db h hl => ?_) fun _ hl => ?_) fun _ => ?_
  · exact Db.only_updateExecutions fun x => (savedExecution_kept l _ x).2
  · exact h.updateExecutions (savedExecution_kept l _) fun x => savedExecution_of_other h hl _
  · exact hl.updateExecutions _
  refine same_bind (twin_write (fun _ _ _ hl => ?_) (fun db h hl => ?_) fun _ hl => ?_) fun _ => ?_
  · exact Db.only_appendEvents (newEvents_organization hl.organization _ _)
  · refine h.appendEvents fun e he => ⟨newEvents_organization hl.organization _ _ e he, ?_⟩
    obtain ⟨event, -, rfl⟩ := List.mem_map.mp he
    exact hl.run
  · exact ⟨hl.organization, hl.run, hl.executions⟩
  exact same_forM fun op _ => twin_queued n _ op

end

end Loading

end Tenancy

end Orqent
