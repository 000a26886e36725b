/-
Organizations cannot observe or affect each other through runs.

Each transaction of the service is gone through once, statement by statement, with the
rules of `Tenancy/Twin`; the use cases are put together from the transactions.  The token
a node suspends under is the one value a transaction compares with the rows of everybody:
it comes from a runner that was invoked for this organization.
-/
import Orqent.Tenancy.Twin

namespace Orqent

namespace Tenancy

open TwoRun

variable {Value : Type}

/-! ### The transactions -/

section Transactions

variable [DecidableEq Value] {P : RunPorts Value} {o : Nat} {name : String} {s₀ t₀ : Db Value}

/-- A transaction that the two sides go through alike. -/
def Unseen {α : Type} (P : RunPorts Value) (o : Nat) (name : String) (s₀ t₀ : Db Value)
    (m : Txn Value α) : Prop :=
  Same (Twin P o name s₀ t₀ fun _ => True) m fun _ => Twin P o name s₀ t₀ fun _ => True

theorem twin_saved {l : Loaded Value} (n : Nat) (work : RunRows Value × List QueueOp) :
    Same (Twin P o name s₀ t₀ (l.Of o)) (save P l n work) fun _ =>
      Twin P o name s₀ t₀ fun _ => True :=
  (twin_save n work).mono (fun _ _ h => h) fun _ _ _ h => h.imp fun _ _ => trivial

theorem unseen_refuseTxn (runPublicId : String) (key : NodeKey) :
    Unseen P o name s₀ t₀ (refuseTxn P o runPublicId key) := by
  refine same_bind (twin_runOf runPublicId) fun r => ?_
  refine same_bind twin_load fun l => ?_
  refine same_bind (twin_look fun _ _ _ _ => rfl) fun _ => ?_
  refine same_bind twin_draw fun n => ?_
  refine same_bind (twin_engine _) fun rows => ?_
  exact twin_saved n (rows, [])

omit [DecidableEq Value] in
/-- A token no other organization holds is taken where it is taken within the organization. -/
theorem elsewhere_only {db : Db Value} (hfresh : P.Fresh o name db) {result : NodeResult Value}
    (htoken : ∀ token hint, result = .suspended token hint → ∃ nodeType version context,
      context.organizationPublicId = name ∧
        P.runner nodeType version context = .returned (.suspended token hint)) (executionId : Nat) :
    elsewhere result executionId (db.only o) = elsewhere result executionId db := by
  cases result with
  | completed outputs => rfl
  | failed error retryable => rfl
  | suspended token hint =>
      refine Db.tokenTaken_only fun x hx hheld => ?_
      obtain ⟨nodeType, version, context, hname, hreturned⟩ := htoken token hint rfl
      by_contra ho
      exact hfresh.token x hx ho nodeType version context token hint hname hreturned hheld

theorem unseen_settleTxn (runPublicId : String) (key : NodeKey) {result : NodeResult Value}
    (htoken : ∀ token hint, result = .suspended token hint → ∃ nodeType version context,
      context.organizationPublicId = name ∧
        P.runner nodeType version context = .returned (.suspended token hint)) :
    Unseen P o name s₀ t₀ (settleTxn P o runPublicId key result) := by
  refine same_bind (twin_runOf runPublicId) fun r => ?_
  refine same_bind twin_load fun l => ?_
  refine same_bind (twin_look fun _ _ _ _ => rfl) fun execution => ?_
  refine same_bind twin_draw fun n => ?_
  refine same_bind (twin_read fun _ _ hfresh _ => elsewhere_only hfresh htoken _) fun taken => ?_
  refine same_bind (twin_engine _) fun rows => ?_
  exact twin_saved n (rows, [])

/-- What was started is started for this organization. -/
def Ticked.For (name : String) : Ticked Value → Prop
  | .rested _ => True
  | .started _ organizationPublicId _ => organizationPublicId = name

theorem twin_tickTxn (runPublicId : String) (limit left : Nat) :
    Same (Twin P o name s₀ t₀ fun _ => True) (tickTxn P o runPublicId limit left)
      fun ticked => Twin P o name s₀ t₀ fun _ => ticked.For name ∧ True := by
  refine same_bind (twin_runOf runPublicId) fun r => ?_
  refine same_bind twin_load fun l => ?_
  refine same_bind twin_organizationPublicIdOf fun organizationPublicId => twin_and fun hname => ?_
  refine same_bind (twin_engine _) fun decisions => ?_
  cases decisions with
  | nil => exact same_pure fun _ _ h => h.imp fun _ _ => ⟨trivial, trivial⟩
  | cons decision rest =>
      refine same_bind (twin_require _) fun _ => ?_
      refine same_bind twin_draw fun n => ?_
      refine same_bind (twin_engine _) fun work => ?_
      refine same_bind (twin_saved n work) fun _ => ?_
      exact same_pure fun _ _ h => h.imp fun _ _ => ⟨hname, trivial⟩

theorem unseen_cycleLimit (runPublicId : String) :
    Unseen P o name s₀ t₀ (cycleLimit o runPublicId : Txn Value Nat) := by
  refine same_bind (twin_runOf runPublicId) fun r => ?_
  refine same_bind twin_load fun l => ?_
  exact same_pure fun _ _ h => h.imp fun _ _ => trivial

omit [DecidableEq Value] in
/-- The new run and what hangs from it belong to the organization. -/
theorem unseen_materializeRun (workflowPublicId : String)
    (triggerPayload : Option (Dict String Value)) :
    Unseen P o name s₀ t₀ (materializeRun P workflowPublicId o triggerPayload) := by
  refine same_bind (twin_workflowOf workflowPublicId) fun w => ?_
  refine same_bind twin_publishedVersion fun v => ?_
  refine same_bind twin_draw fun n => ?_
  let run : RunRecord Value :=
    ⟨P.runId n, P.runPublicId n, o, w.id, v.id, P.clock n, P.clock n,
      (materialize triggerPayload).run⟩
  refine same_bind (Q := fun _ => Twin P o name s₀ t₀ fun db =>
    HasRun o run db ∧ v ∈ db.versions ∧ db.owns o v) (twin_insert ?_ ?_) fun _ => ?_
  · exact fun db _ hfresh _ => Db.only_insertRun rfl fun r hr ho => hfresh.run r hr ho n
  · intro db db' h hp hok
    obtain ⟨⟨hw, ho⟩, hv, hworkflow⟩ := hp
    obtain ⟨hconfined, hruns, hversions, hworkflows⟩ :=
      h.insertRun (r := run) rfl ⟨w, hw, rfl, ho⟩ ⟨v, hv, rfl, hworkflow⟩ hok
    refine ⟨hconfined, ⟨?_, rfl⟩, hversions ▸ hv, ?_⟩
    · rw [hruns]
      exact List.mem_append_right _ List.mem_cons_self
    · exact List.any_eq_true.mpr ⟨w, hworkflows ▸ hw, by simp [hworkflow, ho]⟩
  refine same_bind (twin_read fun db _ _ hp => ?_) fun nodes => ?_
  · rw [Db.graphs_only hp.2.1 hp.2.2]
  refine same_bind (Q := fun _ => Twin P o name s₀ t₀ (HasRun o run)) (twin_insert ?_ ?_)
    fun _ => ?_
  · intro db _ hfresh _
    refine Db.only_insertExecutions (fun x hx => ?_) fun x hx other hmem ho => ?_
    · obtain ⟨e, -, rfl⟩ := List.mem_map.mp hx
      rfl
    · obtain ⟨e, -, rfl⟩ := List.mem_map.mp hx
      exact hfresh.execution other hmem ho n e.2
  · intro db db' h hp hok
    obtain ⟨hconfined, hruns⟩ := h.insertExecutions (fun x hx => by
      obtain ⟨e, -, rfl⟩ := List.mem_map.mp hx
      rfl) hok
    exact ⟨hconfined, hruns.symm ▸ hp.1.1, rfl⟩
  refine same_bind (twin_read fun db h _ hr => h.eventsOf_only hr.1 hr.2) fun earlier => ?_
  refine same_bind (twin_write (fun _ _ _ _ => ?_) (fun db h hr => ?_) fun _ hr => hr) fun _ => ?_
  · exact Db.only_appendEvents (List.forall_mem_singleton.mpr rfl)
  · exact h.appendEvents (List.forall_mem_singleton.mpr ⟨rfl, run, hr.1, rfl, rfl⟩)
  refine same_bind (twin_write (fun db h hfresh hr => ?_) (fun db h hr => ?_) fun db hr => ?_)
    fun _ => ?_
  · exact Db.only_enqueue (fun k hk ho => hfresh.task k hk ho n)
      fun k hk hkey => h.pendingKey_organization hr.1 hr.2 hk hkey
  · exact h.enqueue ⟨run, hr.1, rfl, rfl⟩
  · exact ⟨(db.runs_enqueue _ _ _ _).symm ▸ hr.1, rfl⟩
  exact same_pure fun _ _ h => h.imp fun _ _ => trivial

omit [DecidableEq Value] in
theorem unseen_createTxn (caller workflowPublicId : String)
    (triggerPayload : Option (Dict String Value)) :
    Same (Twin P o name s₀ t₀ fun db => db.IsMember o caller)
      (createTxn P caller workflowPublicId triggerPayload)
      fun _ => Twin P o name s₀ t₀ fun _ => True := by
  refine same_bind twin_callerOrganization fun i => twin_and fun hi => ?_
  subst hi
  exact unseen_materializeRun workflowPublicId triggerPayload

/-- A token is looked up among the organization's rows, so no other answers for it. -/
theorem unseen_resumeTxn (caller runPublicId token : String) :
    Same (Twin P o name s₀ t₀ fun db => db.IsMember o caller) (resumeTxn P caller runPublicId token)
      fun a => Twin P o name s₀ t₀ fun _ => (a.1 = o ∧ a.2.2.1 = name) ∧ True := by
  refine same_bind twin_callerOrganization fun i => twin_and fun hi => ?_
  subst hi
  refine same_bind (twin_runOf runPublicId) fun r => ?_
  refine same_bind (twin_look fun _ _ _ _ => Db.getByResumeToken_only token) fun x => ?_
  refine same_bind (twin_require _) fun _ => ?_
  refine same_bind (twin_require _) fun _ => ?_
  refine same_bind (twin_require _) fun _ => ?_
  refine same_bind twin_load fun l => ?_
  refine same_bind (twin_look fun _ _ _ _ => rfl) fun entry => ?_
  refine same_bind twin_draw fun n => ?_
  refine same_bind (twin_engine _) fun work => ?_
  refine same_bind (twin_save n work) fun _ => ?_
  refine same_bind twin_organizationPublicIdOf fun organizationPublicId => twin_and fun hname => ?_
  exact same_pure fun _ _ h => h.imp fun _ _ => ⟨⟨rfl, hname⟩, trivial⟩

omit [DecidableEq Value] in
theorem twin_summary {p : Db Value → Prop} {r : RunRecord Value} (hr : ∀ db, p db → HasRun o r db) :
    Same (Twin P o name s₀ t₀ p) (summary r) fun _ => Twin P o name s₀ t₀ p := by
  refine same_bind (twin_look fun db h _ hp => h.workflowById_only (hr db hp).1 (hr db hp).2)
    fun w => ?_
  refine same_bind (twin_look fun db h _ hp => ?_) fun v => same_pure fun _ _ h => h
  obtain ⟨v, hv, hid, hown⟩ := h.owns_run (hr db hp).1 (hr db hp).2
  rw [← hid]
  exact h.versionById_only hv hown

omit [DecidableEq Value] in
theorem unseen_getTxn (caller runPublicId : String) :
    Same (Twin P o name s₀ t₀ fun db => db.IsMember o caller)
      (getTxn caller runPublicId : Txn Value _) fun _ => Twin P o name s₀ t₀ fun _ => True := by
  refine same_bind twin_callerOrganization fun i => twin_and fun hi => ?_
  subst hi
  refine same_bind (twin_runOf runPublicId) fun r => ?_
  refine same_bind (twin_summary fun _ hr => hr) fun s => ?_
  refine same_bind (twin_read fun _ _ _ _ => Db.listExecutions_only r.id) fun executions => ?_
  refine same_bind (twin_read fun db h _ hr => ?_) fun nodes => ?_
  · rw [graphs_only_run h hr]
  exact same_pure fun _ _ h => h.imp fun _ _ => trivial

omit [DecidableEq Value] in
theorem unseen_listTxn (caller : String) (limit offset : Nat) (workflowId : Option String) :
    Same (Twin P o name s₀ t₀ fun db => db.IsMember o caller)
      (listTxn caller limit offset workflowId : Txn Value _)
      fun _ => Twin P o name s₀ t₀ fun _ => True := by
  refine same_bind twin_callerOrganization fun i => twin_and fun hi => ?_
  subst hi
  refine same_bind (twin_read fun db _ _ _ => ?_) fun filter => ?_
  · cases workflowId with
    | none => rfl
    | some id => exact congrArg some (Db.getWorkflow_only id)
  have hpage : ∀ internalId : Option Nat, Unseen P i name s₀ t₀ (do
      let runs ← ask (·.listForOrg i limit offset internalId)
      let total ← ask (·.countForOrg i internalId)
      let views ← runs.mapM summary
      return (views, total) : Txn Value _) := by
    intro internalId
    refine same_bind (Q := fun runs => Twin P i name s₀ t₀ fun db => ∀ r ∈ runs, HasRun i r db)
      (twin_ask (fun db _ _ _ => ?_) fun db _ r hr => ?_) fun runs => ?_
    · unfold Db.listForOrg
      rw [Db.scopedRuns_only]
    · have hscoped := (List.mem_insertionSort _).mp (List.mem_of_mem_drop (List.mem_of_mem_take hr))
      obtain ⟨hmem, horg⟩ := List.mem_filter.mp hscoped
      rw [Bool.and_eq_true] at horg
      exact ⟨hmem, of_decide_eq_true horg.1⟩
    refine same_bind (twin_read fun db _ _ _ => ?_) fun total => ?_
    · unfold Db.countForOrg
      rw [Db.scopedRuns_only]
    refine same_bind (same_mapM fun r hr => twin_summary fun db hp => hp r hr) fun views => ?_
    exact same_pure fun _ _ h => h.imp fun _ _ => trivial
  cases filter with
  | none => exact hpage none
  | some found =>
      cases found with
      | none => exact same_pure fun _ _ h => h
      | some w => exact hpage (some w.id)

omit [DecidableEq Value] in
theorem unseen_listEventsTxn (caller runPublicId : String) :
    Same (Twin P o name s₀ t₀ fun db => db.IsMember o caller)
      (listEventsTxn caller runPublicId : Txn Value _)
      fun _ => Twin P o name s₀ t₀ fun _ => True := by
  refine same_bind twin_callerOrganization fun i => twin_and fun hi => ?_
  subst hi
  refine same_bind (twin_runOf runPublicId) fun r => ?_
  refine twin_ask (fun _ _ _ _ => Db.listEvents_only r.id) fun _ _ => trivial

end Transactions

/-! ### The operations -/

section Operations

variable [DecidableEq Value] {P : RunPorts Value} {o : Nat} {name : String} {s₀ t₀ : Db Value}
  {α β : Type}

/-- A use case that the two sides go through alike, also where it fails. -/
def Hidden (P : RunPorts Value) (o : Nat) (name : String) (s₀ t₀ : Db Value)
    (m : UseCase Value α) : Prop :=
  Alike (Twin P o name s₀ t₀ fun _ => True) m (fun _ => Twin P o name s₀ t₀ fun _ => True)
    (Twin P o name s₀ t₀ fun _ => True)

omit [DecidableEq Value] in
theorem Unseen.commit {m : Txn Value α} (h : Unseen P o name s₀ t₀ m) :
    Hidden P o name s₀ t₀ (TwoRun.commit m) := alike_commit h fun _ _ h => h

omit [DecidableEq Value] in
theorem Hidden.bind {m : UseCase Value α} {k : α → UseCase Value β} (hm : Hidden P o name s₀ t₀ m)
    (hk : ∀ a, Hidden P o name s₀ t₀ (k a)) : Hidden P o name s₀ t₀ (m >>= k) := alike_bind hm hk

omit [DecidableEq Value] in
theorem hidden_pure (a : α) : Hidden P o name s₀ t₀ (pure a) := alike_pure fun _ _ h => h

omit [DecidableEq Value] in
theorem hidden_throw (e : RunError) : Hidden P o name s₀ t₀ (throw e : UseCase Value α) :=
  alike_throw fun _ _ h => h

omit [DecidableEq Value] in
theorem alike_and {p : Db Value → Prop} {c : Prop} {m : UseCase Value α}
    {Q : α → World Value → World Value → Prop} {E : World Value → World Value → Prop}
    (h : c → Alike (Twin P o name s₀ t₀ p) m Q E) :
    Alike (Twin P o name s₀ t₀ fun db => c ∧ p db) m Q E :=
  fun s t hst => h hst.left.holds.1 s t (hst.imp fun _ hp => hp.2)

/-- A token that is recorded was returned by a runner for this organization. -/
def FromRunner (P : RunPorts Value) (name : String) (outcome : Outcome Value) : Prop :=
  ∀ token hint, outcome = .returned (.suspended token hint) → ∃ nodeType version context,
    context.organizationPublicId = name ∧
      P.runner nodeType version context = .returned (.suspended token hint)

omit [DecidableEq Value] in
theorem invokeNode_fromRunner (l : Loaded Value) (h : Handed) :
    FromRunner P name (invokeNode P name l h) := by
  intro token hint hreturned
  unfold invokeNode at hreturned
  split at hreturned
  · cases hreturned
  · cases hreturned
  · split at hreturned
    · cases hreturned
    · cases hreturned
    · rename_i context node hcontext _
      refine ⟨node.nodeType, node.version, context, buildContext_organization hcontext, ?_⟩
      cases hrun : P.runner node.nodeType node.version context with
      | returned result =>
          rw [hrun] at hreturned
          exact congrArg RunnerOutcome.returned (Outcome.returned.inj hreturned)
      | raised typeName message =>
          rw [hrun] at hreturned
          cases Outcome.returned.inj hreturned

theorem hidden_settle (runPublicId : String) (key : NodeKey) {outcome : Outcome Value}
    (houtcome : FromRunner P name outcome) :
    Hidden P o name s₀ t₀ (settle P o runPublicId key outcome) := by
  cases outcome with
  | refused => exact (unseen_refuseTxn runPublicId key).commit
  | returned result =>
      exact (unseen_settleTxn runPublicId key fun token hint hresult =>
        houtcome token hint (congrArg _ hresult)).commit
  | escaped e => exact hidden_throw _

theorem hidden_settleAll (runPublicId : String) (batch : List (NodeKey × Outcome Value))
    (failure : Option EngineError) (hbatch : ∀ e ∈ batch, FromRunner P name e.2) :
    Hidden P o name s₀ t₀ (settleAll P o runPublicId batch failure) := by
  induction batch generalizing failure with
  | nil =>
      cases failure with
      | none => exact hidden_pure _
      | some e => exact hidden_throw _
  | cons entry rest ih =>
      have hrest := fun failure => ih failure fun e he => hbatch e (List.mem_cons_of_mem _ he)
      have hentry := hbatch entry List.mem_cons_self
      obtain ⟨key, outcome⟩ := entry
      cases outcome with
      | escaped e => exact hrest _
      | refused => exact (hidden_settle runPublicId key hentry).bind fun _ => hrest _
      | returned result => exact (hidden_settle runPublicId key hentry).bind fun _ => hrest _

theorem hidden_cycle (runPublicId : String) (limit left : Nat) :
    Hidden P o name s₀ t₀ (cycle P o runPublicId limit left) := by
  refine alike_bind (alike_commit (twin_tickTxn runPublicId limit left) fun _ _ h => h)
    fun ticked => alike_and fun hticked => ?_
  cases ticked with
  | rested r => exact hidden_pure _
  | started l organizationPublicId batch =>
      obtain rfl : organizationPublicId = name := hticked
      refine (hidden_settleAll runPublicId _ none fun e he => ?_).bind fun _ => hidden_pure _
      obtain ⟨h, -, rfl⟩ := List.mem_map.mp he
      exact invokeNode_fromRunner l h

theorem hidden_advanceLoop (runPublicId : String) (limit left : Nat) :
    Hidden P o name s₀ t₀ (advanceLoop P o runPublicId limit left) := by
  induction left with
  | zero =>
      refine (hidden_cycle runPublicId limit 0).bind fun rested => ?_
      cases rested with
      | none => exact hidden_throw _
      | some r => exact hidden_pure _
  | succ left ih =>
      refine (hidden_cycle runPublicId limit (left + 1)).bind fun rested => ?_
      cases rested with
      | none => exact ih
      | some r => exact hidden_pure _

theorem hidden_advance (runPublicId : String) : Hidden P o name s₀ t₀ (advance P o runPublicId) :=
  (unseen_cycleLimit runPublicId).commit.bind fun limit =>
    hidden_advanceLoop runPublicId limit limit

/-- What a member calls. -/
def HiddenFrom (P : RunPorts Value) (o : Nat) (name : String) (s₀ t₀ : Db Value) (caller : String)
    (m : UseCase Value α) : Prop :=
  Alike (Twin P o name s₀ t₀ fun db => db.IsMember o caller) m
    (fun _ => Twin P o name s₀ t₀ fun _ => True) (Twin P o name s₀ t₀ fun _ => True)

variable {caller : String}

omit [DecidableEq Value] in
theorem hiddenFrom_commit {m : Txn Value α}
    (h : Same (Twin P o name s₀ t₀ fun db => db.IsMember o caller) m
      fun _ => Twin P o name s₀ t₀ fun _ => True) (k : α → β) :
    HiddenFrom P o name s₀ t₀ caller (TwoRun.commit m >>= fun a => pure (k a)) :=
  alike_bind (alike_commit h fun _ _ h => h.imp fun _ _ => trivial) fun _ => hidden_pure _

theorem hidden_resume (runPublicId token : String) :
    HiddenFrom P o name s₀ t₀ caller (resume P caller runPublicId token) := by
  refine alike_bind (alike_commit (unseen_resumeTxn caller runPublicId token)
    fun _ _ h => h.imp fun _ _ => trivial) fun a => ?_
  obtain ⟨i, l, organizationPublicId, h⟩ := a
  refine alike_and fun hgiven => ?_
  obtain rfl : i = o := hgiven.1
  obtain rfl : organizationPublicId = name := hgiven.2
  exact (hidden_settle runPublicId h.key (invokeNode_fromRunner l h)).bind fun _ =>
    hidden_advance runPublicId

theorem hidden_perform (call : RunCall Value) :
    HiddenFrom P o name s₀ t₀ caller (call.perform P caller) := by
  cases call with
  | create workflowPublicId triggerPayload => exact hiddenFrom_commit (unseen_createTxn _ _ _) _
  | advance runPublicId =>
      refine alike_bind (alike_commit twin_callerOrganization fun _ _ h => h.imp fun _ _ => trivial)
        fun i => alike_and fun hi => ?_
      subst hi
      exact (hidden_advance runPublicId).bind fun _ => hidden_pure _
  | resume runPublicId token =>
      exact alike_bind (hidden_resume runPublicId token) fun _ => hidden_pure _
  | get runPublicId => exact hiddenFrom_commit (unseen_getTxn _ _) _
  | list limit offset workflowId => exact hiddenFrom_commit (unseen_listTxn _ _ _ _) _
  | listEvents runPublicId => exact hiddenFrom_commit (unseen_listEventsTxn _ _) _

/-- The runs of one operation from two databases with the same rows of the caller's organization. -/
theorem exec_alike {s t : Db Value} (hs : s.Tenanted) (ht : t.Tenanted) (hfs : P.Fresh o name s)
    (hft : P.Fresh o name t) (hmember : s.IsMember o caller) (hown : s.only o = t.only o)
    (call : RunCall Value) :
    (call.exec P caller s).1 = (call.exec P caller t).1 ∧
      (call.exec P caller s).2.only o = (call.exec P caller t).2.only o ∧
      Db.Confined o s (call.exec P caller s).2 ∧ Db.Confined o t (call.exec P caller t).2 := by
  have hmember' : t.IsMember o caller := by
    obtain ⟨u, hu, hid, ho⟩ := hmember
    have hmem : u ∈ (s.only o).users := List.mem_filter.mpr ⟨hu, decide_eq_true ho⟩
    rw [hown] at hmem
    exact ⟨u, (List.mem_filter.mp hmem).1, hid, ho⟩
  have htwin : Twin P o name s t (fun db => db.IsMember o caller) { db := s } { db := t } :=
    ⟨⟨.refl o hs, hfs, hmember⟩, ⟨.refl o ht, hft, hmember'⟩, hown, rfl⟩
  unfold RunCall.exec
  rcases hidden_perform call _ _ htwin with ⟨e, s', t', hs', ht', h⟩ | ⟨a, s', t', hs', ht', h⟩
  · rw [hs', ht']
    exact ⟨rfl, h.own, h.left.confined, h.right.confined⟩
  · rw [hs', ht']
    exact ⟨rfl, h.own, h.left.confined, h.right.confined⟩

/-- **What makes the queries by id safe is kept by every operation.** -/
theorem exec_tenanted {s : Db Value} (hs : s.Tenanted) (hfresh : P.Fresh o name s)
    (hmember : s.IsMember o caller) (call : RunCall Value) :
    (call.exec P caller s).2.Tenanted :=
  (exec_alike hs hs hfresh hfresh hmember rfl call).2.2.1.tenanted

/--
**Organizations cannot observe or affect each other through runs.**

Whatever the rows of the others are, an operation called by a member returns the same or
raises the same error, and leaves the same rows of its own organization; it leaves every
row of every other organization as it was.
-/
theorem organizations_are_isolated {s t : Db Value} (hs : s.Tenanted) (ht : t.Tenanted)
    (hfs : P.Fresh o name s) (hft : P.Fresh o name t) (hmember : s.IsMember o caller)
    (hown : s.only o = t.only o) (call : RunCall Value) :
    (call.exec P caller s).1 = (call.exec P caller t).1 ∧
      (call.exec P caller s).2.only o = (call.exec P caller t).2.only o ∧
      (∀ other, other ≠ o → (call.exec P caller s).2.only other = s.only other) ∧
      ∀ other, other ≠ o → (call.exec P caller t).2.only other = t.only other := by
  obtain ⟨hresult, hafter, hleft, hright⟩ := exec_alike hs ht hfs hft hmember hown call
  exact ⟨hresult, hafter, hleft.others, hright.others⟩

end Operations

/-! ### Two organizations -/

/-- A node type that waits for an answer. -/
def approvalType : NodeDescriptor String where
  nodeType := "human.approval"
  version := 1
  category := .human
  configModel := ⟨fun _ => [], fun _ => ""⟩
  inputs := []
  outputs := []
  inputs_nodup := List.nodup_nil
  outputs_nodup := List.nodup_nil

/-- An approval waits under a token of the organization until it is resumed. -/
def approvalPorts : RunPorts String where
  registry := ⟨fun nodeType version =>
    if nodeType = "human.approval" ∧ version = 1 then some approvalType else none⟩
  runner _ _ context :=
    match context.resumeToken with
    | none => .returned (.suspended ("token of " ++ context.organizationPublicId) none)
    | some _ => .returned (.completed [])
  clock n := 100 + n
  runId n := 100 + n
  runPublicId n := "R" ++ toString n
  executionId n i := 100 + 10 * n + i
  executionPublicId n i := "X" ++ (toString n ++ ":" ++ toString i)
  taskId n := 100 + n

/-- One node, which waits. -/
def approvalGraph : WorkflowGraph String where
  nodes := [⟨"approve", "human.approval", 1, [], none⟩]
  edges := []
  keys_nodup := List.nodup_singleton _
  source_mem := fun _ he => absurd he List.not_mem_nil
  target_mem := fun _ he => absurd he List.not_mem_nil
  edges_nodup := List.nodup_nil

/-- A node execution that waits under this token. -/
def waitingUnder (token : String) : NodeExecution String :=
  ⟨.waiting, 1, none, none, some token, some 5, none⟩

/-- Two organizations with a workflow and a run each; the second has come to `theirs`. -/
def neighbours (theirs : NodeExecution String) : Db String where
  organizations := [⟨1, "A"⟩, ⟨2, "B"⟩]
  users := [⟨"ann", 1, false⟩, ⟨"bob", 2, false⟩]
  workflows := [⟨10, "workflow of A", 1, some 11, false⟩, ⟨20, "workflow of B", 2, some 21, false⟩]
  versions := [⟨11, 10, .published, some 1, 1⟩, ⟨21, 20, .published, some 1, 1⟩]
  graphs := fun i => if i = 11 then graphRows 1 1 approvalGraph else graphRows 2 2 approvalGraph
  runs :=
    [⟨30, "run of A", 1, 10, 11, 5, 6, ⟨.suspended, none, some 5, none⟩⟩,
      ⟨40, "run of B", 2, 20, 21, 5, 6, ⟨.suspended, none, some 5, none⟩⟩]
  executions :=
    [⟨31, "node of A", 1, 30, 1, waitingUnder "token of A"⟩, ⟨41, "node of B", 2, 40, 2, theirs⟩]

theorem neighbours_tenanted (theirs : NodeExecution String) : (neighbours theirs).Tenanted where
  users_nodup := by simp [neighbours]
  workflows_nodup := by simp [neighbours]
  versions_nodup := by simp [neighbours]
  runs_nodup := by simp [neighbours]
  executions_nodup := by simp [neighbours]
  active := by simp [neighbours]
  run_workflow := by simp [neighbours]
  run_version := by simp [neighbours]
  event_run := fun e he => absurd he List.not_mem_nil
  task_run := fun k hk => absurd hk List.not_mem_nil

/-- What begins with different characters is different. -/
theorem ne_append_of_head {s t : String} {c d : Char} {rest : List Char} (hs : s.toList = c :: rest)
    (hcd : c ≠ d) : s ≠ d.toString ++ t := by
  intro hc
  rw [hc, String.toList_append] at hs
  simp at hs
  exact hcd hs.1.symm

theorem neighbours_fresh {theirs : NodeExecution String}
    (h : theirs.resumeToken ≠ some "token of A") :
    approvalPorts.Fresh 1 "A" (neighbours theirs) where
  publicId organization hfound := by
    obtain rfl : (⟨1, "A"⟩ : Organization) = organization := Option.some.inj hfound
    rfl
  run := by
    intro r hr ho n
    rcases List.mem_cons.mp hr with rfl | hr
    · exact absurd rfl ho
    · obtain rfl := List.mem_singleton.mp hr
      constructor
      · show (40 : Nat) ≠ 100 + n
        omega
      · show "run of B" ≠ "R" ++ _
        exact ne_append_of_head (c := 'r') (d := 'R') rfl (by decide)
  execution := by
    intro x hx ho n i
    rcases List.mem_cons.mp hx with rfl | hx
    · exact absurd rfl ho
    · obtain rfl := List.mem_singleton.mp hx
      constructor
      · show (41 : Nat) ≠ 100 + 10 * n + i
        omega
      · show "node of B" ≠ "X" ++ _
        exact ne_append_of_head (c := 'n') (d := 'X') rfl (by decide)
  task := fun k hk => absurd hk List.not_mem_nil
  token := by
    intro x hx ho nodeType version context token hint hname hreturned
    rcases List.mem_cons.mp hx with rfl | hx
    · exact absurd rfl ho
    · obtain rfl := List.mem_singleton.mp hx
      cases hresumed : context.resumeToken with
      | some resumed => simp [approvalPorts, hresumed] at hreturned
      | none =>
          simp only [approvalPorts, hresumed, hname, RunnerOutcome.returned.injEq,
            NodeResult.suspended.injEq] at hreturned
          rw [← hreturned.1]
          exact h

/-- The node of the second organization, waiting. -/
def theirsWaiting : NodeExecution String := waitingUnder "token of B"

/-- The same node once it has gone on. -/
def theirsDone : NodeExecution String := ⟨.succeeded, 1, some [], none, none, some 5, some 6⟩

/-- A member of the first organization presents the token of the second. -/
def foreignToken : RunCall String := .resume "run of A" "token of B"

/-- A member who presents a token of the other organization learns nothing by it. -/
theorem foreign_token_tells_nothing :
    (foreignToken.exec approvalPorts "ann" (neighbours theirsWaiting)).1
        = (foreignToken.exec approvalPorts "ann" (neighbours theirsDone)).1 ∧
      (foreignToken.exec approvalPorts "ann" (neighbours theirsWaiting)).2.only 1
        = (foreignToken.exec approvalPorts "ann" (neighbours theirsDone)).2.only 1 ∧
      (∀ other, other ≠ 1 →
        (foreignToken.exec approvalPorts "ann" (neighbours theirsWaiting)).2.only other
          = (neighbours theirsWaiting).only other) ∧
      ∀ other, other ≠ 1 →
        (foreignToken.exec approvalPorts "ann" (neighbours theirsDone)).2.only other
          = (neighbours theirsDone).only other := by
  have hown : (neighbours theirsWaiting).only 1 = (neighbours theirsDone).only 1 := rfl
  have hmember : (neighbours theirsWaiting).IsMember 1 "ann" :=
    ⟨⟨"ann", 1, false⟩, List.mem_cons_self, rfl, rfl⟩
  exact organizations_are_isolated (neighbours_tenanted _) (neighbours_tenanted _)
    (neighbours_fresh (by decide)) (neighbours_fresh (by decide)) hmember hown foreignToken

end Tenancy

end Orqent
