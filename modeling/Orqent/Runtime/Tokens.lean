/-
A resume token names one node.

The column is unique over the table, so that `get_by_resume_token` needs no run id.  Within
a run only the transaction that records a suspension writes a token (`Effect.token_new`),
and it is refused one that another row holds; across runs the same holds of what each run
sees, which is a run of the system alone.
-/
import Orqent.Runtime.Projection
import Orqent.Runtime.Steps

namespace Orqent

variable {P Value : Type} {g : WorkflowGraph Value} {rows rows' : RunRows Value}
  {t : RunTxn Value} {queue : List QueueOp} {env : Env Value} {s s' : Sys P Value} {p : P}
  {a : Action Value} {now : Time} {k : NodeKey} {token : String}

/-- The node's row holds the token. -/
def Holds (g : WorkflowGraph Value) (rows : RunRows Value) (k : NodeKey) (token : String) : Prop :=
  k ∈ g.nodeKeys ∧ (rows.executions k).resumeToken = some token

theorem holdsToken_iff : holdsToken g rows token = true ↔ ∃ k, Holds g rows k token := by
  unfold holdsToken Holds
  rw [List.any_eq_true]
  simp only [decide_eq_true_eq]

/-! ### Within a run -/

theorem ticked_token (now : Time) (k : NodeKey) :
    ((ticked g now rows).executions k).resumeToken = (rows.executions k).resumeToken := by
  rw [ticked_executions]
  unfold tickedExecution
  split
  · split <;> rfl
  · split
    · rfl
    · split <;> rfl

/-- A token is new only where a suspension is recorded, and then nobody else holds it. -/
theorem Effect.token_new (he : Effect g rows t rows' queue) (hnew : Holds g rows' k token)
    (hold : ¬ Holds g rows k token) :
    (∃ now hint, t = .settle now k (.suspended token hint) false) ∧
      tokenHeld g rows k token = false := by
  obtain ⟨hkey, htoken⟩ := hnew
  have hsame : (rows'.executions k).resumeToken = (rows.executions k).resumeToken → False :=
    fun hsame => hold ⟨hkey, hsame ▸ htoken⟩
  cases he with
  | tick now hfan hstatus => exact (hsame (ticked_token now k)).elim
  | conclude now target hfan hstatus hne hlegal =>
      rw [concluded_executions] at hsame
      exact (hsame (ticked_token now k)).elim
  | settle t now key result rejected ht hkey' hrunning hstorable =>
      rw [RunRows.append_executions] at htoken hsame
      by_cases hk : k = key
      swap
      · rw [RunRows.write_ne _ _ hk] at hsame
        exact (hsame rfl).elim
      obtain rfl := hk
      rw [RunRows.write_self] at htoken hsame
      cases result with
      | completed outputs => exact (hsame rfl).elim
      | failed error retryable => exact (hsame rfl).elim
      | suspended token' hint =>
          obtain rfl := Option.some.inj htoken
          obtain ⟨-, -, rfl, hfree⟩ := hstorable
          rcases ht with rfl | ⟨-, hc⟩
          · exact ⟨⟨now, hint, rfl⟩, hfree⟩
          · cases hc
  | resume now token' key hfind hwaiting hsuspended =>
      by_cases hk : k = key
      · rw [hk, resumed_self] at htoken
        cases htoken
      · rw [resumed_ne hk] at hsame
        exact (hsame rfl).elim

/-- No two nodes of the run hold one token. -/
def TokensDistinct (g : WorkflowGraph Value) (rows : RunRows Value) : Prop :=
  ∀ k k' token, Holds g rows k token → Holds g rows k' token → k = k'

theorem tokenHeld_iff {key : NodeKey} :
    tokenHeld g rows key token = true ↔ ∃ k, k ≠ key ∧ Holds g rows k token := by
  unfold tokenHeld Holds
  simp only [List.any_eq_true, Bool.and_eq_true, decide_eq_true_eq]
  exact ⟨fun ⟨k, hk, hne, ht⟩ => ⟨k, hne, hk, ht⟩, fun ⟨k, hne, hk, ht⟩ => ⟨k, hk, hne, ht⟩⟩

theorem TokensDistinct.effect (h : TokensDistinct g rows) (he : Effect g rows t rows' queue) :
    TokensDistinct g rows' := by
  -- A token that is new to its node is held by no other node before.
  have hfresh : ∀ k k' token, Holds g rows' k token → ¬ Holds g rows k token → k' ≠ k →
      ¬ Holds g rows k' token := by
    intro k k' token hnew hold hne hother
    have hfree := (he.token_new hnew hold).2
    rw [Bool.eq_false_iff] at hfree
    exact hfree (tokenHeld_iff.mpr ⟨k', hne, hother⟩)
  intro k k' token hk hk'
  by_contra hne
  by_cases hold : Holds g rows k token
  · by_cases hold' : Holds g rows k' token
    · exact hne (h k k' token hold hold')
    · exact hfresh k' k token hk' hold' hne hold
  · by_cases hold' : Holds g rows k' token
    · exact hfresh k k' token hk hold (Ne.symm hne) hold'
    · obtain ⟨⟨now, hint, heq⟩, -⟩ := he.token_new hk hold
      obtain ⟨⟨now', hint', heq'⟩, -⟩ := he.token_new hk' hold'
      rw [heq] at heq'
      cases heq'
      exact hne rfl

theorem tokensDistinct_materialize (payload : Option (Dict String Value)) :
    TokensDistinct g (materialize payload) := by
  intro k k' token hk
  cases hk.2

section Alone

variable [DecidableEq P] [DecidableEq Value]

theorem tokensDistinct_run {tr : List (P × Action Value)}
    (hrun : Trace.run (Sys.step env) (Sys.start P env now) tr = some s) :
    TokensDistinct env.graph s.rows := by
  refine Trace.run_induction (P := fun _ s => TokensDistinct env.graph s.rows)
    (tokensDistinct_materialize env.triggerPayload) ?_ hrun
  intro before s a s' hbefore hs hstep
  rcases ((sys_ok hbefore).step_move hstep).rows_effect with hsame | ⟨t, queue, he⟩
  · exact hsame ▸ hs
  · exact hs.effect he

/-- Recording a suspension that another run's row stands in the way of raises. -/
theorem commitSettle_refused {cycles : Nat} {snap : RunRows Value} {l : Launch}
    {hint : Option String}
    {todo : List (Launch × Outcome Value)} {failed : Bool} :
    s.commitSettle env p now true cycles snap l (.returned (.suspended token hint)) todo failed =
      s.raised p := by
  unfold Sys.commitSettle
  simp only [Outcome.txn, Option.map_some]
  cases hexec : RunTxn.exec env.graph (.settle now l.key (.suspended token hint) true) snap with
  | error e => rfl
  | ok work =>
      obtain ⟨-, -, ⟨-, -, hc, -⟩, -⟩ := exec_settle_iff.mp hexec
      cases hc

/-- A token is new only after the action that records it, which no other run's row stood
in the way of. -/
theorem SysOk.token_new (h : SysOk env s) (hstep : s.step env (p, a) = some s')
    (hnew : Holds env.graph s'.rows k token) (hold : ¬ Holds env.graph s.rows k token) :
    (∃ now, a = .commitSettle now false) ∧ (s.procs p).phase.newToken = some token := by
  have hmove := h.step_move hstep
  cases hmove with
  | tick now cycles rows ops hphase hlimit hsome heffect =>
      obtain ⟨⟨now, hint, hc⟩, -⟩ := heffect.token_new hnew hold
      cases hc
  | resumed now token' key hphase hfind hwaiting hsuspended =>
      obtain ⟨⟨now, hint, hc⟩, -⟩ :=
        (Effect.resume now token' key hfind hwaiting hsuspended).token_new hnew hold
      cases hc
  | settle now rejected cycles l outcome result todo failed hphase hrecorded hkey hrunning
      hstorable =>
      obtain ⟨rejected', hstorable⟩ := hstorable
      obtain ⟨⟨now', hint, heq⟩, -⟩ := (Effect.settle _ now l.key result rejected' (Or.inl rfl) hkey
        hrunning hstorable).token_new hnew hold
      cases heq
      have houtcome : outcome = .returned (.suspended token hint) := by
        cases outcome with
        | refused => cases hrecorded
        | returned result => exact congrArg Outcome.returned (Option.some.inj hrecorded)
        | escaped error => cases hrecorded
      rw [houtcome] at hphase
      have hcommit := hstep
      unfold Sys.step at hcommit
      simp only [hphase] at hcommit
      refine ⟨⟨now, ?_⟩, by rw [hphase]; rfl⟩
      cases rejected with
      | false => rfl
      | true =>
          rw [commitSettle_refused] at hcommit
          have hrows := congrArg Sys.rows (Option.some.inj hcommit)
          rw [← hrows] at hnew
          exact (hold hnew).elim
  | _ => exact (hold hnew).elim

end Alone

/-! ### Across runs -/

section Deployed

variable {d d' : Deployment P Value} {e : DeploymentAction P Value}
  {events : List (DeploymentAction P Value)} {runId : Nat}

/-- No token is held by rows of two runs. -/
def TokensApart (d : Deployment P Value) : Prop :=
  ∀ (runId runId' : Nat) (r r' : Env Value × RunRows Value) k k' token,
    d.runs[runId]? = some r → d.runs[runId']? = some r' → Holds r.1.graph r.2 k token →
      Holds r'.1.graph r'.2 k' token → runId = runId'

theorem not_holds_elsewhere (hok : d.Ok) (hfree : d.heldElsewhere runId token = false)
    {other : Nat} (hthere : d.runs[other]? = some (env, rows)) (hne : other ≠ runId) :
    ¬ Holds env.graph rows k token := by
  intro hk
  rw [Bool.eq_false_iff] at hfree
  refine hfree (List.any_eq_true.mpr ⟨(env, rows), List.mem_of_getElem? hthere, ?_⟩)
  rw [Bool.and_eq_true, decide_eq_true_eq, hok.ids _ _ _ hthere]
  exact ⟨hne, holdsToken_iff.mpr ⟨k, hk⟩⟩

variable [DecidableEq P] [DecidableEq Value]

/-- A token is new to a run only where a process about it records it, and no other run's
row holds it. -/
theorem token_shown (hrun : Trace.run Deployment.step (Deployment.start P Value) events = some d)
    (hstep : d.step e = some d') (hthere : d'.runs[runId]? = some (env, rows'))
    (hnew : Holds env.graph rows' k token)
    (hold : ∀ rows, d.runs[runId]? = some (env, rows) → ¬ Holds env.graph rows k token) :
    ∃ p a, e = .act p a ∧ d.about p = runId ∧ d.heldElsewhere runId token = false := by
  have hhistory : RunHistory runId events d := runHistory hrun
  rcases (hhistory.ok.step hstep).2 runId env rows' hthere with
    ⟨rows, hbefore, hlocal⟩ | ⟨-, -, now, hstart⟩
  swap
  · have hrows : rows' = materialize env.triggerPayload := congrArg Sys.rows hstart
    rw [hrows] at hnew
    cases hnew.2
  obtain ⟨now, halone⟩ := hhistory.there env rows hbefore
  have hsilent : d.shown runId e d' = [] → False := by
    intro hnone
    rw [hnone] at hlocal
    have hrows : rows = rows' := congrArg Sys.rows (Option.some.inj hlocal)
    exact hold rows hbefore (hrows ▸ hnew)
  have hsingle : ∀ p a, d.shown runId e d' = [(p, a)] → (∃ now, a = .commitSettle now false) ∧
      ((d.onRun runId rows).procs p).phase.newToken = some token := by
    intro p a hone
    rw [hone, Trace.run_singleton] at hlocal
    exact (sys_ok halone).token_new hlocal hnew (hold rows hbefore)
  cases e with
  | create env now => exact (hsilent rfl).elim
  | call p other resumed =>
      by_cases hother : other = runId
      · obtain ⟨now, hc⟩ := (hsingle p (calling resumed) (if_pos hother)).1
        cases resumed <;> cases hc
      · exact (hsilent (if_neg hother)).elim
  | claim p clock leaseSeconds locked =>
      unfold Deployment.shown at hsilent hsingle
      dsimp only at hsilent hsingle
      split at hsilent
      · rename_i task htask
        rw [htask] at hsingle
        by_cases hother : task.runId = runId
        · obtain ⟨⟨now, hc⟩, -⟩ := hsingle p _ (if_pos hother)
          cases hc
        · exact (hsilent (if_neg hother)).elim
      · exact (hsilent rfl).elim
  | act p a =>
      by_cases habout : d.about p = runId
      swap
      · exact (hsilent (if_neg habout)).elim
      obtain ⟨⟨now, rfl⟩, hphase⟩ := hsingle p a (if_pos habout)
      refine ⟨p, _, rfl, habout, ?_⟩
      unfold Deployment.step at hstep
      dsimp only at hstep
      split at hstep
      · rename_i hadmits
        have hheld : (!(d.procs p).phase.newToken.any (d.heldElsewhere (d.about p))) = true :=
          hadmits
        have hproc : ((d.onRun runId rows).procs p).phase = (d.procs p).phase := by
          rw [Deployment.onRun, seen_procs habout]
          rfl
        rw [hproc] at hphase
        rw [hphase, habout] at hheld
        exact Bool.not_eq_true' _ ▸ hheld
      · cases hstep

theorem TokensApart.step (h : TokensApart d)
    (hrun : Trace.run Deployment.step (Deployment.start P Value) events = some d)
    (hstep : d.step e = some d') : TokensApart d' := by
  have hhistory : RunHistory 0 events d := runHistory hrun
  have hok := hhistory.ok
  -- The run of one row is told of the other's, whichever of the two is new.
  have hnew : ∀ (runId other : Nat) (r r' : Env Value × RunRows Value) k k' token,
      d'.runs[runId]? = some r → d'.runs[other]? = some r' → Holds r.1.graph r.2 k token →
      Holds r'.1.graph r'.2 k' token →
      (∀ rows, d.runs[runId]? = some (r.1, rows) → ¬ Holds r.1.graph rows k token) →
        runId = other := by
    intro runId other r r' k k' token hr hr' hk hk' hold
    obtain ⟨p, a, rfl, habout, hfree⟩ := token_shown hrun hstep hr hk hold
    by_contra hne
    by_cases hold' : ∀ rows, d.runs[other]? = some (r'.1, rows) → ¬ Holds r'.1.graph rows k' token
    · obtain ⟨p', a', heq, habout', -⟩ := token_shown hrun hstep hr' hk' hold'
      cases heq
      exact hne (habout.symm.trans habout')
    · push Not at hold'
      obtain ⟨rows, hbefore, hheld⟩ := hold'
      exact not_holds_elsewhere hok hfree hbefore (Ne.symm hne) hheld
  intro runId runId' r r' k k' token hr hr' hk hk'
  by_cases hold : ∀ rows, d.runs[runId]? = some (r.1, rows) → ¬ Holds r.1.graph rows k token
  · exact hnew runId runId' r r' k k' token hr hr' hk hk' hold
  · by_cases hold' : ∀ rows, d.runs[runId']? = some (r'.1, rows) → ¬ Holds r'.1.graph rows k' token
    · exact (hnew runId' runId r' r k' k token hr' hr hk' hk hold').symm
    · push Not at hold hold'
      obtain ⟨rows, hbefore, hheld⟩ := hold
      obtain ⟨rows', hbefore', hheld'⟩ := hold'
      exact h runId runId' _ _ k k' token hbefore hbefore' hheld hheld'

theorem tokensApart_run
    (hrun : Trace.run Deployment.step (Deployment.start P Value) events = some d) :
    TokensApart d :=
  Trace.run_induction (P := fun _ d => TokensApart d) (fun _ _ _ _ _ _ _ h => by cases h)
    (fun _ _ _ _ hbefore h hstep => h.step hbefore hstep) hrun

/--
**A resume token names one node.**  Whatever the processes do with all the runs of a
deployment, and however their transactions overlap, no resume token is held by two rows of
the table, of one run or of two.
-/
theorem token_names_one_node
    (hrun : Trace.run Deployment.step (Deployment.start P Value) events = some d)
    (runId runId' : Nat)
    (env env' : Env Value) (rows rows' : RunRows Value) (k k' : NodeKey) (token : String)
    (hthere : d.runs[runId]? = some (env, rows)) (hthere' : d.runs[runId']? = some (env', rows'))
    (hk : Holds env.graph rows k token) (hk' : Holds env'.graph rows' k' token) :
    runId = runId' ∧ k = k' := by
  obtain rfl := tokensApart_run hrun runId runId' _ _ k k' token hthere hthere' hk hk'
  refine ⟨rfl, ?_⟩
  rw [hthere] at hthere'
  cases hthere'
  obtain ⟨now, halone⟩ := run_among_many events hrun hthere
  exact tokensDistinct_run halone k k' token hk hk'

end Deployed

/-- In both runs of `twoRuns` the runner of `other` returns the token `token`; the first to
record it does. -/
def oneToken : List (DeploymentAction Bool Unit) :=
  let outcomes : List (NodeKey × RunnerOutcome Unit) :=
    [("condition", .returned (.completed [("true", ())])),
      ("other", .returned (.suspended "token" none))]
  let batch : List (Action Unit) :=
    [.beginTick, .commitTick 0] ++ outcomes.map (fun o => .invoke o.1 o.2) ++
      [.gather, .beginSettle, .commitSettle 0 false, .beginSettle]
  twoRuns ++ batch.map (.act true) ++ batch.map (.act false) ++
    [.act true (.commitSettle 0 false), .act false (.commitSettle 0 true)]

theorem one_token_recorded : ∃ d env rows env' rows',
    Trace.run Deployment.step (Deployment.start Bool Unit) oneToken = some d ∧
      d.runs[0]? = some (env, rows) ∧ d.runs[1]? = some (env', rows') ∧
      Holds env.graph rows "other" "token" ∧
      ∀ k, Holds env'.graph rows' k "token" → 0 = 1 ∧ "other" = k := by
  have heval : (Trace.run Deployment.step (Deployment.start Bool Unit) oneToken).bind (fun d =>
      d.runs[0]?.bind fun r => d.runs[1]?.map fun _ =>
        (decide ("other" ∈ r.1.graph.nodeKeys), (r.2.executions "other").resumeToken)) =
      some (true, some "token") := by
    decide +kernel
  obtain ⟨d, hrun, hrest⟩ := Option.bind_eq_some_iff.mp heval
  obtain ⟨⟨env, rows⟩, henv, hrest'⟩ := Option.bind_eq_some_iff.mp hrest
  obtain ⟨⟨env', rows'⟩, henv', hvalues⟩ := Option.map_eq_some_iff.mp hrest'
  obtain ⟨hmem, htoken⟩ := Prod.mk.inj hvalues
  have hholds : Holds env.graph rows "other" "token" := ⟨of_decide_eq_true hmem, htoken⟩
  exact ⟨d, env, rows, env', rows', hrun, henv, henv', hholds, fun k hk =>
    token_names_one_node hrun 0 1 env env' rows rows' "other" k "token" henv henv' hholds hk⟩

end Orqent
