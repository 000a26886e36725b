/-
The run service's transactions, one after another.

`serial` runs one transaction on the committed rows and keeps its rows if it did
not raise.  A history is a run of `serial` from the materialized rows, in any
order and with any outcomes: a crash shows up as a transaction that never
happened, a second driver as a transaction in between.

`RunOk` is what every history keeps, and the rest of the development reads it
instead of unfolding a transaction.  It is proved transaction by transaction from
three inversions (`tickBody_cases`, `settleBody_iff`, `resumeBody_iff`), which say
everything a transaction that returns has done.

The argument under all of it is that a decided edge stays decided: only a node
that has succeeded or was skipped decides the edges leaving it, both are final, and
no transaction writes a final row (`Effect.final`).
-/
import Orqent.Service.ApplyTick
import Orqent.Lib.Trace

namespace Orqent

variable {Value : Type} {g : WorkflowGraph Value} {rows rows' : RunRows Value}
  {now : Time} {key : NodeKey} {queue : List QueueOp}

/-! ### What settling and resuming do -/

/-- An execution after its outcome is recorded. -/
def settledExecution (now : Time) (x : NodeExecution Value) : NodeResult Value → NodeExecution Value
  | .completed outputs =>
      { x with status := .succeeded, output := some outputs, finishedAt := some now }
  | .failed error _ => { x with status := .failed, error := some error, finishedAt := some now }
  | .suspended token _ => { x with status := .waiting, resumeToken := some token }

/-- The event an outcome writes. -/
def settledBody (key : NodeKey) : NodeResult Value → EventBody
  | .completed _ => (.nodeSucceeded, some (.node key))
  | .failed error retryable => (.nodeFailed, some (.failure key error retryable))
  | .suspended _ hint => (.nodeSuspended, some (.suspension key hint))

/-- Whether the outcome can be stored: the database takes it, and a token fits its column and
is held by no other node. -/
def Storable (g : WorkflowGraph Value) (rows : RunRows Value) (key : NodeKey) (rejected : Bool) :
    NodeResult Value → Prop
  | .suspended token _ =>
      token.isEmpty = false ∧ token.length ≤ publicIdLength ∧ rejected = false ∧
        tokenHeld g rows key token = false
  | _ => rejected = false

theorem ensureNode_iff {current target : NodeExecutionStatus} :
    ensureNodeExecutionTransition current target = .ok () ↔ target ∈ current.transitions :=
  ensure_ok_iff

theorem validateResumeToken_iff {token : String} : validateResumeToken key token = .ok () ↔
    token.isEmpty = false ∧ token.length ≤ publicIdLength := by
  unfold validateResumeToken
  by_cases h : (token.isEmpty || publicIdLength < token.length) = true
  · rw [if_pos h]
    simp only [reduceCtorEq, false_iff, not_and, not_le]
    intro hne
    simpa [hne] using h
  · rw [if_neg h]
    simpa using h

/-- Only a running node can have its outcome recorded. -/
theorem settles_iff_running {current : NodeExecutionStatus} :
    (.succeeded ∈ current.transitions ↔ current = .running) ∧
      (.failed ∈ current.transitions ↔ current = .running) ∧
        (.waiting ∈ current.transitions ↔ current = .running) := by
  cases current <;> decide

theorem bind_unit_iff {α : Type} {check : Except EngineError Unit} {next : Except EngineError α}
    {a : α} : (check >>= fun _ => next) = .ok a ↔ check = .ok () ∧ next = .ok a := by
  cases check with
  | error e =>
      constructor
      · intro h
        exact nomatch h
      · intro hc
        obtain ⟨h, -⟩ := hc
        exact nomatch h
  | ok u =>
      show next = _ ↔ _
      simp

/-- What the database refuses raises, and the rest is written. -/
theorem rejected_iff {rejected : Bool} {column : String} {written : RunRows Value} :
    (do
      if rejected then Except.error (EngineError.integrity column)
      return written : Except EngineError (RunRows Value)) = .ok rows' ↔
      rejected = false ∧ rows' = written := by
  cases rejected with
  | true =>
      constructor
      · intro h
        cases h
      · intro hc
        obtain ⟨h, -⟩ := hc
        cases h
  | false =>
      show Except.ok written = _ ↔ _
      rw [Except.ok.injEq]
      simp only [true_and]
      exact eq_comm

/-- **Recording an outcome.**  It returns exactly for a running node and a storable outcome. -/
theorem settleBody_iff {result : NodeResult Value} {rejected : Bool} :
    settleBody g now key result rejected rows = .ok rows' ↔
      key ∈ g.nodeKeys ∧ (rows.executions key).status = .running ∧
        Storable g rows key rejected result ∧
        rows' = (rows.write key (settledExecution now (rows.executions key) result)).append
          (settledBody key result).1 (settledBody key result).2 := by
  unfold settleBody
  by_cases hkey : key ∈ g.nodeKeys
  swap
  · simp only [hkey, not_false_eq_true, if_true, false_and, iff_false]
    intro h
    cases h
  simp only [hkey, not_true_eq_false, if_false, true_and]
  cases result with
  | completed outputs =>
      show (ensureNodeExecutionTransition _ _ >>= fun _ => _) = _ ↔ _
      rw [bind_unit_iff, ensureNode_iff, settles_iff_running.1]
      exact and_congr_right fun _ => rejected_iff
  | failed error retryable =>
      show (ensureNodeExecutionTransition _ _ >>= fun _ => _) = _ ↔ _
      rw [bind_unit_iff, ensureNode_iff, settles_iff_running.2.1]
      exact and_congr_right fun _ => rejected_iff
  | suspended token hint =>
      show (validateResumeToken _ _ >>= fun _ => ensureNodeExecutionTransition _ _ >>= fun _ => _) =
        _
        ↔ _
      rw [bind_unit_iff, bind_unit_iff, validateResumeToken_iff, ensureNode_iff,
        settles_iff_running.2.2]
      by_cases hheld : (rejected || tokenHeld g rows key token) = true
      · rw [if_pos hheld]
        constructor
        · intro hc
          obtain ⟨-, -, h⟩ := hc
          cases h
        · intro hc
          obtain ⟨-, ⟨-, -, helse, hfree⟩, -⟩ := hc
          simp [helse, hfree] at hheld
      · rw [if_neg hheld]
        show _ ∧ _ ∧ Except.ok _ = _ ↔ _
        rw [Except.ok.injEq]
        simp only [Bool.or_eq_true, not_or, Bool.not_eq_true] at hheld
        simp only [Storable, hheld.1, hheld.2, and_self, and_true, settledExecution, settledBody]
        constructor
        · intro hc
          obtain ⟨htok, hrun, h⟩ := hc
          exact ⟨hrun, htok, h.symm⟩
        · intro hc
          obtain ⟨hrun, htok, h⟩ := hc
          exact ⟨htok, hrun, h.symm⟩

/-- Recording an outcome, as a transaction. -/
theorem exec_settle_iff {result : NodeResult Value} {rejected : Bool}
    {work : RunRows Value × List QueueOp} :
    RunTxn.exec g (.settle now key result rejected) rows = .ok work ↔
      key ∈ g.nodeKeys ∧ (rows.executions key).status = .running ∧
        Storable g rows key rejected result ∧
        work = ((rows.write key (settledExecution now (rows.executions key) result)).append
          (settledBody key result).1 (settledBody key result).2, []) := by
  cases hbody : settleBody g now key result rejected rows with
  | error e =>
      have hnot : ¬ (key ∈ g.nodeKeys ∧ (rows.executions key).status = .running ∧
          Storable g rows key rejected result) := by
        intro hc
        obtain ⟨hkey, hrunning, hstorable⟩ := hc
        rw [settleBody_iff.mpr ⟨hkey, hrunning, hstorable, rfl⟩] at hbody
        exact nomatch hbody
      simp only [RunTxn.exec, hbody]
      constructor
      · intro h
        exact nomatch h
      · intro hc
        obtain ⟨hkey, hrunning, hstorable, -⟩ := hc
        exact absurd ⟨hkey, hrunning, hstorable⟩ hnot
  | ok rows' =>
      obtain ⟨hkey, hrunning, hstorable, rfl⟩ := settleBody_iff.mp hbody
      simp only [RunTxn.exec, hbody]
      show Except.ok _ = _ ↔ _
      rw [Except.ok.injEq]
      simp only [hkey, hrunning, hstorable, true_and]
      exact eq_comm

/-- A refusal is recorded as the failure of a node that must not be repeated. -/
theorem exec_refuse_eq : RunTxn.exec g (.refuse now key) rows =
    RunTxn.exec g (.settle now key (.failed repeatRefusedError false) false) rows := rfl

/-- The rows after the first transaction of a resume. -/
def resumed (now : Time) (key : NodeKey) (rows : RunRows Value) : RunRows Value :=
  RunRows.appendAll
    { rows.write key
        { rows.executions key with status := .running, resumeToken := none, startedAt := some now }
      with run := { rows.run with status := .running } }
    [(.runResumed, none), (.nodeStarted, some (.node key))]

/-- **Accepting a resume.**  It returns exactly for a waiting node of a suspended run. -/
theorem resumeBody_iff {token : String} : resumeBody g now token rows = .ok (rows', queue) ↔
    ∃ key, waitingNode g rows token = some key ∧ (rows.executions key).status = .waiting ∧
      rows.run.status = .suspended ∧ rows' = resumed now key rows ∧ queue = [.enqueue] := by
  unfold resumeBody
  cases hfind : waitingNode g rows token with
  | none => simp
  | some key =>
      simp only [Option.some.injEq, exists_eq_left']
      by_cases hwait : (rows.executions key).status = .waiting
      swap
      · simp only [ne_eq, hwait, not_false_eq_true, if_true, false_and, iff_false]
        intro h
        exact nomatch h
      by_cases hsus : rows.run.status = .suspended
      swap
      · simp only [ne_eq, hwait, not_true_eq_false, if_false, hsus, not_false_eq_true, if_true,
          false_and, and_false, iff_false]
        intro h
        exact nomatch h
      have hnode : ensureNodeExecutionTransition .waiting .running = .ok () :=
        ensure_of_mem (by decide)
      have hrun : ensureRunTransition .suspended .running = .ok () := ensure_of_mem (by decide)
      simp only [ne_eq, hwait, not_true_eq_false, if_false, hsus, true_and, hnode, hrun]
      show Except.ok _ = _ ↔ _
      rw [Except.ok.injEq, Prod.mk.injEq]
      constructor
      · intro hc
        obtain ⟨h, hq⟩ := hc
        exact ⟨h.symm, hq.symm⟩
      · intro hc
        obtain ⟨h, hq⟩ := hc
        exact ⟨h.symm, hq.symm⟩

theorem waitingNode_mem {token : String} (h : waitingNode g rows token = some key) :
    key ∈ g.nodeKeys ∧ (rows.executions key).resumeToken = some token :=
  ⟨List.mem_of_find?_eq_some h, by simpa using List.find?_some h⟩

/-! ### One transaction -/

/-- Everything a transaction that returns can have done. -/
inductive Effect (g : WorkflowGraph Value) (rows : RunRows Value) :
    RunTxn Value → RunRows Value → List QueueOp → Prop
  /-- A tick that leaves the run's status alone. -/
  | tick (now : Time) (hfan : g.SingleFanIn)
      (hstatus : Scheduler.conclusion (snapshot g rows) = none ∨
        Scheduler.conclusion (snapshot g rows) = some rows.run.status) :
      Effect g rows (.tick now) (ticked g now rows) []
  /-- A tick that moves the run. -/
  | conclude (now : Time) (target : RunStatus) (hfan : g.SingleFanIn)
      (hstatus : Scheduler.conclusion (snapshot g rows) = some target)
      (hne : target ≠ rows.run.status) (hlegal : target ∈ rows.run.status.transitions) :
      Effect g rows (.tick now) ((ticked g now rows).concluded now target) (conclusionOps target)
  /-- An outcome is recorded, or a refusal. -/
  | settle (t : RunTxn Value) (now : Time) (key : NodeKey) (result : NodeResult Value)
      (rejected : Bool)
      (ht : t = .settle now key result rejected ∨
        t = .refuse now key ∧ result = .failed repeatRefusedError false)
      (hkey : key ∈ g.nodeKeys) (hrunning : (rows.executions key).status = .running)
      (hstorable : Storable g rows key rejected result) :
      Effect g rows t
        ((rows.write key (settledExecution now (rows.executions key) result)).append
          (settledBody key result).1 (settledBody key result).2) []
  /-- A resume is accepted. -/
  | resume (now : Time) (token : String) (key : NodeKey)
      (hfind : waitingNode g rows token = some key)
      (hwaiting : (rows.executions key).status = .waiting)
      (hsuspended : rows.run.status = .suspended) :
      Effect g rows (.resume now token) (resumed now key rows) [.enqueue]

/-- **The inversion of every transaction.** -/
theorem exec_effect {t : RunTxn Value} (h : t.exec g rows = .ok (rows', queue)) :
    Effect g rows t rows' queue := by
  cases t with
  | tick now =>
      obtain ⟨hfan, ⟨hstatus, rfl, rfl⟩ | ⟨target, hstatus, hne, hlegal, rfl, rfl⟩⟩ :=
        tickBody_cases h
      · exact .tick now hfan hstatus
      · exact .conclude now target hfan hstatus hne hlegal
  | settle now key result rejected =>
      obtain ⟨hkey, hrunning, hstorable, hwork⟩ := exec_settle_iff.mp h
      obtain ⟨rfl, rfl⟩ := Prod.mk.inj hwork
      exact .settle _ now key result rejected (Or.inl rfl) hkey hrunning hstorable
  | refuse now key =>
      rw [exec_refuse_eq] at h
      obtain ⟨hkey, hrunning, hstorable, hwork⟩ := exec_settle_iff.mp h
      obtain ⟨rfl, rfl⟩ := Prod.mk.inj hwork
      exact .settle _ now key _ false (Or.inr ⟨rfl, rfl⟩) hkey hrunning hstorable
  | resume now token =>
      obtain ⟨key, hfind, hwaiting, hsuspended, rfl, rfl⟩ := resumeBody_iff.mp h
      exact .resume now token key hfind hwaiting hsuspended

end Orqent
