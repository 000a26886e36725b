/-
What a batch keeps of its results.

The nodes a tick starts are invoked together and their results are recorded one by one,
in ready order.  An invocation that raised is set aside, and the loop goes on to its
siblings.  A recording that raises is not: it leaves the loop, and whatever comes after
it is lost although its runner has returned.

What the database refuses is its own (`Columns`): a token it does not tell from one that is
stored, outputs or an error that do not fit.  `recordable` are the results that can be
recorded, each tried on the tokens stored by those before it.  All of them are recorded
exactly if the batch is `Orderly`: none comes after one that cannot be.
-/
import Orqent.Runtime.Budget

namespace Orqent

open Scheduler

variable {P Value : Type} {env : Env Value} {s s' : Sys P Value} {p q : P} {a : Action Value}
  {now : Time}

/-! ### Results that can be recorded -/

/-- The tokens stored on the rows of a run. -/
def RunRows.tokens (rows : RunRows Value) (key : NodeKey) : Option String :=
  (rows.executions key).resumeToken

/-- What the database takes of the outcomes of a batch. -/
structure Columns (Value : Type) where
  /-- What the unique index compares of a resume token: its collation key. -/
  collate : String → String
  /-- It refuses the outcome of this node whatever the rows of the run hold: a token it does not
  tell from one of another run, an error longer than its column, outputs that are no JSON. -/
  refuses : NodeKey → NodeResult Value → Bool
  /-- The text that stands for a node that must not be repeated fits. -/
  takes_refusal : ∀ key, refuses key (.failed repeatRefusedError false) = false

section Recordable

variable (columns : Columns Value) (g : WorkflowGraph Value)

/-- Whether the database refuses an outcome of this node, where these tokens are stored on the
rows of its run: no two rows hold tokens that the index does not tell apart. -/
def Columns.rejects (tokens : NodeKey → Option String) (key : NodeKey)
    (result : NodeResult Value) : Bool :=
  columns.refuses key result ||
    match result with
    | .suspended token _ => g.nodeKeys.any fun k =>
        k ≠ key && (tokens k).map columns.collate = some (columns.collate token)
    | _ => false

/-- Whether a result of this node can be recorded, where these tokens are stored. -/
def canRecord (tokens : NodeKey → Option String) (key : NodeKey)
    (result : NodeResult Value) : Bool :=
  !columns.rejects g tokens key result &&
    match result with
    | .suspended token _ => !token.isEmpty && token.length ≤ publicIdLength
    | _ => true

/-- The tokens stored once a result is recorded. -/
def storedAfter (tokens : NodeKey → Option String) (key : NodeKey) :
    NodeResult Value → NodeKey → Option String
  | .suspended token _ => Function.update tokens key (some token)
  | _ => tokens

/-- The results of a batch that can be recorded, in ready order. -/
def recordable : (NodeKey → Option String) → List (Launch × Outcome Value) →
    List (NodeKey × NodeResult Value)
  | _, [] => []
  | tokens, (l, outcome) :: rest =>
      match outcome.recorded with
      | none => recordable tokens rest
      | some result =>
          if canRecord columns g tokens l.key result then
            (l.key, result) :: recordable (storedAfter tokens l.key result) rest
          else recordable tokens rest

/-- No result that can be recorded comes after one that cannot. -/
def Orderly : (NodeKey → Option String) → List (Launch × Outcome Value) → Prop
  | _, [] => True
  | tokens, (l, outcome) :: rest =>
      match outcome.recorded with
      | none => Orderly tokens rest
      | some result =>
          if canRecord columns g tokens l.key result then
            Orderly (storedAfter tokens l.key result) rest
          else recordable columns g tokens rest = []

end Recordable

variable {columns : Columns Value}

theorem recordable_mem {g : WorkflowGraph Value} {todo : List (Launch × Outcome Value)}
    {tokens : NodeKey → Option String} {r : NodeKey × NodeResult Value}
    (h : r ∈ recordable columns g tokens todo) : ∃ e ∈ todo, e.1.key = r.1 := by
  induction todo generalizing tokens with
  | nil => simp [recordable] at h
  | cons e rest ih =>
      have hrest : ∀ {tokens}, r ∈ recordable columns g tokens rest →
          ∃ d ∈ e :: rest, d.1.key = r.1 := by
        intro tokens hr
        obtain ⟨d, hd, hkey⟩ := ih hr
        exact ⟨d, List.mem_cons_of_mem _ hd, hkey⟩
      unfold recordable at h
      split at h
      · exact hrest h
      · split at h
        · rcases List.mem_cons.mp h with rfl | h
          · exact ⟨e, List.mem_cons_self, rfl⟩
          · exact hrest h
        · exact hrest h

/-- The row of a node says what came of it. -/
def Recorded (rows : RunRows Value) (key : NodeKey) (result : NodeResult Value) : Prop :=
  ∃ now x, rows.executions key = settledExecution now x result

/-- What the database refuses is refused, and nothing else. -/
def Observes (columns : Columns Value) (g : WorkflowGraph Value) (s : Sys P Value) :
    P × Action Value → Prop
  | (p, .commitSettle _ rejected) => ∀ cycles snap l result todo failed,
      (s.procs p).phase = .recording cycles snap l (.returned result) todo failed →
        rejected = columns.rejects g s.rows.tokens l.key result
  | _ => True

/-- The advance has returned or raised. -/
def Phase.over : Phase Value → Bool
  | .idle | .returned _ => true
  | _ => false

section Rows

variable {g : WorkflowGraph Value} {rows rows' : RunRows Value} {key : NodeKey}
  {result : NodeResult Value} {queue : List QueueOp}

/-- A token that another node of the run holds is refused, as is every one like it. -/
theorem rejects_of_tokenHeld {token : String} {hint : Option String}
    (h : tokenHeld g rows key token = true) :
    columns.rejects g rows.tokens key (.suspended token hint) = true := by
  obtain ⟨k, hk, hheld⟩ := List.any_eq_true.mp h
  rw [Bool.and_eq_true, decide_eq_true_eq, decide_eq_true_eq] at hheld
  have hsame : (rows.tokens k).map columns.collate = some (columns.collate token) := by
    rw [RunRows.tokens, hheld.2]
    rfl
  unfold Columns.rejects
  rw [Bool.or_eq_true]
  refine Or.inr (List.any_eq_true.mpr ⟨k, hk, ?_⟩)
  rw [Bool.and_eq_true, decide_eq_true_eq, decide_eq_true_eq]
  exact ⟨hheld.1, hsame⟩

theorem storable_iff {rejected : Bool}
    (hseen : rejected = columns.rejects g rows.tokens key result) :
    Storable g rows key rejected result ↔ canRecord columns g rows.tokens key result = true := by
  subst hseen
  cases result with
  | completed outputs => simp [Storable, canRecord]
  | failed error retryable => simp [Storable, canRecord]
  | suspended token hint =>
      have hheld : columns.rejects g rows.tokens key (.suspended token hint) = false →
          tokenHeld g rows key token = false := by
        intro hfree
        by_contra hc
        rw [rejects_of_tokenHeld (Bool.not_eq_false _ ▸ hc)] at hfree
        cases hfree
      simp only [Storable, canRecord, Bool.and_eq_true, Bool.not_eq_true', decide_eq_true_eq]
      constructor
      · intro hc
        obtain ⟨hsome, hlength, hfree, -⟩ := hc
        exact ⟨hfree, hsome, hlength⟩
      · intro hc
        obtain ⟨hfree, hsome, hlength⟩ := hc
        exact ⟨hsome, hlength, hfree, hheld hfree⟩

/-- That a node must not be repeated can always be recorded. -/
theorem canRecord_refusal {tokens : NodeKey → Option String} :
    canRecord columns g tokens key (.failed repeatRefusedError false) = true := by
  simp [canRecord, Columns.rejects, columns.takes_refusal]

/-- The tokens after a result has been written. -/
theorem tokens_settled : ((rows.write key
    (settledExecution now (rows.executions key) result)).append
      (settledBody key result).1 (settledBody key result).2).tokens
        = storedAfter rows.tokens key result := by
  funext k
  unfold RunRows.tokens
  rw [RunRows.append_executions]
  by_cases hk : k = key
  · subst hk
    rw [RunRows.write_self]
    cases result <;> simp [settledExecution, storedAfter]
  · rw [RunRows.write_ne _ _ hk]
    cases result <;> simp [storedAfter, hk]

theorem Recorded.not_running (h : Recorded rows key result) :
    (rows.executions key).status ≠ .running := by
  obtain ⟨now, x, hrow⟩ := h
  rw [hrow]
  cases result <;> simp [settledExecution]

theorem Recorded.not_pending (h : Recorded rows key result) :
    (rows.executions key).status ≠ .pending := by
  obtain ⟨now, x, hrow⟩ := h
  rw [hrow]
  cases result <;> simp [settledExecution]

/-- What is recorded is not recovered. -/
theorem Recorded.not_stranded (h : Recorded rows key result) :
    key ∉ strandedKeys (snapshot g rows) :=
  fun hc => h.not_running (mem_stranded.mp hc).2

theorem recorded_settled : Recorded ((rows.write key
    (settledExecution now (rows.executions key) result)).append
      (settledBody key result).1 (settledBody key result).2) key result := by
  refine ⟨now, rows.executions key, ?_⟩
  rw [RunRows.append_executions, RunRows.write_self]

end Rows

section Steps

variable [DecidableEq P] [DecidableEq Value]

set_option linter.unusedSectionVars false

/-- What is recorded stays so while the run is advanced. -/
theorem Recorded.kept {key : NodeKey} {result : NodeResult Value}
    (h : Recorded s.rows key result) (hmove : Move env s p a s') (ha : a.advances = true) :
    Recorded s'.rows key result := by
  cases hmove with
  | tick now cycles rows ops hphase hlimit hsome heffect =>
      obtain ⟨at_, x, hrow⟩ := h
      have hsettled : (ticked env.graph now s.rows).executions key = s.rows.executions key :=
        ticked_of_settled (Recorded.not_pending ⟨at_, x, hrow⟩)
          (Recorded.not_running ⟨at_, x, hrow⟩)
      refine ⟨at_, x, ?_⟩
      rw [Sys.moved_rows, heffect.tick_executions, hsettled]
      exact hrow
  | settle now rejected cycles l outcome result' todo failed hphase hrecorded hkey hrunning
      hstorable =>
      have hne : key ≠ l.key := by
        rintro rfl
        exact h.not_running hrunning
      obtain ⟨at_, x, hrow⟩ := h
      refine ⟨at_, x, ?_⟩
      rw [Sys.moved_rows, RunRows.append_executions, RunRows.write_ne _ _ hne]
      exact hrow
  | resumed now token key' hphase hfind hwaiting hsuspended => simp [Action.advances] at ha
  | _ => exact h

/-! ### Nodes in hand -/

/-- Each of these nodes runs, and is there once. -/
structure Waits (env : Env Value) (rows : RunRows Value) (keys : List NodeKey) : Prop where
  nodup : keys.Nodup
  running : ∀ k ∈ keys, k ∈ env.graph.nodeKeys ∧ (rows.executions k).status = .running

theorem Waits.tail {key : NodeKey} {keys : List NodeKey} (h : Waits env s.rows (key :: keys)) :
    Waits env s.rows keys where
  nodup := (List.nodup_cons.mp h.nodup).2
  running := fun k hk => h.running k (List.mem_cons_of_mem _ hk)

/-- Recording one result leaves the other nodes running. -/
theorem Waits.settled {key : NodeKey} {keys : List NodeKey} {result : NodeResult Value}
    (h : Waits env s.rows (key :: keys))
    (hrows : s'.rows = (s.rows.write key
      (settledExecution now (s.rows.executions key) result)).append
        (settledBody key result).1 (settledBody key result).2) : Waits env s'.rows keys where
  nodup := (List.nodup_cons.mp h.nodup).2
  running := by
    intro k hk
    have hne : k ≠ key := by
      rintro rfl
      exact (List.nodup_cons.mp h.nodup).1 hk
    rw [hrows, RunRows.append_executions, RunRows.write_ne _ _ hne]
    exact h.running k (List.mem_cons_of_mem _ hk)

/-- What a tick has started runs. -/
theorem Effect.waits {rows : RunRows Value} {ops : List QueueOp}
    (h : Effect env.graph s.rows (.tick now) rows ops) :
    Waits env rows (readyKeys (snapshot env.graph s.rows)) where
  nodup := readyKeys_nodup
  running := by
    intro k hk
    refine ⟨(mem_ready.mp hk).1, ?_⟩
    rw [h.tick_executions, ticked_ready now hk]
    rfl

/-- The nodes a tick has launched run, and are launched once each. -/
theorem Move.waits (h : Move env s p (.commitTick now) s') {cycles : Nat}
    {snap : RunRows Value} {batch : List (Launch × Option (Outcome Value))}
    (hphase : (s'.procs p).phase = .invoking cycles snap batch) :
    Waits env s'.rows (batch.map fun e => e.1.key) := by
  cases h with
  | quietTick now cycles snap hbefore hfan hnone =>
      rw [Sys.moved_self] at hphase
      cases hphase
  | raised a hnot =>
      rw [Sys.raised_self] at hphase
      cases hphase
  | tick now cycles rows ops hbefore hlimit hsome heffect =>
      rw [Sys.moved_self] at hphase
      obtain ⟨-, -, rfl⟩ := Phase.invoking.inj hphase
      rw [launches_keys]
      exact heffect.waits

/-! ### The loop -/

/-- The process has this much of a batch to record. -/
def Phase.Settles (rows : RunRows Value) (todo : List (Launch × Outcome Value)) :
    Phase Value → Prop
  | .settling _ rest _ => rest = todo
  | .recording _ snap l outcome rest _ =>
      snap = rows ∧ outcome.recorded.isSome = true ∧ (l, outcome) :: rest = todo
  | _ => False

/-- What one step does to a batch that is being recorded. -/
inductive LoopStep (env : Env Value) (columns : Columns Value) (s : Sys P Value) (p : P) :
    List (Launch × Outcome Value) → Sys P Value → Prop
  | reads (todo : List (Launch × Outcome Value)) (s' : Sys P Value) (hrows : s'.rows = s.rows)
      (hphase : (s'.procs p).phase.Settles s'.rows todo) : LoopStep env columns s p todo s'
  | sets_aside (l : Launch) (outcome : Outcome Value) (rest : List (Launch × Outcome Value))
      (s' : Sys P Value) (hnone : outcome.recorded = none) (hrows : s'.rows = s.rows)
      (hphase : (s'.procs p).phase.Settles s'.rows rest) :
      LoopStep env columns s p ((l, outcome) :: rest) s'
  | records (now : Time) (l : Launch) (outcome : Outcome Value) (result : NodeResult Value)
      (rest : List (Launch × Outcome Value)) (s' : Sys P Value)
      (hrecorded : outcome.recorded = some result)
      (hcan : canRecord columns env.graph s.rows.tokens l.key result = true)
      (hrows : s'.rows = (s.rows.write l.key
        (settledExecution now (s.rows.executions l.key) result)).append
          (settledBody l.key result).1 (settledBody l.key result).2)
      (hphase : (s'.procs p).phase.Settles s'.rows rest) :
      LoopStep env columns s p ((l, outcome) :: rest) s'
  /-- The recording raises, and the loop is left. -/
  | leaves (l : Launch) (outcome : Outcome Value) (result : NodeResult Value)
      (rest : List (Launch × Outcome Value)) (s' : Sys P Value)
      (hrecorded : outcome.recorded = some result)
      (hcannot : canRecord columns env.graph s.rows.tokens l.key result = false)
      (hrows : s'.rows = s.rows) (hphase : (s'.procs p).phase = .idle) :
      LoopStep env columns s p ((l, outcome) :: rest) s'
  | ends (s' : Sys P Value) (hrows : s'.rows = s.rows) : LoopStep env columns s p [] s'

/-- Recording on the committed rows of a running node, whatever the outcome was. -/
theorem commitSettle_recorded (h : RunOk env.graph s.rows) {rejected : Bool} {cycles : Nat}
    {l : Launch} {outcome : Outcome Value} {result : NodeResult Value}
    {todo : List (Launch × Outcome Value)} {failed : Bool}
    (hrecorded : outcome.recorded = some result) (hkey : l.key ∈ env.graph.nodeKeys)
    (hrunning : (s.rows.executions l.key).status = .running)
    (hstorable : outcome = .returned result → Storable env.graph s.rows l.key rejected result) :
    s.commitSettle env p now rejected cycles s.rows l outcome todo failed =
      Sys.moved
        { s with
          rows := (s.rows.write l.key
            (settledExecution now (s.rows.executions l.key) result)).append
              (settledBody l.key result).1 (settledBody l.key result).2 } p
        (.settling cycles todo failed) := by
  cases outcome with
  | returned result' =>
      obtain rfl := Option.some.inj hrecorded
      exact commitSettle_fresh h hkey hrunning (hstorable rfl)
  | refused =>
      obtain rfl := Option.some.inj hrecorded
      -- A refusal is recorded as the failure it stands for.
      have hstored : Storable env.graph s.rows l.key false (.failed repeatRefusedError false) :=
        rfl
      exact commitSettle_fresh h hkey hrunning hstored
  | escaped e => simp [Outcome.recorded] at hrecorded

/-- **A step of the loop.** -/
theorem Waits.step {todo : List (Launch × Outcome Value)}
    (h : Waits env s.rows (todo.map fun e => e.1.key))
    (hok : SysOk env s) (hphase : (s.procs p).phase.Settles s.rows todo)
    (ha : a.advances = true) (hseen : Observes columns env.graph s (p, a))
    (hstep : s.step env (p, a) = some s') : LoopStep env columns s p todo s' := by
  cases hcase : (s.procs p).phase with
  | settling cycles rest failed =>
      rw [hcase] at hphase
      obtain rfl : rest = todo := hphase
      cases a with
      | beginSettle =>
          rcases rest with _ | ⟨⟨l, outcome⟩, rest⟩
          · refine .ends s' ?_
            cases failed <;> simp [Sys.step, hcase] at hstep <;> rw [← hstep] <;> rfl
          · cases outcome with
            | escaped error =>
                simp only [Sys.step, hcase, Option.some.injEq] at hstep
                subst hstep
                refine .sets_aside l _ rest _ rfl rfl ?_
                rw [Sys.moved_self]
                exact rfl
            | refused =>
                simp only [Sys.step, hcase, Option.some.injEq] at hstep
                subst hstep
                refine .reads _ _ rfl ?_
                rw [Sys.moved_self]
                exact ⟨rfl, rfl, rfl⟩
            | returned result =>
                simp only [Sys.step, hcase, Option.some.injEq] at hstep
                subst hstep
                refine .reads _ _ rfl ?_
                rw [Sys.moved_self]
                exact ⟨rfl, rfl, rfl⟩
      | _ => simp [Action.advances, Sys.step, hcase] at ha hstep
  | recording cycles snap l outcome rest failed =>
      rw [hcase] at hphase
      obtain ⟨rfl, hsome, rfl⟩ := hphase
      obtain ⟨result, hrecorded⟩ := Option.isSome_iff_exists.mp hsome
      cases a with
      | commitSettle now rejected =>
          simp only [Sys.step, hcase, Option.some.injEq] at hstep
          obtain ⟨hkey, hrunning⟩ := h.running _ List.mem_cons_self
          have hiff : outcome = .returned result →
            (Storable env.graph s.rows l.key rejected result ↔
              canRecord columns env.graph s.rows.tokens l.key result = true) := by
            intro houtcome
            exact storable_iff (hseen cycles _ l result rest failed (houtcome ▸ hcase))
          by_cases hcan : canRecord columns env.graph s.rows.tokens l.key result = true
          · rw [commitSettle_recorded hok.rows hrecorded hkey hrunning fun h => (hiff h).mpr hcan]
              at hstep
            subst hstep
            refine .records now l outcome result rest _ hrecorded hcan rfl ?_
            rw [Sys.moved_self]
            exact rfl
          · have houtcome : outcome = .returned result := by
              cases outcome with
              | returned result' => exact congrArg _ (Option.some.inj hrecorded)
              | refused =>
                  obtain rfl := Option.some.inj hrecorded
                  exact absurd canRecord_refusal hcan
              | escaped e => simp [Outcome.recorded] at hrecorded
            subst houtcome
            rw [commitSettle_unstorable fun hc => hcan ((hiff rfl).mp hc)] at hstep
            subst hstep
            refine .leaves l _ result rest _ hrecorded (Bool.eq_false_iff.mpr hcan) rfl ?_
            rw [Sys.raised_self]
            rfl
      | _ => simp [Action.advances, Sys.step, hcase] at ha hstep
  | _ =>
      rw [hcase] at hphase
      exact hphase.elim

/-! ### The whole batch -/

/-- All these results are recorded, or will be by a loop that comes to their end. -/
def Retains (env : Env Value) (columns : Columns Value) (p : P)
    (results : List (NodeKey × NodeResult Value)) (s : Sys P Value) : Prop :=
  (∀ r ∈ results, Recorded s.rows r.1 r.2) ∨
    ∃ todo, (s.procs p).phase.Settles s.rows todo ∧
      Waits env s.rows (todo.map fun e => e.1.key) ∧
      Orderly columns env.graph s.rows.tokens todo ∧
      ∀ r ∈ results, Recorded s.rows r.1 r.2 ∨ r ∈ recordable columns env.graph s.rows.tokens todo

/-- One of these results is lost, or will be by a loop that is left before its end. -/
def Loses (env : Env Value) (columns : Columns Value) (p : P)
    (results : List (NodeKey × NodeResult Value)) (s : Sys P Value) : Prop :=
  ((s.procs p).phase = .idle ∧ ∃ r ∈ results, (s.rows.executions r.1).status = .running) ∨
    ∃ todo, (s.procs p).phase.Settles s.rows todo ∧
      Waits env s.rows (todo.map fun e => e.1.key) ∧
      ¬ Orderly columns env.graph s.rows.tokens todo ∧
      ∀ r ∈ recordable columns env.graph s.rows.tokens todo, r ∈ results

section Batch

variable {results : List (NodeKey × NodeResult Value)}

theorem Retains.step (h : Retains env columns p results s) (hok : SysOk env s)
    (ha : a.advances = true) (hseen : Observes columns env.graph s (p, a))
    (hstep : s.step env (p, a) = some s') : Retains env columns p results s' := by
  have hmove := hok.step_move hstep
  rcases h with hall | ⟨todo, hphase, hwaits, horderly, hleft⟩
  · exact Or.inl fun r hr => (hall r hr).kept hmove ha
  · cases hwaits.step hok hphase ha hseen hstep with
    | reads todo s' hrows hphase' =>
        refine Or.inr ⟨todo, hphase', ?_, ?_, fun r hr => ?_⟩ <;> rw [hrows]
        · exact hwaits
        · exact horderly
        · exact hleft r hr
    | sets_aside l outcome rest s' hnone hrows hphase' =>
        simp only [Orderly, recordable, hnone] at horderly hleft
        refine Or.inr ⟨rest, hphase', ?_, ?_, fun r hr => ?_⟩ <;> rw [hrows]
        · exact hwaits.tail
        · exact horderly
        · exact hleft r hr
    | records now l outcome result rest s' hrecorded hcan hrows hphase' =>
        simp only [Orderly, recordable, hrecorded, hcan, if_true] at horderly hleft
        have htokens : s'.rows.tokens = storedAfter s.rows.tokens l.key result := by
          rw [hrows]
          exact tokens_settled
        refine Or.inr ⟨rest, hphase', hwaits.settled hrows, htokens ▸ horderly, fun r hr => ?_⟩
        rcases hleft r hr with hdone | hmem
        · exact Or.inl (hdone.kept hmove ha)
        · rcases List.mem_cons.mp hmem with rfl | hmem
          · refine Or.inl ?_
            rw [hrows]
            exact recorded_settled
          · exact Or.inr (htokens ▸ hmem)
    | leaves l outcome result rest s' hrecorded hcannot hrows hphase' =>
        simp only [Orderly, recordable, hrecorded, hcannot, Bool.false_eq_true, if_false]
          at horderly hleft
        refine Or.inl fun r hr => ?_
        rw [hrows]
        rcases hleft r hr with hdone | hmem
        · exact hdone
        · simp [horderly] at hmem
    | ends s' hrows =>
        refine Or.inl fun r hr => ?_
        rw [hrows]
        exact (hleft r hr).resolve_right (by simp [recordable])

theorem Loses.step (h : Loses env columns p results s) (hok : SysOk env s)
    (ha : a.advances = true) (hseen : Observes columns env.graph s (p, a))
    (hstep : s.step env (p, a) = some s') : Loses env columns p results s' := by
  rcases h with ⟨hidle, hlost⟩ | ⟨todo, hphase, hwaits, hdisorder, hsub⟩
  · have hpos := remaining_pos ha hstep 0
    rw [hidle] at hpos
    simp [Phase.remaining] at hpos
  · cases hwaits.step hok hphase ha hseen hstep with
    | reads todo s' hrows hphase' =>
        refine Or.inr ⟨todo, hphase', ?_, ?_, ?_⟩ <;> rw [hrows]
        · exact hwaits
        · exact hdisorder
        · exact hsub
    | sets_aside l outcome rest s' hnone hrows hphase' =>
        simp only [Orderly, recordable, hnone] at hdisorder hsub
        refine Or.inr ⟨rest, hphase', ?_, ?_, ?_⟩ <;> rw [hrows]
        · exact hwaits.tail
        · exact hdisorder
        · exact hsub
    | records now l outcome result rest s' hrecorded hcan hrows hphase' =>
        simp only [Orderly, recordable, hrecorded, hcan, if_true] at hdisorder hsub
        have htokens : s'.rows.tokens = storedAfter s.rows.tokens l.key result := by
          rw [hrows]
          exact tokens_settled
        refine Or.inr ⟨rest, hphase', hwaits.settled hrows, htokens ▸ hdisorder, fun r hr => ?_⟩
        exact hsub r (List.mem_cons_of_mem _ (htokens ▸ hr))
    | leaves l outcome result rest s' hrecorded hcannot hrows hphase' =>
        simp only [Orderly, recordable, hrecorded, hcannot, Bool.false_eq_true, if_false]
          at hdisorder hsub
        obtain ⟨r, hr⟩ := List.exists_mem_of_ne_nil _ hdisorder
        refine Or.inl ⟨hphase', r, hsub r hr, ?_⟩
        obtain ⟨e, he, hkey⟩ := recordable_mem hr
        rw [hrows, ← hkey]
        exact (hwaits.tail.running _ (List.mem_map_of_mem he)).2
    | ends s' hrows => exact absurd trivial hdisorder

/-- Moving on with no transaction open keeps the invariant. -/
theorem SysOk.moved (h : SysOk env s) {phase : Phase Value} (hclosed : phase.openSnap = none) :
    SysOk env (s.moved p phase) where
  rows := h.rows
  snaps := by
    intro q snap hopen
    by_cases hq : q = p
    · subst hq
      rw [Sys.moved_self, hclosed] at hopen
      cases hopen
    · rw [show (s.moved p phase).procs q = s.procs q from Function.update_of_ne hq ..] at hopen
      exact h.snaps q snap hopen

/-- What a step of the advance keeps holds of a run of it, heartbeats and all. -/
theorem advance_invariant {I : Sys P Value → Prop} {after : List (P × Action Value)}
    (hok : SysOk env s) (init : I s)
    (next : ∀ s a s', SysOk env s → I s → a.advances = true → Observes columns env.graph s (p, a) →
      s.step env (p, a) = some s' → I s')
    (hbeat : ∀ s s' : Sys P Value, s'.rows = s.rows →
      (s'.procs p).phase = (s.procs p).phase → I s → I s')
    (hrun : Trace.run (Sys.step env) s after = some s')
    (hseen : Trace.Along (Sys.step env)
      (fun s act => Alone p act ∧ Observes columns env.graph s act) s after) :
    I s' := by
  refine (Trace.run_induction_along (P := fun _ t => SysOk env t ∧ I t)
    (C := fun s act => Alone p act ∧ Observes columns env.graph s act) ⟨hok, init⟩ ?_ hrun hseen).2
  · intro tr t act t' _ hbefore hact hstep
    obtain ⟨hok, ht⟩ := hbefore
    obtain ⟨q, a⟩ := act
    refine ⟨hok.step hstep, ?_⟩
    rcases hact.1 with ⟨rfl, ha⟩ | ⟨expiresAt, rfl⟩
    · exact next t a t' hok ht ha hact.2 hstep
    · obtain ⟨hrows, hphase⟩ := extend_phase (p := p) hstep
      exact hbeat t t' hrows hphase ht

/--
**A batch keeps its results where none that cannot be recorded comes before one that
can.**  A call has committed a tick, and its batch ended in these outcomes, whatever they
are.  Once the advance is over, every result that can be recorded is, and no recovery
invokes its node again, if and only if in ready order no result that can be recorded
comes after one whose recording raises.
-/
theorem results_kept_iff {before after : List (P × Action Value)} {s₀ : Sys P Value}
    (hreach : Trace.run (Sys.step env) (Sys.start P env now) before = some s₀) {at_ : Time}
    (hstep : s₀.step env (p, .commitTick at_) = some s) {cycles : Nat} {snap : RunRows Value}
    {batch : List (Launch × Option (Outcome Value))}
    (hphase : (s.procs p).phase = .invoking cycles snap batch)
    {todo : List (Launch × Outcome Value)} (hall : todo.map Prod.fst = batch.map Prod.fst)
    (hrun : Trace.run (Sys.step env) (s.moved p (.settling cycles todo false)) after = some s')
    (hseen : Trace.Along (Sys.step env)
      (fun s act => Alone p act ∧ Observes columns env.graph s act)
      (s.moved p (.settling cycles todo false)) after) (hover : (s'.procs p).phase.over = true) :
    (∀ r ∈ recordable columns env.graph s.rows.tokens todo,
        Recorded s'.rows r.1 r.2 ∧ r.1 ∉ strandedKeys (snapshot env.graph s'.rows)) ↔
      Orderly columns env.graph s.rows.tokens todo := by
  have hok₀ : SysOk env s₀ := sys_ok hreach
  have hkeys : todo.map (fun e => e.1.key) = batch.map fun e => e.1.key := by
    have hcongr := congrArg (List.map Launch.key) hall
    rw [List.map_map, List.map_map] at hcongr
    exact hcongr
  have hwaits : Waits env s.rows (todo.map fun e => e.1.key) :=
    hkeys ▸ (hok₀.step_move hstep).waits hphase
  have hok : SysOk env (s.moved p (.settling cycles todo false)) := (hok₀.step hstep).moved rfl
  have hsettles :
      ((s.moved p (.settling cycles todo false)).procs p).phase.Settles s.rows todo := by
    rw [Sys.moved_self]
    exact rfl
  have hnone : ∀ rest, ¬ (s'.procs p).phase.Settles s'.rows rest := by
    intro rest hc
    cases hcase : (s'.procs p).phase <;> simp [hcase, Phase.over, Phase.Settles] at hover hc
  constructor
  · intro hkept
    by_contra hdisorder
    have hloses : Loses env columns p (recordable columns env.graph s.rows.tokens todo) s' := by
      refine advance_invariant hok (Or.inr ⟨todo, hsettles, hwaits, hdisorder, fun r hr => hr⟩)
        (fun _ _ _ hok h ha hseen hstep => h.step hok ha hseen hstep) ?_ hrun hseen
      intro t t' hrows hphase h
      unfold Loses at h ⊢
      rw [hrows, hphase]
      exact h
    rcases hloses with ⟨-, r, hr, hrunning⟩ | ⟨rest, hc, -⟩
    · exact (hkept r hr).1.not_running hrunning
    · exact hnone rest hc
  · intro horderly
    have hkeeps : Retains env columns p (recordable columns env.graph s.rows.tokens todo) s' := by
      refine advance_invariant hok
        (Or.inr ⟨todo, hsettles, hwaits, horderly, fun r hr => Or.inr hr⟩)
        (fun _ _ _ hok h ha hseen hstep => h.step hok ha hseen hstep) ?_ hrun hseen
      intro t t' hrows hphase h
      unfold Retains at h ⊢
      rw [hrows, hphase]
      exact h
    rcases hkeeps with hrecorded | ⟨rest, hc, -⟩
    · exact fun r hr => ⟨hrecorded r hr, (hrecorded r hr).not_stranded⟩
    · exact absurd hc (hnone rest)

end Batch

end Steps

/-! ### The rejoining branch -/

/-- The launches of a batch, and the cycle it belongs to. -/
def Phase.batch : Phase Value → Option (Nat × List Launch)
  | .invoking cycles _ batch => some (cycles, batch.map Prod.fst)
  | _ => none

theorem Phase.invoking_of_batch {phase : Phase Value} {cycles : Nat} {ls : List Launch}
    (h : phase.batch = some (cycles, ls)) :
    ∃ snap batch, phase = .invoking cycles snap batch ∧ batch.map Prod.fst = ls := by
  cases phase with
  | invoking cycles' snap batch =>
      obtain ⟨rfl, rfl⟩ := Prod.mk.inj (Option.some.inj h)
      exact ⟨snap, batch, rfl, rfl⟩
  | _ => simp [Phase.batch] at h

/-- The worker up to the tick that starts `condition` and `other`. -/
def rejoinBegun : List (Bool × Action Unit) :=
  ([Action.claim 0 10 []] ++ cycle [("trigger", .returned (.completed [("main", ())]))] ++
    [Action.beginTick]).map (true, ·)

/-- `condition` suspends with an empty token, and `other` completes. -/
def rejoinBatch : List (Launch × Outcome Unit) :=
  [(⟨"condition", 1, none⟩, .returned (.suspended "" none)),
    (⟨"other", 1, none⟩, .returned (.completed []))]

/-- The recording of `condition` raises. -/
def rejoinLeft : List (Bool × Action Unit) :=
  [(true, .beginSettle), (true, .commitSettle 0 false)]

/-- A database that compares tokens as they are, and takes all that is written. -/
def plainColumns : Columns Unit where
  collate := id
  refuses := fun _ _ => false
  takes_refusal := fun _ => rfl

theorem rejoinLeft_alone {s : Sys Bool Unit}
    (hfree : plainColumns.rejects rejoinGraph s.rows.tokens "condition" (.suspended "" none) =
      false) :
    Trace.Along (Sys.step rejoinEnv)
      (fun s act => Alone true act ∧ Observes plainColumns rejoinEnv.graph s act)
      (s.moved true (.settling 2 rejoinBatch false)) rejoinLeft := by
  refine Trace.along_cons.mpr ⟨⟨Or.inl ⟨rfl, rfl⟩, trivial⟩, fun t ht => ?_⟩
  refine Trace.along_cons.mpr ⟨⟨Or.inl ⟨rfl, rfl⟩, ?_⟩, fun _ _ => Trace.along_nil⟩
  intro cycles snap l result todo failed hphase
  obtain rfl : Sys.moved (s.moved true (.settling 2 rejoinBatch false)) true
      (.recording 2 s.rows ⟨"condition", 1, none⟩ (.returned (.suspended "" none))
        [(⟨"other", 1, none⟩, .returned (.completed []))] false) = t := Option.some.inj ht
  rw [Sys.moved_self] at hphase
  obtain ⟨-, -, rfl, houtcome, -⟩ := Phase.recording.inj hphase
  obtain rfl := Outcome.returned.inj houtcome
  exact hfree.symm

theorem rejoinLeft_runs : ∃ s₀ s snap batch s',
    Trace.run (Sys.step rejoinEnv) (Sys.start Bool rejoinEnv 0) rejoinBegun = some s₀ ∧
      s₀.step rejoinEnv (true, .commitTick 0) = some s ∧
      (s.procs true).phase = .invoking 2 snap batch ∧
      rejoinBatch.map Prod.fst = batch.map Prod.fst ∧
      Trace.run (Sys.step rejoinEnv) (s.moved true (.settling 2 rejoinBatch false)) rejoinLeft
        = some s' ∧
      (s'.procs true).phase.over = true ∧
      recordable plainColumns rejoinGraph s.rows.tokens rejoinBatch
        = [("other", .completed [])] ∧
      plainColumns.rejects rejoinGraph s.rows.tokens "condition" (.suspended "" none) = false ∧
      (s'.rows.executions "other").status = .running := by
  have heval : ((Trace.run (Sys.step rejoinEnv) (Sys.start Bool rejoinEnv 0) rejoinBegun).bind
      fun s₀ => (s₀.step rejoinEnv (true, .commitTick 0)).bind fun s =>
        (Trace.run (Sys.step rejoinEnv) (s.moved true (.settling 2 rejoinBatch false))
          rejoinLeft).map fun s' =>
            ((s.procs true).phase.batch,
              decide (recordable plainColumns rejoinGraph s.rows.tokens rejoinBatch
                = [("other", .completed [])]),
              plainColumns.rejects rejoinGraph s.rows.tokens "condition" (.suspended "" none),
              (s'.procs true).phase.over, (s'.rows.executions "other").status))
      = some (some (2, rejoinBatch.map Prod.fst), true, false, true, .running) := by
    decide +kernel
  obtain ⟨s₀, hreach, hrest⟩ := Option.bind_eq_some_iff.mp heval
  obtain ⟨s, hstep, hrest⟩ := Option.bind_eq_some_iff.mp hrest
  obtain ⟨s', hrun, hvalues⟩ := Option.map_eq_some_iff.mp hrest
  simp only [Prod.mk.injEq] at hvalues
  obtain ⟨hbatch, hrecordable, hfree, hover, hrunning⟩ := hvalues
  rw [decide_eq_true_eq] at hrecordable
  obtain ⟨snap, batch, hphase, hall⟩ := Phase.invoking_of_batch hbatch
  exact ⟨s₀, s, snap, batch, s', hreach, hstep, hphase, hall.symm, hrun, hover, hrecordable,
    hfree, hrunning⟩

/-- The condition on that batch, which it does not meet. -/
theorem rejoin_disorderly : ∃ tokens,
    ¬ Orderly plainColumns rejoinEnv.graph tokens rejoinBatch := by
  obtain ⟨s₀, s, snap, batch, s', hreach, hstep, hphase, hall, hrun, hover, hrecordable, hfree,
    hrunning⟩ := rejoinLeft_runs
  refine ⟨s.rows.tokens, fun horderly => ?_⟩
  have hkept := (results_kept_iff hreach hstep hphase hall hrun (rejoinLeft_alone hfree) hover).mpr
    horderly ("other", .completed []) (hrecordable ▸ List.mem_singleton_self _)
  exact hkept.1.not_running hrunning

/-- What `other` returned is lost, since `condition` before it could not be recorded. -/
theorem sibling_result_lost : ∃ s₀ s cycles snap batch s',
    Trace.run (Sys.step rejoinEnv) (Sys.start Bool rejoinEnv 0) rejoinBegun = some s₀ ∧
      s₀.step rejoinEnv (true, .commitTick 0) = some s ∧
      (s.procs true).phase = .invoking cycles snap batch ∧
      rejoinBatch.map Prod.fst = batch.map Prod.fst ∧
      Trace.run (Sys.step rejoinEnv) (s.moved true (.settling cycles rejoinBatch false)) rejoinLeft
        = some s' ∧
      (s'.procs true).phase.over = true ∧
      ∃ r ∈ recordable plainColumns rejoinEnv.graph s.rows.tokens rejoinBatch,
        ¬ Recorded s'.rows r.1 r.2 ∧ r.1 ∈ strandedKeys (snapshot rejoinEnv.graph s'.rows) := by
  obtain ⟨s₀, s, snap, batch, s', hreach, hstep, hphase, hall, hrun, hover, hrecordable, hfree,
    hrunning⟩ := rejoinLeft_runs
  refine ⟨s₀, s, 2, snap, batch, s', hreach, hstep, hphase, hall, hrun, hover,
    ("other", .completed []), hrecordable ▸ List.mem_singleton_self _, ?_, ?_⟩
  · exact fun hc => hc.not_running hrunning
  · exact mem_stranded.mpr ⟨by decide, hrunning⟩

end Orqent
