/-
Which nodes a run can start.

The engine starts whatever has nothing connected into it, and every other node once its
inputs have settled; the validator follows the edges from the trigger.  In the run in
which every node emits on every handle that leaves it, no edge is ever dead, no node
fails or waits, and the advance returns with every node begun: `emission_starts_all`.  So
on a graph that validates every node is started by some run, and the warning is wrong
about each node it reports.
-/
import Orqent.Graph.Reachability
import Orqent.Runtime.Siblings

namespace Orqent

open Scheduler

variable {P Value : Type} {env : Env Value} {s s' : Sys P Value} {p q : P} {a : Action Value}
  {now : Time}

/-- Some run starts the node, whatever the processes do and whatever comes of each node. -/
def EverStarts (P : Type) [DecidableEq P] [DecidableEq Value] (env : Env Value) (key : NodeKey) :
    Prop :=
  ∃ now tr, ∃ s : Sys P Value, Trace.run (Sys.step env) (Sys.start P env now) tr = some s ∧
    begun (s.rows.executions key).status

/-- On a valid graph a first attempt is never refused and never raises. -/
theorem invokeLaunch_first (hvalid : (validateGraph env.graph env.registry).isValid = true)
    (snap : RunRows Value) {l : Launch} (hkey : l.key ∈ env.graph.nodeKeys) (hfirst : l.attempt ≤ 1)
    (outcome : RunnerOutcome Value) :
    invokeLaunch env snap l outcome = .returned outcome.result := by
  obtain ⟨n, hn, hname⟩ := List.mem_map.mp hkey
  obtain ⟨d, hfind, -⟩ := descriptor_of_valid hvalid hn
  have hnode : (snapshot env.graph snap).graph.node l.key = some n := by
    rw [← hname]
    exact env.graph.node_of_mem hn
  have hget : env.registry.get n.nodeType n.version = .ok d := by
    unfold NodeRegistry.get
    rw [hfind]
  have hguard : repeatWouldBeUnsafe env l.key l.attempt = .ok false := by
    unfold repeatWouldBeUnsafe
    rw [if_pos hfirst]
  unfold invokeLaunch invocation
  rw [hguard]
  simp only [bind, Except.bind, buildContext_ok hnode hget (config_of_valid hvalid hn hfind)]
  rfl

/-! ### The run in which every node emits -/

section Emission

variable [Inhabited Value]

/-- A value on every handle of the node that something is connected to. -/
def emission (g : WorkflowGraph Value) (key : NodeKey) : Dict String Value :=
  (g.outgoing key).map fun e => (e.sourceHandle, default)

theorem emission_contains {g : WorkflowGraph Value} {e : GraphEdge} (he : e ∈ g.edges) :
    (emission g e.sourceKey).contains e.sourceHandle = true := by
  have hget : ∀ d : Dict String Value, e.sourceHandle ∈ d.map Prod.fst →
      d.contains e.sourceHandle = true := by
    intro d
    induction d with
    | nil => simp
    | cons entry rest ih =>
        intro hmem
        by_cases hhead : entry.1 = e.sourceHandle
        · simp [Dict.contains, Dict.get?, hhead]
        · rw [List.map_cons, List.mem_cons] at hmem
          have hrest := ih (hmem.resolve_left (Ne.symm hhead))
          simpa [Dict.contains, Dict.get?, hhead] using hrest
  refine hget _ ?_
  unfold emission
  rw [List.map_map]
  exact List.mem_map_of_mem (f := GraphEdge.sourceHandle)
    (List.mem_filter.mpr ⟨he, by simp⟩)

/-- What comes of a node: it succeeded, and emitted everywhere. -/
def emitted (g : WorkflowGraph Value) (key : NodeKey) : Outcome Value :=
  .returned (.completed (emission g key))

/-- What the process has in hand is not recovered, and ends well. -/
def Phase.Emits (env : Env Value) (rows : RunRows Value) : Phase Value → Prop
  | .advancing _ | .ticking _ _ => RunsOnly env.graph rows []
  | .invoking _ _ batch =>
      Waits env rows (batch.map fun e => e.1.key) ∧
        ∀ e ∈ batch, e.1.attempt ≤ 1 ∧
          ∀ outcome, e.2 = some outcome → outcome = emitted env.graph e.1.key
  | .settling _ todo failed =>
      failed = false ∧ Waits env rows (todo.map fun e => e.1.key) ∧
        ∀ e ∈ todo, e.2 = emitted env.graph e.1.key
  | .recording _ _ l outcome todo failed =>
      failed = false ∧ Waits env rows (l.key :: todo.map fun e => e.1.key) ∧
        outcome = emitted env.graph l.key ∧ ∀ e ∈ todo, e.2 = emitted env.graph e.1.key
  | .returned _ => decisions (snapshot env.graph rows) = []
  | _ => False

/-- The run so far: no node has failed, waits or was skipped. -/
structure Emits (env : Env Value) (p : P) (s : Sys P Value) : Prop where
  nodes : ∀ k ∈ env.graph.nodeKeys, (s.rows.executions k).status = .pending ∨
    (s.rows.executions k).status = .running ∨
      (s.rows.executions k).status = .succeeded ∧
        (s.rows.executions k).output = some (emission env.graph k)
  first : ∀ k ∈ env.graph.nodeKeys, (s.rows.executions k).attempt ≤ 1
  concluded : s.rows.run.status.isTerminal = true →
    decisions (snapshot env.graph s.rows) = []
  phase : (s.procs p).phase.Emits env s.rows

theorem Emits.not_dead (h : Emits env p s) {e : GraphEdge} (he : e ∈ env.graph.edges) :
    isDead (snapshot env.graph s.rows) e = false := by
  refine Bool.eq_false_iff.mpr fun hdead => ?_
  obtain ⟨hkey, hsource⟩ := source_of_dead hdead
  rcases h.nodes e.sourceKey hkey with hst | hst | ⟨hst, hout⟩
  · simp [hst] at hsource
  · simp [hst] at hsource
  · rcases hsource with hskipped | ⟨-, outputs, houtputs, hnot⟩
    · simp [hst] at hskipped
    · rw [hout, Option.some.injEq] at houtputs
      rw [← houtputs, emission_contains he] at hnot
      simp at hnot

theorem Emits.none_prunable (h : Emits env p s) :
    prunableKeys (snapshot env.graph s.rows) = [] := by
  rw [List.eq_nil_iff_forall_not_mem]
  intro k hk
  obtain ⟨hne, hall⟩ := upstreamDead_iff.mp (mem_prunable.mp hk).2.2
  obtain ⟨e, he⟩ := List.exists_mem_of_ne_nil _ hne
  have hdead := hall e he
  rw [h.not_dead ((env.graph.mem_incoming).mp he).1] at hdead
  simp at hdead

variable [DecidableEq P] [DecidableEq Value]

set_option linter.unusedSectionVars false

/-! ### Each of its steps -/

theorem Emits.begin_tick (h : Emits env p s) {cycles : Nat}
    (hphase : (s.procs p).phase = .advancing cycles) :
    ∃ s', s.step env (p, .beginTick) = some s' ∧ Emits env p s' := by
  refine ⟨s.moved p (.ticking cycles s.rows), by simp [Sys.step, hphase], ?_⟩
  refine ⟨h.nodes, h.first, h.concluded, ?_⟩
  have hruns := h.phase
  rw [hphase] at hruns
  rw [Sys.moved_self]
  exact hruns

/-- What a tick makes of the nodes. -/
theorem Emits.ticked (h : Emits env p s) (hok : SysOk env s) (hruns : RunsOnly env.graph s.rows [])
    {rows : RunRows Value} {ops : List QueueOp}
    (heffect : Effect env.graph s.rows (.tick now) rows ops)
    {k : NodeKey} (hk : k ∈ env.graph.nodeKeys) :
    (rows.executions k).attempt = (s.rows.executions k).attempt ∧
      ((rows.executions k).status = .running ∨ rows.executions k = s.rows.executions k) := by
  rw [heffect.tick_executions]
  rcases hok.rows.ticked_cases now hk with
    ⟨hst, -, -⟩ | ⟨-, -, hrow⟩ | ⟨hst, hdead, -⟩ | ⟨-, -, -, hrow⟩
  · have hmem := hruns k hk hst
    simp at hmem
  · rw [hrow]
    exact ⟨rfl, Or.inl rfl⟩
  · have hmem := mem_prunable.mpr ⟨hk, hst, hdead⟩
    simp [h.none_prunable] at hmem
  · rw [hrow]
    exact ⟨rfl, Or.inr rfl⟩

/-- A run that a tick concludes has nothing left to decide. -/
theorem Emits.concludes (h : Emits env p s) (hok : SysOk env s)
    {rows : RunRows Value} {ops : List QueueOp}
    (heffect : Effect env.graph s.rows (.tick now) rows ops)
    (hsome : decisions (snapshot env.graph s.rows) ≠ [])
    (hterm : rows.run.status.isTerminal = true) :
    decisions (snapshot env.graph rows) = [] := by
  have hready : readyKeys (snapshot env.graph s.rows) = [] := by
    cases heffect with
    | tick now hfan hstatus =>
        rw [ticked_run] at hterm
        exact absurd (h.concluded hterm) hsome
    | conclude now target hfan hstatus hne hlegal =>
        rw [concluded_status] at hterm
        refine (quiet_of_conclusion hstatus ?_).1
        rintro rfl
        simp [RunStatus.isTerminal, RunStatus.transitions] at hterm
    | settle t now key result rejected ht hkey hrunning hstorable =>
        rcases ht with ht | ⟨ht, -⟩ <;> simp at ht
  exact hok.rows.decided_once heffect hready h.none_prunable

theorem Emits.commit_tick (h : Emits env p s) (hok : SysOk env s)
    (hwithin : (s.procs p).phase.Within env s.rows) (hfan : env.graph.SingleFanIn) {cycles : Nat}
    {snap : RunRows Value} (hphase : (s.procs p).phase = .ticking cycles snap) :
    ∃ s', s.step env (p, .commitTick 0) = some s' ∧ Emits env p s' := by
  have hruns := h.phase
  rw [hphase] at hwithin hruns
  obtain ⟨rfl, hbetween⟩ := hwithin
  refine ⟨s.commitTick env p 0 cycles s.rows, by simp [Sys.step, hphase], ?_⟩
  by_cases hsome : decisions (snapshot env.graph s.rows) = []
  · have hquiet : s.commitTick env p 0 cycles s.rows = s.moved p (.returned s.rows.run.status) := by
      unfold Sys.commitTick
      rw [tick_ok snapshot_complete hfan, hsome]
    rw [hquiet]
    refine ⟨h.nodes, h.first, h.concluded, ?_⟩
    rw [Sys.moved_self]
    exact hsome
  · cases hbody : tickBody env.graph 0 s.rows with
    | error e => exact absurd hbody (hok.rows.legal hfan h.concluded)
    | ok work =>
        obtain ⟨rows, ops⟩ := work
        have heffect : Effect env.graph s.rows (.tick 0) rows ops := exec_effect hbody
        rw [commitTick_fresh hok.rows (hbetween.lt hsome) hsome hbody]
        refine ⟨fun k hk => ?_, fun k hk => ?_, h.concludes hok heffect hsome, ?_⟩
        · rcases (h.ticked hok hruns heffect hk).2 with hrunning | hsame
          · exact Or.inr (Or.inl hrunning)
          · rw [Sys.moved_rows, hsame]
            exact h.nodes k hk
        · rw [Sys.moved_rows, (h.ticked hok hruns heffect hk).1]
          exact h.first k hk
        · rw [Sys.moved_self]
          refine ⟨?_, fun e he => ?_⟩
          · rw [launches_keys]
            exact heffect.waits
          · rw [launches_decisions] at he
            obtain ⟨k, hk, rfl⟩ := List.mem_map.mp he
            have hkey := (mem_ready.mp hk).1
            refine ⟨?_, by simp⟩
            show (rows.executions k).attempt ≤ 1
            rw [(h.ticked hok hruns heffect hkey).1]
            exact h.first k hkey

/-- A launch that has no outcome yet is invoked, and succeeds. -/
theorem Emits.invoke_open (h : Emits env p s)
    (hvalid : (validateGraph env.graph env.registry).isValid = true) {cycles : Nat}
    {snap : RunRows Value} {batch : List (Launch × Option (Outcome Value))}
    (hphase : (s.procs p).phase = .invoking cycles snap batch) {l : Launch}
    (hl : (l, none) ∈ batch) :
    ∃ s', s.step env (p, .invoke l.key (.returned (.completed (emission env.graph l.key)))) =
      some s' ∧ Emits env p s' := by
  have hbatch := h.phase
  rw [hphase] at hbatch
  obtain ⟨hwaits, hentries⟩ := hbatch
  have hany : (batch.any fun entry => entry.1.key = l.key && entry.2.isNone) = true :=
    List.any_eq_true.mpr ⟨(l, none), hl, by simp⟩
  refine ⟨s.moved p (.invoking cycles snap (invokeIn env snap l.key
    (.returned (.completed (emission env.graph l.key))) batch)), ?_, h.nodes, h.first, h.concluded,
      ?_⟩
  · simp only [Sys.step, hphase, hany, if_true]
  rw [Sys.moved_self]
  refine ⟨?_, fun e he => ?_⟩
  · rw [invokeIn_keys]
    exact hwaits
  · obtain ⟨⟨l', known⟩, hmem, rfl⟩ := List.mem_map.mp he
    obtain ⟨hfirst, hknown⟩ := hentries _ hmem
    cases known with
    | some outcome => exact ⟨hfirst, hknown⟩
    | none =>
        by_cases hkey : l'.key = l.key
        · have hnode := (hwaits.running _ (List.mem_map_of_mem hmem)).1
          simp only [invokeEntry, hkey, if_true]
          refine ⟨hfirst, fun outcome houtcome => ?_⟩
          rw [← Option.some.inj houtcome, invokeLaunch_first hvalid snap hnode hfirst, emitted]
          rfl
        · simp only [invokeEntry, hkey, if_false]
          exact ⟨hfirst, hknown⟩

theorem Emits.gather (h : Emits env p s) {cycles : Nat} {snap : RunRows Value}
    {batch : List (Launch × Option (Outcome Value))}
    (hphase : (s.procs p).phase = .invoking cycles snap batch) (hall : ∀ l, (l, none) ∉ batch) :
    ∃ s', s.step env (p, .gather) = some s' ∧ Emits env p s' := by
  have hbatch := h.phase
  rw [hphase] at hbatch
  obtain ⟨hwaits, hentries⟩ := hbatch
  obtain ⟨todo, htodo⟩ := gathered_of_closed hall
  refine ⟨s.moved p (.settling cycles todo false), by simp [Sys.step, hphase, htodo],
    h.nodes, h.first, h.concluded, ?_⟩
  have hlaunched := gathered_launched htodo
  rw [Sys.moved_self]
  refine ⟨rfl, ?_, fun e he => ?_⟩
  · rw [← hlaunched, List.map_map] at hwaits
    exact hwaits
  · have hmem : (e.1, some e.2) ∈ batch := by
      rw [← hlaunched]
      exact List.mem_map.mpr ⟨e, he, rfl⟩
    exact (hentries _ hmem).2 e.2 rfl

theorem Emits.begin_settle (h : Emits env p s)
    (hwithin : (s.procs p).phase.Within env s.rows) {cycles : Nat}
    {todo : List (Launch × Outcome Value)} {failed : Bool}
    (hphase : (s.procs p).phase = .settling cycles todo failed) :
    ∃ s', s.step env (p, .beginSettle) = some s' ∧ Emits env p s' := by
  have htodo := h.phase
  rw [hphase] at hwithin htodo
  obtain ⟨rfl, hwaits, hall⟩ := htodo
  rcases todo with _ | ⟨⟨l, outcome⟩, rest⟩
  · refine ⟨s.moved p (.advancing cycles), by simp [Sys.step, hphase],
      h.nodes, h.first, h.concluded, ?_⟩
    rw [Sys.moved_self]
    exact hwithin.2 rfl
  · have houtcome : outcome = emitted env.graph l.key := hall (l, outcome) List.mem_cons_self
    refine ⟨s.moved p (.recording cycles s.rows l outcome rest false), ?_,
      h.nodes, h.first, h.concluded, ?_⟩
    · simp [Sys.step, hphase, houtcome, emitted]
    · rw [Sys.moved_self]
      exact ⟨rfl, hwaits, houtcome, fun e he => hall e (List.mem_cons_of_mem _ he)⟩

theorem Emits.commit_settle (h : Emits env p s) (hok : SysOk env s)
    (hwithin : (s.procs p).phase.Within env s.rows) {cycles : Nat} {snap : RunRows Value}
    {l : Launch}
    {outcome : Outcome Value} {todo : List (Launch × Outcome Value)} {failed : Bool}
    (hphase : (s.procs p).phase = .recording cycles snap l outcome todo failed) :
    ∃ s', s.step env (p, .commitSettle 0 false) = some s' ∧ Emits env p s' := by
  have hrecording := h.phase
  rw [hphase] at hwithin hrecording
  obtain ⟨rfl, -, -⟩ := hwithin
  obtain ⟨rfl, hwaits, rfl, hall⟩ := hrecording
  obtain ⟨hkey, hrunning⟩ := hwaits.running l.key List.mem_cons_self
  refine ⟨s.commitSettle env p 0 false cycles s.rows l (emitted env.graph l.key) todo false,
    by simp [Sys.step, hphase], ?_⟩
  have hstorable : Storable env.graph s.rows l.key false
      (.completed (emission env.graph l.key)) := rfl
  unfold emitted
  rw [commitSettle_fresh hok.rows hkey hrunning hstorable]
  refine ⟨fun k hk => ?_, fun k hk => ?_, fun hterm => ?_, ?_⟩
  · rw [Sys.moved_rows, RunRows.append_executions]
    by_cases hkeys : k = l.key
    · subst hkeys
      rw [RunRows.write_self]
      exact Or.inr (Or.inr ⟨rfl, rfl⟩)
    · rw [RunRows.write_ne _ _ hkeys]
      exact h.nodes k hk
  · rw [Sys.moved_rows, RunRows.append_executions]
    by_cases hkeys : k = l.key
    · subst hkeys
      rw [RunRows.write_self]
      exact h.first l.key hk
    · rw [RunRows.write_ne _ _ hkeys]
      exact h.first k hk
  · -- A finished run has no node to record.
    have hstranded := mem_stranded.mpr ⟨hkey, hrunning⟩
    simp [(decisions_eq_nil_iff.mp (h.concluded hterm)).1] at hstranded
  · rw [Sys.moved_self]
    exact ⟨rfl, hwaits.settled rfl, hall⟩

/-- **The run goes on until the advance returns.** -/
theorem Emits.next (h : Emits env p s) (hok : SysOk env s)
    (hwithin : (s.procs p).phase.Within env s.rows)
    (hvalid : (validateGraph env.graph env.registry).isValid = true)
    (hfan : env.graph.SingleFanIn) :
    decisions (snapshot env.graph s.rows) = [] ∨
      ∃ (a : Action Value) (s' : Sys P Value), a.advances = true ∧
        s.step env (p, a) = some s' ∧ Emits env p s' := by
  cases hphase : (s.procs p).phase with
  | advancing cycles => exact Or.inr ⟨_, _, rfl, (h.begin_tick hphase).choose_spec⟩
  | ticking cycles snap =>
      exact Or.inr ⟨_, _, rfl, (h.commit_tick hok hwithin hfan hphase).choose_spec⟩
  | invoking cycles snap batch =>
      by_cases hopen : ∃ l, (l, none) ∈ batch
      · obtain ⟨l, hl⟩ := hopen
        exact Or.inr ⟨_, _, rfl, (h.invoke_open hvalid hphase hl).choose_spec⟩
      · have hall : ∀ l, (l, none) ∉ batch := fun l hl => hopen ⟨l, hl⟩
        exact Or.inr ⟨_, _, rfl, (h.gather hphase hall).choose_spec⟩
  | settling cycles todo failed =>
      exact Or.inr ⟨_, _, rfl, (h.begin_settle hwithin hphase).choose_spec⟩
  | recording cycles snap l outcome todo failed =>
      exact Or.inr ⟨_, _, rfl, (h.commit_settle hok hwithin hphase).choose_spec⟩
  | returned status =>
      have hreturned := h.phase
      rw [hphase] at hreturned
      exact Or.inl hreturned
  | idle | resuming token snap =>
      have hnone := h.phase
      rw [hphase] at hnone
      exact hnone.elim

/-- What is left to decide is decided within the steps that remain. -/
theorem Emits.finishes (hvalid : (validateGraph env.graph env.registry).isValid = true)
    (hfan : env.graph.SingleFanIn) (n : Nat) :
    ∀ s : Sys P Value, (s.procs p).phase.remaining env.graph.length ≤ n → Emits env p s →
      SysOk env s → (s.procs p).phase.Within env s.rows →
      ∃ tr s', Trace.run (Sys.step env) s tr = some s' ∧ Emits env p s' ∧ SysOk env s' ∧
        decisions (snapshot env.graph s'.rows) = [] := by
  induction n with
  | zero =>
      intro s hleft h hok hwithin
      rcases h.next hok hwithin hvalid hfan with hnone | ⟨a, s', ha, hstep, -⟩
      · exact ⟨[], s, rfl, h, hok, hnone⟩
      · have hpos := remaining_pos ha hstep env.graph.length
        omega
  | succ n ih =>
      intro s hleft h hok hwithin
      rcases h.next hok hwithin hvalid hfan with hnone | ⟨a, s', ha, hstep, h'⟩
      · exact ⟨[], s, rfl, h, hok, hnone⟩
      · obtain ⟨hwithin', hlower⟩ := hwithin.step hok ha hstep
        obtain ⟨tr, t, hrun, hend⟩ := ih s' (by omega) h' (hok.step hstep) hwithin'
        refine ⟨(p, a) :: tr, t, ?_, hend⟩
        rw [Trace.run_cons, hstep]
        exact hrun

/-- **Some run starts every node of a valid graph.** -/
theorem emission_starts_all (p : P) (hvalid : (validateGraph env.graph env.registry).isValid = true)
    (hfan : env.graph.SingleFanIn) {key : NodeKey} (hkey : key ∈ env.graph.nodeKeys) :
    EverStarts P env key := by
  have hbegin : (Sys.start P env 0).step env (p, .advance) =
      some ((Sys.start P env 0).moved p (.advancing 0)) := rfl
  have hemits : Emits env p ((Sys.start P env 0).moved p (.advancing 0)) := by
    refine ⟨fun k _ => Or.inl rfl, fun k _ => le_rfl, fun hterm => ?_, ?_⟩
    · simp [Sys.start, materialize, RunStatus.isTerminal, RunStatus.transitions] at hterm
    · rw [Sys.moved_self]
      intro k _ hrunning
      simp [Sys.start, materialize] at hrunning
  have hwithin : (((Sys.start P env 0).moved p (.advancing 0)).procs p).phase.Within env
      ((Sys.start P env 0).moved p (.advancing 0)).rows := by
    rw [Sys.moved_self]
    exact Or.inl rfl
  have hok : SysOk env ((Sys.start P env 0).moved p (.advancing 0)) := (start_ok env 0).step hbegin
  obtain ⟨tr, s', hrun, hend, hok', hnone⟩ :=
    Emits.finishes hvalid hfan _ _ le_rfl hemits hok hwithin
  refine ⟨0, (p, .advance) :: tr, s', ?_, ?_⟩
  · rw [Trace.run_cons, hbegin]
    exact hrun
  · rcases hend.nodes key hkey with hpending | hrunning | ⟨hsucceeded, -⟩
    · obtain ⟨hstranded, hprunable, hready, -⟩ := decisions_eq_nil_iff.mp hnone
      obtain ⟨a, ha, -, hheld⟩ := hok'.rows.held_up (acyclic_of_valid hvalid) hstranded hprunable
        hready key hkey hpending
      rcases hend.nodes a ha with hst | hst | ⟨hst, -⟩ <;> simp [hst] at hheld
    · exact Or.inl hrunning
    · exact Or.inr (Or.inr (Or.inl hsucceeded))

end Emission

/-! ### Where every tick raises -/

/-- A run whose graph has two edges at one input handle starts nothing. -/
theorem not_started_of_fanIn [DecidableEq P] [DecidableEq Value] (hfan : ¬ env.graph.SingleFanIn)
    {key : NodeKey} (hkey : key ∈ env.graph.nodeKeys) : ¬ EverStarts P env key := by
  intro hstarts
  obtain ⟨now, tr, s, hrun, hbegun⟩ := hstarts
  have hboth : SysOk env s ∧ (s.rows.run.status ≠ .pending → env.graph.SingleFanIn) := by
    refine Trace.run_invariant (P := fun t => SysOk env t ∧
      (t.rows.run.status ≠ .pending → env.graph.SingleFanIn)) ⟨start_ok env now, ?_⟩ ?_ hrun
    · intro hmoved
      exact absurd rfl hmoved
    · intro t act t' hbefore hstep
      obtain ⟨hok, hpending⟩ := hbefore
      exact ⟨hok.step hstep, (hok.step_move hstep).fanIn hpending⟩
  obtain ⟨hok, hmoved⟩ := hboth
  have hpending : s.rows.run.status = .pending := by
    by_contra hc
    exact hfan (hmoved hc)
  rw [hok.rows.untouched hpending key hkey] at hbegun
  simp [begun] at hbegun

/--
**The warning agrees with the engine where nothing is warned about.**  On a graph that
validates, the nodes reported as ones that will never run are those no run starts, if and
only if no two edges enter one input handle and every node with nothing connected into it
is a trigger.
-/
theorem unreachable_agrees_iff [DecidableEq P] [DecidableEq Value] [Inhabited Value] (p : P)
    (hvalid : (validateGraph env.graph env.registry).isValid = true) :
    (∀ k ∈ env.graph.nodeKeys,
        (ReportedUnreachable env.graph env.registry k ↔ ¬ EverStarts P env k)) ↔
      env.graph.SingleFanIn ∧
        ∀ k ∈ env.graph.nodeKeys, env.graph.incoming k = [] →
          IsTriggerNode env.graph env.registry k := by
  obtain ⟨hsome, hnodup, hnodes⟩ := triggers_of_valid hvalid
  constructor
  · intro hagree
    have hfan : env.graph.SingleFanIn := by
      by_contra hfan
      -- The trigger is never started either, and is not reported.
      obtain ⟨k, hk⟩ := List.exists_mem_of_ne_nil _ hsome
      have hreported := (hagree k (hnodes k hk)).mpr (not_started_of_fanIn hfan (hnodes k hk))
      exact ((reportedUnreachable_iff hvalid).mp hreported).2
        ((reachableFrom_spec hnodup hnodes).started k hk)
    refine ⟨hfan, (none_unreachable_iff hvalid).mp fun k hk hreported => ?_⟩
    exact (hagree k hk).mp hreported (emission_starts_all p hvalid hfan hk)
  · intro hgiven k hk
    obtain ⟨hfan, hroots⟩ := hgiven
    constructor
    · intro hreported
      exact absurd hreported ((none_unreachable_iff hvalid).mpr hroots k hk)
    · intro hnever
      exact absurd (emission_starts_all p hvalid hfan hk) hnever

/-- In the running example no edges meet and only the trigger has nothing connected into it. -/
theorem rejoin_warns_rightly :
    (∀ k ∈ rejoinEnv.graph.nodeKeys,
        (ReportedUnreachable rejoinEnv.graph rejoinEnv.registry k ↔
          ¬ EverStarts Bool rejoinEnv k)) ↔
      rejoinEnv.graph.SingleFanIn ∧
        ∀ k ∈ rejoinEnv.graph.nodeKeys, rejoinEnv.graph.incoming k = [] →
          IsTriggerNode rejoinEnv.graph rejoinEnv.registry k :=
  unreachable_agrees_iff true rejoinGraph_valid

/-! ### A constant beside the trigger -/

/-- `core.constant@1`, which has no inputs. -/
def constantType : NodeDescriptor Unit where
  nodeType := "core.constant"
  version := 1
  category := .transform
  configModel := ⟨fun _ => [], fun _ => ""⟩
  inputs := []
  outputs := [⟨"main", .text⟩]
  inputs_nodup := List.nodup_nil
  outputs_nodup := List.nodup_singleton "main"

/-- The types of the rejoining graph, and a constant. -/
def constantRegistry : NodeRegistry Unit where
  find nodeType version :=
    (constantType :: rejoinTypes).find? fun d => d.nodeType = nodeType && d.version = version

/-- A run of a graph with a constant that nothing leads to. -/
def constantEnv : Env Unit where
  graph :=
    { nodes :=
        [⟨"trigger", "trigger.manual", 1, [], none⟩, ⟨"constant", "core.constant", 1, [], none⟩]
      edges := []
      keys_nodup := by decide
      source_mem := by decide
      target_mem := by decide
      edges_nodup := by decide }
  registry := constantRegistry
  runId := 7
  organizationPublicId := "org"
  workflowNodeId := fun key => if key = "trigger" then 0 else 1
  workflowNodeId_inj := by decide
  triggerPayload := none

/-- The constant is reported as a node that will never run, and the first tick starts it. -/
theorem constant_reported_and_started :
    (validateGraph constantEnv.graph constantEnv.registry).isValid = true ∧
      "constant" ∈ constantEnv.graph.nodeKeys ∧
      ReportedUnreachable constantEnv.graph constantEnv.registry "constant" ∧
      EverStarts Bool constantEnv "constant" := by
  have hvalid : (validateGraph constantEnv.graph constantEnv.registry).isValid = true := by decide
  have hkey : "constant" ∈ constantEnv.graph.nodeKeys := by decide
  refine ⟨hvalid, hkey, (reportedUnreachable_iff hvalid).mpr ⟨hkey, by decide⟩, ?_⟩
  have heval : (Trace.run (Sys.step constantEnv) (Sys.start Bool constantEnv 0)
      [(true, .advance), (true, .beginTick), (true, .commitTick 0)]).map
      (fun s => (s.rows.executions "constant").status) = some .running := by
    decide +kernel
  obtain ⟨s, hrun, hrunning⟩ := Option.map_eq_some_iff.mp heval
  exact ⟨0, _, s, hrun, Or.inl hrunning⟩

end Orqent
