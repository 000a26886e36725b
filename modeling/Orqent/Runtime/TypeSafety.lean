/-
Types at run time.

Nothing in the platform looks at the values it moves.  Where runners emit what their types
declare (`Honoured`), the comparison of types made before publishing is what keeps the
values right from then on: every output in the rows is one its node's type declares, and
what a runner is handed is of the type of the input it arrived at, unless it came from an
output with `Any` in its type.
-/
import Orqent.Graph.Diagnosis
import Orqent.Graph.Typing
import Orqent.Runtime.Provenance

namespace Orqent

open Scheduler

variable {P Value : Type} {env : Env Value} {s : Sys P Value} {p : P} {now : Time}
  {key : NodeKey} {T : Typing Value}

/-- A result is what the type of its node declares. -/
def Declared (T : Typing Value) (env : Env Value) (key : NodeKey) (result : NodeResult Value) :
    Prop :=
  ∀ d outputs, Resolves env.graph env.registry key d → result = .completed outputs →
    d.Emits T outputs

/-- A runner that returns outputs returns what its type declares. -/
def Honoured (T : Typing Value) (env : Env Value) : Sys P Value → P × Action Value → Prop
  | _, (_, .invoke key (.returned result)) => Declared T env key result
  | _, _ => True

/-- A declared input is found under its name. -/
theorem NodeDescriptor.input_eq {d : NodeDescriptor Value} {i : InputHandle} (hi : i ∈ d.inputs) :
    d.input i.name = some i := by
  unfold NodeDescriptor.input
  cases hfind : d.inputs.find? fun h => h.name = i.name with
  | none =>
      have hnot := List.find?_eq_none.mp hfind i hi
      simp at hnot
  | some j =>
      have hname : j.name = i.name := by simpa using List.find?_some hfind
      rw [List.inj_on_of_nodup_map d.inputs_nodup (List.mem_of_find?_eq_some hfind) hi hname]

/-- A value among the inputs came over some edge. -/
theorem carried_of_input {snap : RunSnapshot Value} {handle : String} {v : Value}
    (h : (resolveInputs snap key).get? handle = some v) :
    ∃ e ∈ snap.graph.incoming key, e.targetHandle = handle ∧ carried snap e = some v := by
  have hmem := Dict.mem_of_get? _ h
  unfold resolveInputs at hmem
  rw [foldl_receive] at hmem
  rcases Dict.mem_assign _ hmem with hnil | harrived
  · exact nomatch hnil
  · obtain ⟨e, he, harrival⟩ := List.mem_filterMap.mp harrived
    obtain ⟨value, hvalue, hpair⟩ := Option.map_eq_some_iff.mp harrival
    obtain ⟨rfl, rfl⟩ := Prod.mk.inj hpair
    exact ⟨e, he, rfl, hvalue⟩

/-- What an edge carried is among the outputs of its source. -/
theorem output_of_carried {g : WorkflowGraph Value} {rows : RunRows Value} {e : GraphEdge}
    {v : Value}
    (hsource : e.sourceKey ∈ g.nodeKeys) (h : carried (snapshot g rows) e = some v) :
    ∃ outputs, (rows.executions e.sourceKey).output = some outputs ∧
      outputs.get? e.sourceHandle = some v := by
  rw [carried, snapshot_execution hsource, Option.bind_some, Option.bind_eq_some_iff] at h
  exact h

/-- A value that came over an edge is of the type it left by, and where that is without `Any`,
of the type it arrives at. -/
def ArrivedTyped (T : Typing Value) (g : WorkflowGraph Value) (registry : NodeRegistry Value)
    (key : NodeKey) (i : InputHandle) (v : Value) : Prop :=
  ∃ e ∈ g.incoming key, e.targetHandle = i.name ∧
    ∃ source output, Resolves g registry e.sourceKey source ∧
      source.output e.sourceHandle = some output ∧ T.Has output.type v ∧
        (output.type.definite = true → T.Has i.type v)

/-- **On rows whose outputs are typed, inputs are.** -/
theorem Executable.inputs_typed {g : WorkflowGraph Value} {registry : NodeRegistry Value}
    (hexec : Executable g registry) {rows : RunRows Value}
    (houtputs : ∀ k ∈ g.nodeKeys, ∀ d outputs, Resolves g registry k d →
      (rows.executions k).output = some outputs → d.Emits T outputs)
    {d : NodeDescriptor Value} (hd : Resolves g registry key d) {i : InputHandle}
    (hi : i ∈ d.inputs) {v : Value}
    (hv : (resolveInputs (snapshot g rows) key).get? i.name = some v) :
    ArrivedTyped T g registry key i v := by
  obtain ⟨e, he, hname, hcarried⟩ := carried_of_input hv
  have hedge := g.mem_incoming.mp he
  obtain ⟨outputs, hrow, hget⟩ := output_of_carried (g.source_mem e hedge.1) hcarried
  obtain ⟨source, target, output, input, hsource, htarget, houtput, hinput, hcompatible⟩ :=
    hexec.joined e hedge.1
  rw [hedge.2] at htarget
  obtain rfl := htarget.unique hd
  obtain ⟨o, ho, htyped⟩ := houtputs _ (g.source_mem e hedge.1) source outputs hsource hrow _
    (Dict.mem_of_get? _ hget)
  obtain rfl := Option.some.inj (ho.symm.trans houtput)
  rw [hname, target.input_eq hi] at hinput
  obtain rfl := Option.some.inj hinput
  exact ⟨e, he, hname, source, o, hsource, houtput, htyped,
    fun hdefinite => htyped.of_compatible hdefinite hcompatible⟩

/-- What an honest runner returned is recorded as it is; a failure has nothing to declare. -/
theorem Honoured.vouches {a : P × Action Value} (h : Honoured T env s a) :
    Vouches (Declared T env) env s a := by
  obtain ⟨p, a⟩ := a
  cases a with
  | invoke key outcome =>
      intro cycles snap batch hphase l hl hkey result hrecorded d outputs hd hcompleted
      unfold invokeLaunch at hrecorded
      split at hrecorded
      · exact nomatch hrecorded
      · rw [hcompleted] at hrecorded
        exact nomatch hrecorded
      · cases outcome with
        | returned result' =>
            obtain rfl : result' = result := Option.some.inj hrecorded
            exact h d outputs hd hcompleted
        | raised typeName message =>
            rw [hcompleted] at hrecorded
            exact nomatch hrecorded
  | _ => trivial

section Runs

variable [DecidableEq P] [DecidableEq Value]

/--
**Values keep the types that were checked.**  On a graph that validates, under any
interleaving in which runners emit what their types declare: every recorded output is a
declared one of its declared type; and every value a runner is handed on a declared input
is of the type of the output it came from, and of the input's own type unless that output's
has `Any` in it.
-/
theorem types_preserved {tr : List (P × Action Value)}
    (hvalid : (validateGraph env.graph env.registry).isValid = true)
    (h : Trace.run (Sys.step env) (Sys.start P env now) tr = some s)
    (htyped : Trace.Along (Sys.step env) (Honoured T env) (Sys.start P env now) tr) :
    (∀ k ∈ env.graph.nodeKeys, ∀ d outputs, Resolves env.graph env.registry k d →
        (s.rows.executions k).output = some outputs → d.Emits T outputs) ∧
      ∀ p cycles snap batch, (s.procs p).phase = .invoking cycles snap batch →
        ∀ l known, (l, known) ∈ batch → ∀ context, invocation env snap l = .ok (some context) →
          ∀ d, Resolves env.graph env.registry l.key d → ∀ i ∈ d.inputs, ∀ v,
            context.inputs.get? i.name = some v →
              ArrivedTyped T env.graph env.registry l.key i v := by
  have hvouched : s.Vouched (Declared T env) env := by
    refine all_vouched h fun before a after heq s' hs' => ?_
    exact (htyped before a after heq s' hs').vouches
  refine ⟨fun k hk d outputs hd houtput => ?_, ?_⟩
  · exact (hvouched.rows k hk).output outputs houtput d outputs hd rfl
  · intro p cycles snap batch hphase l known hl context hcontext d hd i hi v hv
    have hsnap := hvouched.snaps p
    rw [hphase] at hsnap
    obtain ⟨-, hbuild⟩ := invocation_inv hcontext
    obtain ⟨node, d', -, -, -, rfl⟩ := buildContext_inv hbuild
    have hexec := (valid_iff_executable env.graph env.registry).mp hvalid
    exact hexec.inputs_typed
      (fun k hk d outputs hd houtput => (hsnap k hk).output outputs houtput d outputs hd rfl)
      hd hi hv

end Runs

end Orqent
