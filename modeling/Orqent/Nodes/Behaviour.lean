/-
What the built-in types do when they run.

A built-in emits only on handles its descriptor declares, and values of their types.  Given
the inputs its descriptor requires, it does not fail; two may all the same: the agent, whose
provider and tools may, and a condition that looks a list or an object up among keys.
-/
import Orqent.Graph.Typing
import Orqent.Nodes.Catalogue

namespace Orqent

/-- What JSON values are of each type; what makes a record or a blob is not told here. -/
def jsonTyping (record : RecordModel → Dict String Json → Prop) (binary : Json → Prop) :
    Typing Json where
  text v := ∃ s, v = .string s
  number v := v.number?.isSome = true
  boolean v := ∃ b, v = .bool b
  json v := ∃ entries, v = .object entries
  binary
  record model v := ∃ entries, v = .object entries ∧ record model entries
  items
    | .list items => some items
    | _ => none
  record_json := fun _ _ h => h.imp fun _ h => h.1

/-- A condition that looks a list or an object up among keys. -/
def LooksUp (P : CataloguePorts) (config : Dict String Json) : Prop :=
  ∃ c, (ConfigReader.conditionConfig P).read config = .ok c ∧
    c.operator = .contains ∧ c.value.hashable = false

/-- The nodes that may fail with all their inputs there. -/
def MayFail (P : CataloguePorts) (type : String × Nat) (config : Dict String Json) : Prop :=
  type = ("ai.agent", 1) ∨ type = ("core.condition", 1) ∧ LooksUp P config

/-- What the type requires is there. -/
def NodeDescriptor.Supplied (d : NodeDescriptor Json) (context : NodeRunContext Json) : Prop :=
  d.configModel.errors context.config = [] ∧
    ∀ i ∈ d.inputs, i.required = true → context.inputs.contains i.name = true

/-- What a type owes to the engine. -/
structure NodeType.Behaves {Args : Type} (P : CataloguePorts) (T : Typing Json)
    (t : NodeType Args) : Prop where
  typed : ∀ around context outputs, t.runner around context = .returned (.completed outputs) →
    t.descriptor.Emits T outputs
  fails : ∀ around context error retryable, t.descriptor.Supplied context →
    (t.runner around context).result = .failed error retryable →
      MayFail P t.key context.config
  repeatable : t.descriptor.sideEffect ≠ .atMostOnce
  single : ∀ i ∈ t.descriptor.inputs, i.arity = .single
  /-- An input that is required is the only one. -/
  only : ∀ i ∈ t.descriptor.inputs, i.required = true → ∀ j ∈ t.descriptor.inputs, j = i

/-- What the inputs of a type that behaves are, as a test. -/
def InputHandle.plain (inputs : List InputHandle) : Bool :=
  inputs.all fun i => i.arity = .single && (!i.required || inputs.all fun j => j = i)

/-- A type whose result is a matter of its configuration, its inputs and what the run was
started with, and is there at once. -/
structure NodeType.Steady {Args : Type} (t : NodeType Args) : Prop where
  same : ∀ around around' context context', context.config = context'.config →
    context.inputs = context'.inputs → context.triggerPayload = context'.triggerPayload →
      t.runner around context = t.runner around' context'
  unsuspended : ∀ around context token hint,
    t.runner around context ≠ .returned (.suspended token hint)

section Types

variable {Args C : Type} {P : CataloguePorts} {r : ConfigReader C} {d : NodeDescriptor Json}
  {run : C → Surroundings Args → NodeRunContext Json → RunnerOutcome Json} {T : Typing Json}
  {outputs : Dict String Json} {around : Surroundings Args} {context : NodeRunContext Json}

theorem NodeType.reading_ok {config : C} (h : r.read context.config = .ok config) :
    (NodeType.reading r d run).runner around context = run config around context := by
  unfold NodeType.reading
  simp only [h]

theorem NodeType.reading_error {details : List ConfigDetail}
    (h : r.read context.config = .error details) :
    (NodeType.reading r d run).runner around context =
      .raised "TypeError" ("Expected " ++ r.name) := by
  unfold NodeType.reading
  simp only [h]

/-- A type that reads its configuration behaves where it behaves on what was read. -/
theorem NodeType.Behaves.reading (hmodel : d.configModel = r.model P)
    (htyped : ∀ config around context outputs, run config around context =
      .returned (.completed outputs) → d.Emits T outputs)
    (hfails : ∀ config around context error retryable, r.read context.config = .ok config →
      (∀ i ∈ d.inputs, i.required = true → context.inputs.contains i.name = true) →
        (run config around context).result = .failed error retryable →
          MayFail P (d.nodeType, d.version) context.config)
    (hrepeatable : d.sideEffect ≠ .atMostOnce)
    (hplain : InputHandle.plain d.inputs = true) :
    (NodeType.reading r d run).Behaves P T where
  typed := by
    intro around context outputs hrun
    cases hread : r.read context.config with
    | ok config =>
        rw [NodeType.reading_ok hread] at hrun
        exact htyped config around context outputs hrun
    | error details =>
        rw [NodeType.reading_error hread] at hrun
        cases hrun
  fails := by
    intro around context error retryable hsupplied hrun
    obtain ⟨hconfig, hinputs⟩ := hsupplied
    change d.configModel.errors context.config = [] at hconfig
    rw [hmodel] at hconfig
    obtain ⟨config, hread⟩ := ConfigReader.read_of_errors hconfig
    rw [NodeType.reading_ok hread] at hrun
    exact hfails config around context error retryable hread hinputs hrun
  repeatable := hrepeatable
  single := by
    intro i hi
    have hboth := List.all_eq_true.mp hplain i hi
    rw [Bool.and_eq_true, decide_eq_true_eq] at hboth
    exact hboth.1
  only := by
    intro i hi hrequired j hj
    have hboth := List.all_eq_true.mp hplain i hi
    rw [Bool.and_eq_true, hrequired, Bool.not_true, Bool.false_or] at hboth
    exact of_decide_eq_true (List.all_eq_true.mp hboth.2 j hj)

theorem NodeType.Steady.reading
    (hsame : ∀ config around around' context context', context.inputs = context'.inputs →
      context.triggerPayload = context'.triggerPayload →
        run config around context = run config around' context')
    (hunsuspended : ∀ config around context token hint,
      run config around context ≠ .returned (.suspended token hint)) :
    (NodeType.reading r d run).Steady where
  same := by
    intro around around' context context' hconfig hinputs hpayload
    cases hread : r.read context.config with
    | ok config =>
        rw [NodeType.reading_ok hread, NodeType.reading_ok (hconfig ▸ hread)]
        exact hsame config around around' context context' hinputs hpayload
    | error details =>
        rw [NodeType.reading_error hread, NodeType.reading_error (hconfig ▸ hread)]
  unsuspended := by
    intro around context token hint
    cases hread : r.read context.config with
    | ok config =>
        rw [NodeType.reading_ok hread]
        exact hunsuspended config around context token hint
    | error details =>
        rw [NodeType.reading_error hread]
        simp

theorem emits_nil : d.Emits T [] := fun _ he => nomatch he

theorem emits_singleton {o : OutputHandle} {v : Json} (hdeclared : d.output o.name = some o)
    (htype : T.Has o.type v) : d.Emits T [(o.name, v)] := by
  intro e he
  obtain rfl := List.mem_singleton.mp he
  exact ⟨o, hdeclared, htype⟩

/-- The outputs a runner that completed returned. -/
theorem completed_inj {outputs' : Dict String Json}
    (h : (.returned (.completed outputs) : RunnerOutcome Json) = .returned (.completed outputs')) :
    outputs' = outputs := by
  injection h with h
  injection h with h
  exact h.symm

end Types

namespace BuiltIn

variable {Args : Type} (P : CataloguePorts) (record : RecordModel → Dict String Json → Prop)
  (binary : Json → Prop)

theorem payloadTrigger_behaves {C : Type} (nodeType : String) (r : ConfigReader C) :
    (payloadTrigger P nodeType r : NodeType Args).Behaves P (jsonTyping record binary) := by
  refine .reading rfl (fun config around context outputs h => ?_)
    (fun config around context error retryable _ _ h => nomatch h) nofun rfl
  rw [completed_inj h]
  exact emits_singleton (o := ⟨"main", .json⟩) rfl ⟨_, rfl⟩

theorem coreConstant_behaves :
    (coreConstant P : NodeType Args).Behaves P (jsonTyping record binary) := by
  refine .reading rfl (fun config around context outputs h => ?_)
    (fun config around context error retryable _ _ h => nomatch h) nofun rfl
  rw [completed_inj h]
  exact emits_singleton (o := ⟨"main", .text⟩) rfl ⟨_, rfl⟩

theorem coreNoop_behaves : (coreNoop P : NodeType Args).Behaves P (jsonTyping record binary) := by
  refine .reading rfl (fun config around context outputs h => ?_)
    (fun config around context error retryable _ hinputs h => ?_) nofun rfl
  · split at h
    · rw [completed_inj h]
      exact emits_singleton (o := ⟨"main", .any⟩) rfl trivial
    · exact nomatch h
  · have hmain := hinputs _ List.mem_cons_self rfl
    obtain ⟨value, hvalue⟩ := (Dict.contains_iff _ _).mp hmain
    rw [hvalue] at h
    exact nomatch h

theorem coreLog_behaves : (coreLog P : NodeType Args).Behaves P (jsonTyping record binary) := by
  refine .reading rfl (fun config around context outputs h => ?_)
    (fun config around context error retryable _ hinputs h => ?_) nofun rfl
  · split at h
    · rw [completed_inj h]
      exact emits_nil
    · exact nomatch h
  · have hmain := hinputs _ List.mem_cons_self rfl
    obtain ⟨value, hvalue⟩ := (Dict.contains_iff _ _).mp hmain
    rw [hvalue] at h
    exact nomatch h

theorem coreWait_behaves : (coreWait P : NodeType Args).Behaves P (jsonTyping record binary) := by
  refine .reading rfl (fun config around context outputs h => ?_)
    (fun config around context error retryable _ _ h => ?_) nofun rfl
  · unfold Orqent.coreWait at h
    split at h
    · exact nomatch h
    · split at h
      · rw [completed_inj h]
        exact emits_singleton (o := ⟨"main", .any⟩) rfl trivial
      · rw [completed_inj h]
        exact emits_nil
  · unfold Orqent.coreWait at h
    split at h
    · exact nomatch h
    · split at h <;> exact nomatch h

theorem coreCondition_behaves :
    (coreCondition P : NodeType Args).Behaves P (jsonTyping record binary) := by
  refine .reading rfl (fun config around context outputs h => ?_)
    (fun config around context error retryable hread _ h => ?_) nofun rfl
  · unfold Condition.run at h
    split at h
    · rename_i holds _
      rw [completed_inj h]
      cases holds with
      | true => exact emits_singleton (o := ⟨trueHandle, .any⟩) rfl trivial
      | false => exact emits_singleton (o := ⟨falseHandle, .any⟩) rfl trivial
    · exact nomatch h
  · refine Or.inr ⟨rfl, config, hread, ?_⟩
    by_contra hnot
    have hlooks : ¬ Condition.LooksUpUnhashable config context.inputs :=
      fun hc => hnot ⟨hc.1, hc.2.1⟩
    obtain ⟨holds, hholds⟩ := Condition.evaluate_ok_iff.mpr hlooks
    rw [Condition.run_of_evaluate hholds] at h
    exact nomatch h

theorem coreMerge_behaves : (coreMerge P : NodeType Args).Behaves P (jsonTyping record binary) := by
  refine .reading rfl (fun config around context outputs h => ?_)
    (fun config around context error retryable _ _ h => ?_) nofun rfl
  · split at h
    · rw [completed_inj h]
      exact emits_singleton (o := ⟨"main", .any⟩) rfl trivial
    · rw [completed_inj h]
      exact emits_singleton (o := ⟨"main", .any⟩) rfl trivial
    · rw [completed_inj h]
      exact emits_nil
  · split at h <;> exact nomatch h

theorem aiAgent_behaves (agentConfig : ConfigReader AgentConfig) :
    (aiAgent P agentConfig : NodeType Args).Behaves P (jsonTyping record binary) := by
  refine .reading rfl (fun config around context outputs h => ?_)
    (fun config around context error retryable _ _ _ => Or.inl rfl) nofun rfl
  obtain ⟨before, request, answer, -, -, rfl⟩ :=
    (around.agent.run_confined config context).completed outputs h
  exact emits_singleton (o := ⟨"main", .text⟩) rfl ⟨_, rfl⟩

/-- **Every registered type behaves.** -/
theorem catalogue_behaves (agentConfig : ConfigReader AgentConfig) :
    ∀ t ∈ (catalogue P agentConfig : List (NodeType Args)),
      t.Behaves P (jsonTyping record binary) := by
  intro t ht
  simp only [catalogue, all, List.cons_append, List.nil_append, List.mem_cons, List.not_mem_nil,
    or_false] at ht
  rcases ht with rfl | rfl | rfl | rfl | rfl | rfl | rfl | rfl | rfl | rfl
  · exact payloadTrigger_behaves P record binary _ _
  · exact payloadTrigger_behaves P record binary _ _
  · exact payloadTrigger_behaves P record binary _ _
  · exact coreConstant_behaves P record binary
  · exact coreNoop_behaves P record binary
  · exact coreLog_behaves P record binary
  · exact coreWait_behaves P record binary
  · exact coreCondition_behaves P record binary
  · exact coreMerge_behaves P record binary
  · exact aiAgent_behaves P record binary agentConfig

/-- **All types but the wait and the agent are steady.** -/
theorem catalogue_steady (agentConfig : ConfigReader AgentConfig) {t : NodeType Args}
    (ht : t ∈ catalogue P agentConfig) (hwait : t.key ≠ ("core.wait", 1))
    (hagent : t.key ≠ ("ai.agent", 1)) : t.Steady := by
  simp only [catalogue, all, List.cons_append, List.nil_append, List.mem_cons, List.not_mem_nil,
    or_false] at ht
  rcases ht with rfl | rfl | rfl | rfl | rfl | rfl | rfl | rfl | rfl | rfl
  · exact .reading (fun _ _ _ _ _ _ hpayload => by rw [hpayload]) fun _ _ _ _ _ => nofun
  · exact .reading (fun _ _ _ _ _ _ hpayload => by rw [hpayload]) fun _ _ _ _ _ => nofun
  · exact .reading (fun _ _ _ _ _ _ hpayload => by rw [hpayload]) fun _ _ _ _ _ => nofun
  · exact .reading (fun _ _ _ _ _ _ _ => rfl) fun _ _ _ _ _ => nofun
  · refine .reading (fun _ _ _ _ _ hinputs _ => by rw [hinputs]) fun _ _ _ _ _ => ?_
    split <;> exact nofun
  · refine .reading (fun _ _ _ _ _ hinputs _ => by rw [hinputs]) fun _ _ _ _ _ => ?_
    split <;> exact nofun
  · exact absurd rfl hwait
  · refine .reading (fun _ _ _ _ _ hinputs _ => by rw [hinputs]) fun _ _ _ _ _ => ?_
    unfold Condition.run
    split <;> exact nofun
  · refine .reading (fun _ _ _ _ _ hinputs _ => by rw [hinputs]) fun _ _ _ _ _ => ?_
    split <;> exact nofun
  · exact absurd rfl hagent

end BuiltIn

end Orqent
