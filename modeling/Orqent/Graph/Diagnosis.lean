/-
What a validation report says, and that it says all of it.

`Defect` lists what can be wrong with a node in terms of the graph and the registry alone,
one clause for each code.  Each stage of the validator is read off as the codes and nodes
it reports (`Reports`); put together they are the defects, code by code.  Cycles are the
one exception, since a cycle is reported once and not at each of its nodes.

`valid_iff` is what it comes to for publishing, and makes the verdict one about the graph
as sets of nodes and edges: the order they are listed in has no part in it.
-/
import Orqent.Graph.Reachability
import Orqent.Graph.CycleCover

namespace Orqent

variable {Value : Type} {g : WorkflowGraph Value} {registry : NodeRegistry Value}
  {code : IssueCode} {place : Option NodeKey} {key : NodeKey}

/-! ### What can be wrong -/

/-- The node of this key is of a registered type, which is `d`. -/
def Resolves (g : WorkflowGraph Value) (registry : NodeRegistry Value) (key : NodeKey)
    (d : NodeDescriptor Value) : Prop :=
  ∃ n ∈ g.nodes, n.key = key ∧ registry.find n.nodeType n.version = some d

/-- The node of this key is a trigger. -/
def TriggerAt (g : WorkflowGraph Value) (registry : NodeRegistry Value) (key : NodeKey) : Prop :=
  ∃ d, Resolves g registry key d ∧ d.isTrigger = true

/-- An edge that leaves or enters a node of a known type by a handle the type does not have. -/
def Misnamed (g : WorkflowGraph Value) (registry : NodeRegistry Value) (key : NodeKey)
    (e : GraphEdge) : Prop :=
  ∃ d, Resolves g registry key d ∧
    (e.sourceKey = key ∧ d.output e.sourceHandle = none ∨
      e.targetKey = key ∧ d.input e.targetHandle = none)

/-- An edge between declared handles whose types do not go together. -/
def Mistyped (g : WorkflowGraph Value) (registry : NodeRegistry Value) (e : GraphEdge) : Prop :=
  ∃ source target output input, Resolves g registry e.sourceKey source ∧
    Resolves g registry e.targetKey target ∧ source.output e.sourceHandle = some output ∧
      target.input e.targetHandle = some input ∧ compatible output.type input.type = false

/-- What is wrong with the node of this key, by the code it is reported under. -/
def Defect (g : WorkflowGraph Value) (registry : NodeRegistry Value) (key : NodeKey) :
    IssueCode → Prop
  | .unknownNodeType => ∃ n ∈ g.nodes, n.key = key ∧ registry.find n.nodeType n.version = none
  | .deprecatedNodeType => ∃ d, Resolves g registry key d ∧ d.deprecated = true
  | .invalidConfig => ∃ n ∈ g.nodes, n.key = key ∧
      ∃ d, registry.find n.nodeType n.version = some d ∧ d.configModel.errors n.config ≠ []
  | .unknownHandle => ∃ e ∈ g.edges, Misnamed g registry key e
  | .arityViolation => ∃ d, Resolves g registry key d ∧ ∃ i ∈ d.inputs, i.arity = .single ∧
      ∃ e ∈ g.incoming key, ∃ f ∈ g.incoming key,
        e ≠ f ∧ e.targetHandle = i.name ∧ f.targetHandle = i.name
  | .requiredInputMissing => ∃ d, Resolves g registry key d ∧ ∃ i ∈ d.inputs,
      i.required = true ∧ ∀ e ∈ g.incoming key, e.targetHandle ≠ i.name
  | .incompatibleTypes => ∃ e ∈ g.edges, e.targetKey = key ∧ Mistyped g registry e
  | .cycleDetected => g.Ancestor key key
  -- The graph lacks a trigger, none of its nodes does.
  | .noTrigger => False
  | .multipleTriggers => TriggerAt g registry key ∧ ∃ other ≠ key, TriggerAt g registry other
  | .triggerHasInput => TriggerAt g registry key ∧ g.incoming key ≠ []
  | .unreachableNode => (∃ d, Resolves g registry key d) ∧ (∃ t, TriggerAt g registry t) ∧
      ∀ t, TriggerAt g registry t → ¬ Relation.ReflTransGen g.Feeds t key

/-- The codes that do not block publishing. -/
def IssueCode.isWarning (code : IssueCode) : Bool :=
  code = .deprecatedNodeType || code = .unreachableNode

/-! ### Reading a list of issues -/

/-- An issue with this code is reported at this place. -/
def Reports (issues : List ValidationIssue) (code : IssueCode) (place : Option NodeKey) : Prop :=
  ∃ i ∈ issues, i.code = code ∧ i.nodeKey = place

section Reports

variable {issues others : List ValidationIssue}

@[simp] theorem reports_nil : ¬ Reports [] code place := by
  intro h
  obtain ⟨i, hi, -⟩ := h
  exact nomatch hi

@[simp] theorem reports_append :
    Reports (issues ++ others) code place ↔
      Reports issues code place ∨ Reports others code place := by
  simp only [Reports, List.mem_append, or_and_right, exists_or]

@[simp] theorem reports_singleton {i : ValidationIssue} :
    Reports [i] code place ↔ code = i.code ∧ place = i.nodeKey := by
  constructor
  · intro h
    obtain ⟨j, hj, hcode, hplace⟩ := h
    obtain rfl := List.mem_singleton.mp hj
    exact ⟨hcode.symm, hplace.symm⟩
  · intro h
    exact ⟨i, List.mem_singleton_self i, h.1.symm, h.2.symm⟩

theorem reports_map {α : Type} {l : List α} {f : α → ValidationIssue} :
    Reports (l.map f) code place ↔ ∃ a ∈ l, code = (f a).code ∧ place = (f a).nodeKey := by
  constructor
  · intro h
    obtain ⟨i, hi, hcode, hplace⟩ := h
    obtain ⟨a, ha, rfl⟩ := List.mem_map.mp hi
    exact ⟨a, ha, hcode.symm, hplace.symm⟩
  · intro h
    obtain ⟨a, ha, hcode, hplace⟩ := h
    exact ⟨f a, List.mem_map_of_mem ha, hcode.symm, hplace.symm⟩

theorem reports_flatMap {α : Type} {l : List α} {f : α → List ValidationIssue} :
    Reports (l.flatMap f) code place ↔ ∃ a ∈ l, Reports (f a) code place := by
  simp only [Reports, List.mem_flatMap]
  constructor
  · intro h
    obtain ⟨i, ⟨a, ha, hi⟩, hat⟩ := h
    exact ⟨a, ha, i, hi, hat⟩
  · intro h
    obtain ⟨a, ha, i, hi, hat⟩ := h
    exact ⟨i, ⟨a, ha, hi⟩, hat⟩

theorem reports_ite {c : Prop} [Decidable c] :
    Reports (if c then issues else others) code place ↔
      c ∧ Reports issues code place ∨ ¬ c ∧ Reports others code place := by
  by_cases hc : c <;> simp [hc]

end Reports

/-- Each issue is an error or a warning by its code. -/
def Graded (issues : List ValidationIssue) : Prop :=
  ∀ i ∈ issues, i.isError = !i.code.isWarning

section Graded

variable {issues others : List ValidationIssue}

theorem graded_nil : Graded [] := fun _ hi => nomatch hi

theorem Graded.append (h : Graded issues) (h' : Graded others) : Graded (issues ++ others) := by
  intro i hi
  rcases List.mem_append.mp hi with hi | hi
  · exact h i hi
  · exact h' i hi

theorem graded_singleton {i : ValidationIssue} (h : i.isError = !i.code.isWarning) :
    Graded [i] := by
  intro j hj
  obtain rfl := List.mem_singleton.mp hj
  exact h

theorem graded_map {α : Type} {l : List α} {f : α → ValidationIssue}
    (h : ∀ a, (f a).isError = !(f a).code.isWarning) : Graded (l.map f) := by
  intro i hi
  obtain ⟨a, -, rfl⟩ := List.mem_map.mp hi
  exact h a

theorem graded_flatMap {α : Type} {l : List α} {f : α → List ValidationIssue}
    (h : ∀ a, Graded (f a)) : Graded (l.flatMap f) := by
  intro i hi
  obtain ⟨a, -, hi⟩ := List.mem_flatMap.mp hi
  exact h a i hi

end Graded

/-! ### Resolution -/

/-- What a node of the list has to say for itself when it is resolved. -/
def ResolveSays (registry : NodeRegistry Value) (n : GraphNode Value) (code : IssueCode) : Prop :=
  code = .unknownNodeType ∧ registry.find n.nodeType n.version = none ∨
    code = .deprecatedNodeType ∧
      ∃ d, registry.find n.nodeType n.version = some d ∧ d.deprecated = true

theorem resolveNode_reports (acc : Descriptors Value × List ValidationIssue)
    (n : GraphNode Value) : Reports (resolveNode registry acc n).2 code place ↔
      Reports acc.2 code place ∨ place = some n.key ∧ ResolveSays registry n code := by
  unfold resolveNode ResolveSays
  cases hfind : registry.find n.nodeType n.version with
  | none => simp [and_comm]
  | some d =>
      by_cases hdeprecated : d.deprecated = true <;> simp [hdeprecated, and_comm]

theorem resolveNodes_reports (nodes : List (GraphNode Value))
    (acc : Descriptors Value × List ValidationIssue) :
    Reports (nodes.foldl (resolveNode registry) acc).2 code place ↔
      Reports acc.2 code place ∨
        ∃ n ∈ nodes, place = some n.key ∧ ResolveSays registry n code := by
  induction nodes generalizing acc with
  | nil => simp
  | cons n rest ih =>
      rw [List.foldl_cons, ih, resolveNode_reports]
      simp only [List.mem_cons, or_and_right, exists_or, exists_eq_left, or_assoc]

theorem resolve_reports : Reports (resolve g registry).2 code place ↔
    ∃ n ∈ g.nodes, place = some n.key ∧ ResolveSays registry n code := by
  unfold resolve
  rw [resolveNodes_reports]
  simp

theorem resolveNodes_get (nodes : List (GraphNode Value))
    (acc : Descriptors Value × List ValidationIssue) {d : NodeDescriptor Value}
    (h : (nodes.foldl (resolveNode registry) acc).1.get? key = some d) :
    acc.1.get? key = some d ∨
      ∃ n ∈ nodes, n.key = key ∧ registry.find n.nodeType n.version = some d := by
  induction nodes generalizing acc with
  | nil => exact Or.inl h
  | cons n rest ih =>
      rw [List.foldl_cons] at h
      rcases ih _ h with hhere | ⟨m, hm, hat⟩
      · unfold resolveNode at hhere
        cases hfind : registry.find n.nodeType n.version with
        | none =>
            rw [hfind] at hhere
            exact Or.inl hhere
        | some d' =>
            simp only [hfind, Dict.get?_set] at hhere
            split at hhere
            · rename_i heq
              exact Or.inr ⟨n, List.mem_cons_self, heq, hfind.trans hhere⟩
            · exact Or.inl hhere
      · exact Or.inr ⟨m, List.mem_cons_of_mem _ hm, hat⟩

/-- The descriptor found for a key is the type of its node. -/
theorem resolve_get_iff {d : NodeDescriptor Value} :
    (resolve g registry).1.get? key = some d ↔ Resolves g registry key d := by
  constructor
  · intro h
    rcases resolveNodes_get g.nodes ([], []) h with hnil | hnode
    · exact nomatch hnil
    · exact hnode
  · intro h
    obtain ⟨n, hn, rfl, hfind⟩ := h
    obtain ⟨-, -, hnodes⟩ := foldl_resolveNode registry g.nodes g.keys_nodup ([], [])
    exact (hnodes n hn).2 d hfind

theorem Resolves.unique {d d' : NodeDescriptor Value} (h : Resolves g registry key d)
    (h' : Resolves g registry key d') : d = d' :=
  Option.some.inj ((resolve_get_iff.mpr h).symm.trans (resolve_get_iff.mpr h'))

/-- A stage that looks at what its nodes resolve to. -/
theorem reports_resolved {issues : NodeDescriptor Value → List ValidationIssue} :
    Reports (match (resolve g registry).1.get? key with | none => [] | some d => issues d)
      code place ↔ ∃ d, Resolves g registry key d ∧ Reports (issues d) code place := by
  simp only [← resolve_get_iff]
  cases (resolve g registry).1.get? key <;> simp

/-! ### Configuration and handles -/

/-- The code is this one, and the node it is reported at has the defect. -/
def Found (g : WorkflowGraph Value) (registry : NodeRegistry Value) (code : IssueCode)
    (place : Option NodeKey) (expected : IssueCode) : Prop :=
  code = expected ∧ ∃ key, place = some key ∧ Defect g registry key expected

theorem config_reports : Reports (validateConfig g (resolve g registry).1) code place ↔
    Found g registry code place .invalidConfig := by
  have hnode : ∀ n : GraphNode Value,
      Reports (match (resolve g registry).1.get? n.key with
        | none => []
        | some d => translate n.key (d.configModel.errors n.config)) code place ↔
      code = .invalidConfig ∧ place = some n.key ∧
        ∃ d, Resolves g registry n.key d ∧ d.configModel.errors n.config ≠ [] := by
    intro n
    rw [reports_resolved]
    unfold translate
    simp only [reports_map]
    constructor
    · intro h
      obtain ⟨d, hd, detail, hdetail, hcode, hplace⟩ := h
      exact ⟨hcode, hplace, d, hd, List.ne_nil_of_mem hdetail⟩
    · intro h
      obtain ⟨hcode, hplace, d, hd, herrors⟩ := h
      obtain ⟨detail, hdetail⟩ := List.exists_mem_of_ne_nil _ herrors
      exact ⟨d, hd, detail, hdetail, hcode, hplace⟩
  unfold validateConfig
  rw [reports_flatMap]
  constructor
  · intro h
    obtain ⟨n, hn, hreport⟩ := h
    obtain ⟨hcode, hplace, d, ⟨m, hm, hkey, hfind⟩, herrors⟩ := (hnode n).mp hreport
    obtain rfl := List.inj_on_of_nodup_map g.keys_nodup hm hn hkey
    exact ⟨hcode, m.key, hplace, m, hm, rfl, d, hfind, herrors⟩
  · intro h
    obtain ⟨hcode, key, hplace, n, hn, rfl, d, hfind, herrors⟩ := h
    exact ⟨n, hn, (hnode n).mpr ⟨hcode, hplace, d, ⟨n, hn, rfl, hfind⟩, herrors⟩⟩

/-- What is said of an edge: its ends first, then whether they go together. -/
theorem edge_reports {e : GraphEdge} : Reports (checkEdge (resolve g registry).1 e) code place ↔
    code = .unknownHandle ∧ (∃ key, place = some key ∧ Misnamed g registry key e) ∨
      code = .incompatibleTypes ∧ place = some e.targetKey ∧ Mistyped g registry e := by
  have hends : (code = .unknownHandle ∧ ∃ key, place = some key ∧ Misnamed g registry key e) ↔
      (∃ d, Resolves g registry e.sourceKey d ∧ d.output e.sourceHandle = none ∧
        code = .unknownHandle ∧ place = some e.sourceKey) ∨
      ∃ d, Resolves g registry e.targetKey d ∧ d.input e.targetHandle = none ∧
        code = .unknownHandle ∧ place = some e.targetKey := by
    constructor
    · intro h
      obtain ⟨hcode, key, hplace, d, hd, ⟨rfl, hnone⟩ | ⟨rfl, hnone⟩⟩ := h
      · exact Or.inl ⟨d, hd, hnone, hcode, hplace⟩
      · exact Or.inr ⟨d, hd, hnone, hcode, hplace⟩
    · intro h
      rcases h with ⟨d, hd, hnone, hcode, hplace⟩ | ⟨d, hd, hnone, hcode, hplace⟩
      · exact ⟨hcode, _, hplace, d, hd, Or.inl ⟨rfl, hnone⟩⟩
      · exact ⟨hcode, _, hplace, d, hd, Or.inr ⟨rfl, hnone⟩⟩
  rw [hends]
  unfold checkEdge
  dsimp only
  rw [reports_append, reports_append]
  simp only [Mistyped, ← resolve_get_iff]
  refine or_congr (or_congr ?_ ?_) ?_
  · cases (resolve g registry).1.get? e.sourceKey with
    | none => simp
    | some d => cases hdeclared : d.output e.sourceHandle <;> simp [hdeclared]
  · cases (resolve g registry).1.get? e.targetKey with
    | none => simp
    | some d => cases hdeclared : d.input e.targetHandle <;> simp [hdeclared]
  · cases (resolve g registry).1.get? e.sourceKey with
    | none => simp
    | some source =>
        cases (resolve g registry).1.get? e.targetKey with
        | none => simp
        | some target =>
            cases houtput : source.output e.sourceHandle with
            | none => simp [houtput]
            | some output =>
                cases hinput : target.input e.targetHandle with
                | none => simp [houtput, hinput]
                | some input =>
                    by_cases hcompatible : compatible output.type input.type = true <;>
                      simp [houtput, hinput, hcompatible]

/-- More than one edge at an input is two edges. -/
theorem one_lt_count_iff {handle : String} :
    1 < ((g.incoming key).map GraphEdge.targetHandle).count handle ↔
      ∃ e ∈ g.incoming key, ∃ f ∈ g.incoming key,
        e ≠ f ∧ e.targetHandle = handle ∧ f.targetHandle = handle := by
  have hnodup : (g.incoming key).Nodup := g.edges_nodup.filter _
  rw [List.count, List.countP_map, List.countP_eq_length_filter]
  constructor
  · intro h
    obtain ⟨e, f, rest, hrest⟩ : ∃ e f rest, (g.incoming key).filter
        ((fun x => x == handle) ∘ GraphEdge.targetHandle) = e :: f :: rest := by
      match hlist : (g.incoming key).filter ((fun x => x == handle) ∘ GraphEdge.targetHandle) with
      | [] => simp [hlist] at h
      | [e] => simp [hlist] at h
      | e :: f :: rest => exact ⟨e, f, rest, rfl⟩
    have hdistinct := hnodup.filter ((fun x => x == handle) ∘ GraphEdge.targetHandle)
    rw [hrest, List.nodup_cons] at hdistinct
    have hboth : ∀ x ∈ [e, f], x ∈ g.incoming key ∧ x.targetHandle = handle := by
      intro x hx
      have hmem : x ∈ (g.incoming key).filter
          ((fun x => x == handle) ∘ GraphEdge.targetHandle) := by
        rw [hrest]
        exact List.mem_append_left rest hx
      simpa using List.mem_filter.mp hmem
    obtain ⟨he, hhandle⟩ := hboth e List.mem_cons_self
    obtain ⟨hf, hhandle'⟩ := hboth f (List.mem_cons_of_mem _ List.mem_cons_self)
    refine ⟨e, he, f, hf, fun hef => hdistinct.1 ?_, hhandle, hhandle'⟩
    rw [hef]
    exact List.mem_cons_self
  · intro h
    obtain ⟨e, he, f, hf, hne, hhandle, hhandle'⟩ := h
    have hsub : [e, f] ⊆ (g.incoming key).filter
        ((fun x => x == handle) ∘ GraphEdge.targetHandle) := by
      intro x hx
      rcases List.mem_pair.mp hx with rfl | rfl
      · exact List.mem_filter.mpr ⟨he, by simpa using hhandle⟩
      · exact List.mem_filter.mpr ⟨hf, by simpa using hhandle'⟩
    have hpair : [e, f].Nodup := by simpa using hne
    exact (List.subperm_of_subset hpair hsub).length_le

theorem inputs_reports {d : NodeDescriptor Value} : Reports (checkInputs g key d) code place ↔
    place = some key ∧ ∃ i ∈ d.inputs,
      (code = .arityViolation ∧ i.arity = .single ∧ ∃ e ∈ g.incoming key, ∃ f ∈ g.incoming key,
        e ≠ f ∧ e.targetHandle = i.name ∧ f.targetHandle = i.name) ∨
      (code = .requiredInputMissing ∧ i.required = true ∧
        ∀ e ∈ g.incoming key, e.targetHandle ≠ i.name) := by
  have hcount : ∀ i : InputHandle, ((g.incoming key).map GraphEdge.targetHandle).count i.name = 0 ↔
      ∀ e ∈ g.incoming key, e.targetHandle ≠ i.name := by
    intro i
    rw [List.count_eq_zero, List.mem_map]
    exact ⟨fun h e he hname => h ⟨e, he, hname⟩, fun h hc => by
      obtain ⟨e, he, hname⟩ := hc
      exact h e he hname⟩
  unfold checkInputs checkInput
  simp only [reports_flatMap, reports_append, reports_ite, reports_singleton, reports_nil,
    one_lt_count_iff, hcount, and_false, or_false]
  constructor
  · intro h
    obtain ⟨i, hi, ⟨⟨harity, hmany⟩, hcode, hplace⟩ | ⟨⟨hrequired, hnone⟩, hcode, hplace⟩⟩ := h
    · exact ⟨hplace, i, hi, Or.inl ⟨hcode, harity, hmany⟩⟩
    · exact ⟨hplace, i, hi, Or.inr ⟨hcode, hrequired, hnone⟩⟩
  · intro h
    obtain ⟨hplace, i, hi, ⟨hcode, harity, hmany⟩ | ⟨hcode, hrequired, hnone⟩⟩ := h
    · exact ⟨i, hi, Or.inl ⟨⟨harity, hmany⟩, hcode, hplace⟩⟩
    · exact ⟨i, hi, Or.inr ⟨⟨hrequired, hnone⟩, hcode, hplace⟩⟩

theorem handles_reports : Reports (validateHandles g (resolve g registry).1) code place ↔
    Found g registry code place .unknownHandle ∨ Found g registry code place .incompatibleTypes ∨
      Found g registry code place .arityViolation ∨
      Found g registry code place .requiredInputMissing := by
  have hinputs : ∀ n : GraphNode Value,
      Reports (match (resolve g registry).1.get? n.key with
        | none => []
        | some d => checkInputs g n.key d) code place ↔
      ∃ d, Resolves g registry n.key d ∧ Reports (checkInputs g n.key d) code place :=
    fun n => reports_resolved
  unfold validateHandles
  rw [reports_append, reports_flatMap, reports_flatMap]
  simp only [edge_reports]
  constructor
  · intro h
    rcases h with ⟨e, he, ⟨hcode, k, hplace, hnamed⟩ | ⟨hcode, hplace, htyped⟩⟩ | ⟨n, hn, hreport⟩
    · exact Or.inl ⟨hcode, k, hplace, e, he, hnamed⟩
    · exact Or.inr (Or.inl ⟨hcode, _, hplace, e, he, rfl, htyped⟩)
    · obtain ⟨d, hd, hreport⟩ := (hinputs n).mp hreport
      obtain ⟨hplace, i, hi, ⟨hcode, harity, hmany⟩ | ⟨hcode, hrequired, hnone⟩⟩ :=
        inputs_reports.mp hreport
      · exact Or.inr (Or.inr (Or.inl ⟨hcode, _, hplace, d, hd, i, hi, harity, hmany⟩))
      · exact Or.inr (Or.inr (Or.inr ⟨hcode, _, hplace, d, hd, i, hi, hrequired, hnone⟩))
  · intro h
    rcases h with ⟨hcode, k, hplace, e, he, hnamed⟩ | ⟨hcode, k, hplace, e, he, rfl, htyped⟩ |
      ⟨hcode, k, hplace, d, hd, i, hi, harity, hmany⟩ |
      ⟨hcode, k, hplace, d, hd, i, hi, hrequired, hnone⟩
    · exact Or.inl ⟨e, he, Or.inl ⟨hcode, k, hplace, hnamed⟩⟩
    · exact Or.inl ⟨e, he, Or.inr ⟨hcode, hplace, htyped⟩⟩
    · obtain ⟨n, hn, rfl, -⟩ := id hd
      refine Or.inr ⟨n, hn, (hinputs n).mpr ⟨d, hd, inputs_reports.mpr ⟨hplace, i, hi, ?_⟩⟩⟩
      exact Or.inl ⟨hcode, harity, hmany⟩
    · obtain ⟨n, hn, rfl, -⟩ := id hd
      refine Or.inr ⟨n, hn, (hinputs n).mpr ⟨d, hd, inputs_reports.mpr ⟨hplace, i, hi, ?_⟩⟩⟩
      exact Or.inr ⟨hcode, hrequired, hnone⟩

/-! ### The shape of the whole -/

theorem mem_triggerKeys :
    key ∈ triggerKeys g (resolve g registry).1 ↔ TriggerAt g registry key := by
  unfold triggerKeys TriggerAt
  simp only [← resolve_get_iff, List.mem_map, List.mem_filter, Option.any_eq_true]
  constructor
  · intro h
    obtain ⟨n, ⟨-, d, hget, htrigger⟩, rfl⟩ := h
    exact ⟨d, hget, htrigger⟩
  · intro h
    obtain ⟨d, hget, htrigger⟩ := h
    obtain ⟨n, hn, rfl, -⟩ := resolve_get_iff.mp hget
    exact ⟨n, ⟨hn, d, hget, htrigger⟩, rfl⟩

theorem triggerKeys_nodup (descriptors : Descriptors Value) : (triggerKeys g descriptors).Nodup :=
  g.keys_nodup.sublist (List.filter_sublist.map _)

theorem triggers_reports :
    Reports (checkTriggers g (triggerKeys g (resolve g registry).1)) code place ↔
      (code = .noTrigger ∧ place = none ∧ ∀ t, ¬ TriggerAt g registry t) ∨
        Found g registry code place .multipleTriggers ∨
        Found g registry code place .triggerHasInput := by
  have hsingle : ∀ k, TriggerAt g registry k →
      (1 < (triggerKeys g (resolve g registry).1).length ↔
        ∃ other ≠ k, TriggerAt g registry other) := by
    intro k hk
    simp only [← mem_triggerKeys] at hk ⊢
    constructor
    · intro hmany
      by_contra hnone
      have hsub : triggerKeys g (resolve g registry).1 ⊆ [k] := by
        intro other hother
        by_contra hne
        exact hnone ⟨other, fun heq => hne (List.mem_singleton.mpr heq), hother⟩
      have hle := (List.subperm_of_subset (triggerKeys_nodup _) hsub).length_le
      rw [List.length_singleton] at hle
      omega
    · intro hother
      obtain ⟨other, hne, hmem⟩ := hother
      have hpair : [other, k].Nodup := by simpa using hne
      refine (List.subperm_of_subset hpair fun x hx => ?_).length_le
      rcases List.mem_pair.mp hx with rfl | rfl
      · exact hmem
      · exact hk
  unfold checkTriggers
  rw [reports_append, reports_flatMap, reports_ite, reports_ite, reports_singleton, reports_map,
    ← or_assoc]
  refine or_congr ?_ ?_
  · rw [List.isEmpty_iff, List.eq_nil_iff_forall_not_mem]
    simp only [mem_triggerKeys, reports_nil, and_false, or_false]
    constructor
    · intro h
      rcases h with ⟨hnone, hcode, hplace⟩ | ⟨-, hmany, k, hk, hcode, hplace⟩
      · exact Or.inl ⟨hcode, hplace, hnone⟩
      · exact Or.inr ⟨hcode, k, hplace, hk, (hsingle k hk).mp hmany⟩
    · intro h
      rcases h with ⟨hcode, hplace, hnone⟩ | ⟨hcode, k, hplace, hk, hother⟩
      · exact Or.inl ⟨hnone, hcode, hplace⟩
      · exact Or.inr ⟨fun hnone => hnone k hk, (hsingle k hk).mpr hother, k, hk, hcode, hplace⟩
  · simp only [mem_triggerKeys]
    constructor
    · intro h
      obtain ⟨k, hk, hreport⟩ := h
      cases hin : g.incoming k with
      | nil => simp [hin] at hreport
      | cons first rest =>
          simp only [hin, reports_singleton] at hreport
          exact ⟨hreport.1, k, hreport.2, hk, by simp [hin]⟩
    · intro h
      obtain ⟨hcode, k, hplace, hk, hne⟩ := h
      obtain ⟨first, rest, hin⟩ := List.exists_cons_of_ne_nil hne
      refine ⟨k, hk, ?_⟩
      simp only [hin, reports_singleton]
      exact ⟨hcode, hplace⟩

/-- What is reached satisfies whatever the starts do and the edges hand on. -/
theorem reachLoop_sound {P : NodeKey → Prop} (hfeeds : ∀ a b, P a → g.Feeds a b → P b) (fuel : Nat)
    (state : List NodeKey × List NodeKey) (hreached : ∀ k ∈ state.1, P k)
    (hqueued : ∀ k ∈ state.2, P k) : ∀ k ∈ reachLoop g fuel state, P k := by
  induction fuel generalizing state with
  | zero => exact hreached
  | succ fuel ih =>
      obtain ⟨reached, queue⟩ := state
      cases queue with
      | nil => exact hreached
      | cons a queue =>
          rw [reachLoop_cons]
          have hmem : ∀ b ∈ successors g a, b ∈ g.nodeKeys := fun b hb =>
            (WorkflowGraph.feeds_mem (mem_successors.mp hb)).2
          have hext := reachAll_extends hmem (reached, queue)
          have hnext : ∀ k ∈ successors g a, P k := fun k hk =>
            hfeeds a k (hqueued a List.mem_cons_self) (mem_successors.mp hk)
          refine ih _ (fun k hk => ?_) (fun k hk => ?_)
          · rcases (hext.reached k).mp hk with hbefore | hmem
            · exact hreached k hbefore
            · exact hnext k hmem
          · rcases hext.queued k hk with hbefore | hmem
            · exact hqueued k (List.mem_cons_of_mem _ hbefore)
            · exact hnext k hmem

/-- **The traversal reaches what a path leads to**, and nothing else. -/
theorem mem_reachableFrom {starts : List NodeKey} (hnodup : starts.Nodup)
    (hnodes : ∀ k ∈ starts, k ∈ g.nodeKeys) :
    key ∈ reachableFrom g starts ↔ ∃ t ∈ starts, Relation.ReflTransGen g.Feeds t key := by
  have hspec := reachableFrom_spec hnodup hnodes
  constructor
  · intro h
    refine reachLoop_sound (P := fun k => ∃ t ∈ starts, Relation.ReflTransGen g.Feeds t k) ?_
      _ _ ?_ ?_ key h
    · intro a b ha hab
      obtain ⟨t, ht, hpath⟩ := ha
      exact ⟨t, ht, hpath.tail hab⟩
    · exact fun k hk => ⟨k, hk, Relation.ReflTransGen.refl⟩
    · exact fun k hk => ⟨k, List.mem_reverse.mp hk, Relation.ReflTransGen.refl⟩
  · intro h
    obtain ⟨t, ht, hpath⟩ := h
    induction hpath with
    | refl => exact hspec.started t ht
    | tail hprefix hab ih =>
        rcases hspec.closed _ ih with hqueued | hclosed
        · exact nomatch hqueued
        · exact hclosed _ (mem_successors.mpr hab)

theorem reachability_reports : Reports (checkReachability g (resolve g registry).1
      (triggerKeys g (resolve g registry).1)) code place ↔
    Found g registry code place .unreachableNode := by
  have hreached : ∀ k, k ∈ reachableFrom g (triggerKeys g (resolve g registry).1) ↔
      ∃ t, TriggerAt g registry t ∧ Relation.ReflTransGen g.Feeds t k := by
    intro k
    rw [mem_reachableFrom (triggerKeys_nodup _) fun t ht => ?_]
    · simp only [mem_triggerKeys]
    · obtain ⟨n, hn, rfl⟩ := List.mem_map.mp ht
      exact List.mem_map_of_mem (List.mem_filter.mp hn).1
  have hnone : triggerKeys g (resolve g registry).1 = [] ↔ ∀ t, ¬ TriggerAt g registry t := by
    rw [List.eq_nil_iff_forall_not_mem]
    simp only [mem_triggerKeys]
  unfold checkReachability
  rw [reports_ite, List.isEmpty_iff, hnone, reports_map]
  simp only [reports_nil, and_false, false_or, not_forall, not_not, List.mem_filter,
    Bool.decide_and, Bool.and_eq_true, decide_eq_true_eq]
  simp only [hreached, Dict.contains, Option.isSome_iff_exists, resolve_get_iff]
  constructor
  · intro h
    obtain ⟨htrigger, n, ⟨hn, hout, hd⟩, hcode, hplace⟩ := h
    exact ⟨hcode, n.key, hplace, hd, htrigger, fun t ht hpath => hout ⟨t, ht, hpath⟩⟩
  · intro h
    obtain ⟨hcode, k, hplace, ⟨d, hd⟩, htrigger, hout⟩ := h
    obtain ⟨n, hn, rfl, -⟩ := id hd
    refine ⟨htrigger, n, ⟨hn, fun hc => ?_, d, hd⟩, hcode, hplace⟩
    obtain ⟨t, ht, hpath⟩ := hc
    exact hout t ht hpath

/-! ### The report -/

theorem validateGraph_reports : Reports (validateGraph g registry).issues code place ↔
    Reports (resolve g registry).2 code place ∨
      Reports (validateConfig g (resolve g registry).1) code place ∨
      Reports (validateHandles g (resolve g registry).1) code place ∨
      Reports (validateStructure g (resolve g registry).1) code place := by
  have hmem : ∀ i, i ∈ (validateGraph g registry).issues ↔
      i ∈ (resolve g registry).2 ++ validateConfig g (resolve g registry).1 ++
        validateHandles g (resolve g registry).1 ++ validateStructure g (resolve g registry).1 :=
    fun i => List.mem_insertionSort _
  rw [← or_assoc, ← or_assoc, ← reports_append, ← reports_append, ← reports_append]
  unfold Reports
  simp only [hmem]

/-- **At a node**, what is reported is what is wrong with it. -/
theorem reports_node_iff (hcode : code ≠ .cycleDetected) :
    Reports (validateGraph g registry).issues code (some key) ↔ Defect g registry key code := by
  have hfound : ∀ expected, Found g registry code (some key) expected ↔
      code = expected ∧ Defect g registry key expected := by
    intro expected
    simp only [Found, Option.some.injEq, exists_eq_left']
  have hresolve : (∃ n ∈ g.nodes, some key = some n.key ∧ ResolveSays registry n code) ↔
      code = .unknownNodeType ∧ Defect g registry key .unknownNodeType ∨
        code = .deprecatedNodeType ∧ Defect g registry key .deprecatedNodeType := by
    unfold ResolveSays Defect Resolves
    constructor
    · intro h
      obtain ⟨n, hn, hkey, ⟨hcode, hnone⟩ | ⟨hcode, d, hfind, hdeprecated⟩⟩ := h
      · exact Or.inl ⟨hcode, n, hn, (Option.some.inj hkey).symm, hnone⟩
      · exact Or.inr ⟨hcode, d, ⟨n, hn, (Option.some.inj hkey).symm, hfind⟩, hdeprecated⟩
    · intro h
      rcases h with ⟨hcode, n, hn, rfl, hnone⟩ | ⟨hcode, d, ⟨n, hn, rfl, hfind⟩, hdeprecated⟩
      · exact ⟨n, hn, rfl, Or.inl ⟨hcode, hnone⟩⟩
      · exact ⟨n, hn, rfl, Or.inr ⟨hcode, d, hfind, hdeprecated⟩⟩
  have hcycles : ¬ Reports (checkCycles g) code (some key) := by
    intro h
    obtain ⟨i, hi, hcode', -⟩ := h
    exact hcode (hcode'.symm.trans (code_of_cycles hi))
  rw [validateGraph_reports, resolve_reports, config_reports, handles_reports, hresolve]
  unfold validateStructure
  dsimp only
  rw [reports_append, reports_append, triggers_reports, reachability_reports]
  simp only [hfound, hcycles, reduceCtorEq, false_and, and_false, false_or]
  cases code <;> simp at hcode ⊢
  -- No node is what lacks a trigger.
  exact fun hc => hc

theorem reports_cycle_iff : Reports (validateGraph g registry).issues .cycleDetected place ↔
    ∃ c ∈ findCycles g, place = c.head? := by
  have hcycles : Reports (checkCycles g) .cycleDetected place ↔
      ∃ c ∈ findCycles g, place = c.head? := by
    unfold checkCycles
    rw [reports_map]
    simp only [true_and]
  rw [validateGraph_reports, resolve_reports, config_reports, handles_reports]
  unfold validateStructure
  dsimp only
  rw [reports_append, reports_append, triggers_reports, reachability_reports, hcycles]
  simp [Found, ResolveSays]

theorem reports_nowhere_iff : Reports (validateGraph g registry).issues code none ↔
    code = .noTrigger ∧ ∀ t, ¬ TriggerAt g registry t := by
  have hcycles : ¬ Reports (checkCycles g) code none := by
    unfold checkCycles
    rw [reports_map]
    intro h
    obtain ⟨c, hc, -, hhead⟩ := h
    obtain ⟨-, hclosed, -⟩ := findCycles_spec g
    exact ((hclosed c hc).1).1 (List.head?_eq_none_iff.mp hhead.symm)
  rw [validateGraph_reports, resolve_reports, config_reports, handles_reports]
  unfold validateStructure
  dsimp only
  rw [reports_append, reports_append, triggers_reports, reachability_reports]
  simp [Found, hcycles]

theorem graded_resolve : Graded (resolve g registry).2 := by
  have hall : ∀ (nodes : List (GraphNode Value)) (acc : Descriptors Value × List ValidationIssue),
      Graded acc.2 → Graded (nodes.foldl (resolveNode registry) acc).2 := by
    intro nodes
    induction nodes with
    | nil => exact fun acc hacc => hacc
    | cons n rest ih =>
        intro acc hacc
        refine ih (resolveNode registry acc n) ?_
        unfold resolveNode
        split
        · exact hacc.append (graded_singleton rfl)
        · dsimp only
          split
          · exact hacc.append (graded_singleton rfl)
          · exact hacc
  exact hall g.nodes ([], []) graded_nil

theorem graded_handles (descriptors : Descriptors Value) :
    Graded (validateHandles g descriptors) := by
  refine Graded.append (graded_flatMap fun e => ?_) (graded_flatMap fun n => ?_)
  · unfold checkEdge
    refine Graded.append (Graded.append ?_ ?_) ?_
    · split
      · exact graded_singleton rfl
      · exact graded_nil
    · split
      · exact graded_singleton rfl
      · exact graded_nil
    · split
      · split
        · exact graded_nil
        · exact graded_singleton rfl
      · exact graded_nil
  · split
    · exact graded_nil
    · refine graded_flatMap fun i => Graded.append ?_ ?_
      · split
        · exact graded_singleton rfl
        · exact graded_nil
      · split
        · exact graded_singleton rfl
        · exact graded_nil

theorem graded_structure (descriptors : Descriptors Value) :
    Graded (validateStructure g descriptors) := by
  refine Graded.append (Graded.append (graded_map fun c => rfl) (Graded.append ?_ ?_)) ?_
  · split
    · exact graded_singleton rfl
    · split
      · exact graded_map fun k => rfl
      · exact graded_nil
  · refine graded_flatMap fun k => ?_
    split
    · exact graded_nil
    · exact graded_singleton rfl
  · unfold checkReachability
    split
    · exact graded_nil
    · exact graded_map fun n => rfl

/-- What is an error and what a warning is a matter of the code. -/
theorem graded_report : Graded (validateGraph g registry).issues := by
  have hconfig : Graded (validateConfig g (resolve g registry).1) := by
    refine graded_flatMap fun n => ?_
    split
    · exact graded_nil
    · exact graded_map fun detail => rfl
  have hall : Graded ((resolve g registry).2 ++ validateConfig g (resolve g registry).1 ++
      validateHandles g (resolve g registry).1 ++ validateStructure g (resolve g registry).1) :=
    ((graded_resolve.append hconfig).append (graded_handles _)).append (graded_structure _)
  exact fun i hi => hall i ((List.mem_insertionSort _).mp hi)

/-- The report is in the order of its sort key: errors first, then by node and code. -/
theorem report_sorted :
    (validateGraph g registry).issues.Pairwise fun a b => sortKey a ≤ sortKey b := by
  have htotal : Std.Total fun a b : ValidationIssue => sortKey a ≤ sortKey b :=
    ⟨fun a b => le_total (sortKey a) (sortKey b)⟩
  have htrans : IsTrans ValidationIssue fun a b => sortKey a ≤ sortKey b :=
    ⟨fun a b c => le_trans⟩
  exact List.pairwise_insertionSort _ _

/--
**The report says what is wrong, and all of it.**  A code other than that of cycles is
reported at a node if and only if the node has that defect.  A cycle is reported at nodes
that lie on one, and if there is any.  What is reported at no node is the lack of a trigger,
where there is none.  All but deprecated types and unreachable nodes are errors, and the
errors come first.
-/
theorem report_exact (g : WorkflowGraph Value) (registry : NodeRegistry Value) :
    (∀ code key, code ≠ .cycleDetected →
        (Reports (validateGraph g registry).issues code (some key) ↔ Defect g registry key code)) ∧
      (∀ key, Reports (validateGraph g registry).issues .cycleDetected (some key) →
        Defect g registry key .cycleDetected) ∧
      ((∃ key, Defect g registry key .cycleDetected) →
        ∃ key, Reports (validateGraph g registry).issues .cycleDetected (some key)) ∧
      (∀ code, Reports (validateGraph g registry).issues code none ↔
        code = .noTrigger ∧ ∀ t, ¬ TriggerAt g registry t) ∧
      Graded (validateGraph g registry).issues ∧
      (validateGraph g registry).issues.Pairwise fun a b => sortKey a ≤ sortKey b := by
  obtain ⟨-, hclosed, -, -, -, hnil⟩ := findCycles_spec g
  refine ⟨fun code key => reports_node_iff, fun key h => ?_, fun h => ?_,
    fun code => reports_nowhere_iff, graded_report, report_sorted⟩
  · obtain ⟨c, hc, hhead⟩ := reports_cycle_iff.mp h
    obtain ⟨⟨hne, hsteps⟩, -⟩ := hclosed c hc
    cases c with
    | nil => exact nomatch hhead
    | cons a rest =>
        obtain rfl := Option.some.inj hhead
        exact ClosedWalk.transGen_of_isChain (ClosedWalk.isClosed_cons.mp ⟨hne, hsteps⟩)
  · obtain ⟨key, hcycle⟩ := h
    have hne : findCycles g ≠ [] := fun hc => hnil.mp hc key hcycle
    obtain ⟨c, hc⟩ := List.exists_mem_of_ne_nil _ hne
    obtain ⟨a, rest, rfl⟩ := List.exists_cons_of_ne_nil (hclosed c hc).1.1
    exact ⟨a, reports_cycle_iff.mpr ⟨_, hc, rfl⟩⟩

/-! ### The verdict -/

/-- What a graph has to be to run, of its nodes and edges alone. -/
structure Executable (g : WorkflowGraph Value) (registry : NodeRegistry Value) : Prop where
  known : ∀ n ∈ g.nodes, ∃ d, registry.find n.nodeType n.version = some d ∧
    d.configModel.errors n.config = []
  joined : ∀ e ∈ g.edges, ∃ source target output input, Resolves g registry e.sourceKey source ∧
    Resolves g registry e.targetKey target ∧ source.output e.sourceHandle = some output ∧
      target.input e.targetHandle = some input ∧ compatible output.type input.type = true
  single : ∀ key d, Resolves g registry key d → ∀ i ∈ d.inputs, i.arity = .single →
    ∀ e ∈ g.incoming key, ∀ f ∈ g.incoming key,
      e.targetHandle = i.name → f.targetHandle = i.name → e = f
  fed : ∀ key d, Resolves g registry key d → ∀ i ∈ d.inputs, i.required = true →
    ∃ e ∈ g.incoming key, e.targetHandle = i.name
  acyclic : g.Acyclic
  starts : ∃ t, TriggerAt g registry t ∧ (∀ other, TriggerAt g registry other → other = t) ∧
    g.incoming t = []

/-- A graph is valid where none of its nodes has a defect that blocks, and it has a trigger. -/
theorem valid_iff_no_defect : (validateGraph g registry).isValid = true ↔
    (∀ code, code.isWarning = false → ∀ key, ¬ Defect g registry key code) ∧
      ∃ t, TriggerAt g registry t := by
  obtain ⟨hnode, -, hcycle, hnowhere, hgraded, -⟩ := report_exact g registry
  have hvalid : (validateGraph g registry).isValid = true ↔
      ∀ code, code.isWarning = false → ∀ place,
        ¬ Reports (validateGraph g registry).issues code place := by
    rw [ValidationReport.isValid, Bool.not_eq_true', List.any_eq_false]
    constructor
    · intro h code hcode place hreports
      obtain ⟨i, hi, rfl, -⟩ := hreports
      exact h i hi (by rw [hgraded i hi, hcode]; rfl)
    · intro h i hi herror
      rw [hgraded i hi, Bool.not_eq_true'] at herror
      exact h i.code herror i.nodeKey ⟨i, hi, rfl, rfl⟩
  rw [hvalid]
  constructor
  · intro h
    refine ⟨fun code hcode key hdefect => ?_, ?_⟩
    · by_cases hcyclic : code = .cycleDetected
      · subst hcyclic
        obtain ⟨k, hk⟩ := hcycle ⟨key, hdefect⟩
        exact h _ hcode _ hk
      · exact h code hcode _ ((hnode code key hcyclic).mpr hdefect)
    · by_contra hnone
      exact h .noTrigger rfl none ((hnowhere _).mpr ⟨rfl, fun t ht => hnone ⟨t, ht⟩⟩)
  · intro h code hcode place hreports
    obtain ⟨hdefects, t, ht⟩ := h
    cases place with
    | none => exact ((hnowhere code).mp hreports).2 t ht
    | some key =>
        by_cases hcyclic : code = .cycleDetected
        · subst hcyclic
          exact hdefects _ hcode key ((report_exact g registry).2.1 key hreports)
        · exact hdefects code hcode key ((hnode code key hcyclic).mp hreports)

/-- Every node of a graph without nodes of unknown type resolves. -/
theorem resolves_of_known (hknown : ∀ key, ¬ Defect g registry key .unknownNodeType)
    (hkey : key ∈ g.nodeKeys) : ∃ d, Resolves g registry key d := by
  obtain ⟨n, hn, rfl⟩ := List.mem_map.mp hkey
  cases hfind : registry.find n.nodeType n.version with
  | none => exact absurd ⟨n, hn, rfl, hfind⟩ (hknown n.key)
  | some d => exact ⟨d, n, hn, rfl, hfind⟩

theorem executable_of_no_defect
    (hdefects : ∀ code, code.isWarning = false → ∀ key, ¬ Defect g registry key code) {t : NodeKey}
    (ht : TriggerAt g registry t) : Executable g registry := by
  have hresolves : ∀ {k}, k ∈ g.nodeKeys → ∃ d, Resolves g registry k d :=
    fun hk => resolves_of_known (hdefects .unknownNodeType rfl) hk
  refine ⟨fun n hn => ?_, fun e he => ?_, fun k d hd i hi hsingle e he f hf hname hname' => ?_,
    fun k d hd i hi hrequired => ?_, fun k hk => hdefects .cycleDetected rfl k hk, t, ht,
    fun other hother => ?_, ?_⟩
  · cases hfind : registry.find n.nodeType n.version with
    | none => exact absurd ⟨n, hn, rfl, hfind⟩ (hdefects .unknownNodeType rfl n.key)
    | some d =>
        refine ⟨d, rfl, ?_⟩
        by_contra herrors
        exact hdefects .invalidConfig rfl n.key ⟨n, hn, rfl, d, hfind, herrors⟩
  · obtain ⟨source, hsource⟩ := hresolves (g.source_mem e he)
    obtain ⟨target, htarget⟩ := hresolves (g.target_mem e he)
    cases houtput : source.output e.sourceHandle with
    | none =>
        exact absurd ⟨e, he, source, hsource, Or.inl ⟨rfl, houtput⟩⟩
          (hdefects .unknownHandle rfl e.sourceKey)
    | some output =>
        cases hinput : target.input e.targetHandle with
        | none =>
            exact absurd ⟨e, he, target, htarget, Or.inr ⟨rfl, hinput⟩⟩
              (hdefects .unknownHandle rfl e.targetKey)
        | some input =>
            refine ⟨source, target, output, input, hsource, htarget, houtput, hinput, ?_⟩
            by_contra hcompatible
            exact hdefects .incompatibleTypes rfl e.targetKey ⟨e, he, rfl, source, target, output,
              input, hsource, htarget, houtput, hinput, Bool.eq_false_iff.mpr hcompatible⟩
  · by_contra hne
    exact hdefects .arityViolation rfl k ⟨d, hd, i, hi, hsingle, e, he, f, hf, hne, hname, hname'⟩
  · by_contra hnone
    exact hdefects .requiredInputMissing rfl k
      ⟨d, hd, i, hi, hrequired, fun e he hname => hnone ⟨e, he, hname⟩⟩
  · by_contra hne
    exact hdefects .multipleTriggers rfl t ⟨ht, other, hne, hother⟩
  · by_contra hin
    exact hdefects .triggerHasInput rfl t ⟨ht, hin⟩

/-- What `Executable` asks for leaves no room for a defect that blocks. -/
theorem Executable.no_defect (h : Executable g registry) (hcode : code.isWarning = false) :
    ¬ Defect g registry key code := by
  obtain ⟨t, -, honly, hfree⟩ := h.starts
  intro hdefect
  cases code with
  | unknownNodeType =>
      obtain ⟨n, hn, -, hnone⟩ := hdefect
      obtain ⟨d, hfind, -⟩ := h.known n hn
      simp [hnone] at hfind
  | deprecatedNodeType => exact nomatch hcode
  | invalidConfig =>
      obtain ⟨n, hn, -, d, hfind, herrors⟩ := hdefect
      obtain ⟨d', hfind', hnone⟩ := h.known n hn
      obtain rfl := Option.some.inj (hfind.symm.trans hfind')
      exact herrors hnone
  | unknownHandle =>
      obtain ⟨e, he, d, hd, hnot⟩ := hdefect
      obtain ⟨source, target, output, input, hsource, htarget, houtput, hinput, -⟩ := h.joined e he
      rcases hnot with ⟨rfl, hnone⟩ | ⟨rfl, hnone⟩
      · rw [hd.unique hsource, houtput] at hnone
        exact nomatch hnone
      · rw [hd.unique htarget, hinput] at hnone
        exact nomatch hnone
  | arityViolation =>
      obtain ⟨d, hd, i, hi, hsingle, e, he, f, hf, hne, hname, hname'⟩ := hdefect
      exact hne (h.single key d hd i hi hsingle e he f hf hname hname')
  | requiredInputMissing =>
      obtain ⟨d, hd, i, hi, hrequired, hnone⟩ := hdefect
      obtain ⟨e, he, hname⟩ := h.fed key d hd i hi hrequired
      exact hnone e he hname
  | incompatibleTypes =>
      obtain ⟨e, he, -, source, target, output, input, hsource, htarget, houtput, hinput, hnot⟩ :=
        hdefect
      obtain ⟨source', target', output', input', hsource', htarget', houtput', hinput',
        hcompatible⟩ := h.joined e he
      obtain rfl := hsource.unique hsource'
      obtain rfl := htarget.unique htarget'
      obtain rfl := Option.some.inj (houtput.symm.trans houtput')
      obtain rfl := Option.some.inj (hinput.symm.trans hinput')
      simp [hcompatible] at hnot
  | cycleDetected => exact h.acyclic key hdefect
  | noTrigger => exact hdefect
  | multipleTriggers =>
      obtain ⟨hkey, other, hne, hother⟩ := hdefect
      exact hne ((honly other hother).trans (honly key hkey).symm)
  | triggerHasInput =>
      obtain ⟨hkey, hin⟩ := hdefect
      rw [honly key hkey] at hin
      exact hin hfree
  | unreachableNode => exact nomatch hcode

/--
**The validator accepts exactly the executable graphs.**  A graph is valid if and only if
every node is of a known type that accepts its configuration, every edge joins declared
handles of compatible types, inputs have the connections they take and need, nothing loops,
and there is one trigger with nothing before it.
-/
theorem valid_iff_executable (g : WorkflowGraph Value) (registry : NodeRegistry Value) :
    (validateGraph g registry).isValid = true ↔ Executable g registry := by
  rw [valid_iff_no_defect]
  constructor
  · intro h
    obtain ⟨hdefects, t, ht⟩ := h
    exact executable_of_no_defect hdefects ht
  · intro h
    obtain ⟨t, ht, -⟩ := h.starts
    exact ⟨fun code hcode key => h.no_defect hcode, t, ht⟩

section Listing

variable {g' : WorkflowGraph Value} (hnodes : ∀ n, n ∈ g.nodes ↔ n ∈ g'.nodes)
  (hedges : ∀ e, e ∈ g.edges ↔ e ∈ g'.edges)

include hnodes in
theorem resolves_relisted {d : NodeDescriptor Value} :
    Resolves g registry key d ↔ Resolves g' registry key d := by
  simp only [Resolves, hnodes]

include hnodes in
theorem triggerAt_relisted : TriggerAt g registry key ↔ TriggerAt g' registry key := by
  simp only [TriggerAt, resolves_relisted hnodes]

include hedges in
theorem mem_incoming_relisted {e : GraphEdge} : e ∈ g.incoming key ↔ e ∈ g'.incoming key := by
  rw [g.mem_incoming, g'.mem_incoming, hedges]

include hedges in
theorem ancestor_relisted {other : NodeKey} : g.Ancestor key other ↔ g'.Ancestor key other := by
  have hfeeds : g.Feeds = g'.Feeds := by
    funext a b
    simp only [WorkflowGraph.Feeds, hedges]
  rw [WorkflowGraph.Ancestor, WorkflowGraph.Ancestor, hfeeds]

include hnodes hedges in
theorem Executable.relisted (h : Executable g registry) : Executable g' registry := by
  obtain ⟨t, ht, honly, hfree⟩ := h.starts
  refine ⟨fun n hn => h.known n ((hnodes n).mpr hn), fun e he => ?_,
    fun k d hd i hi hsingle e he f hf => ?_, fun k d hd i hi hrequired => ?_, fun k hk => ?_,
    t, (triggerAt_relisted hnodes).mp ht,
    fun other hother => honly other ((triggerAt_relisted hnodes).mpr hother), ?_⟩
  · simpa only [resolves_relisted hnodes] using h.joined e ((hedges e).mpr he)
  · exact h.single k d ((resolves_relisted hnodes).mpr hd) i hi hsingle
      e ((mem_incoming_relisted hedges).mpr he) f ((mem_incoming_relisted hedges).mpr hf)
  · obtain ⟨e, he, hname⟩ := h.fed k d ((resolves_relisted hnodes).mpr hd) i hi hrequired
    exact ⟨e, (mem_incoming_relisted hedges).mp he, hname⟩
  · exact h.acyclic k ((ancestor_relisted hedges).mpr hk)
  · rw [List.eq_nil_iff_forall_not_mem] at hfree ⊢
    exact fun e he => hfree e ((mem_incoming_relisted hedges).mpr he)

end Listing

/-- The order in which the nodes and edges are listed decides nothing. -/
theorem valid_relisted {g' : WorkflowGraph Value} (hnodes : g.nodes.Perm g'.nodes)
    (hedges : g.edges.Perm g'.edges) :
    (validateGraph g registry).isValid = (validateGraph g' registry).isValid := by
  rw [Bool.eq_iff_iff, valid_iff_executable, valid_iff_executable]
  exact ⟨Executable.relisted (fun n => hnodes.mem_iff) (fun e => hedges.mem_iff),
    Executable.relisted (fun n => hnodes.mem_iff.symm) (fun e => hedges.mem_iff.symm)⟩

end Orqent
