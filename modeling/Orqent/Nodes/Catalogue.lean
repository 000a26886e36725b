/-
The built-in node types and the registry they are put into.

Each type is a descriptor and a runner.  A runner is handed a configuration its type's model
has accepted; here the runner reads it off the raw one, and the reading is the model's own
(`ConfigReader`), so one that was not accepted has no run.

How the validation library words its failures, which cron expressions are valid, how an
agent's configuration is read and where fresh public ids come from is outside.  So is what
an agent's provider, tools and documents do: a different thing at each invocation.
-/
import Orqent.Nodes.Agent
import Orqent.Nodes.Condition
import Orqent.Runtime.Resumed
import Orqent.Triggers.Service

namespace Orqent

/-! ### Reading configurations -/

/-- What the built-in types use of the libraries around them. -/
structure CataloguePorts where
  extraForbidden : String
  stringType : String
  stringTooLong : Nat → String
  /-- A value that is not among these. -/
  notAmong : List String → String
  /-- How a validator's own message reads. -/
  valueError : String → String
  /-- The text of the exception, from the name of the model and the failures. -/
  exceptionText : String → List ConfigDetail → String
  isValidCron : String → Bool

/-- A configuration model: what it makes of a raw configuration, or what it reports. -/
structure ConfigReader (C : Type) where
  name : String
  read : Dict String Json → Except (List ConfigDetail) C
  /-- What is refused is refused for a reason. -/
  reported : ∀ raw, read raw ≠ .error []

namespace ConfigReader

variable {C : Type} (P : CataloguePorts)

/-- What is wrong with a configuration. -/
def errors (r : ConfigReader C) (raw : Dict String Json) : List ConfigDetail :=
  match r.read raw with
  | .ok _ => []
  | .error details => details

/-- The reader as the registry knows it. -/
def model (r : ConfigReader C) : ConfigModel Json where
  errors := r.errors
  errorText := fun raw => P.exceptionText r.name (r.errors raw)

theorem read_of_errors {r : ConfigReader C} {raw : Dict String Json} (h : r.errors raw = []) :
    ∃ config, r.read raw = .ok config := by
  unfold errors at h
  cases hread : r.read raw with
  | ok config => exact ⟨config, rfl⟩
  | error details =>
      rw [hread] at h
      exact absurd (h ▸ hread) (r.reported raw)

/-- The fields a model does not have, each of them forbidden. -/
def extras (known : List String) (raw : Dict String Json) : List ConfigDetail :=
  (raw.filter fun e => e.1 ∉ known).map fun e => ⟨[e.1], P.extraForbidden⟩

/-- A model without fields. -/
def empty (name : String) : ConfigReader Unit where
  name
  read raw :=
    match extras P [] raw with
    | [] => .ok ()
    | unknown => .error unknown
  reported := by
    intro raw
    split
    · exact nofun
    · rename_i unknown hne
      exact fun hc => hne (Except.error.inj hc)

/-- A model with one field, which has a default. -/
def single {α : Type} (name field : String) (default : α) (check : Json → Except String α) :
    ConfigReader α where
  name
  read raw :=
    match (raw.get? field).elim (.ok default) check, extras P [field] raw with
    | .ok value, [] => .ok value
    | .ok _, unknown => .error unknown
    | .error msg, unknown => .error (⟨[field], msg⟩ :: unknown)
  reported := by
    intro raw
    split
    · exact nofun
    · rename_i hne
      exact fun hc => hne (Except.error.inj hc)
    · exact fun hc => nomatch Except.error.inj hc

end ConfigReader

/-- A text of at most so many characters. -/
abbrev BoundedText (max : Nat) := { s : String // s.length ≤ max }

/-- A text field of bounded length. -/
def boundedText (P : CataloguePorts) (max : Nat) : Json → Except String (BoundedText max)
  | .string s => if h : s.length ≤ max then .ok ⟨s, h⟩ else .error (P.stringTooLong max)
  | _ => .error P.stringType

/-- One of an enumeration's members, by its value. -/
def memberOf {α : Type} (P : CataloguePorts) (members : List (String × α)) : Json → Except String α
  | .string s =>
      match Dict.get? members s with
      | some member => .ok member
      | none => .error (P.notAmong (members.map Prod.fst))
  | _ => .error (P.notAmong (members.map Prod.fst))

/-! ### The configurations -/

/-- How long the text of a constant may be. -/
def maxValueLength : Nat := 10000

/-- The levels a log node writes at. -/
inductive LogLevel
  | debug
  | info
  | warning
  | error
deriving DecidableEq, Repr

/-- The levels by their values. -/
def LogLevel.members : List (String × LogLevel) :=
  [("debug", .debug), ("info", .info), ("warning", .warning), ("error", .error)]

/-- The operators by their values. -/
def Operator.members : List (String × Operator) :=
  [("equals", .equals), ("not_equals", .notEquals), ("greater_than", .greaterThan),
    ("less_than", .lessThan), ("contains", .contains), ("is_empty", .isEmpty)]

/-- A `cron` field: bounded, and what the library says is an expression. -/
def cronField (P : CataloguePorts) (value : Json) : Except String (BoundedText maxCronLength) := do
  let cron ← boundedText P maxCronLength value
  if P.isValidCron cron.1 then .ok cron
  else .error (P.valueError (quoted cron.1 ++ " is not a valid cron expression."))

namespace ConfigReader

variable (P : CataloguePorts)

/-- The configuration of a constant. -/
def constantConfig : ConfigReader (BoundedText maxValueLength) :=
  single P "ConstantConfig" "value" ⟨"", by decide⟩ (boundedText P maxValueLength)

/-- The configuration of a log node. -/
def logConfig : ConfigReader LogLevel :=
  single P "LogConfig" "level" .info (memberOf P LogLevel.members)

/-- The configuration of a schedule. -/
def scheduleConfig : ConfigReader (BoundedText maxCronLength) :=
  single P "ScheduleTriggerConfig" "cron" ⟨defaultCron, by decide⟩ (cronField P)

/-- What a failed field reports. -/
def failure {α : Type} (field : String) : Except String α → List ConfigDetail
  | .ok _ => []
  | .error msg => [⟨[field], msg⟩]

/-- The configuration of a condition. -/
def conditionConfig : ConfigReader ConditionConfig where
  name := "ConditionConfig"
  read raw :=
    let path : Except String (BoundedText maxPathLength) :=
      (raw.get? "path").elim (.ok ⟨"", by decide⟩) (boundedText P maxPathLength)
    let operator : Except String Operator :=
      (raw.get? "operator").elim (.ok .isEmpty) (memberOf P Operator.members)
    match path, operator, extras P ["path", "operator", "value"] raw with
    | .ok path, .ok operator, [] =>
        .ok
          { path := path.1, operator, value := (raw.get? "value").getD .null
            path_length := path.2 }
    | .ok _, .ok _, unknown => .error unknown
    | .ok _, .error msg, unknown => .error (⟨["operator"], msg⟩ :: unknown)
    | .error msg, operator, unknown =>
        .error (⟨["path"], msg⟩ :: failure "operator" operator ++ unknown)
  reported := by
    intro raw
    dsimp only
    split
    · exact nofun
    · rename_i hne
      exact fun hc => hne (Except.error.inj hc)
    · exact fun hc => nomatch Except.error.inj hc
    · exact fun hc => nomatch Except.error.inj hc

end ConfigReader

/-! ### The types -/

/-- What lies outside during one invocation. -/
structure Surroundings (Args : Type) where
  /-- What `new_public_id` returns. -/
  newPublicId : String
  agent : AgentNodeRunner Args

/-- A node type: its declaration, and what running it does. -/
structure NodeType (Args : Type) where
  descriptor : NodeDescriptor Json
  runner : Surroundings Args → NodeRunContext Json → RunnerOutcome Json

/-- A type whose runner is handed the configuration its model made of the raw one. -/
def NodeType.reading {Args C : Type} (r : ConfigReader C) (descriptor : NodeDescriptor Json)
    (run : C → Surroundings Args → NodeRunContext Json → RunnerOutcome Json) : NodeType Args where
  descriptor
  runner around context :=
    match r.read context.config with
    | .ok config => run config around context
    | .error _ => .raised "TypeError" ("Expected " ++ r.name)

namespace BuiltIn

variable {Args : Type} (P : CataloguePorts)

/-- One output handle, of any value. -/
def anyOut : List OutputHandle := [⟨"main", .any⟩]

/-- One input handle, of any value, that need not be connected. -/
def anyIn : List InputHandle := [{ name := "main", type := .any, required := false }]

/-- A trigger passes on what the run was started with. -/
def payloadTrigger {C : Type} (nodeType : String) (r : ConfigReader C) : NodeType Args :=
  .reading r
    { nodeType
      version := 1
      category := .trigger
      configModel := r.model P
      inputs := []
      outputs := [⟨"main", .json⟩]
      inputs_nodup := List.nodup_nil
      outputs_nodup := List.nodup_singleton _ }
    fun _ _ context => .returned (.completed [("main", .object context.triggerPayload)])

/-- Starts a run by hand. -/
def triggerManual : NodeType Args :=
  payloadTrigger P "trigger.manual" (.empty P "ManualTriggerConfig")

/-- Starts a run from a request. -/
def triggerWebhook : NodeType Args :=
  payloadTrigger P webhookTrigger (.empty P "WebhookTriggerConfig")

/-- Starts a run at its times. -/
def triggerSchedule : NodeType Args :=
  payloadTrigger P scheduleTrigger (.scheduleConfig P)

/-- Emits a fixed text value. -/
def coreConstant : NodeType Args :=
  .reading (.constantConfig P)
    { nodeType := "core.constant"
      version := 1
      category := .transform
      configModel := (ConfigReader.constantConfig P).model P
      inputs := []
      outputs := [⟨"main", .text⟩]
      inputs_nodup := List.nodup_nil
      outputs_nodup := List.nodup_singleton _ }
    fun value _ _ => .returned (.completed [("main", .string value.1)])

/-- What looking a missing key up raises. -/
def keyError (key : String) : RunnerOutcome Json := .raised "KeyError" (quoted key)

/-- Passes its input through unchanged. -/
def coreNoop : NodeType Args :=
  .reading (.empty P "NoOpConfig")
    { nodeType := "core.noop"
      version := 1
      category := .transform
      configModel := (ConfigReader.empty P "NoOpConfig").model P
      inputs := [{ name := "main", type := .any }]
      outputs := anyOut
      inputs_nodup := List.nodup_singleton _
      outputs_nodup := List.nodup_singleton _ }
    fun _ _ context =>
      match context.inputs.get? "main" with
      | some value => .returned (.completed [("main", value)])
      | none => keyError "main"

/-- Writes the incoming text to the application log. -/
def coreLog : NodeType Args :=
  .reading (.logConfig P)
    { nodeType := "core.log"
      version := 1
      category := .output
      configModel := (ConfigReader.logConfig P).model P
      inputs := [{ name := "main", type := .text }]
      outputs := []
      sideEffect := .idempotent
      inputs_nodup := List.nodup_singleton _
      outputs_nodup := List.nodup_nil }
    fun _ _ context =>
      match context.inputs.get? "main" with
      | some _ => .returned (.completed [])
      | none => keyError "main"

/-- Pauses the workflow until it is resumed. -/
def coreWait : NodeType Args :=
  .reading (.empty P "WaitConfig")
    { nodeType := "core.wait"
      version := 1
      category := .action
      configModel := (ConfigReader.empty P "WaitConfig").model P
      inputs := anyIn
      outputs := anyOut
      inputs_nodup := List.nodup_singleton _
      outputs_nodup := List.nodup_singleton _ }
    fun _ around context => .returned (Orqent.coreWait around.newPublicId context)

/-- Sends the run down one of two paths. -/
def coreCondition : NodeType Args :=
  .reading (.conditionConfig P)
    { nodeType := "core.condition"
      version := 1
      category := .control
      configModel := (ConfigReader.conditionConfig P).model P
      inputs := anyIn
      outputs := [⟨trueHandle, .any⟩, ⟨falseHandle, .any⟩]
      inputs_nodup := List.nodup_singleton _
      outputs_nodup := by decide }
    fun config _ context => Condition.run config context.inputs

/-- The first input of a merge. -/
def firstHandle : String := "a"

/-- The second input of a merge. -/
def secondHandle : String := "b"

/-- Continues with whichever branch produced a value. -/
def coreMerge : NodeType Args :=
  .reading (.empty P "MergeConfig")
    { nodeType := "core.merge"
      version := 1
      category := .control
      configModel := (ConfigReader.empty P "MergeConfig").model P
      inputs :=
        [{ name := firstHandle, type := .any, required := false },
          { name := secondHandle, type := .any, required := false }]
      outputs := anyOut
      inputs_nodup := by decide
      outputs_nodup := List.nodup_singleton _ }
    fun _ _ context =>
      match context.inputs.get? firstHandle, context.inputs.get? secondHandle with
      | some value, _ => .returned (.completed [("main", value)])
      | none, some value => .returned (.completed [("main", value)])
      | none, none => .returned (.completed [])

/-- Asks a language model and returns its answer; its configuration is read by the library. -/
def aiAgent (agentConfig : ConfigReader AgentConfig) : NodeType Args :=
  .reading agentConfig
    { nodeType := "ai.agent"
      version := 1
      category := .ai
      configModel := agentConfig.model P
      inputs := anyIn
      outputs := [⟨"main", .text⟩]
      sideEffect := .atLeastOnce
      inputs_nodup := List.nodup_singleton _
      outputs_nodup := List.nodup_singleton _ }
    fun config around context => (around.agent.run config context).2

/-- The types that come with the platform, in the order they are registered. -/
def all : List (NodeType Args) :=
  [triggerManual P, triggerWebhook P, triggerSchedule P, coreConstant P, coreNoop P, coreLog P,
    coreWait P, coreCondition P, coreMerge P]

/-- The types there are: the agent is registered last. -/
def catalogue (agentConfig : ConfigReader AgentConfig) : List (NodeType Args) :=
  all P ++ [aiAgent P agentConfig]

end BuiltIn

/-! ### The registry -/

/-- A type is registered under its name and version. -/
def NodeType.key {Args : Type} (t : NodeType Args) : String × Nat :=
  (t.descriptor.nodeType, t.descriptor.version)

/-- The registry as two dictionaries, which `register` fills together. -/
structure InMemoryNodeRegistry (Args : Type) where
  descriptors : Dict (String × Nat) (NodeDescriptor Json) := []
  runners : Dict (String × Nat) (Surroundings Args → NodeRunContext Json → RunnerOutcome Json) := []

namespace InMemoryNodeRegistry

variable {Args : Type} (r : InMemoryNodeRegistry Args)

/-- Register a type, unless its name and version are taken. -/
def register (t : NodeType Args) : Except String (InMemoryNodeRegistry Args) :=
  if r.descriptors.contains t.key then
    .error (t.descriptor.qualifiedName ++ " is already registered; node types are append-only " ++
      "and versions are never reused.")
  else
    .ok
      { descriptors := r.descriptors.set t.key t.descriptor
        runners := r.runners.set t.key t.runner }

/-- The descriptor of a type and version. -/
def find (nodeType : String) (version : Nat) : Option (NodeDescriptor Json) :=
  r.descriptors.get? (nodeType, version)

/-- The runner of a type and version, or an error. -/
def runner (nodeType : String) (version : Nat) :
    Except EngineError (Surroundings Args → NodeRunContext Json → RunnerOutcome Json) :=
  match r.runners.get? (nodeType, version) with
  | some run => .ok run
  | none =>
      .error (.unknownNodeType ("Unknown node type: " ++ nodeType ++ "@" ++ toString version))

/-- Every registered descriptor, in the order of registration. -/
def all : List (NodeDescriptor Json) := r.descriptors.map Prod.snd

/-- The registry as validation and the engine see it. -/
def port : NodeRegistry Json where
  find := r.find

end InMemoryNodeRegistry

/-- Register the types there are. -/
def buildRegistry (Args : Type) (P : CataloguePorts) (agentConfig : ConfigReader AgentConfig) :
    Except String (InMemoryNodeRegistry Args) :=
  (BuiltIn.catalogue P agentConfig).foldlM (fun r t => r.register t) {}

/-! ### What is registered -/

section Registry

variable {Args : Type} {r r' : InMemoryNodeRegistry Args} {t : NodeType Args}
  {types : List (NodeType Args)}

/-- The registry holds these types, in this order. -/
structure InMemoryNodeRegistry.Holds (r : InMemoryNodeRegistry Args)
    (types : List (NodeType Args)) : Prop where
  descriptors : r.descriptors = types.map fun t => (t.key, t.descriptor)
  runners : r.runners = types.map fun t => (t.key, t.runner)
  nodup : (types.map NodeType.key).Nodup

theorem InMemoryNodeRegistry.holds_empty : ({} : InMemoryNodeRegistry Args).Holds [] :=
  ⟨rfl, rfl, List.nodup_nil⟩

theorem InMemoryNodeRegistry.Holds.contains_iff (h : r.Holds types) :
    r.descriptors.contains t.key = true ↔ t.key ∈ types.map NodeType.key := by
  have hkeys : r.descriptors.map Prod.fst = types.map NodeType.key := by
    rw [h.descriptors, List.map_map]
    rfl
  constructor
  · intro hc
    obtain ⟨d, hd⟩ := (Dict.contains_iff _ _).mp hc
    rw [← hkeys]
    exact List.mem_map_of_mem (f := Prod.fst) (Dict.mem_of_get? _ hd)
  · intro hmem
    rw [← hkeys] at hmem
    obtain ⟨⟨k, d⟩, he, heq⟩ := List.mem_map.mp hmem
    refine (Dict.contains_iff _ _).mpr ⟨d, Dict.get?_of_mem _ ?_ (heq ▸ he)⟩
    rw [hkeys]
    exact h.nodup

/-- **Registration appends**: a type whose name and version are new, and nothing otherwise. -/
theorem InMemoryNodeRegistry.Holds.register (h : r.Holds types) :
    (t.key ∈ types.map NodeType.key ∧ ∃ message, r.register t = .error message) ∨
      t.key ∉ types.map NodeType.key ∧ ∃ r', r.register t = .ok r' ∧ r'.Holds (types ++ [t]) := by
  unfold InMemoryNodeRegistry.register
  by_cases htaken : r.descriptors.contains t.key = true
  · rw [if_pos htaken]
    exact Or.inl ⟨h.contains_iff.mp htaken, _, rfl⟩
  · rw [if_neg htaken]
    have hnew : t.key ∉ types.map NodeType.key := fun hc => htaken (h.contains_iff.mpr hc)
    have hdescriptors : t.key ∉ r.descriptors.map Prod.fst := by
      rw [h.descriptors, List.map_map]
      exact hnew
    have hrunners : t.key ∉ r.runners.map Prod.fst := by
      rw [h.runners, List.map_map]
      exact hnew
    refine Or.inr ⟨hnew, _, rfl, ?_, ?_, ?_⟩
    · show r.descriptors.set t.key t.descriptor = _
      rw [Dict.set_of_not_mem _ _ hdescriptors, h.descriptors, List.map_append]
      rfl
    · show r.runners.set t.key t.runner = _
      rw [Dict.set_of_not_mem _ _ hrunners, h.runners, List.map_append]
      rfl
    · rw [List.map_append]
      exact h.nodup.append (List.nodup_singleton _) (by simpa using hnew)

/-- Registering types of different names and versions registers them all. -/
theorem InMemoryNodeRegistry.Holds.registerAll {more : List (NodeType Args)} (h : r.Holds types)
    (hnodup : ((types ++ more).map NodeType.key).Nodup) :
    ∃ r', more.foldlM (fun r t => r.register t) r = .ok r' ∧ r'.Holds (types ++ more) := by
  induction more generalizing r types with
  | nil => exact ⟨r, rfl, by simpa using h⟩
  | cons t rest ih =>
      have hnew : t.key ∉ types.map NodeType.key := by
        intro hc
        rw [List.map_append, List.nodup_append] at hnodup
        exact hnodup.2.2 t.key hc t.key (by simp) rfl
      rcases h.register (t := t) with ⟨htaken, -⟩ | ⟨-, r', hok, hholds⟩
      · exact absurd htaken hnew
      · obtain ⟨r'', hrest, hall⟩ := ih hholds (by simpa using hnodup)
        refine ⟨r'', ?_, by simpa using hall⟩
        rw [List.foldlM_cons, hok]
        exact hrest

/-- What is found is the one registered type of that name and version. -/
theorem InMemoryNodeRegistry.Holds.find_iff (h : r.Holds types) {nodeType : String} {version : Nat}
    {d : NodeDescriptor Json} : r.find nodeType version = some d ↔
      ∃ t ∈ types, t.key = (nodeType, version) ∧ t.descriptor = d := by
  have hkeys : (r.descriptors.map Prod.fst).Nodup := by
    rw [h.descriptors, List.map_map]
    exact h.nodup
  unfold InMemoryNodeRegistry.find
  constructor
  · intro hfind
    have hmem := Dict.mem_of_get? _ hfind
    rw [h.descriptors] at hmem
    obtain ⟨t, ht, heq⟩ := List.mem_map.mp hmem
    obtain ⟨hkey, hdescriptor⟩ := Prod.mk.inj heq
    exact ⟨t, ht, hkey, hdescriptor⟩
  · intro hregistered
    obtain ⟨t, ht, hkey, rfl⟩ := hregistered
    refine Dict.get?_of_mem _ hkeys ?_
    rw [h.descriptors, ← hkey]
    exact List.mem_map_of_mem (f := fun t : NodeType Args => (t.key, t.descriptor)) ht

theorem InMemoryNodeRegistry.Holds.runner_of_mem (h : r.Holds types) (ht : t ∈ types) :
    r.runner t.descriptor.nodeType t.descriptor.version = .ok t.runner := by
  have hkeys : (r.runners.map Prod.fst).Nodup := by
    rw [h.runners, List.map_map]
    exact h.nodup
  have hget : r.runners.get? (t.descriptor.nodeType, t.descriptor.version) = some t.runner := by
    refine Dict.get?_of_mem _ hkeys ?_
    rw [h.runners]
    exact List.mem_map_of_mem (f := fun t : NodeType Args => (t.key, t.runner)) ht
  unfold InMemoryNodeRegistry.runner
  rw [hget]

/-- **The registry holds the built-in types.** -/
theorem buildRegistry_holds (Args : Type) (P : CataloguePorts)
    (agentConfig : ConfigReader AgentConfig) : ∃ r,
      buildRegistry Args P agentConfig = .ok r ∧ r.Holds (BuiltIn.catalogue P agentConfig) := by
  have hnodup : ((BuiltIn.catalogue P agentConfig : List (NodeType Args)).map
      NodeType.key).Nodup := by
    show List.Nodup [("trigger.manual", 1), ("trigger.webhook", 1), ("trigger.schedule", 1),
      ("core.constant", 1), ("core.noop", 1), ("core.log", 1), ("core.wait", 1),
      ("core.condition", 1), ("core.merge", 1), ("ai.agent", 1)]
    decide
  exact InMemoryNodeRegistry.holds_empty.registerAll (by simpa using hnodup)

end Registry

/-! ### Publishing reads the same -/

/-- A JSON value that is a string. -/
def Json.asText : Json → Option String
  | .string s => some s
  | _ => none

theorem extras_eq_nil {P : CataloguePorts} {known : List String} {raw : Dict String Json} :
    ConfigReader.extras P known raw = [] ↔ ∀ e ∈ raw, e.1 ∈ known := by
  unfold ConfigReader.extras
  rw [List.map_eq_nil_iff, List.filter_eq_nil_iff]
  simp

/-- A model with one field accepts what has no other field, and a value the check accepts. -/
theorem single_read_iff {α : Type} {P : CataloguePorts} {name field : String} {default : α}
    {check : Json → Except String α} {raw : Dict String Json} {value : α} :
    (ConfigReader.single P name field default check).read raw = .ok value ↔
      (∀ e ∈ raw, e.1 = field) ∧ (raw.get? field).elim (.ok default) check = .ok value := by
  have hextras : ConfigReader.extras P [field] raw = [] ↔ ∀ e ∈ raw, e.1 = field := by
    rw [extras_eq_nil]
    simp
  rw [← hextras]
  unfold ConfigReader.single
  dsimp only
  cases (raw.get? field).elim (.ok default) check with
  | ok found => cases ConfigReader.extras P [field] raw <;> simp
  | error msg => simp

/-- **What publishing takes from a schedule trigger is what its configuration model accepts.** -/
theorem scheduleCron_eq_some_iff {P : CataloguePorts} {T : TriggerPorts Json}
    (htext : T.asText = Json.asText) (hcron : T.isValidCron = P.isValidCron)
    {raw : Dict String Json} {cron : String} : scheduleCron T raw = some cron ↔
      ∃ hlength, (ConfigReader.scheduleConfig P).read raw = .ok ⟨cron, hlength⟩ := by
  have hfield : ∀ value, ((T.asText value).filter fun cron =>
      cron.length ≤ maxCronLength && T.isValidCron cron) = some cron ↔
        ∃ hlength, cronField P value = .ok ⟨cron, hlength⟩ := by
    intro value
    rw [htext, hcron]
    cases value with
    | string text =>
        unfold cronField boundedText
        by_cases hlength : text.length ≤ maxCronLength
        · by_cases hvalid : P.isValidCron text = true
          · simp only [Json.asText, Option.filter_some, hlength, hvalid, dif_pos, if_pos,
              decide_true, Bool.and_self, bind, Except.bind, Option.some.injEq, Except.ok.injEq,
              Subtype.mk.injEq]
            exact ⟨fun h => ⟨h ▸ hlength, h⟩, fun h => h.2⟩
          · simp [hlength, hvalid, Json.asText, bind, Except.bind, Option.filter_some]
        · simp [hlength, Json.asText, bind, Except.bind, Option.filter_some]
    | _ => simp [Json.asText, cronField, boundedText, bind, Except.bind]
  unfold ConfigReader.scheduleConfig scheduleCron
  simp only [single_read_iff, exists_and_left]
  by_cases hall : (raw.all fun e => e.1 = "cron") = true
  · rw [if_pos hall]
    have honly : ∀ e ∈ raw, e.1 = "cron" := by simpa using hall
    cases raw.get? "cron" with
    | none =>
        simp only [Option.elim_none, Except.ok.injEq, Subtype.mk.injEq, Option.some.injEq]
        exact ⟨fun h => ⟨honly, h ▸ by decide, h⟩, fun h => h.2.2⟩
    | some value => exact (hfield value).trans ⟨fun h => ⟨honly, h⟩, fun h => h.2⟩
  · rw [if_neg hall]
    constructor
    · intro h
      cases h
    · intro h
      refine absurd ?_ hall
      simpa using h.1

end Orqent
