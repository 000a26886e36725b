/-
Configuration validation: whether each node is set up in a way it can run.

Nodes whose type did not resolve have no model to validate against and are
skipped; every failure a model reports becomes an issue of its own.
-/
import Orqent.Graph.Issues
import Orqent.Nodes.Contract

namespace Orqent

variable {Value : Type}

/-- The descriptors a graph's nodes resolved to, by node key. -/
abbrev Descriptors (Value : Type) := Dict NodeKey (NodeDescriptor Value)

/-- `nodes.log_1.config.level`: where in the payload the problem is. -/
def configPath (key : NodeKey) (loc : List String) : String :=
  let base := "nodes." ++ key ++ ".config"
  if loc.isEmpty then base else base ++ "." ++ String.intercalate "." loc

/-- The model's own wording, named to the field it concerns. -/
def configMessage (loc : List String) (detail : String) : String :=
  if loc.isEmpty then "Configuration is invalid: " ++ detail ++ "."
  else "Configuration field " ++ quoted (String.intercalate "." loc) ++ ": " ++ detail ++ "."

/-- One issue per independent failure reported. -/
def translate (key : NodeKey) (details : List ConfigDetail) : List ValidationIssue :=
  details.map fun detail =>
    { code := .invalidConfig
      message := configMessage detail.loc detail.msg
      nodeKey := some key
      field := some (configPath key detail.loc) }

/-- Report every node whose configuration its node type would refuse. -/
def validateConfig (g : WorkflowGraph Value) (descriptors : Descriptors Value) :
    List ValidationIssue :=
  g.nodes.flatMap fun node =>
    match descriptors.get? node.key with
    | none => []
    | some descriptor => translate node.key (descriptor.configModel.errors node.config)

end Orqent
