/-
The node contract: what a node type declares, and what running one may yield.

A descriptor is the whole of what the platform knows about a node type without
running it.  Handle names are unique in each direction, which the source's
constructor enforces and which is a field here.

The configuration model is third-party code (a Pydantic class).  What the platform
uses of it is the list of failures it reports for a raw configuration, and the
wording of the exception that carries them.
-/
import Orqent.Graph.Model

namespace Orqent

/-! ### Handles -/

/-- A class that describes a record's shape.  Identity is `id`; `name` is for messages. -/
structure RecordModel where
  id : Nat
  name : String
deriving DecidableEq, Repr

/-- A handle's type.  Only a list carries an item type and only a record a model. -/
inductive HandleType
  | any
  | text
  | number
  | boolean
  | json
  | binary
  | record (model : RecordModel)
  | list (item : HandleType)
deriving DecidableEq, Repr

/-- How a type reads in a validation message: `List<Record<Invoice>>`. -/
def HandleType.toText : HandleType → String
  | any => "Any"
  | text => "Text"
  | number => "Number"
  | boolean => "Boolean"
  | json => "Json"
  | binary => "Binary"
  | record model => "Record<" ++ model.name ++ ">"
  | list item => "List<" ++ item.toText ++ ">"

/-- How many edges may arrive at one input handle. -/
inductive Arity
  | single
  | many
deriving DecidableEq, Repr

/-- A socket edges arrive at. -/
structure InputHandle where
  name : String
  type : HandleType
  arity : Arity := .single
  required : Bool := true
deriving DecidableEq, Repr

/-- A socket edges leave from. -/
structure OutputHandle where
  name : String
  type : HandleType
deriving DecidableEq, Repr

/-! ### Descriptors -/

/-- The kinds of nodes. -/
inductive NodeCategory
  | trigger
  | action
  | transform
  | control
  | ai
  | human
  | output
deriving DecidableEq, Repr

/-- What repeating a node would do to the outside world. -/
inductive SideEffect
  | pure
  | idempotent
  | atLeastOnce
  | atMostOnce
deriving DecidableEq, Repr

/-- One failure a configuration model reports: where, and what. -/
structure ConfigDetail where
  loc : List String
  msg : String
deriving DecidableEq, Repr

/-- A node type's configuration model, as far as the platform uses it. -/
structure ConfigModel (Value : Type) where
  /-- The failures reported for a raw configuration, in the model's own order. -/
  errors : Dict String Value → List ConfigDetail
  /-- The text of the exception raised for it. -/
  errorText : Dict String Value → String

/-- A node type's complete, static declaration. -/
structure NodeDescriptor (Value : Type) where
  nodeType : String
  version : Nat
  category : NodeCategory
  configModel : ConfigModel Value
  inputs : List InputHandle := []
  outputs : List OutputHandle := []
  sideEffect : SideEffect := .pure
  deprecated : Bool := false
  inputs_nodup : (inputs.map InputHandle.name).Nodup
  outputs_nodup : (outputs.map OutputHandle.name).Nodup

namespace NodeDescriptor

variable {Value : Type} (d : NodeDescriptor Value)

/-- `core.constant@1`: how a node type is named everywhere else. -/
def qualifiedName : String := d.nodeType ++ "@" ++ toString d.version

/-- The named input handle, or `none`. -/
def input (name : String) : Option InputHandle := d.inputs.find? fun h => h.name = name

/-- The named output handle, or `none`. -/
def output (name : String) : Option OutputHandle := d.outputs.find? fun h => h.name = name

/-- The node starts a run. -/
def isTrigger : Bool := d.category = .trigger

end NodeDescriptor

/-! ### The registry -/

/-- The catalogue of node types: a descriptor for each registered type and version. -/
structure NodeRegistry (Value : Type) where
  find : String → Nat → Option (NodeDescriptor Value)

/-- The descriptor, for a caller to whom a miss is an error. -/
def NodeRegistry.get {Value : Type} (r : NodeRegistry Value) (nodeType : String) (version : Nat) :
    Except EngineError (NodeDescriptor Value) :=
  match r.find nodeType version with
  | some d => .ok d
  | none =>
      .error (.unknownNodeType ("Unknown node type: " ++ nodeType ++ "@" ++ toString version))

/-! ### Results -/

/-- The closed set of outcomes of a node. -/
inductive NodeResult (Value : Type)
  /-- The node emitted these values, by output handle. -/
  | completed (outputs : Dict String Value)
  /-- The node waits for something outside, which will quote the token back. -/
  | suspended (resumeToken : String) (hint : Option String)
  | failed (error : String) (retryable : Bool)
deriving DecidableEq, Repr

end Orqent
