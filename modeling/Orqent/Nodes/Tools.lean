/-
Tools: what an agent may be given, and the catalogue that resolves a name to one.

A tool's arguments are validated against the tool's own schema before it runs, and what
it returns is rendered as text once, here.  The catalogue refuses a second tool of one
name and any tool that is not free to repeat, so neither can be in one: both are fields
of `ToolRegistry`.

Validation is third-party code and a tool may do anything, so both are functions of the
model's structures: what they do at a given moment of the run is the value there.
-/
import Orqent.Engine.State
import Orqent.Nodes.Contract
import Orqent.Lib.Json
import Mathlib.Data.List.Sort
import Mathlib.Data.String.Basic

namespace Orqent

/-! ### Serialisation -/

/-- How a character reads inside a JSON text. -/
def jsonChar (c : Char) : String :=
  match c.toNat with
  | 8 => "\\b"
  | 9 => "\\t"
  | 10 => "\\n"
  | 12 => "\\f"
  | 13 => "\\r"
  | 34 => "\\" ++ c.toString
  | 92 => "\\\\"
  | n =>
      if n < 32 then
        "\\u00" ++ String.ofList [Nat.digitChar (n / 16), Nat.digitChar (n % 16)]
      else c.toString

/-- A text between double quotes. -/
def jsonString (s : String) : String :=
  "\"" ++ String.join (s.toList.map jsonChar) ++ "\""

/-- The entries by their keys. -/
def sortByKey (entries : List (String × String)) : List (String × String) :=
  entries.insertionSort fun e f => e.1 ≤ f.1

mutual

/-- `json.dumps`; how a float reads is an argument. -/
def dumps (floatText : NumberValue → String) (sortKeys : Bool) : Json → String
  | .null => "null"
  | .bool b => if b then "true" else "false"
  | .int n => toString n
  | .float x => floatText x
  | .string s => jsonString s
  | .list items => "[" ++ ", ".intercalate (dumpItems floatText sortKeys items) ++ "]"
  | .object entries =>
      let texts := dumpEntries floatText sortKeys entries
      let ordered := if sortKeys then sortByKey texts else texts
      "\x7b" ++ ", ".intercalate (ordered.map fun e => jsonString e.1 ++ ": " ++ e.2) ++ "\x7d"

/-- The elements of a list. -/
def dumpItems (floatText : NumberValue → String) (sortKeys : Bool) : List Json → List String
  | [] => []
  | item :: rest => dumps floatText sortKeys item :: dumpItems floatText sortKeys rest

/-- The values of an object, each still under its key. -/
def dumpEntries (floatText : NumberValue → String) (sortKeys : Bool) :
    List (String × Json) → List (String × String)
  | [] => []
  | (key, value) :: rest =>
      (key, dumps floatText sortKeys value) :: dumpEntries floatText sortKeys rest

end

/-- Render a tool result deterministically as JSON text. -/
def Serialisation.render (floatText : NumberValue → String) (result : Json) : String :=
  dumps floatText true result

/-! ### The contract -/

/-- An exception on its way out: the error of the port it comes from, which callers expect,
or anything else. -/
inductive Escape
  | refused (message : String) (retryable : Bool)
  | raised (typeName message : String)
deriving DecidableEq, Repr

/-- One tool invocation requested by the model; nothing in it is to be trusted. -/
structure ToolCall where
  callId : String
  name : String
  arguments : Dict String Json := []

/-- What was asked for, and what came back. -/
structure CompletedToolCall where
  call : ToolCall
  result : String

/-- What validating raw arguments yields. -/
inductive ValidatedArguments (Args : Type)
  | valid (arguments : Args)
  | invalid (problems : List ConfigDetail)

/-- What the model is shown, and what arguments are validated against. -/
structure ToolDefinition (Args : Type) where
  name : String
  description : String
  parameters : Dict String Json → Except Escape (ValidatedArguments Args)
  sideEffect : SideEffect

/-- One capability an agent may be given. -/
structure Tool (Args : Type) where
  definition : ToolDefinition Args
  /-- What it does with the arguments at a given moment of the run. -/
  execute : Nat → Args → Except Escape Json

/-! ### The catalogue -/

/-- How a side effect is written. -/
def SideEffect.toText : SideEffect → String
  | .pure => "pure"
  | .idempotent => "idempotent"
  | .atLeastOnce => "at_least_once"
  | .atMostOnce => "at_most_once"

/-- Stable names to trusted implementations. -/
structure ToolRegistry (Args : Type) where
  tools : Dict String (Tool Args)
  nodup : (tools.map Prod.fst).Nodup
  named : ∀ e ∈ tools, e.2.definition.name = e.1
  pure : ∀ e ∈ tools, e.2.definition.sideEffect = .pure

namespace ToolRegistry

variable {Args : Type} {registry registry' : ToolRegistry Args} {tool : Tool Args} {name : String}

/-- The catalogue nothing was registered in. -/
def empty : ToolRegistry Args :=
  { tools := []
    nodup := List.nodup_nil
    named := by simp
    pure := by simp }

/-- Add a tool. -/
def register (registry : ToolRegistry Args) (tool : Tool Args) :
    Except String (ToolRegistry Args) :=
  if _ : registry.tools.contains tool.definition.name = true then
    .error (quoted tool.definition.name ++ " is already registered; tool names are " ++
      "append-only and are referenced by published workflows.")
  else if hpure : tool.definition.sideEffect = .pure then
    .ok
      { tools := registry.tools.set tool.definition.name tool
        nodup := Dict.nodup_set _ _ _ registry.nodup
        named := by
          intro e he
          rcases Dict.mem_set _ he with rfl | he
          · rfl
          · exact registry.named e he
        pure := by
          intro e he
          rcases Dict.mem_set _ he with rfl | he
          · exact hpure
          · exact registry.pure e he }
  else
    .error (quoted tool.definition.name ++ " declares " ++ tool.definition.sideEffect.toText ++
      ", but M6 executes only PURE tools: an agent may be retried, and a " ++
      "repeated tool call must be free.")

/-- The tool by that name. -/
def get (registry : ToolRegistry Args) (name : String) : Except Escape (Tool Args) :=
  match registry.tools.get? name with
  | none => .error (.refused ("Unknown tool: " ++ quoted name ++ ".") false)
  | some tool => .ok tool

/-- Every registered name, in registration order. -/
def names (registry : ToolRegistry Args) : List String := registry.tools.map Prod.fst

/-- Definitions for the names, in the order given. -/
def definitions (registry : ToolRegistry Args) (names : List String) :
    Except Escape (List (ToolDefinition Args)) :=
  names.mapM fun name => (registry.get name).map Tool.definition

/-- A tool that is found has the name it was looked up by, and is free to repeat. -/
theorem get_ok (h : registry.get name = .ok tool) :
    tool.definition.name = name ∧ tool.definition.sideEffect = .pure := by
  unfold get at h
  cases hget : registry.tools.get? name with
  | none => simp [hget] at h
  | some found =>
      simp only [hget, Except.ok.injEq] at h
      subst h
      have hmem := Dict.mem_of_get? _ hget
      exact ⟨registry.named _ hmem, registry.pure _ hmem⟩

/-- A tool that was registered is found, and every other name leads where it led. -/
theorem get_register (h : registry.register tool = .ok registry') :
    registry'.get name = if tool.definition.name = name then .ok tool else registry.get name := by
  unfold register at h
  split at h
  · simp at h
  · split at h
    · simp only [Except.ok.injEq] at h
      subst h
      simp only [get, Dict.get?_set]
      by_cases hname : tool.definition.name = name <;> simp [hname]
    · simp at h

end ToolRegistry

end Orqent
