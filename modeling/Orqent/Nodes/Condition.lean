/-
The condition node.

A field is picked out of the incoming value by a dotted path, compared to a literal, and
the value is sent on by one of two handles.  The predicate answers for every pair of
values except one kind, which raises: looking a list or an object up among the keys of an
object.  A path that does not lead anywhere is read as null, so it is told apart from a
null that is there by no operator, and compares as equal to a null.
-/
import Orqent.Engine.Invocation
import Orqent.Lib.Json
import Mathlib.Data.List.Infix

namespace Orqent

/-! ### Configuration -/

/-- How long a path may be. -/
def maxPathLength : Nat := 256

/-- The handle of the branch that holds. -/
def trueHandle : String := "true"

/-- The handle of the other branch. -/
def falseHandle : String := "false"

/-- How the two sides are compared. -/
inductive Operator
  | equals
  | notEquals
  | greaterThan
  | lessThan
  | contains
  | isEmpty
deriving DecidableEq, Repr

/-- Which field to look at, how to compare it, and to what. -/
structure ConditionConfig where
  path : String := ""
  operator : Operator := .isEmpty
  value : Json := .null
  path_length : path.length ≤ maxPathLength := by decide

/-! ### The predicate -/

namespace Condition

/-- The segments of a dotted path. -/
def segments (path : String) : List String := (path.toList.splitOn '.').map String.ofList

/-- The walk along the segments; a key that is not there reads as null. -/
def walk : Json → List String → Json
  | current, [] => current
  | .object entries, segment :: rest => walk ((Dict.get? entries segment).getD .null) rest
  | _, _ :: _ => .null

/-- Walk a dotted path into the value. -/
def resolve (value : Json) (path : String) : Json :=
  if path = "" then value else walk value (segments path)

/-- Absent, or present but carrying nothing. -/
def isEmpty : Json → Bool
  | .null => true
  | .string s => s = ""
  | .object entries => entries.isEmpty
  | .list items => items.isEmpty
  | _ => false

/-- Numeric comparison; a boolean is no number here. -/
def ordered (subject value : Json) (greater : Bool) : Bool :=
  match subject.number?, value.number? with
  | some x, some y => if greater then y < x else x < y
  | _, _ => false

/-- Substring for text, membership for a sequence, key for a mapping.  To look a value up
among keys it has to be hashed, which a list or an object cannot be: then its type. -/
def contains (subject value : Json) : Except String Bool :=
  match subject, value with
  | .string text, .string part => .ok (decide (part.toList <:+: text.toList))
  | .string _, _ => .ok false
  | .object _, .list _ => .error "list"
  | .object _, .object _ => .error "dict"
  | .object entries, .string key => .ok (Dict.contains entries key)
  | .object _, _ => .ok false
  | .list items, value => .ok (items.any fun item => item.eq value)
  | _, _ => .ok false

/-- Whether the predicate holds. -/
def evaluate (subject : Json) (config : ConditionConfig) : Except String Bool :=
  match config.operator with
  | .isEmpty => .ok (isEmpty subject)
  | .equals => .ok (subject.eq config.value)
  | .notEquals => .ok (!subject.eq config.value)
  | .greaterThan => .ok (ordered subject config.value true)
  | .lessThan => .ok (ordered subject config.value false)
  | .contains => contains subject config.value

/-- What arrives on the input, `None` where nothing does. -/
def incoming (inputs : Dict String Json) : Json := (inputs.get? "main").getD .null

/-- Evaluates the predicate and emits on exactly one handle. -/
def run (config : ConditionConfig) (inputs : Dict String Json) : RunnerOutcome Json :=
  match evaluate (resolve (incoming inputs) config.path) config with
  | .ok holds =>
      .returned (.completed [(if holds then trueHandle else falseHandle, incoming inputs)])
  | .error type => .raised "TypeError" ("unhashable type: " ++ quoted type)

/-! ### What the node is documented to do -/

/-- Where the segments lead, if they lead anywhere. -/
def leadsTo : Json → List String → Option Json
  | current, [] => some current
  | .object entries, segment :: rest =>
      (Dict.get? entries segment).bind fun value => leadsTo value rest
  | _, _ :: _ => none

/-- The path resolves in the value; the empty path is the value itself. -/
def Resolves (value : Json) (path : String) : Prop :=
  path = "" ∨ (leadsTo value (segments path)).isSome = true

/-- The way a path that does not resolve takes. -/
def unresolvedHandle : Operator → String
  | .equals => falseHandle
  | .notEquals => trueHandle
  | .greaterThan => falseHandle
  | .lessThan => falseHandle
  | .contains => falseHandle
  | .isEmpty => trueHandle

/-- The node completes, sends the value on unchanged by one of the two handles, and by the
documented one where the path does not resolve. -/
def Documented (config : ConditionConfig) (inputs : Dict String Json) : Prop :=
  ∃ taken, (taken = trueHandle ∨ taken = falseHandle) ∧
    run config inputs = .returned (.completed [(taken, incoming inputs)]) ∧
    (¬ Resolves (incoming inputs) config.path → taken = unresolvedHandle config.operator)

/-- A list or an object is looked up among the keys of an object. -/
def LooksUpUnhashable (config : ConditionConfig) (inputs : Dict String Json) : Prop :=
  config.operator = .contains ∧ config.value.hashable = false ∧
    ∃ entries, resolve (incoming inputs) config.path = .object entries

/-- What a path does not lead to is compared to null. -/
def ComparesToNull (config : ConditionConfig) (inputs : Dict String Json) : Prop :=
  ¬ Resolves (incoming inputs) config.path ∧ config.value = .null ∧
    (config.operator = .equals ∨ config.operator = .notEquals)

/-! ### What it does -/

section Results

variable {config : ConditionConfig} {inputs : Dict String Json} {value : Json} {path : String}

theorem walk_of_leadsTo_none {keys : List String} (h : leadsTo value keys = none) :
    walk value keys = .null := by
  induction keys generalizing value with
  | nil => simp [leadsTo] at h
  | cons segment rest ih =>
      cases value with
      | object entries =>
          unfold walk
          unfold leadsTo at h
          cases hget : Dict.get? entries segment with
          | none =>
              -- From null no segment leads on.
              cases rest <;> rfl
          | some next =>
              rw [hget] at h
              exact ih h
      | null => rfl
      | bool b => rfl
      | int n => rfl
      | float x => rfl
      | string s => rfl
      | list items => rfl

/-- A path that leads nowhere reads as null. -/
theorem resolve_of_not_resolves (h : ¬ Resolves value path) : resolve value path = .null := by
  obtain ⟨hpath, hnowhere⟩ := not_or.mp h
  rw [resolve, if_neg hpath]
  exact walk_of_leadsTo_none (by simpa using hnowhere)

theorem null_eq_iff : Json.eq .null value = true ↔ value = .null := by
  cases value <;> simp [Json.eq, Json.numeric?, Json.number?]

/-- Looking a value up among keys raises exactly where it cannot be hashed. -/
theorem contains_ok_iff {subject : Json} : (∃ holds, contains subject value = .ok holds) ↔
    ¬ (value.hashable = false ∧ ∃ entries, subject = .object entries) := by
  cases subject <;> cases value <;> simp [contains, Json.hashable]

/-- **The predicate answers except where a list or an object is looked up.** -/
theorem evaluate_ok_iff :
    (∃ holds, evaluate (resolve (incoming inputs) config.path) config = .ok holds) ↔
    ¬ LooksUpUnhashable config inputs := by
  unfold evaluate LooksUpUnhashable
  cases hop : config.operator with
  | contains => simpa [hop] using contains_ok_iff
  | isEmpty => simp
  | equals => simp
  | notEquals => simp
  | greaterThan => simp
  | lessThan => simp

/-- What the predicate says of null. -/
theorem evaluate_null : evaluate .null config =
    .ok (match config.operator with
      | .equals => Json.eq .null config.value
      | .notEquals => !Json.eq .null config.value
      | .isEmpty => true
      | _ => false) := by
  unfold evaluate
  cases hop : config.operator with
  | contains => cases config.value <;> rfl
  | greaterThan => rfl
  | lessThan => rfl
  | isEmpty => rfl
  | equals => rfl
  | notEquals => rfl

theorem run_of_evaluate {holds : Bool}
    (h : evaluate (resolve (incoming inputs) config.path) config = .ok holds) :
    run config inputs =
      .returned (.completed [(if holds then trueHandle else falseHandle, incoming inputs)]) := by
  unfold run
  rw [h]

/-- What is taken where the path leads nowhere is what is documented, but for a null. -/
theorem unresolved_taken_iff {holds : Bool} (hpath : ¬ Resolves (incoming inputs) config.path)
    (h : evaluate (resolve (incoming inputs) config.path) config = .ok holds) :
    (if holds then trueHandle else falseHandle) = unresolvedHandle config.operator ↔
      ¬ ComparesToNull config inputs := by
  have hhandles : trueHandle ≠ falseHandle := by decide
  rw [resolve_of_not_resolves hpath, evaluate_null] at h
  unfold ComparesToNull
  rw [← null_eq_iff]
  cases hop : config.operator with
  | equals =>
      rw [hop] at h
      obtain rfl : Json.eq .null config.value = holds := by simpa using h
      cases heq : Json.eq .null config.value with
      | true => simp [hpath, unresolvedHandle, hhandles]
      | false => simp [unresolvedHandle]
  | notEquals =>
      rw [hop] at h
      obtain rfl : (!Json.eq .null config.value) = holds := by simpa using h
      cases heq : Json.eq .null config.value with
      | true => simp [hpath, unresolvedHandle, Ne.symm hhandles]
      | false => simp [unresolvedHandle]
  | greaterThan =>
      rw [hop] at h
      obtain rfl : false = holds := by simpa using h
      simp [unresolvedHandle]
  | lessThan =>
      rw [hop] at h
      obtain rfl : false = holds := by simpa using h
      simp [unresolvedHandle]
  | contains =>
      rw [hop] at h
      obtain rfl : false = holds := by simpa using h
      simp [unresolvedHandle]
  | isEmpty =>
      rw [hop] at h
      obtain rfl : true = holds := by simpa using h
      simp [unresolvedHandle]

/--
**The condition node does what is documented, except that** it raises where a list or an
object is looked up among the keys of an object, and that a path leading nowhere equals a
null.
-/
theorem documented_iff (config : ConditionConfig) (inputs : Dict String Json) :
    Documented config inputs ↔
      ¬ LooksUpUnhashable config inputs ∧ ¬ ComparesToNull config inputs := by
  constructor
  · intro h
    obtain ⟨taken, -, hrun, hunresolved⟩ := h
    have hanswers :
        ∃ holds, evaluate (resolve (incoming inputs) config.path) config = .ok holds := by
      cases heval : evaluate (resolve (incoming inputs) config.path) config with
      | ok holds => exact ⟨holds, rfl⟩
      | error type => simp [run, heval] at hrun
    refine ⟨evaluate_ok_iff.mp hanswers, fun hnull => ?_⟩
    obtain ⟨holds, heval⟩ := hanswers
    rw [run_of_evaluate heval] at hrun
    obtain rfl : (if holds then trueHandle else falseHandle) = taken := by simpa using hrun
    exact (unresolved_taken_iff hnull.1 heval).mp (hunresolved hnull.1) hnull
  · intro h
    obtain ⟨holds, heval⟩ := evaluate_ok_iff.mpr h.1
    refine ⟨if holds then trueHandle else falseHandle, ?_, run_of_evaluate heval, fun hpath => ?_⟩
    · cases holds <;> simp
    · exact (unresolved_taken_iff hpath heval).mpr h.2

/-- A list looked up in an object fails the node, and a missing field equals a null. -/
theorem undocumented :
    run { operator := .contains, value := .list [] } [("main", .object [("a", .int 1)])] =
        .raised "TypeError" "unhashable type: 'list'" ∧
      ¬ Documented { operator := .contains, value := .list [] }
        [("main", .object [("a", .int 1)])] ∧
      ¬ Documented { path := "b", operator := .equals } [("main", .object [("a", .int 1)])] := by
  refine ⟨by rfl, fun h => ?_, fun h => ?_⟩
  · obtain ⟨taken, -, hrun, -⟩ := h
    have hraised : run { operator := .contains, value := .list [] }
        [("main", .object [("a", .int 1)])] =
          .raised "TypeError" "unhashable type: 'list'" := by rfl
    rw [hraised] at hrun
    simp at hrun
  · obtain ⟨taken, -, hrun, hunresolved⟩ := h
    have hpath : ¬ Resolves (incoming [("main", .object [("a", .int 1)])]) "b" := by
      unfold Resolves
      decide +kernel
    have htaken : run { path := "b", operator := .equals } [("main", .object [("a", .int 1)])] =
        .returned (.completed [(trueHandle, .object [("a", .int 1)])]) := by rfl
    rw [htaken] at hrun
    have hfalse := hunresolved hpath
    subst hfalse
    simp [unresolvedHandle, trueHandle, falseHandle] at hrun

end Results

end Condition

end Orqent
