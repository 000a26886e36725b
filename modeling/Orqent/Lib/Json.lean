/-
JSON values as a dynamic language holds them.

Booleans are numbers there: `true` equals one, and a whole number equals the float of the
same value.  Lists are equal element by element, objects when they have the same keys
with equal values, in whatever order.  A number's value is exact; a float may be infinite.
-/
import Orqent.Lib.Dict
import Mathlib.Algebra.Order.Ring.Unbundled.Rat
import Mathlib.Order.WithBot

namespace Orqent

/-- What a number comes to. -/
abbrev NumberValue := WithBot (WithTop ℚ)

/-- A JSON value; the entries of an object in the order of their keys' first assignment. -/
inductive Json
  | null
  | bool (b : Bool)
  | int (n : Int)
  | float (x : NumberValue)
  | string (s : String)
  | list (items : List Json)
  | object (entries : List (String × Json))

namespace Json

/-- The value of a number. -/
def number? : Json → Option NumberValue
  | int n => some ((n : ℚ) : WithTop ℚ)
  | float x => some x
  | _ => none

/-- The value of what counts as a number in a comparison for equality. -/
def numeric? : Json → Option NumberValue
  | bool b => some (((if b then 1 else 0 : ℚ)) : WithTop ℚ)
  | value => value.number?

mutual

/-- Equality. -/
def eq : Json → Json → Bool
  | null, null => true
  | string s, string t => s = t
  | list xs, list ys => eqItems xs ys
  | object es, object fs => es.length = fs.length && eqEntries es fs
  | a, b =>
      match a.numeric?, b.numeric? with
      | some x, some y => x = y
      | _, _ => false

/-- Equality of lists. -/
def eqItems : List Json → List Json → Bool
  | [], [] => true
  | x :: xs, y :: ys => eq x y && eqItems xs ys
  | _, _ => false

/-- Every entry is there with an equal value. -/
def eqEntries : List (String × Json) → List (String × Json) → Bool
  | [], _ => true
  | (key, value) :: es, fs =>
      (match Dict.get? fs key with
        | some other => eq value other
        | none => false) && eqEntries es fs

end

/-! ### The same value -/

mutual

/-- Whether two values are the same, entry for entry. -/
def decEq : (a b : Json) → Decidable (a = b)
  | null, b => match b with
    | null => isTrue rfl
    | bool _ | int _ | float _ | string _ | list _ | object _ => isFalse nofun
  | bool x, b => match b with
    | bool y => decidable_of_iff (x = y) (by simp)
    | null | int _ | float _ | string _ | list _ | object _ => isFalse nofun
  | int x, b => match b with
    | int y => decidable_of_iff (x = y) (by simp)
    | null | bool _ | float _ | string _ | list _ | object _ => isFalse nofun
  | float x, b => match b with
    | float y => decidable_of_iff (x = y) (by simp)
    | null | bool _ | int _ | string _ | list _ | object _ => isFalse nofun
  | string x, b => match b with
    | string y => decidable_of_iff (x = y) (by simp)
    | null | bool _ | int _ | float _ | list _ | object _ => isFalse nofun
  | list xs, b => match b with
    | list ys => @decidable_of_iff _ (xs = ys) (by simp) (decEqItems xs ys)
    | null | bool _ | int _ | float _ | string _ | object _ => isFalse nofun
  | object es, b => match b with
    | object fs => @decidable_of_iff _ (es = fs) (by simp) (decEqEntries es fs)
    | null | bool _ | int _ | float _ | string _ | list _ => isFalse nofun

/-- The same for lists. -/
def decEqItems : (xs ys : List Json) → Decidable (xs = ys)
  | [], [] => isTrue rfl
  | [], _ :: _ => isFalse nofun
  | _ :: _, [] => isFalse nofun
  | x :: xs, y :: ys =>
      @decidable_of_iff _ (x = y ∧ xs = ys) (by simp)
        (@instDecidableAnd _ _ (decEq x y) (decEqItems xs ys))

/-- The same for the entries of objects. -/
def decEqEntries : (es fs : List (String × Json)) → Decidable (es = fs)
  | [], [] => isTrue rfl
  | [], _ :: _ => isFalse nofun
  | _ :: _, [] => isFalse nofun
  | (k, x) :: es, (j, y) :: fs =>
      @decidable_of_iff _ (k = j ∧ x = y ∧ es = fs) (by simp [and_assoc])
        (@instDecidableAnd _ _ (inferInstanceAs (Decidable (k = j)))
          (@instDecidableAnd _ _ (decEq x y) (decEqEntries es fs)))

end

instance : DecidableEq Json := decEq

/-- Whether the value can be looked up among the keys of an object. -/
def hashable : Json → Bool
  | list _ => false
  | object _ => false
  | _ => true

end Json

end Orqent
