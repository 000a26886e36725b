/-
What the types of handles mean.

The platform compares types and looks at no value, so what a value of a type is, is for an
interpretation (`Typing`) to say: of each basic type and each record, and what a list holds.
The one thing an interpretation owes is that records are JSON.  `Any` is every value, on
either side, so a connection from `Any` promises nothing.

Between the other types the platform's comparison is exactly inclusion of values, whatever
the interpretation (`compatible_iff`).
-/
import Orqent.Graph.Validation.Handles

namespace Orqent

/-- What values are of each type. -/
structure Typing (Value : Type) where
  text : Value → Prop
  number : Value → Prop
  boolean : Value → Prop
  json : Value → Prop
  binary : Value → Prop
  record : RecordModel → Value → Prop
  /-- The items of what is a list. -/
  items : Value → Option (List Value)
  record_json : ∀ model v, record model v → json v

variable {Value : Type}

/-- The value is of this type. -/
def Typing.Has (T : Typing Value) : HandleType → Value → Prop
  | .any => fun _ => True
  | .text => T.text
  | .number => T.number
  | .boolean => T.boolean
  | .json => T.json
  | .binary => T.binary
  | .record model => T.record model
  | .list item => fun v => ∃ values, T.items v = some values ∧ ∀ x ∈ values, T.Has item x

/-- What is emitted is declared, and of the declared type. -/
def NodeDescriptor.Emits (T : Typing Value) (d : NodeDescriptor Value)
    (outputs : Dict String Value) : Prop :=
  ∀ e ∈ outputs, ∃ o, d.output e.1 = some o ∧ T.Has o.type e.2

/-- No part of the type is `Any`. -/
def HandleType.definite : HandleType → Bool
  | .any => false
  | .list item => item.definite
  | _ => true

section

variable {T : Typing Value} {source target : HandleType} {v : Value}

/-- **What may connect carries values of the type it arrives at.** -/
theorem Typing.Has.of_compatible (hdefinite : source.definite = true)
    (hcompatible : compatible source target = true) (h : T.Has source v) : T.Has target v := by
  induction target generalizing source v with
  | any => trivial
  | list item ih =>
      cases source with
      | list item' =>
          rw [compatible, Bool.or_eq_true, decide_eq_true_eq] at hcompatible
          rcases hcompatible with rfl | hitems
          · exact h
          · obtain ⟨values, hvalues, hall⟩ := h
            have hitem : item'.definite = true := hdefinite
            exact ⟨values, hvalues, fun x hx => ih hitem hitems (hall x hx)⟩
      | any => exact nomatch hdefinite
      | _ => simp [compatible] at hcompatible
  | json =>
      cases source with
      | json => exact h
      | record model => exact T.record_json model v h
      | any => exact nomatch hdefinite
      | _ => simp [compatible] at hcompatible
  | _ =>
      cases source with
      | any => exact nomatch hdefinite
      | _ =>
          have heq := of_decide_eq_true hcompatible
          exact heq ▸ h

end

/-! ### No wider -/

/-- The interpretation that tells as much apart as there is: a value is a type's own sample,
a record's sample is JSON, and a list's sample holds the sample of its items. -/
def Typing.sample : Typing HandleType where
  text := (· = .text)
  number := (· = .number)
  boolean := (· = .boolean)
  json := fun v => v = .json ∨ ∃ model, v = .record model
  binary := (· = .binary)
  record := fun model v => v = .record model
  items
    | .list item => some [item]
    | _ => none
  record_json := fun model _ h => Or.inr ⟨model, h⟩

theorem Typing.sample_self (type : HandleType) : Typing.sample.Has type type := by
  induction type with
  | any => trivial
  | json => exact Or.inl rfl
  | list item ih =>
      refine ⟨[item], rfl, fun x hx => ?_⟩
      rw [List.mem_singleton.mp hx]
      exact ih
  | _ => rfl

/-- A type that takes another one's sample takes all of that type. -/
theorem Typing.compatible_of_sample {source target : HandleType}
    (h : Typing.sample.Has target source) : compatible source target = true := by
  induction target generalizing source with
  | any => cases source <;> rfl
  | json =>
      rcases h with rfl | ⟨model, rfl⟩
      · rfl
      · rfl
  | list item ih =>
      obtain ⟨values, hvalues, hall⟩ := h
      cases source with
      | list item' =>
          obtain rfl := Option.some.inj hvalues
          rw [compatible, ih (hall item' List.mem_cons_self), Bool.or_true]
      | _ => exact nomatch hvalues
  | record model =>
      obtain rfl : source = .record model := h
      simp [compatible]
  | text =>
      obtain rfl : source = .text := h
      rfl
  | number =>
      obtain rfl : source = .number := h
      rfl
  | boolean =>
      obtain rfl : source = .boolean := h
      rfl
  | binary =>
      obtain rfl : source = .binary := h
      rfl

/--
**The comparison of types is inclusion.**  For a source type with no `Any` in it, a
connection is allowed if and only if in every interpretation every value of the source type
is one of the target type.
-/
theorem compatible_iff {source target : HandleType} (hdefinite : source.definite = true) :
    compatible source target = true ↔
      ∀ (Value : Type) (T : Typing Value) (v : Value), T.Has source v → T.Has target v := by
  constructor
  · intro h Value T v hsource
    exact hsource.of_compatible hdefinite h
  · intro h
    exact Typing.compatible_of_sample
      (h HandleType Typing.sample source (Typing.sample_self source))

/-- Records go into lists of JSON, and JSON does not go into a record. -/
theorem compatible_iff_lists :
    (∀ (Value : Type) (T : Typing Value) (v : Value),
        T.Has (.list (.record ⟨0, "Invoice"⟩)) v → T.Has (.list .json) v) ∧
      ¬ ∀ (Value : Type) (T : Typing Value) (v : Value),
        T.Has (.list .json) v → T.Has (.list (.record ⟨0, "Invoice"⟩)) v :=
  ⟨(compatible_iff (by decide)).mp (by decide),
    fun h => absurd ((compatible_iff (by decide)).mpr h) (by decide)⟩

end Orqent
