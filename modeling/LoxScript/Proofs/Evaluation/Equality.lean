import LoxScript.Proofs.Evaluation.NotANumber

/-!
# Equality of values

What `==` decides is an equivalence relation on all values. It never holds between values of different kinds,
and equal values are shown by the same text and count alike in a condition.

Numbers are equal if they are the same pattern, or if neither is a number. In the usual order of numbers a
pattern that is not a number would differ from itself, and both zeros would be equal although they are shown
differently. Functions are equal if they are the same object. What is in the object plays no part, but the name
that it is shown by belongs to it.

## Main definitions

* `Value.Kind`, `Value.kind`: the kinds of values.
* `Value.Equal`: two values that are equal, by their kind.

## Main statements

* `Value.equals_iff`: this is what `==` decides.
* `Value.equals_equivalence`: equality is an equivalence relation that can be seen by the text.
-/

namespace LoxScript

namespace Value

/-- The kinds of values. The functions that a session is given and those that are declared are of two kinds. -/
inductive Kind where
  | nil
  | bool
  | number
  | string
  | native
  | declared
deriving DecidableEq, Repr

/-- The kind of a value. -/
def kind : Value → Kind
  | .nil => .nil
  | .bool _ => .bool
  | .number _ => .number
  | .string _ => .string
  | .function (.native _) => .native
  | .function (.declared ..) => .declared

/-- Two values that are equal. -/
inductive Equal : Value → Value → Prop where
  | nil : Equal .nil .nil
  | bool (b : Bool) : Equal (.bool b) (.bool b)
  | number {a b : Number} (h : a.AgreesUpToNaN b) : Equal (.number a) (.number b)
  | string (text : String) : Equal (.string text) (.string text)
  | native (index : Nat) : Equal (.function (.native index)) (.function (.native index))
  /-- It is enough that the objects are the same. -/
  | declared (object : FunctionObject) {parameters parameters' : List Token} {body body' : List Stmt}
      {closure closure' : ScopeId} :
      Equal (.function (.declared object parameters body closure))
        (.function (.declared object parameters' body' closure'))

variable {u v w : Value}

namespace Equal

theorem refl (v : Value) : v.Equal v := by
  cases v with
  | nil => exact .nil
  | bool b => exact .bool b
  | number a => exact .number (.same a)
  | string text => exact .string text
  | function f =>
    cases f with
    | native index => exact .native index
    | declared object => exact .declared object

theorem symm (h : v.Equal w) : w.Equal v := by
  cases h with
  | nil => exact .nil
  | bool b => exact .bool b
  | number h => exact .number h.symm
  | string text => exact .string text
  | native index => exact .native index
  | declared object => exact .declared object

/-- The kind of the value in the middle decides how both pairs are equal. -/
theorem trans (h : u.Equal v) (h' : v.Equal w) : u.Equal w := by
  cases h with
  | nil => exact h'
  | bool b => exact h'
  | number h =>
    cases h' with
    | number h' => exact .number (h.trans h')
  | string text => exact h'
  | native index => exact h'
  | declared object =>
    cases h' with
    | declared => exact .declared object

theorem kind_eq (h : v.Equal w) : v.kind = w.kind := by
  cases h <;> rfl

theorem truthy_eq (h : v.Equal w) : v.truthy = w.truthy := by
  cases h <;> rfl

theorem text_eq (h : v.Equal w) : v.text = w.text := by
  cases h with
  | number h => exact (h.text_eq "Infinity").symm
  | _ => rfl

theorem equals (h : v.Equal w) : v.equals w := by
  cases h with
  | number h => exact Number.AgreesUpToNaN.iff_same.1 h
  | _ => simp [Value.equals, Function.same]

end Equal

/-- Values of one kind are equal as this kind has it, and values of different kinds are not equal. -/
theorem equals_iff : v.equals w ↔ v.Equal w := by
  refine ⟨fun h => ?_, Equal.equals⟩
  unfold equals at h
  -- one case for each kind but that of functions, which has three, and one for different kinds
  split at h
  · exact .nil
  · obtain rfl := of_decide_eq_true h
    exact .bool _
  · exact .number (Number.AgreesUpToNaN.iff_same.2 h)
  · obtain rfl := of_decide_eq_true h
    exact .string _
  · unfold Function.same at h
    split at h
    · obtain rfl := of_decide_eq_true h
      exact .native _
    · obtain rfl := of_decide_eq_true h
      exact .declared _
    · cases h
  · cases h

/-- Equality is reflexive, symmetric and transitive on all values, whatever pattern a number has. Values that
are equal are of one kind, count alike in a condition, and are shown by the same text. -/
theorem equals_equivalence :
    (Equivalence fun v w : Value => v.equals w = true) ∧
      ∀ v w : Value, v.equals w → v.kind = w.kind ∧ v.truthy = w.truthy ∧ v.text = w.text := by
  refine ⟨⟨fun v => ?_, fun h => ?_, fun h h' => ?_⟩, fun v w h => ?_⟩
  · exact (Equal.refl v).equals
  · exact (equals_iff.1 h).symm.equals
  · exact ((equals_iff.1 h).trans (equals_iff.1 h')).equals
  · have hequal := equals_iff.1 h
    exact ⟨hequal.kind_eq, hequal.truthy_eq, hequal.text_eq⟩

/-- Two patterns that are not a number, with different signs and fractions, are equal. -/
theorem equals_equivalence_nan :
    let v : Value := .number ⟨0x7ff8000000000000⟩
    let w : Value := .number ⟨0xfff0000000000001⟩
    v.equals w ∧ v.kind = w.kind ∧ v.truthy = w.truthy ∧ v.text = w.text := by
  intro v w
  have h : v.equals w := by decide
  exact ⟨h, equals_equivalence.2 v w h⟩

/-- The zeros are shown differently, so they cannot be equal. -/
example : (number ⟨0x0000000000000000⟩).equals (number ⟨0x8000000000000000⟩) = false := by decide

end Value

end LoxScript
