import LoxScript.Syntax.Stmt

/-!
# Values

What an expression evaluates to. A function value is either one of the functions that a session was
given, known by its number, or an object made by running a declaration. Two function values are the
same if they are the same object, whatever is in them.

## Main definitions

* `Function`, `Value`.
* `Value.truthy`: whether a value counts as true in a condition.
* `Value.equals`: what `==` decides.
* `Value.text`: what `print` writes.
-/

namespace LoxScript

/-- The number of a scope among all scopes of a session. -/
abbrev ScopeId : Type := Nat

/-- The identity of a function made by running a declaration: its number in the order of creation,
and the name it is shown by. -/
structure FunctionObject where
  /-- How many were made before. -/
  serial : Nat
  /-- The name in its declaration. -/
  name : String
deriving DecidableEq, Repr

/-- A function value. -/
inductive Function where
  /-- A function that the session was given. -/
  | native (index : Nat)
  /-- A function that was declared, with the scope that its declaration ran in. -/
  | declared (object : FunctionObject) (parameters : List Token) (body : List Stmt)
    (closure : ScopeId)
deriving Repr

/-- Whether two function values are the same object. -/
def Function.same : Function → Function → Bool
  | .native i, .native j => i = j
  | .declared f _ _ _, .declared g _ _ _ => f = g
  | _, _ => false

/-- How a function is shown. -/
def Function.text : Function → String
  | .native _ => "<native fn>"
  | .declared object _ _ _ => s!"<fn {object.name}>"

/-- A value. -/
inductive Value where
  | nil
  | bool (value : Bool)
  | number (value : Number)
  | string (text : String)
  | function (function : Function)
deriving Repr

/-- The value of a literal. -/
def Literal.value : Literal → Value
  | .nil => .nil
  | .bool value => .bool value
  | .number value => .number value
  | .string text => .string text

namespace Value

/-- All values but nil and false count as true. -/
def truthy : Value → Bool
  | .nil => false
  | .bool value => value
  | _ => true

/-- Whether two values are equal. Values of different kinds never are. -/
def equals : Value → Value → Bool
  | .nil, .nil => true
  | .bool a, .bool b => a = b
  | .number a, .number b => a.same b
  | .string a, .string b => a = b
  | .function f, .function g => f.same g
  | _, _ => false

/-- The text of a value. -/
def text : Value → String
  | .nil => "nil"
  | .bool value => if value then "true" else "false"
  | .number value => value.text "Infinity"
  | .string text => text
  | .function f => f.text

end Value

end LoxScript
