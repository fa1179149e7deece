import LoxScript.Evaluation.Value

/-!
# Scopes

All scopes of a session are kept side by side, in the order of creation. A scope binds names to values,
and is enclosed by a scope made before it, or by none. A name that is looked up or assigned from a scope
belongs to the innermost scope around it that binds the name.

## Main definitions

* `Scope`, with its bindings.
* `Scopes.newRoot`, `Scopes.newChild`: further scopes.
* `Scopes.holder?`: the scope that a name belongs to, seen from a scope.
* `Scopes.get?`, `Scopes.assign?`, `Scopes.define`: reading and writing.
-/

namespace LoxScript

/-- One scope. -/
structure Scope where
  /-- The values of the names that the scope binds, each name once. -/
  bindings : List (String × Value)
  /-- The scope around it. -/
  parent : Option ScopeId
deriving Repr

namespace Scope

/-- The value that a scope itself binds a name to. -/
def get? (s : Scope) (name : String) : Option Value := s.bindings.lookup name

/-- Whether a scope itself binds a name. -/
def binds (s : Scope) (name : String) : Bool := (s.get? name).isSome

/-- A list of bindings with one more, or with another value for a name bound in it. -/
def bind (name : String) (value : Value) : List (String × Value) → List (String × Value)
  | [] => [(name, value)]
  | (other, old) :: bindings =>
    if other = name then (name, value) :: bindings
    else (other, old) :: bind name value bindings

/-- Binds a name in the scope itself. -/
def set (s : Scope) (name : String) (value : Value) : Scope :=
  { s with bindings := bind name value s.bindings }

/-- A scope without bindings. -/
def within (parent : Option ScopeId) : Scope := ⟨[], parent⟩

/-- The first binding decides about its own name and no other. -/
theorem lookup_cons (name : String) (value : Value) (bindings : List (String × Value))
    (other : String) :
    ((name, value) :: bindings).lookup other =
      if other = name then some value else bindings.lookup other := by
  by_cases h : other = name
  · simp [h]
  · rw [List.lookup_cons, beq_eq_false_iff_ne.2 h, if_neg h]

/-- After binding a name, the list has the new value for it and the old ones for all others. -/
theorem lookup_bind (name : String) (value : Value) (bindings : List (String × Value))
    (other : String) :
    (bind name value bindings).lookup other =
      if other = name then some value else bindings.lookup other := by
  induction bindings with
  | nil => rw [bind, lookup_cons]
  | cons binding bindings ih =>
    obtain ⟨key, old⟩ := binding
    rw [bind]
    split
    · rename_i hkey
      subst hkey
      simp only [lookup_cons]
      split <;> rfl
    · rename_i hkey
      simp only [lookup_cons, ih]
      split
      · rename_i hother
        subst hother
        simp [hkey]
      · rfl

/-- After binding a name, the scope has the new value for it and the old ones for all others. -/
@[simp]
theorem get?_set (s : Scope) (name : String) (value : Value) (other : String) :
    (s.set name value).get? other = if other = name then some value else s.get? other :=
  lookup_bind name value s.bindings other

/-- Binding a name leaves a scope where it is. -/
@[simp]
theorem parent_set (s : Scope) (name : String) (value : Value) :
    (s.set name value).parent = s.parent := rfl

end Scope

/-- All scopes, by number. -/
structure Scopes where
  /-- The scopes in the order of creation. -/
  all : Array Scope
deriving Repr

namespace Scopes

/-- No scopes. -/
def empty : Scopes := ⟨#[]⟩

/-- The number of the scope that is made next. -/
def next (s : Scopes) : ScopeId := s.all.size

/-- One more scope, with the number `s.next`. -/
def add (s : Scopes) (scope : Scope) : Scopes := ⟨s.all.push scope⟩

/-- One more scope, enclosed by none. -/
def newRoot (s : Scopes) : Scopes := s.add (.within none)

/-- One more scope, enclosed by the given one. -/
def newChild (s : Scopes) (parent : ScopeId) : Scopes := s.add (.within (some parent))

/-- The innermost scope that binds a name, of the first `bound` ones from the given scope outwards. -/
def holderWithin (s : Scopes) (name : String) : (bound : Nat) → ScopeId → Option ScopeId
  | 0, _ => none
  | bound + 1, id => do
    let scope ← s.all[id]?
    -- an inner scope hides the names of those around it
    if scope.binds name then some id else s.holderWithin name bound (← scope.parent)

/-- The innermost scope that binds a name, from the given scope outwards. A scope is enclosed by an
older one only, so its number bounds the number of scopes around it. -/
def holder? (s : Scopes) (name : String) (id : ScopeId) : Option ScopeId :=
  s.holderWithin name (id + 1) id

/-- The value of a name, seen from a scope. -/
def get? (s : Scopes) (id : ScopeId) (name : String) : Option Value := do
  let holder ← s.holder? name id
  let scope ← s.all[holder]?
  scope.get? name

/-- Binds a name in the given scope. -/
def define (s : Scopes) (id : ScopeId) (name : String) (value : Value) : Scopes :=
  ⟨s.all.modify id (·.set name value)⟩

/-- Gives a new value to a name that is bound in the given scope or around it. -/
def assign? (s : Scopes) (id : ScopeId) (name : String) (value : Value) : Option Scopes :=
  (s.holder? name id).map fun holder => s.define holder name value

end Scopes

end LoxScript
