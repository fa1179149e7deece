import LoxScript.Evaluation.Operator
import LoxScript.Evaluation.Scope
import LoxScript.Evaluation.Sink

/-!
# Sessions

A session is everything that a run of a program can change, and that a later run in it can see: the
scopes, the active scope, the functions it was given, the output so far. It also counts what is used up
on the way, function objects and readings of the clock.

An evaluation is a change of the session that ends with a value, or stops for a reason.

## Main definitions

* `Session`, `Clock`, `Native`.
* `Session.start`: the session that scripts begin in.
* `Stop`: why an evaluation has no value.
* `Eval`: evaluations, and the elementary ones: names, scopes, output, natives.
-/

namespace LoxScript

/-- A clock, by its readings in order. Each gives the time or a reason for having none. -/
structure Clock where
  /-- What a reading gives. -/
  read : Nat → Except String Number

namespace Clock

/-- A clock that never fails. -/
def ofTimes (times : Nat → Number) : Clock := ⟨fun reading => .ok (times reading)⟩

instance : Coe (Nat → Number) Clock := ⟨ofTimes⟩

/-- A clock that shows one time. -/
def stopped (time : Number) : Clock := ofTimes fun _ => time

/-- The clock of a system that stands so many nanoseconds after an epoch. There is no time before the
epoch. -/
def sinceEpoch (A : Arithmetic) (nanoseconds : Int) : Clock :=
  let number (n : Int) : Number := A.ofDecimal ⟨n.toNat, 0⟩
  let second : Int := 1000000000
  ⟨fun _ =>
    if nanoseconds < 0 then .error "second time provided was later than self"
    else
      -- the fraction of a second is rounded before it is added
      .ok (A.add (number (nanoseconds / second))
        (A.div (number (nanoseconds % second)) (number second)))⟩

/-- The value of a reading, or the problem if it fails. -/
def value (clock : Clock) (reading : Nat) : Except RuntimeError.Problem Value :=
  match clock.read reading with
  | .ok time => .ok (.number time)
  | .error reason => .error (.native s!"Clock error: {reason}")

end Clock

/-- What a native function does. -/
inductive Native.Action where
  /-- Reads the clock. -/
  | readClock
  /-- Answers by the arguments alone. -/
  | compute (answer : List Value → Except RuntimeError.Problem Value)

/-- A function that a session is given. -/
structure Native where
  /-- How many arguments it takes. -/
  arity : Nat
  /-- What it does with them. -/
  action : Native.Action

/-- What a run can see and change. -/
structure Session where
  /-- All scopes. -/
  scopes : Scopes
  /-- The scope that names are looked up and declared in. -/
  active : ScopeId
  /-- The native functions, by number. -/
  natives : Array Native
  /-- How many function objects were made. -/
  objects : Nat
  /-- What shows the time. -/
  clock : Clock
  /-- How often the clock was read. -/
  readings : Nat
  /-- The output so far. -/
  output : Output
  /-- Where output goes. -/
  sink : Sink

namespace Session

/-- The scope of the names that are visible everywhere. -/
def globals : ScopeId := 0

/-- A session with one empty scope and no native functions. -/
def bare (clock : Clock) (sink : Sink) : Session where
  scopes := Scopes.empty.newRoot
  active := globals
  natives := #[]
  objects := 0
  clock := clock
  readings := 0
  output := ""
  sink := sink

/-- A new function value for a native function. -/
def addNative (s : Session) (native : Native) : Function × Session :=
  (.native s.natives.size, { s with natives := s.natives.push native })

/-- A new function object for a declaration that runs in the scope `closure`. -/
def addFunction (s : Session) (closure : ScopeId) (name : Token) (parameters : List Token)
    (body : List Stmt) : Function × Session :=
  (.declared ⟨s.objects, name.lexeme⟩ parameters body closure, { s with objects := s.objects + 1 })

/-- Gives the session a native function under a name that is visible everywhere. -/
def defineNative (s : Session) (name : String) (native : Native) : Session :=
  let (function, s) := s.addNative native
  { s with scopes := s.scopes.define globals name (.function function) }

/-- A session with the native function that every script may use: `clock`, which takes no argument. -/
def start (clock : Clock) (sink : Sink) : Session :=
  (bare clock sink).defineNative "clock" ⟨0, .readClock⟩

end Session

/-- Why an evaluation stopped. -/
inductive Stop where
  /-- The program went wrong. -/
  | runtime (error : RuntimeError)
  /-- The sink took no more output. -/
  | outputRefused (reason : String)
  /-- The tree has a node that no program has. -/
  | malformed
  /-- The bound on the depth of evaluation was reached. -/
  | exhausted
deriving DecidableEq, Repr

/-- An evaluation: a change of the session that ends with a value or stops. -/
abbrev Eval (α : Type) : Type := EStateM Stop Session α

namespace Eval

variable {α : Type}

/-- Stops with a problem at a token. -/
def raise (problem : RuntimeError.Problem) (t : Token) : Eval α :=
  throw (.runtime ⟨problem, t.line⟩)

/-- The value of an operation, with its problem at the given token. -/
def ofOperation (operator : Token) : Operation → Eval Value
  | some (.ok value) => pure value
  | some (.error problem) => raise problem operator
  | none => throw .malformed

/-- The value of a variable. -/
def lookup (name : Token) : Eval Value := do
  let s ← get
  match s.scopes.get? s.active name.lexeme with
  | some value => pure value
  | none => raise (.undefinedVariable name.lexeme) name

/-- Gives a variable a new value, in the scope that it belongs to. -/
def assign (name : Token) (value : Value) : Eval Unit := fun s =>
  match s.scopes.holder? name.lexeme s.active with
  | some holder => .ok () { s with scopes := s.scopes.define holder name.lexeme value }
  | none => raise (.undefinedVariable name.lexeme) name s

/-- A variable is assigned as a name is assigned among the scopes. -/
theorem assign_apply (name : Token) (value : Value) (s : Session) :
    assign name value s =
      match s.scopes.assign? s.active name.lexeme value with
      | some scopes => .ok () { s with scopes := scopes }
      | none => raise (.undefinedVariable name.lexeme) name s := by
  unfold assign Scopes.assign?
  cases s.scopes.holder? name.lexeme s.active <;> rfl

/-- Binds a name in the active scope. -/
def define (name : String) (value : Value) : Eval Unit :=
  modify fun s => { s with scopes := s.scopes.define s.active name value }

/-- Makes a function object of a declaration in the active scope. -/
def makeFunction (name : Token) (parameters : List Token) (body : List Stmt) : Eval Function :=
  modifyGet fun s => s.addFunction s.active name parameters body

/-- Evaluates in a new scope inside the given one. The scope that was active before is active again
afterwards, however the evaluation ends. -/
def inNewScope (parent : ScopeId) (evaluation : Eval α) : Eval α := fun s =>
  -- there is one way out for values and one for errors, and both restore the active scope
  let before := s.active
  let inner := s.scopes.next
  match evaluation { s with scopes := s.scopes.newChild parent, active := inner } with
  | .ok a s => .ok a { s with active := before }
  | .error stop s => .error stop { s with active := before }

/-- Writes a text, as far as the sink takes it, and stops if that is not the whole of it. -/
def write (text : String) : Eval Unit := fun s =>
  let taken := s.sink.take s.output text
  -- what was taken stays written, also if there is more
  let s := { s with output := s.output ++ taken }
  if taken = text then .ok () s else .error (.outputRefused s.sink.refusal) s

/-- Writes a value on a line: the text first, then the end of the line. -/
def printLine (value : Value) : Eval Unit := do
  write value.text
  write "\n"

/-- Does what a native function does. A reading of the clock counts also if it fails. -/
def act (action : Native.Action) (arguments : List Value) :
    Eval (Except RuntimeError.Problem Value) :=
  match action with
  | .readClock => modifyGet fun s =>
    (s.clock.value s.readings, { s with readings := s.readings + 1 })
  | .compute answer => pure (answer arguments)

/-- Answers for a native function, with its problem at the given token. -/
def answer (native : Native) (paren : Token) (arguments : List Value) : Eval Value := do
  ofOperation paren (some (← act native.action arguments))

/-- Calls a native function of the session. The number of arguments is checked first. -/
def callNative (index : Nat) (paren : Token) (arguments : List Value) : Eval Value := do
  match (← get).natives[index]? with
  | some native =>
    if arguments.length = native.arity then answer native paren arguments
    else raise (.arityMismatch native.arity arguments.length) paren
  | none => throw .malformed

end Eval

end LoxScript
