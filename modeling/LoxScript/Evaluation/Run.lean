import LoxScript.Evaluation.Session
import LoxScript.Syntax.Program

/-!
# Evaluation

The meaning of expressions, statements and calls. Everything is bounded in depth by a number that each
nested evaluation, each next statement, and each further turn of a loop takes one from. An evaluation
that ends under some bound ends in the same way under every greater one.

## Main definitions

* `Eval.evaluate`, `Eval.execute`, `Eval.call`: expressions, statements, calls.
* `Completion`: how a statement ended.
* `Session.interpret`, `Session.runSource`: a program, and a script, run in a session.
-/

namespace LoxScript

/-- How a statement ended. -/
inductive Completion where
  /-- At its end. -/
  | normal
  /-- At a result for the call in progress. -/
  | returned (value : Value)
deriving Repr

/-- The result of a call whose body ended in this way. -/
def Completion.value : Completion → Value
  | .normal => .nil
  | .returned value => value

namespace Eval

/-- Binds parameters to arguments, from left to right. -/
def bindAll : List Token → List Value → Eval Unit
  | parameter :: parameters, argument :: arguments => do
    define parameter.lexeme argument
    bindAll parameters arguments
  | _, _ => pure ()

mutual

/-- Evaluates an expression. -/
def evaluate (A : Arithmetic) : (bound : Nat) → Expr → Eval Value
  | 0, _ => throw .exhausted
  | _ + 1, .literal value => pure value.value
  | bound + 1, .grouping inner => evaluate A bound inner
  | bound + 1, .unary operator operand => do
    let value ← evaluate A bound operand
    ofOperation operator (.unary A operator.kind value)
  | bound + 1, .binary operator left right => do
    let a ← evaluate A bound left
    let b ← evaluate A bound right
    ofOperation operator (.binary A operator.kind a b)
  | bound + 1, .logical operator left right => do
    let value ← evaluate A bound left
    -- the right side is evaluated only if the left one does not decide
    let decided := if operator.kind = .keyword .or then value.truthy else !value.truthy
    if decided then pure value else evaluate A bound right
  | _ + 1, .variable name => lookup name
  | bound + 1, .assign name value => do
    let value ← evaluate A bound value
    assign name value
    pure value
  | bound + 1, .call callee paren arguments => do
    -- the arguments are evaluated even if the callee turns out not to be callable
    let callee ← evaluate A bound callee
    let arguments ← evaluateEach A bound arguments
    call A bound callee paren arguments

/-- Evaluates expressions from left to right. -/
def evaluateEach (A : Arithmetic) : (bound : Nat) → List Expr → Eval (List Value)
  | 0, _ => throw .exhausted
  | _ + 1, [] => pure []
  | bound + 1, e :: es => do
    let value ← evaluate A bound e
    let values ← evaluateEach A bound es
    pure (value :: values)

/-- Calls a value. Whether it can be called is checked first, then the number of arguments. -/
def call (A : Arithmetic) : (bound : Nat) → Value → Token → List Value → Eval Value
  | 0, _, _, _ => throw .exhausted
  | bound + 1, callee, paren, arguments =>
    match callee with
    | .function (.declared _ parameters body closure) =>
      if arguments.length = parameters.length then
        -- parameters and body share one scope, around which is the closure and not the caller's scope
        inNewScope closure do
          bindAll parameters arguments
          return (← executeEach A bound body).value
      else raise (.arityMismatch parameters.length arguments.length) paren
    | .function (.native index) => callNative index paren arguments
    | _ => raise .notCallable paren

/-- Executes a statement. -/
def execute (A : Arithmetic) : (bound : Nat) → Stmt → Eval Completion
  | 0, _ => throw .exhausted
  | bound + 1, .expression value => do
    let _ ← evaluate A bound value
    pure .normal
  | bound + 1, .print value => do
    printLine (← evaluate A bound value)
    pure .normal
  | _ + 1, .var name none => do
    define name.lexeme .nil
    pure .normal
  | bound + 1, .var name (some initial) => do
    -- the name is bound afterwards, so the value may use another variable of the same name
    define name.lexeme (← evaluate A bound initial)
    pure .normal
  | bound + 1, .block body => do
    inNewScope (← get).active (executeEach A bound body)
  | bound + 1, .ifThen condition body => do
    if (← evaluate A bound condition).truthy then execute A bound body else pure .normal
  | bound + 1, .ifElse condition body otherwise => do
    if (← evaluate A bound condition).truthy then execute A bound body
    else execute A bound otherwise
  | bound + 1, .loop condition body => do
    if (← evaluate A bound condition).truthy then
      match ← execute A bound body with
      | .normal => execute A bound (.loop condition body)
      | .returned value => pure (.returned value)
    else pure .normal
  | _ + 1, .function name parameters body => do
    -- the closure is the scope in which the name is bound, so that the body finds the function itself
    define name.lexeme (.function (← makeFunction name parameters body))
    pure .normal
  | _ + 1, .result _ none => pure (.returned .nil)
  | bound + 1, .result _ (some value) => do
    return .returned (← evaluate A bound value)

/-- Executes statements up to the first that gives a result. -/
def executeEach (A : Arithmetic) : (bound : Nat) → List Stmt → Eval Completion
  | 0, _ => throw .exhausted
  | _ + 1, [] => pure .normal
  | bound + 1, s :: ss => do
    match ← execute A bound s with
    | .normal => executeEach A bound ss
    | .returned value => pure (.returned value)

end

end Eval

/-- Why a script or a program did not run to its end. -/
inductive Failure where
  /-- The script is no program. -/
  | rejected (reason : Rejection)
  /-- The program stopped. -/
  | stopped (reason : Stop)

namespace Failure

/-- The text of a failure. -/
def text : Failure → String
  | .rejected reason => Diagnostic.report reason.diagnostics
  | .stopped (.runtime error) => error.text
  | .stopped (.outputRefused reason) => s!"Failed to write program output: {reason}"
  | .stopped .malformed => "Malformed program."
  | .stopped .exhausted => "Evaluation bound reached."

end Failure

namespace Session

/-- Runs an evaluation in a session. -/
def run {α : Type} (s : Session) (evaluation : Eval α) : Except Stop α × Session :=
  match evaluation s with
  | .ok a s => (.ok a, s)
  | .error stop s => (.error stop, s)

/-- Runs statements in the active scope. A result ends them. -/
def interpret (A : Arithmetic) (bound : Nat) (program : Program) (s : Session) :
    Except Failure Unit × Session :=
  match s.run (Eval.executeEach A bound program) with
  | (.ok _, s) => (.ok (), s)
  | (.error stop, s) => (.error (.stopped stop), s)

/-- Runs a script. A script that is no program leaves the session as it is. -/
def runSource (A : Arithmetic) (bound : Nat) (source : String) (s : Session) :
    Except Failure Unit × Session :=
  match Program.ofSource A source with
  | .ok program => s.interpret A bound program
  | .error reason => (.error (.rejected reason), s)

end Session

end LoxScript
