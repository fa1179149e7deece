import LoxScript.Proofs.Syntax.Grammar
import LoxScript.Syntax.Program

/-!
# Reading without a bound

The parsers of this library read lists of tokens that get shorter, and a bound keeps their recursion finite.
Here the language is read in the way a program would do it that knows no bound. There is one list of tokens
and a place in it, which moves on when a token is passed. Loops and recursion go on as long as they do. That
they come to an end is not built in, and neither is that the place is always one in the list: where there is no
token at the place, or reading never ends, there is no answer.

The places that are looked at are written down. Nothing moves on without looking, so they tell how the place
has moved in the course of reading.

## Main definitions

* `Walk`, with `Walk.State`: what is read, with the place, the errors so far, and the places looked at so far.
* `Walk.Tokens.peek`, `Walk.Tokens.advance`: looking at the token at the place, and passing it.
* `Walk.Tokens.assignment`, `Walk.Tokens.declaration`: expressions and declarations.
* `Walk.Tokens.round`, `Walk.parse`: one turn of reading a program, and all of it.
-/

namespace LoxScript

/-- What changes while a list of tokens is read. -/
structure Walk.State where
  /-- The place of the next token. -/
  current : Nat
  /-- The errors so far. -/
  errors : List SyntaxError
  /-- The places looked at so far. -/
  visited : List Nat

/-- Reading that has a tree or an error that stopped it, or that has no answer. -/
abbrev Walk (α : Type) : Type := ExceptT SyntaxError (StateT Walk.State Option) α

/-- The tokens with one for the end of the script behind them, unless the last one is for the end already. -/
def Token.closed (ts : List Token) : List Token :=
  if ts.getLast?.any (·.kind = .endOfInput) then ts
  else ts ++ [Token.ending (ts.getLast?.elim 1 (·.line))]

namespace Walk

open Grammar (Level)

/-- The answer of reading from a state on, if there is one. -/
def answer {α : Type} (p : Walk α) (s : State) : Option (Except SyntaxError α × State) := p.run.run s

/-- Writes down an error and goes on. -/
def note (e : SyntaxError) : Walk Unit := modify fun s => { s with errors := s.errors ++ [e] }

/-- The tokens to read, of which those before the place have been passed. -/
abbrev Tokens : Type := List Token

namespace Tokens

/-! ## Single tokens -/

/-- The token at the place. There must be one. -/
def peek (tokens : Tokens) : Walk Token := fun s =>
  match tokens[s.current]? with
  | some t => some (.ok t, { s with visited := s.visited ++ [s.current] })
  -- a place outside of the list is no error that reading could go on after
  | none => none

/-- Passes the token at the place, unless it is one for the end of the script. -/
def advance (tokens : Tokens) : Walk Token := do
  let t ← peek tokens
  if t.kind ≠ .endOfInput then modify fun s => { s with current := s.current + 1 }
  pure t

/-- Passes the token at the place if its kind is accepted. -/
def consume (tokens : Tokens) (accepts : Token.Kind → Bool) : Walk (Option Token) := do
  let t ← peek tokens
  if accepts t.kind then some <$> advance tokens else pure none

/-- Stops, because the token at the place is not what should stand there. -/
def fail {α : Type} (tokens : Tokens) (what : Expectation) : Walk α := do
  throw ⟨.expected what, ← peek tokens⟩

/-- Passes a token of the given kind, which must be at the place. -/
def expect (tokens : Tokens) (kind : Token.Kind) (what : Expectation) : Walk Token := do
  match ← consume tokens (· = kind) with
  | some t => pure t
  | none => fail tokens what

/-- Finds fault with an item of a list if there are too many before it. -/
def check (tokens : Tokens) (problem : SyntaxError.Problem) (count : Nat) : Walk Unit := do
  if maxArity ≤ count then note ⟨problem, ← peek tokens⟩

/-! ## Expressions -/

mutual

/-- An assignment, or an expression without one. -/
def assignment (tokens : Tokens) : Walk Expr := do
  let target ← tokens |>.level .disjunction
  match ← consume tokens (· = .equal) with
  | none => pure target
  | some equals => do
    let value ← tokens |>.assignment
    match target with
    | .variable name => pure (.assign name value)
    -- what is assigned has been read by then, and reading goes on behind it
    | _ => do
      note ⟨.invalidAssignmentTarget, equals⟩
      pure target
partial_fixpoint

/-- Operands with operators of one level between them. -/
def level (tokens : Tokens) (L : Level) : Walk Expr := do
  if L.operators = [] then tokens |>.unary
  else do
    let left ← tokens |>.level L.tighter
    tokens |>.operations L left
partial_fixpoint

/-- The operators and operands that follow a left side. -/
def operations (tokens : Tokens) (L : Level) (left : Expr) : Walk Expr := do
  match ← consume tokens (· ∈ L.operators) with
  | none => pure left
  | some operator => do
    let right ← tokens |>.level L.tighter
    tokens |>.operations L (L.join operator left right)
partial_fixpoint

/-- Operators in front of a call. -/
def unary (tokens : Tokens) : Walk Expr := do
  match ← consume tokens Parser.isUnaryOperator with
  | some operator => do
    let operand ← tokens |>.unary
    pure (.unary operator operand)
  | none => do
    let callee ← tokens |>.primary
    tokens |>.calls callee
partial_fixpoint

/-- The calls behind something that is called. -/
def calls (tokens : Tokens) (callee : Expr) : Walk Expr := do
  -- each call is called again as long as there are parentheses
  match ← consume tokens (· = .leftParen) with
  | none => pure callee
  | some _ => do
    let arguments ← tokens |>.argumentList
    let paren ← expect tokens .rightParen .parenAfterArguments
    tokens |>.calls (.call callee paren arguments)
partial_fixpoint

/-- The arguments of a call, of which there may be none. -/
def argumentList (tokens : Tokens) : Walk (List Expr) := do
  let t ← peek tokens
  if t.kind = .rightParen then pure [] else tokens |>.arguments 0
partial_fixpoint

/-- One or more arguments with commas between them, of which `count` came before. -/
def arguments (tokens : Tokens) (count : Nat) : Walk (List Expr) := do
  check tokens .tooManyArguments count
  let argument ← tokens |>.assignment
  match ← consume tokens (· = .comma) with
  | none => pure [argument]
  | some _ => do
    let others ← tokens |>.arguments (count + 1)
    pure (argument :: others)
partial_fixpoint

/-- What is complete in itself: a literal, a variable, or an expression in parentheses. -/
def primary (tokens : Tokens) : Walk Expr := do
  let t ← peek tokens
  match t.kind with
  | .keyword .false => do let _ ← advance tokens; pure (.literal (.bool false))
  | .keyword .true => do let _ ← advance tokens; pure (.literal (.bool true))
  | .keyword .nil => do let _ ← advance tokens; pure (.literal .nil)
  | .number value => do let _ ← advance tokens; pure (.literal (.number value))
  | .string text => do let _ ← advance tokens; pure (.literal (.string text))
  | .identifier => do let _ ← advance tokens; pure (.variable t)
  | .leftParen => do
    let _ ← advance tokens
    let inner ← tokens |>.assignment
    let _ ← expect tokens .rightParen .parenAfterGrouping
    pure (.grouping inner)
  | _ => fail tokens .expression
partial_fixpoint

end

/-! ## Statements -/

/-- The semicolon at the end of a statement. -/
def semicolon (tokens : Tokens) (what : Expectation) : Walk Unit := do
  let _ ← expect tokens .semicolon what
  pure ()

/-- An expression that is missing if a token of the given kind is at its place. -/
def clause (tokens : Tokens) (kind : Token.Kind) : Walk (Option Expr) := do
  let t ← peek tokens
  if t.kind = kind then pure none else some <$> (tokens |>.assignment)

/-- One or more parameters with commas between them, of which `count` came before. -/
def parameters (tokens : Tokens) (count : Nat) : Walk (List Token) := do
  check tokens .tooManyParameters count
  let parameter ← expect tokens .identifier .parameterName
  match ← consume tokens (· = .comma) with
  | none => pure [parameter]
  | some _ => do
    let others ← tokens |>.parameters (count + 1)
    pure (parameter :: others)
partial_fixpoint

/-- The parameters of a function, of which there may be none. -/
def parameterList (tokens : Tokens) : Walk (List Token) := do
  let t ← peek tokens
  if t.kind = .rightParen then pure [] else tokens |>.parameters 0

/-- The value of a variable, with the equals sign, which may be missing. -/
def initialValue (tokens : Tokens) : Walk (Option Expr) := do
  match ← consume tokens (· = .equal) with
  | none => pure none
  | some _ => some <$> (tokens |>.assignment)

/-- A variable, from behind its keyword. -/
def variableDeclaration (tokens : Tokens) : Walk Stmt := do
  let name ← expect tokens .identifier .variableName
  let initial ← tokens |>.initialValue
  tokens |>.semicolon .semicolonAfterVariable
  pure (.var name initial)

/-- An expression as a statement. -/
def expressionStatement (tokens : Tokens) : Walk Stmt := do
  let value ← tokens |>.assignment
  tokens |>.semicolon .semicolonAfterExpression
  pure (.expression value)

/-- A value to print, from behind the keyword. -/
def printed (tokens : Tokens) : Walk Stmt := do
  let value ← tokens |>.assignment
  tokens |>.semicolon .semicolonAfterPrinted
  pure (.print value)

/-- A result, from behind its keyword. -/
def result (tokens : Tokens) (inFunction : Bool) (keyword : Token) : Walk Stmt := do
  if !inFunction then note ⟨.returnOutsideFunction, keyword⟩
  let value ← tokens |>.clause .semicolon
  tokens |>.semicolon .semicolonAfterResult
  pure (.result keyword value)

/-- The first clause of a `for` loop, with its semicolon. -/
def initializer (tokens : Tokens) : Walk (Option Stmt) := do
  match ← consume tokens (· = .semicolon) with
  | some _ => pure none
  | none =>
    match ← consume tokens (· = .keyword .var) with
    | some _ => some <$> (tokens |>.variableDeclaration)
    | none => some <$> (tokens |>.expressionStatement)

mutual

/-- A statement or a declaration, in the body of a function or not. -/
def declaration (tokens : Tokens) (inFunction : Bool) : Walk Stmt := do
  let t ← peek tokens
  match t.kind with
  | .keyword .var => do let _ ← advance tokens; tokens |>.variableDeclaration
  | .keyword .fun => do let _ ← advance tokens; tokens |>.functionDeclaration
  | _ => tokens |>.statement inFunction
partial_fixpoint

/-- A function, from behind its keyword. -/
def functionDeclaration (tokens : Tokens) : Walk Stmt := do
  let name ← expect tokens .identifier .functionName
  let _ ← expect tokens .leftParen .parenAfterFunctionName
  let parameters ← tokens |>.parameterList
  let _ ← expect tokens .rightParen .parenAfterParameters
  let _ ← expect tokens .leftBrace .braceBeforeBody
  let body ← tokens |>.block true
  pure (.function name parameters body)
partial_fixpoint

/-- The statements of a block up to its closing brace. -/
def block (tokens : Tokens) (inFunction : Bool) : Walk (List Stmt) := do
  let t ← peek tokens
  -- at the end of the script the brace is missing
  if t.kind = .rightBrace || t.kind = .endOfInput then do
    let _ ← expect tokens .rightBrace .braceAfterBlock
    pure []
  else do
    let first ← tokens |>.declaration inFunction
    let others ← tokens |>.block inFunction
    pure (first :: others)
partial_fixpoint

/-- A statement, in the body of a function or not. -/
def statement (tokens : Tokens) (inFunction : Bool) : Walk Stmt := do
  let t ← peek tokens
  match t.kind with
  | .keyword .print => do let _ ← advance tokens; tokens |>.printed
  | .leftBrace => do
    let _ ← advance tokens
    let body ← tokens |>.block inFunction
    pure (.block body)
  | .keyword .if => do let _ ← advance tokens; tokens |>.conditional inFunction
  | .keyword .while => do let _ ← advance tokens; tokens |>.whileLoop inFunction
  | .keyword .for => do let _ ← advance tokens; tokens |>.forLoop inFunction
  | .keyword .return => do
    let keyword ← advance tokens
    tokens |>.result inFunction keyword
  | _ => tokens |>.expressionStatement
partial_fixpoint

/-- A condition and its branches, from behind the keyword. -/
def conditional (tokens : Tokens) (inFunction : Bool) : Walk Stmt := do
  let _ ← expect tokens .leftParen .parenAfterIf
  let condition ← tokens |>.assignment
  let _ ← expect tokens .rightParen .parenAfterIfCondition
  let body ← tokens |>.statement inFunction
  match ← consume tokens (· = .keyword .else) with
  | some _ => do
    let otherwise ← tokens |>.statement inFunction
    pure (.ifElse condition body otherwise)
  | none => pure (.ifThen condition body)
partial_fixpoint

/-- A loop on a condition, from behind the keyword. -/
def whileLoop (tokens : Tokens) (inFunction : Bool) : Walk Stmt := do
  let _ ← expect tokens .leftParen .parenAfterWhile
  let condition ← tokens |>.assignment
  let _ ← expect tokens .rightParen .parenAfterWhileCondition
  let body ← tokens |>.statement inFunction
  pure (.loop condition body)
partial_fixpoint

/-- A loop with three clauses, from behind the keyword. -/
def forLoop (tokens : Tokens) (inFunction : Bool) : Walk Stmt := do
  let _ ← expect tokens .leftParen .parenAfterFor
  let initial ← tokens |>.initializer
  let condition ← tokens |>.clause .semicolon
  tokens |>.semicolon .semicolonAfterCondition
  let increment ← tokens |>.clause .rightParen
  let _ ← expect tokens .rightParen .parenAfterForClauses
  let body ← tokens |>.statement inFunction
  pure (Parser.forTree initial condition increment body)
partial_fixpoint

end

/-! ## Programs -/

/-- Passes tokens up to a place where a statement may begin. -/
def seek (tokens : Tokens) : Walk Unit := do
  let t ← peek tokens
  if t.kind = .endOfInput || Parser.startsStatement t.kind then pure ()
  else do
    let passed ← advance tokens
    if passed.kind = .semicolon then pure () else tokens |>.seek
partial_fixpoint

/-- Passes the token that something was wrong with, and more tokens up to a place where a statement may
begin. -/
def synchronize (tokens : Tokens) : Walk Unit := do
  let passed ← advance tokens
  if passed.kind = .semicolon then pure () else tokens |>.seek

/-- One turn: a declaration, or an error and what is passed after it. -/
def round (tokens : Tokens) : Walk (Option Stmt) := fun s =>
  match (declaration tokens false).answer s with
  | none => none
  | some (.ok statement, t) => some (.ok (some statement), t)
  -- what the declaration has passed by then stays passed
  | some (.error e, t) => ((do note e; synchronize tokens; pure none) : Walk (Option Stmt)).answer t

/-- Turn after turn, up to the end of the script. -/
def rounds (tokens : Tokens) : Walk Program := do
  let t ← peek tokens
  if t.kind = .endOfInput then pure []
  else do
    -- nothing but the turn itself sees to it that the next one begins further behind
    let found ← tokens |>.round
    let others ← tokens |>.rounds
    pure (found.toList ++ others)
partial_fixpoint

end Tokens

/-- Reads the program that a list of tokens stands for, from the first token on. -/
def parse (ts : List Token) : Option (Except (List SyntaxError) Program × State) :=
  match (Tokens.rounds (Token.closed ts)).answer ⟨0, [], []⟩ with
  | some (.ok program, s) => some (if s.errors.isEmpty then .ok program else .error s.errors, s)
  | some (.error _, _) | none => none

end Walk

end LoxScript
