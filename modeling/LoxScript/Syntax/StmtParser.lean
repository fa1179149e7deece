import LoxScript.Syntax.ExprParser
import LoxScript.Syntax.Stmt

/-!
# Reading statements

Declarations may stand at the top of a script, in a block, and in the body of a function. A branch of an
`if` and the body of a loop are statements. The definitions follow the pattern of expressions: each is
given a reader for the statements nested in it.

## Main definitions

* `Parser.forLoop`: a `for` loop, as the tree it stands for.
* `Parser.statement`, `Parser.declaration`: a statement of at most the given number of tokens, without
  and with declarations.
-/

namespace LoxScript.Parser

/-- The readers for what is nested in a statement. -/
structure Nested where
  /-- An expression. -/
  expression : Parser Expr
  /-- A statement that is not a declaration. -/
  statement : Parser Stmt
  /-- A statement or a declaration. -/
  declaration : Parser Stmt

/-- The semicolon at the end of a statement. -/
def semicolon (what : Expectation) : Parser Unit := do
  let _ ← expect .semicolon what
  pure ()

/-- Passes the next token if it is of the given kind, and tells whether it was. -/
def passes (kind : Token.Kind) : Parser Bool := do
  return (← take? (· = kind)).isSome

/-- The statements of a block up to its closing brace. -/
def block (declaration : Parser Stmt) : (bound : Nat) → Parser (List Stmt)
  | 0 => fail .braceAfterBlock
  | bound + 1 => do
    let t ← peek
    if t.kind = .rightBrace || t.kind = .endOfInput then
      -- at the end of the script this is where the missing brace is noticed
      let _ ← expect .rightBrace .braceAfterBlock
      pure []
    else
      let first ← declaration
      let others ← block declaration bound
      pure (first :: others)

/-- One or more parameters with commas between them, of which `count` came before. -/
def parameters : (bound count : Nat) → Parser (List Token)
  | 0, _ => fail .parameterName
  | bound + 1, count => do
    if maxArity ≤ count then report .tooManyParameters (← peek)
    let parameter ← expect .identifier .parameterName
    match ← take? (· = .comma) with
    | none => pure [parameter]
    | some _ =>
      let others ← parameters bound (count + 1)
      pure (parameter :: others)

/-- The parameters of a function, of which there may be none. -/
def parameterList (bound : Nat) : Parser (List Token) := do
  if (← peek).kind = .rightParen then pure [] else parameters bound 0

/-- A function, from behind its keyword. -/
def functionDeclaration (nested : Nested) (bound : Nat) : Parser Stmt := do
  let name ← expect .identifier .functionName
  let _ ← expect .leftParen .parenAfterFunctionName
  let parameters ← parameterList bound
  let _ ← expect .rightParen .parenAfterParameters
  let _ ← expect .leftBrace .braceBeforeBody
  let body ← insideFunction (block nested.declaration bound)
  pure (.function name parameters body)

/-- A variable, from behind its keyword. -/
def variableDeclaration (nested : Nested) : Parser Stmt := do
  let name ← expect .identifier .variableName
  let initial ← if ← passes .equal then some <$> nested.expression else pure none
  semicolon .semicolonAfterVariable
  pure (.var name initial)

/-- An expression as a statement. -/
def expressionStatement (nested : Nested) : Parser Stmt := do
  let value ← nested.expression
  semicolon .semicolonAfterExpression
  pure (.expression value)

/-- A value to print, from behind the keyword. -/
def printed (nested : Nested) : Parser Stmt := do
  let value ← nested.expression
  semicolon .semicolonAfterPrinted
  pure (.print value)

/-- A result, from behind its keyword. -/
def result (nested : Nested) (keyword : Token) : Parser Stmt := do
  if !(← inFunction) then report .returnOutsideFunction keyword
  let value ← if (← peek).kind = .semicolon then pure none else some <$> nested.expression
  semicolon .semicolonAfterResult
  pure (.result keyword value)

/-- A condition and its branches, from behind the keyword. An `else` belongs to the nearest `if`. -/
def conditional (nested : Nested) : Parser Stmt := do
  let _ ← expect .leftParen .parenAfterIf
  let condition ← nested.expression
  let _ ← expect .rightParen .parenAfterIfCondition
  let body ← nested.statement
  -- an inner `if` without `else` has been asked before, so this `else` is not its own
  if ← passes (.keyword .else) then
    let otherwise ← nested.statement
    pure (.ifElse condition body otherwise)
  else pure (.ifThen condition body)

/-- A loop on a condition, from behind the keyword. -/
def whileLoop (nested : Nested) : Parser Stmt := do
  let _ ← expect .leftParen .parenAfterWhile
  let condition ← nested.expression
  let _ ← expect .rightParen .parenAfterWhileCondition
  let body ← nested.statement
  pure (.loop condition body)

/-- The first clause of a `for` loop, with its semicolon. -/
def initializer (nested : Nested) : Parser (Option Stmt) := do
  if ← passes .semicolon then pure none
  else if ← passes (.keyword .var) then some <$> variableDeclaration nested
  else some <$> expressionStatement nested

/-- The tree that a `for` loop stands for: the increment runs after the body in a block around both,
and the initializer before the loop in a block around both. Without a condition the loop goes on. -/
def forTree (initial : Option Stmt) (condition increment : Option Expr) (body : Stmt) : Stmt :=
  let turn :=
    match increment with
    | none => body
    | some increment => .block [body, .expression increment]
  let loop := .loop (condition.getD (.literal (.bool true))) turn
  match initial with
  | none => loop
  | some initial => .block [initial, loop]

/-- A loop with three clauses, from behind the keyword. -/
def forLoop (nested : Nested) : Parser Stmt := do
  let _ ← expect .leftParen .parenAfterFor
  let initial ← initializer nested
  let condition ← if (← peek).kind = .semicolon then pure none else some <$> nested.expression
  semicolon .semicolonAfterCondition
  let increment ← if (← peek).kind = .rightParen then pure none else some <$> nested.expression
  let _ ← expect .rightParen .parenAfterForClauses
  let body ← nested.statement
  pure (forTree initial condition increment body)

/-- A statement, told by its first token. -/
def statementWith (nested : Nested) (bound : Nat) : Parser Stmt := do
  let t ← peek
  match t.kind with
  | .keyword .print => skip; printed nested
  | .leftBrace => skip; .block <$> block nested.declaration bound
  | .keyword .if => skip; conditional nested
  | .keyword .while => skip; whileLoop nested
  | .keyword .for => skip; forLoop nested
  | .keyword .return => skip; result nested t
  | _ => expressionStatement nested

/-- A statement or declaration, told by its first token. -/
def declarationWith (nested : Nested) (bound : Nat) : Parser Stmt := do
  let t ← peek
  match t.kind with
  | .keyword .var => skip; variableDeclaration nested
  | .keyword .fun => skip; functionDeclaration nested bound
  | _ => statementWith nested bound

/-- A statement of at most `bound` tokens, with or without declarations. -/
def item : (bound : Nat) → (declarations : Bool) → Parser Stmt
  | 0, _ => fail .expression
  | bound + 1, declarations =>
    -- a nested statement comes after a keyword or a brace, an expression may begin at once
    let nested : Nested := ⟨expression (bound + 1), item bound false, item bound true⟩
    if declarations then declarationWith nested (bound + 1) else statementWith nested (bound + 1)

/-- A statement of at most `bound` tokens. -/
def statement (bound : Nat) : Parser Stmt := item bound false

/-- A statement or declaration of at most `bound` tokens. -/
def declaration (bound : Nat) : Parser Stmt := item bound true

end LoxScript.Parser
