import LoxScript.Diagnostic
import LoxScript.Token.Basic

/-!
# Syntax errors

A syntax error blames a token. Most say what should have stood there; reading cannot go on after one of
these and resumes further on. Four only find fault with what was read, which goes on behind them.

## Main definitions

* `Expectation`: what may be missing, with its message.
* `SyntaxError`, with its diagnostic.
-/

namespace LoxScript

/-- What should have stood where something else does. -/
inductive Expectation where
  | expression
  | variableName
  | functionName
  | parameterName
  | semicolonAfterVariable
  | semicolonAfterCondition
  | semicolonAfterResult
  | semicolonAfterPrinted
  | semicolonAfterExpression
  | parenAfterFunctionName
  | parenAfterFor
  | parenAfterWhile
  | parenAfterIf
  | parenAfterParameters
  | parenAfterArguments
  | parenAfterGrouping
  | parenAfterForClauses
  | parenAfterWhileCondition
  | parenAfterIfCondition
  | braceBeforeBody
  | braceAfterBlock
deriving DecidableEq, Repr

/-- The message for something missing. -/
def Expectation.message : Expectation → String
  | .expression => "Expect expression."
  | .variableName => "Expect variable name."
  | .functionName => "Expect function name."
  | .parameterName => "Expect parameter name."
  | .semicolonAfterVariable => "Expect ';' after variable declaration."
  | .semicolonAfterCondition => "Expect ';' after loop condition."
  | .semicolonAfterResult => "Expect ';' after return value."
  | .semicolonAfterPrinted => "Expect ';' after value."
  | .semicolonAfterExpression => "Expect ';' after expression."
  | .parenAfterFunctionName => "Expect '(' after function name."
  | .parenAfterFor => "Expect '(' after 'for'."
  | .parenAfterWhile => "Expect '(' after 'while'."
  | .parenAfterIf => "Expect '(' after 'if'."
  | .parenAfterParameters => "Expect ')' after parameters."
  | .parenAfterArguments => "Expect ')' after arguments."
  | .parenAfterGrouping => "Expect ')' after expression."
  | .parenAfterForClauses => "Expect ')' after for clauses."
  | .parenAfterWhileCondition => "Expect ')' after condition."
  | .parenAfterIfCondition => "Expect ')' after if condition."
  | .braceBeforeBody => "Expect '\x7b' before function body."
  | .braceAfterBlock => "Expect '\x7d' after block."

/-- What is wrong at a token. -/
inductive SyntaxError.Problem where
  /-- Something else should stand there. -/
  | expected (what : Expectation)
  /-- The left side of the assignment is not a variable. -/
  | invalidAssignmentTarget
  /-- The argument is one too many. -/
  | tooManyArguments
  /-- The parameter is one too many. -/
  | tooManyParameters
  /-- The keyword is not in a function. -/
  | returnOutsideFunction
deriving DecidableEq, Repr

/-- The greatest number of arguments of a call, and of parameters of a function. -/
def maxArity : Nat := 255

/-- The message for a problem. -/
def SyntaxError.Problem.message : SyntaxError.Problem → String
  | .expected what => what.message
  | .invalidAssignmentTarget => "Invalid assignment target."
  | .tooManyArguments => s!"Can't have more than {maxArity} arguments."
  | .tooManyParameters => s!"Can't have more than {maxArity} parameters."
  | .returnOutsideFunction => "Can't return from top-level code."

/-- A problem and the token that it is found at. -/
structure SyntaxError where
  /-- What is wrong. -/
  problem : SyntaxError.Problem
  /-- The token blamed. -/
  token : Token
deriving DecidableEq, Repr

/-- The place of a token: its text, or the end of the script. -/
def Token.location (t : Token) : Location :=
  if t.kind = .endOfInput then .atEnd else .atLexeme t.lexeme

/-- A syntax error names its token. -/
def SyntaxError.diagnostic (e : SyntaxError) : Diagnostic :=
  ⟨e.token.line, e.token.location, e.problem.message⟩

end LoxScript
