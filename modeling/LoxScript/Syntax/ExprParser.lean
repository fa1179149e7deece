import LoxScript.Syntax.Expr
import LoxScript.Syntax.Parser

/-!
# Reading expressions

The levels from the loosest to the tightest: assignment, `or`, `and`, equality, comparison, sums,
products, operators in front, calls, and what is complete in itself. Each level is defined from the next
tighter one and from a reader for the expressions nested in it, and `Parser.expression` ties the knot.

Every nested expression, and every turn of a loop, comes after at least one token, so a bound on the
number of tokens ahead bounds the depth and the turns as well. Where a bound is used up no token can
be ahead, and what is missing there is an expression.

## Main definitions

* `Parser.chain`: operands with operators between them, grouped from the left.
* `Parser.expression`: an expression of at most the given number of tokens.
-/

namespace LoxScript.Parser

/-- The operators of equality. -/
def isEqualityOperator (kind : Token.Kind) : Bool := kind = .equalEqual || kind = .bangEqual

/-- The operators of order. -/
def isComparisonOperator (kind : Token.Kind) : Bool :=
  kind = .greater || kind = .greaterEqual || kind = .less || kind = .lessEqual

/-- The operators of sums. -/
def isTermOperator (kind : Token.Kind) : Bool := kind = .plus || kind = .minus

/-- The operators of products. -/
def isFactorOperator (kind : Token.Kind) : Bool := kind = .star || kind = .slash

/-- The operators in front of an operand. -/
def isUnaryOperator (kind : Token.Kind) : Bool := kind = .bang || kind = .minus

/-- What is complete in itself: a literal, a variable, or an expression in parentheses. -/
def primary (nested : Parser Expr) : Parser Expr := do
  let t ← peek
  match t.kind with
  | .keyword .false => skip; pure (.literal (.bool false))
  | .keyword .true => skip; pure (.literal (.bool true))
  | .keyword .nil => skip; pure (.literal .nil)
  | .number value => skip; pure (.literal (.number value))
  | .string text => skip; pure (.literal (.string text))
  | .identifier => skip; pure (.variable t)
  | .leftParen =>
    skip
    let inner ← nested
    let _ ← expect .rightParen .parenAfterGrouping
    pure (.grouping inner)
  | _ => fail .expression

/-- One or more arguments with commas between them, of which `count` came before. -/
def arguments (nested : Parser Expr) : (bound count : Nat) → Parser (List Expr)
  | 0, _ => fail .expression
  | bound + 1, count => do
    -- an argument too many is read all the same, and so is every further one
    if maxArity ≤ count then report .tooManyArguments (← peek)
    let argument ← nested
    match ← take? (· = .comma) with
    | none => pure [argument]
    | some _ =>
      let others ← arguments nested bound (count + 1)
      pure (argument :: others)

/-- The arguments of a call, of which there may be none. -/
def argumentList (nested : Parser Expr) (bound : Nat) : Parser (List Expr) := do
  if (← peek).kind = .rightParen then pure [] else arguments nested bound 0

/-- The calls behind something that is called. -/
def calls (nested : Parser Expr) : (bound : Nat) → (callee : Expr) → Parser Expr
  | 0, callee => pure callee
  | bound + 1, callee => do
    match ← take? (· = .leftParen) with
    | none => pure callee
    | some _ =>
      let arguments ← argumentList nested bound
      let paren ← expect .rightParen .parenAfterArguments
      calls nested bound (.call callee paren arguments)

/-- Operators in front of a call. -/
def unary (nested : Parser Expr) : (bound : Nat) → Parser Expr
  | 0 => fail .expression
  | bound + 1 => do
    match ← take? isUnaryOperator with
    | some operator =>
      let operand ← unary nested bound
      pure (.unary operator operand)
    | none =>
      let callee ← primary nested
      calls nested bound callee

/-- The operators and operands that follow a left side. -/
def chainFrom (isOperator : Token.Kind → Bool) (node : Token → Expr → Expr → Expr)
    (operand : Parser Expr) : (bound : Nat) → (left : Expr) → Parser Expr
  | 0, left => pure left
  | bound + 1, left => do
    match ← take? isOperator with
    | none => pure left
    | some operator =>
      let right ← operand
      chainFrom isOperator node operand bound (node operator left right)

/-- Operands with operators of one level between them, grouped from the left. -/
def chain (isOperator : Token.Kind → Bool) (node : Token → Expr → Expr → Expr)
    (operand : Parser Expr) (bound : Nat) : Parser Expr := do
  let left ← operand
  chainFrom isOperator node operand bound left

/-- Products. -/
def factor (nested : Parser Expr) (bound : Nat) : Parser Expr :=
  chain isFactorOperator .binary (unary nested bound) bound

/-- Sums. -/
def term (nested : Parser Expr) (bound : Nat) : Parser Expr :=
  chain isTermOperator .binary (factor nested bound) bound

/-- Comparisons. -/
def comparison (nested : Parser Expr) (bound : Nat) : Parser Expr :=
  chain isComparisonOperator .binary (term nested bound) bound

/-- Equalities. -/
def equality (nested : Parser Expr) (bound : Nat) : Parser Expr :=
  chain isEqualityOperator .binary (comparison nested bound) bound

/-- Conjunctions. -/
def conjunction (nested : Parser Expr) (bound : Nat) : Parser Expr :=
  chain (· = .keyword .and) .logical (equality nested bound) bound

/-- Disjunctions. -/
def disjunction (nested : Parser Expr) (bound : Nat) : Parser Expr :=
  chain (· = .keyword .or) .logical (conjunction nested bound) bound

/-- An assignment, grouped from the right, or an expression without one. A target that is not a
variable is reported after the value was read, and the value is dropped. -/
def assignment (nested : Parser Expr) (bound : Nat) : Parser Expr := do
  let target ← disjunction nested bound
  match ← take? (· = .equal) with
  | none => pure target
  | some equals =>
    -- the value is an assignment again, and what the target is only matters behind it
    let value ← nested
    match target with
    | .variable name => pure (.assign name value)
    | _ =>
      report .invalidAssignmentTarget equals
      pure target

/-- An expression of at most `bound` tokens. -/
def expression : (bound : Nat) → Parser Expr
  | 0 => fail .expression
  | bound + 1 => assignment (expression bound) (bound + 1)

end LoxScript.Parser
