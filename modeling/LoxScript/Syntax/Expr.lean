import LoxScript.Number.Text
import LoxScript.Token.Basic

/-!
# Expressions

The tree of an expression keeps the tokens that evaluation, messages or names need: operators, names,
and the closing parenthesis of a call, which is where a failing call is said to stand.

## Main definitions

* `Literal`, `Expr`.
* `Expr.text`: the tree as text, fully parenthesized, with the operator in front.
* `Expr.tokens`: the tokens kept in the tree, each before those of the parts below it.
-/

namespace LoxScript

/-- A value that is written down in a script. -/
inductive Literal where
  | nil
  | bool (value : Bool)
  | number (value : Number)
  | string (text : String)
deriving DecidableEq, Repr

/-- The text of a literal. A string stands in quotes, and nothing in it is escaped. -/
def Literal.text : Literal → String
  | .nil => "nil"
  | .bool value => if value then "true" else "false"
  | .number value => value.text "inf"
  | .string text => "\"" ++ text ++ "\""

/-- An expression. -/
inductive Expr where
  /-- A value written down. -/
  | literal (value : Literal)
  /-- An expression in parentheses. -/
  | grouping (inner : Expr)
  /-- An operator before its operand. -/
  | unary (operator : Token) (operand : Expr)
  /-- An operator between operands, both of which are evaluated. -/
  | binary (operator : Token) (left right : Expr)
  /-- An operator between operands, the second of which may not be needed. -/
  | logical (operator : Token) (left right : Expr)
  /-- The value of a variable. -/
  | variable (name : Token)
  /-- A new value for a variable. -/
  | assign (name : Token) (value : Expr)
  /-- A call, with the parenthesis that closes it. -/
  | call (callee : Expr) (paren : Token) (arguments : List Expr)
deriving Repr

namespace Expr

mutual

/-- The text of an expression. -/
def text : Expr → String
  | .literal value => value.text
  | .grouping inner => "(group " ++ inner.text ++ ")"
  | .unary operator operand => "(" ++ operator.lexeme ++ " " ++ operand.text ++ ")"
  | .binary operator left right | .logical operator left right =>
    "(" ++ operator.lexeme ++ " " ++ left.text ++ " " ++ right.text ++ ")"
  | .variable name => name.lexeme
  | .assign name value => "(= " ++ name.lexeme ++ " " ++ value.text ++ ")"
  | .call callee _ arguments => "(call " ++ callee.text ++ textEach arguments ++ ")"

/-- The texts of several expressions, each after a blank. -/
def textEach : List Expr → String
  | [] => ""
  | e :: es => " " ++ e.text ++ textEach es

end

mutual

/-- The tokens of a tree: the root's own token, then those of its parts from left to right. -/
def tokens : Expr → List Token
  | .literal _ => []
  | .grouping inner => inner.tokens
  | .unary operator operand => operator :: operand.tokens
  | .binary operator left right | .logical operator left right =>
    operator :: (left.tokens ++ right.tokens)
  | .variable name => [name]
  | .assign name value => name :: value.tokens
  | .call callee paren arguments => paren :: (callee.tokens ++ tokensEach arguments)

/-- The tokens of several trees. -/
def tokensEach : List Expr → List Token
  | [] => []
  | e :: es => e.tokens ++ tokensEach es

end

end Expr

end LoxScript
