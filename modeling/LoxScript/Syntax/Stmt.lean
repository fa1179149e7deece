import LoxScript.Syntax.Expr

/-!
# Statements

The tree of a statement or declaration. There is no tree for a `for` loop, which is read as the block
and the `while` loop that it stands for.
-/

namespace LoxScript

/-- A statement or a declaration. -/
inductive Stmt where
  /-- An expression, evaluated for its effects. -/
  | expression (value : Expr)
  /-- Writes the text of a value on a line. -/
  | print (value : Expr)
  /-- Declares a variable, whose value is nil if none is given. -/
  | var (name : Token) (initial : Option Expr)
  /-- Statements in a scope of their own. -/
  | block (body : List Stmt)
  /-- A statement run on a condition. -/
  | ifThen (condition : Expr) (body : Stmt)
  /-- One of two statements, by a condition. -/
  | ifElse (condition : Expr) (body otherwise : Stmt)
  /-- A statement run again and again, while a condition holds. -/
  | loop (condition : Expr) (body : Stmt)
  /-- Declares a function. -/
  | function (name : Token) (parameters : List Token) (body : List Stmt)
  /-- Ends the call in progress, with the keyword, and a value that is nil if none is given. -/
  | result (keyword : Token) (value : Option Expr)
deriving Repr

end LoxScript
