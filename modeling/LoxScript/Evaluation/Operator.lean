import LoxScript.Evaluation.Error
import LoxScript.Number.Arithmetic

/-!
# Operators

What the operators make of their operands. The kind of the operator's token decides. A token that is no
operator of the expected sort has no meaning, which is told apart from an operator that its operands do
not fit.
-/

namespace LoxScript

/-- The result of an operation: a value, or why there is none. There is no result at all if the token
is not an operator. -/
abbrev Operation : Type := Option (Except RuntimeError.Problem Value)

namespace Operation

/-- An operation on two numbers. -/
def onNumbers (compute : Number → Number → Value) : Value → Value → Operation
  | .number a, .number b => some (.ok (compute a b))
  | _, _ => some (.error .operandsMustBeNumbers)

/-- The sum of two numbers, or one string behind another. -/
def plus (A : Arithmetic) : Value → Value → Operation
  | .number a, .number b => some (.ok (.number (A.add a b)))
  | .string a, .string b => some (.ok (.string (a ++ b)))
  | _, _ => some (.error .operandsMustBeNumbersOrStrings)

/-- The value with another sign. -/
def negative (A : Arithmetic) : Value → Operation
  | .number a => some (.ok (.number (A.neg a)))
  | _ => some (.error .operandMustBeNumber)

/-- An operator in front of an operand. -/
def unary (A : Arithmetic) (operator : Token.Kind) (operand : Value) : Operation :=
  match operator with
  | .bang => some (.ok (.bool !operand.truthy))
  | .minus => negative A operand
  | _ => none

/-- An operator between operands. -/
def binary (A : Arithmetic) (operator : Token.Kind) (left right : Value) : Operation :=
  match operator with
  | .plus => plus A left right
  | .minus => onNumbers (fun a b => .number (A.sub a b)) left right
  | .star => onNumbers (fun a b => .number (A.mul a b)) left right
  | .slash => onNumbers (fun a b => .number (A.div a b)) left right
  | .greater => onNumbers (fun a b => .bool (b.less a)) left right
  | .greaterEqual => onNumbers (fun a b => .bool (b.atMost a)) left right
  | .less => onNumbers (fun a b => .bool (a.less b)) left right
  | .lessEqual => onNumbers (fun a b => .bool (a.atMost b)) left right
  | .equalEqual => some (.ok (.bool (left.equals right)))
  | .bangEqual => some (.ok (.bool !left.equals right))
  | _ => none

end Operation

end LoxScript
