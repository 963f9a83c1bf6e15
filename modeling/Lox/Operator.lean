import Lox.RuntimeError
import Lox.Value

/-!
# Applying operators

What operators do to values. Arithmetic is that of doubles and never fails on numbers; strings are
joined by `+` and ordered by their code points; `==` and `!=` take any two values.
-/

set_option autoImplicit false
set_option relaxedAutoImplicit false

namespace Lox

/-- The result of an operator on one value. -/
def UnaryOperator.apply : UnaryOperator → Value → Except RuntimeError Value
  | not, operand => .ok (.boolean !operand.isTruthy)
  | negate, .number operand => .ok (.number (-operand))
  | negate, operand => .error (.typeMismatch negate.text "a number" operand.typeName)

namespace BinaryOperator

/-- The operands that an operator takes. -/
def operands : BinaryOperator → String
  | subtract | multiply | divide => "two numbers"
  | add | greater | greaterEqual | less | lessEqual => "two numbers or two strings"
  | equal | notEqual => "any operands"

/-- The result on two numbers, for the operators that are about numbers. -/
def onNumbers? (left right : Float) : BinaryOperator → Option Value
  | add => some (.number (left + right))
  | subtract => some (.number (left - right))
  | multiply => some (.number (left * right))
  | divide => some (.number (left / right))
  | greater => some (.boolean (left > right))
  | greaterEqual => some (.boolean (left ≥ right))
  | less => some (.boolean (left < right))
  | lessEqual => some (.boolean (left ≤ right))
  | equal | notEqual => none

/-- The result on two strings, for the operators that are about strings. -/
def onStrings? (left right : String) : BinaryOperator → Option Value
  | add => some (.string (left ++ right))
  | greater => some (.boolean (left > right))
  | greaterEqual => some (.boolean (left ≥ right))
  | less => some (.boolean (left < right))
  | lessEqual => some (.boolean (left ≤ right))
  | subtract | multiply | divide | equal | notEqual => none

/-- The result on two values of the types that an operator is about. -/
def typed? (operator : BinaryOperator) : Value → Value → Option Value
  | .number left, .number right => operator.onNumbers? left right
  | .string left, .string right => operator.onStrings? left right
  | _, _ => none

/-- The result of an operator on two values. -/
def apply (operator : BinaryOperator) (left right : Value) : Except RuntimeError Value :=
  match operator with
  | equal => .ok (.boolean (left.equals right))
  | notEqual => .ok (.boolean !left.equals right)
  | operator =>
    match operator.typed? left right with
    | some result => .ok result
    | none =>
      .error (.typeMismatch operator.text operator.operands
        (left.typeName ++ " and " ++ right.typeName))

end BinaryOperator

/-- Whether the first operand decides, so that the second is not evaluated. -/
def LogicalOperator.isDecided (first : Value) : LogicalOperator → Bool
  | and => !first.isTruthy
  | or => first.isTruthy

end Lox
