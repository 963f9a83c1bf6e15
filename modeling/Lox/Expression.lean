import Lox.Span

/-!
# Expressions

The expressions of the language, each with the bytes it was read from. `Expr.span` is that range.
The parts of a grouping are kept: parentheses are an expression of their own.
-/

set_option autoImplicit false
set_option relaxedAutoImplicit false

namespace Lox

/-- A name and the place where it is written. -/
structure Identifier where
  name : String
  span : Span
deriving DecidableEq

/-- A value written out. -/
inductive Literal where
  | number (value : Float)
  | string (text : String)
  | boolean (value : Bool)
  | nil
deriving DecidableEq, Inhabited

/-- An operator with one operand. -/
inductive UnaryOperator where
  | negate
  | not
deriving DecidableEq, Repr

/-- An operator with two operands, both of which are evaluated. -/
inductive BinaryOperator where
  | add
  | subtract
  | multiply
  | divide
  | greater
  | greaterEqual
  | less
  | lessEqual
  | equal
  | notEqual
deriving DecidableEq, Repr

/-- An operator that evaluates its second operand only if the first does not decide. -/
inductive LogicalOperator where
  | and
  | or
deriving DecidableEq, Repr

/-- How a unary operator is written. -/
def UnaryOperator.text : UnaryOperator → String
  | negate => "-"
  | not => "!"

/-- How a binary operator is written. -/
def BinaryOperator.text : BinaryOperator → String
  | add => "+"
  | subtract => "-"
  | multiply => "*"
  | divide => "/"
  | greater => ">"
  | greaterEqual => ">="
  | less => "<"
  | lessEqual => "<="
  | equal => "=="
  | notEqual => "!="

/-- How a logical operator is written. -/
def LogicalOperator.text : LogicalOperator → String
  | and => "and"
  | or => "or"

/-- An expression. -/
inductive Expr where
  | literal (value : Literal) (span : Span)
  | grouping (inner : Expr) (span : Span)
  | unary (operator : UnaryOperator) (operand : Expr) (span : Span)
  | binary (operator : BinaryOperator) (left right : Expr) (span : Span)
  | logical (operator : LogicalOperator) (left right : Expr) (span : Span)
  | name (identifier : Identifier)
  | assign (target : Identifier) (value : Expr) (span : Span)
  | call (callee : Expr) (arguments : List Expr) (span : Span)
deriving Inhabited

/-- The bytes that an expression was read from. -/
def Expr.span : Expr → Span
  | literal _ span => span
  | grouping _ span => span
  | unary _ _ span => span
  | binary _ _ _ span => span
  | logical _ _ _ span => span
  | name identifier => identifier.span
  | assign _ _ span => span
  | call _ _ span => span

end Lox
