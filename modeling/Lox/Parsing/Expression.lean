import Lox.Parsing.Cursor

/-!
# Reading expressions

Each level of precedence is read by a function of the parser for what is one level tighter, and the
innermost level refers back to whole expressions, within parentheses and arguments. That reference
is a parameter, and `Parse.expression` closes the circle: a bound limits how deeply expressions are
nested and how often operators follow each other, and every nesting and every operator takes a
token, so the number of tokens is bound enough.

From loosest to tightest the levels are assignment, `or`, `and`, equality, comparison, sum, product,
unary operators and calls. `Parse.chain` reads a level that nests to the left, and `Parse.single` a
level that takes one operator at most, so that a second comparison of the result of the first has to
be put in parentheses.
-/

set_option autoImplicit false
set_option relaxedAutoImplicit false

namespace Lox

/-- The literal that a token writes. -/
def Literal.ofToken? : TokenKind → Option Literal
  | .number value => some (.number value)
  | .string text => some (.string text)
  | .keyword .true => some (.boolean true)
  | .keyword .false => some (.boolean false)
  | .keyword .nil => some .nil
  | _ => none

/-- The unary operator that a token writes. -/
def UnaryOperator.ofToken? : TokenKind → Option UnaryOperator
  | .symbol .minus => some .negate
  | .symbol .bang => some .not
  | _ => none

namespace BinaryOperator

/-- The operator of a product that a token writes. -/
def ofFactorToken? : TokenKind → Option BinaryOperator
  | .symbol .star => some .multiply
  | .symbol .slash => some .divide
  | _ => none

/-- The operator of a sum that a token writes. -/
def ofTermToken? : TokenKind → Option BinaryOperator
  | .symbol .plus => some .add
  | .symbol .minus => some .subtract
  | _ => none

/-- The operator of a comparison that a token writes. -/
def ofComparisonToken? : TokenKind → Option BinaryOperator
  | .symbol .greater => some .greater
  | .symbol .greaterEqual => some .greaterEqual
  | .symbol .less => some .less
  | .symbol .lessEqual => some .lessEqual
  | _ => none

/-- The operator of an equality that a token writes. -/
def ofEqualityToken? : TokenKind → Option BinaryOperator
  | .symbol .equalEqual => some .equal
  | .symbol .bangEqual => some .notEqual
  | _ => none

end BinaryOperator

namespace LogicalOperator

/-- The operator `and`, if a token writes it. -/
def ofAndToken? : TokenKind → Option LogicalOperator
  | .keyword .and => some .and
  | _ => none

/-- The operator `or`, if a token writes it. -/
def ofOrToken? : TokenKind → Option LogicalOperator
  | .keyword .or => some .or
  | _ => none

end LogicalOperator

namespace Expr

/-- A binary operator between two expressions, from the start of one to the end of the other. -/
def joinBinary (operator : BinaryOperator) (left right : Expr) : Expr :=
  binary operator left right (left.span.union right.span)

/-- A logical operator between two expressions, from the start of one to the end of the other. -/
def joinLogical (operator : LogicalOperator) (left right : Expr) : Expr :=
  logical operator left right (left.span.union right.span)

end Expr

namespace Parse

variable {ω : Type}

/-! ### Runs of operators -/

/-- The operator that the next token writes. -/
def operator? (ofToken? : TokenKind → Option ω) : Parse (Option ω) :=
  .gets fun cursor ↦ cursor.next?.bind ofToken?

/-- Operators and operands that follow a left operand, nested to the left. -/
def chainFrom (ofToken? : TokenKind → Option ω) (join : ω → Expr → Expr → Expr)
    (operand : Parse Expr) : Nat → Expr → Parse Expr
  | 0, _ => .exhausted
  | bound + 1, left => do
    match ← operator? ofToken? with
    | none => pure left
    | some operator =>
      advance
      let right ← operand
      chainFrom ofToken? join operand bound (join operator left right)

/-- One or more operands with operators between them, nested to the left. -/
def chain (ofToken? : TokenKind → Option ω) (join : ω → Expr → Expr → Expr) (bound : Nat)
    (operand : Parse Expr) : Parse Expr := do
  let first ← operand
  chainFrom ofToken? join operand bound first

/-- One operand, or two with an operator between them. A second operator is an error at its place.
-/
def single (ofToken? : TokenKind → Option BinaryOperator) (operand : Parse Expr) : Parse Expr := do
  let left ← operand
  match ← operator? ofToken? with
  | none => pure left
  | some operator =>
    advance
    let right ← operand
    match ← operator? ofToken? with
    | none => pure (.joinBinary operator left right)
    | some second => failHere (.chainedOperator second)

/-! ### The levels, from the tightest to the loosest -/

/-- A literal, a name, or an expression in parentheses. -/
def primary (expression : Parse Expr) : Parse Expr := do
  match ← .gets Cursor.next? with
  | none => failHere .missingExpression
  | some kind =>
    let span ← .gets Cursor.place
    match kind, Literal.ofToken? kind with
    | _, some value =>
      advance
      pure (.literal value span)
    | .identifier name, none =>
      advance
      pure (.name ⟨name, span⟩)
    | .symbol .leftParenthesis, none =>
      advance
      let inner ← expression
      let close ← expect (.symbol .rightParenthesis)
      pure (.grouping inner ⟨span.start, close.stop⟩)
    | .keyword .this, none | .keyword .super, none => failHere .classKeyword
    | _, none => failHere .missingExpression

/-- Argument lists that follow what is called. -/
def callFrom (expression : Parse Expr) : Nat → Expr → Parse Expr
  | 0, _ => .exhausted
  | bound + 1, callee => do
    if ← accept (.symbol .leftParenthesis) then
      let (arguments, close) ← parenthesized expression .tooManyArguments (bound + 1)
      callFrom expression bound (.call callee arguments ⟨callee.span.start, close.stop⟩)
    else if ← isAt (.symbol .dot) then failHere .propertyAccess
    else pure callee

/-- A primary expression and the argument lists that follow it. -/
def call (expression : Parse Expr) (bound : Nat) : Parse Expr := do
  let callee ← primary expression
  callFrom expression bound callee

/-- A call after any number of unary operators. -/
def unary (expression : Parse Expr) : Nat → Parse Expr
  | 0 => .exhausted
  | bound + 1 => do
    match ← operator? UnaryOperator.ofToken? with
    | none => call expression (bound + 1)
    | some operator =>
      let span ← .gets Cursor.place
      advance
      let operand ← unary expression bound
      pure (.unary operator operand ⟨span.start, operand.span.stop⟩)

/-- Products, sums, comparisons and equalities. -/
def binary (expression : Parse Expr) (bound : Nat) : Parse Expr :=
  single BinaryOperator.ofEqualityToken? <|
  single BinaryOperator.ofComparisonToken? <|
  chain BinaryOperator.ofTermToken? Expr.joinBinary bound <|
  chain BinaryOperator.ofFactorToken? Expr.joinBinary bound <|
  unary expression bound

/-- Alternatives of conjunctions. -/
def logical (expression : Parse Expr) (bound : Nat) : Parse Expr :=
  chain LogicalOperator.ofOrToken? Expr.joinLogical bound <|
  chain LogicalOperator.ofAndToken? Expr.joinLogical bound <|
  binary expression bound

/-- An assignment, or what may stand on its left. If that is no name, the error is reported at its
place once the value has been read, and the value is dropped. -/
def assignment (expression : Parse Expr) (bound : Nat) : Parse Expr := do
  let target ← logical expression bound
  if ← accept (.symbol .equal) then
    let value ← expression
    match target with
    | .name identifier =>
      pure (.assign identifier value (identifier.span.union value.span))
    | _ =>
      report ⟨.invalidAssignmentTarget, target.span⟩
      pure target
  else pure target

/-- An expression. -/
def expression : Nat → Parse Expr
  | 0 => .exhausted
  | bound + 1 => assignment (expression bound) (bound + 1)

end Parse

end Lox
