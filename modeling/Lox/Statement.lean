import Lox.Expression

/-!
# Statements

The statements of the language. There are two kinds of loop in a source text and one here:
`Stmt.ofFor` writes a loop with an initializer, a condition and an increment as a block around a
`Stmt.loop`. A `FunctionDeclaration` is what a function value keeps of the statement that made it.
-/

set_option autoImplicit false
set_option relaxedAutoImplicit false

namespace Lox

/-- A statement. -/
inductive Stmt where
  | expression (value : Expr)
  | print (value : Expr)
  | declare (target : Identifier) (initializer : Option Expr)
  | block (body : List Stmt)
  | conditional (condition : Expr) (thenBranch : Stmt) (elseBranch : Option Stmt)
  | loop (condition : Expr) (body : Stmt)
  | function (identifier : Identifier) (parameters : List Identifier) (body : List Stmt)
    (span : Span)
  | «return» (value : Option Expr) (span : Span)
deriving Inhabited

/-- The name, parameters and body of a declared function. -/
structure FunctionDeclaration where
  identifier : Identifier
  parameters : List Identifier
  body : List Stmt
  span : Span

namespace Stmt

/-- The loop `for (initializer; condition; increment) body`. Without a condition it goes on until
something in it returns or fails, and the inserted `true` stands where the keyword does. The
increment runs after each turn of the body, and the initializer once, in a scope of its own around
the loop. -/
def ofFor (keyword : Span) (initializer : Option Stmt) (condition : Option Expr)
    (increment : Option Expr) (body : Stmt) : Stmt :=
  let turn :=
    match increment with
    | none => body
    | some step => block [body, expression step]
  let whole := loop (condition.getD (.literal (.boolean true) keyword)) turn
  match initializer with
  | none => whole
  | some first => block [first, whole]

end Stmt

end Lox
