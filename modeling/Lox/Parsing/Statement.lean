import Lox.Parsing.Expression
import Lox.Statement

/-!
# Reading statements

A statement stands either in a list of statements, where declarations are allowed as well, or as
the body of a conditional or of a loop, where they are not: its `StatementPlace`. As with
expressions, the parser for the statements nested in a statement is a parameter, and
`Parse.statement` closes the circle.

`Parse.statements` reads a list of statements. It is where failures end: the error is reported, the
cursor is resynchronized, and the list goes on with the next statement.
-/

set_option autoImplicit false
set_option relaxedAutoImplicit false

namespace Lox

/-- Where a statement stands. -/
inductive StatementPlace where
  | inList
  | asBody
deriving DecidableEq, Repr

namespace Parse

variable {α : Type}

/-- Reads something, if a condition holds. -/
def optionally (condition : Bool) (item : Parse α) : Parse (Option α) := do
  if condition then
    let value ← item
    pure (some value)
  else pure none

/-- Statements up to the end of the input or, within a block, up to its closing brace. -/
def statements (inBlock : Bool) (statement : Parse Stmt) : Nat → Parse (List Stmt)
  | 0 => .exhausted
  | bound + 1 => do
    if ← .gets fun cursor ↦ cursor.isAtEnd || inBlock && cursor.isAt (.symbol .rightBrace) then
      pure []
    else
      match ← statement.attempt with
      | .ok first =>
        let others ← statements inBlock statement bound
        pure (first :: others)
      | .error error =>
        report error
        .modify Cursor.resynchronize
        statements inBlock statement bound

/-- Statements in braces. -/
def block (statement : Parse Stmt) (bound : Nat) : Parse (List Stmt) := do
  let _ ← expect (.symbol .leftBrace)
  let body ← statements true statement bound
  let _ ← expect (.symbol .rightBrace)
  pure body

/-- A function declaration, of which the keyword has been passed. -/
def functionDeclaration (statement : Parse Stmt) (bound : Nat) : Parse Stmt := do
  let keyword ← .gets Cursor.passedSpan
  let name ← identifier .function
  let _ ← expect (.symbol .leftParenthesis)
  let (parameters, _) ← parenthesized (identifier .parameter) .tooManyParameters bound
  let body ← insideFunction (block statement bound)
  let close ← .gets Cursor.passedSpan
  pure (.function name parameters body ⟨keyword.start, close.stop⟩)

/-- A variable declaration, of which the keyword has been passed. -/
def variableDeclaration (bound : Nat) : Parse Stmt := do
  let name ← identifier .variable
  let initializer ← optionally (← accept (.symbol .equal)) (expression bound)
  let _ ← expect (.symbol .semicolon)
  pure (.declare name initializer)

/-- An expression used as a statement. -/
def expressionStatement (bound : Nat) : Parse Stmt := do
  let value ← expression bound
  let _ ← expect (.symbol .semicolon)
  pure (.expression value)

/-- A print statement, of which the keyword has been passed. -/
def printStatement (bound : Nat) : Parse Stmt := do
  let value ← expression bound
  let _ ← expect (.symbol .semicolon)
  pure (.print value)

/-- A return statement, of which the keyword has been passed. Outside of every function it is
reported and read all the same. -/
def returnStatement (bound : Nat) : Parse Stmt := do
  let keyword ← .gets Cursor.passedSpan
  if (← .gets Cursor.depth) = 0 then report ⟨.returnOutsideFunction, keyword⟩
  let value ← optionally (!(← isAt (.symbol .semicolon))) (expression bound)
  let close ← expect (.symbol .semicolon)
  pure (.return value ⟨keyword.start, close.stop⟩)

/-- An expression in parentheses, as after the keywords of a conditional and of a loop. -/
def condition (bound : Nat) : Parse Expr := do
  let _ ← expect (.symbol .leftParenthesis)
  let value ← expression bound
  let _ ← expect (.symbol .rightParenthesis)
  pure value

/-- A conditional, of which the keyword has been passed. An `else` belongs to the nearest
conditional before it. -/
def conditional (statement : Parse Stmt) (bound : Nat) : Parse Stmt := do
  let test ← condition bound
  let thenBranch ← statement
  let elseBranch ← optionally (← accept (.keyword .else)) statement
  pure (.conditional test thenBranch elseBranch)

/-- A loop with a condition, of which the keyword has been passed. -/
def whileLoop (statement : Parse Stmt) (bound : Nat) : Parse Stmt := do
  let test ← condition bound
  let body ← statement
  pure (.loop test body)

/-- The initializer of a loop: nothing, a variable declaration or an expression, up to and including
its semicolon. -/
def initializer (bound : Nat) : Parse (Option Stmt) := do
  if ← accept (.symbol .semicolon) then pure none
  else if ← accept (.keyword .var) then some <$> variableDeclaration bound
  else some <$> expressionStatement bound

/-- A loop with an initializer, a condition and an increment, of which the keyword has been passed.
-/
def forLoop (statement : Parse Stmt) (bound : Nat) : Parse Stmt := do
  let keyword ← .gets Cursor.passedSpan
  let _ ← expect (.symbol .leftParenthesis)
  let first ← initializer bound
  let test ← optionally (!(← isAt (.symbol .semicolon))) (expression bound)
  let _ ← expect (.symbol .semicolon)
  let increment ← optionally (!(← isAt (.symbol .rightParenthesis))) (expression bound)
  let _ ← expect (.symbol .rightParenthesis)
  let body ← statement
  pure (.ofFor keyword first test increment body)

/-- A statement that declares nothing. -/
def simpleStatement (nested : StatementPlace → Parse Stmt) (bound : Nat) : Parse Stmt := do
  if ← accept (.keyword .print) then printStatement bound
  else if ← accept (.keyword .return) then returnStatement bound
  else if ← accept (.keyword .if) then conditional (nested .asBody) bound
  else if ← accept (.keyword .while) then whileLoop (nested .asBody) bound
  else if ← accept (.keyword .for) then forLoop (nested .asBody) bound
  else if ← isAt (.symbol .leftBrace) then .block <$> block (nested .inList) bound
  else expressionStatement bound

/-- A statement, or one of the declarations that may stand in a list. -/
def listedStatement (nested : StatementPlace → Parse Stmt) (bound : Nat) : Parse Stmt := do
  if ← accept (.keyword .fun) then functionDeclaration (nested .inList) bound
  else if ← accept (.keyword .var) then variableDeclaration bound
  else if ← isAt (.keyword .class) then failHere .classDeclaration
  else simpleStatement nested bound

/-- A statement at a given place. -/
def statement : Nat → StatementPlace → Parse Stmt
  | 0, _ => .exhausted
  | bound + 1, .inList => listedStatement (statement bound) (bound + 1)
  | bound + 1, .asBody => simpleStatement (statement bound) (bound + 1)

end Parse

end Lox
