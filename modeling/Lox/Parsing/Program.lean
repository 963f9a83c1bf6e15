import Lox.Parsing.Statement
import Lox.Token.Scan

/-!
# Reading programs

A program is a list of statements. `Program.ofTokens` reads one from tokens and `Program.ofSource`
from a source text; both yield either the statements or every error that was found, in the order in
which it was found. A text with an error among its characters is not read as tokens at all.
-/

set_option autoImplicit false
set_option relaxedAutoImplicit false

namespace Lox

/-- The statements of a source text. -/
abbrev Program := List Stmt

namespace Program

/-- A bound within which every list of this many tokens is read: each nesting, each operator and
each statement takes a token. -/
def sufficientBound (tokens : Nat) : Nat := tokens + 1

/-- Reads a whole program with a given bound. -/
def parse (bound : Nat) : Parse Program :=
  Parse.statements false (Parse.statement bound .inList) bound

/-- The program that a list of tokens writes, or the errors found in it. -/
def ofTokens (tokens : List Token) : Except (List SyntaxError) Program :=
  match (parse (sufficientBound tokens.length)).run (.start tokens) with
  | .done program cursor =>
    if cursor.reported.isEmpty then .ok program else .error cursor.reported
  | .failed error cursor => .error (cursor.reported ++ [error])
  | .exhausted => .error []

/-- The program that a source text writes, or the errors found in it. -/
def ofSource (source : String) : Except (List SyntaxError) Program := do
  let tokens ← Token.ofSource source
  ofTokens tokens

end Program

end Lox
