import Lox.Parsing.Program

/-!
# Diagnostics

A `Diagnostic` is a syntax error made ready to be shown: what is wrong, a labelled range of bytes
given by offset and length, and what to do instead.
-/

set_option autoImplicit false
set_option relaxedAutoImplicit false

namespace Lox

/-- A syntax error as it is shown. -/
structure Diagnostic where
  message : String
  label : String
  offset : Nat
  length : Nat
  help? : Option String
deriving DecidableEq, Repr

namespace Diagnostic

/-- The diagnostic of a syntax error. -/
def ofError (error : SyntaxError) : Diagnostic where
  message := error.message
  label := error.label
  offset := error.span.start
  length := error.span.length
  help? := error.help?

/-- The diagnostics of a source text, of which there are none if it is a program. -/
def ofSource (source : String) : List Diagnostic :=
  match Program.ofSource source with
  | .ok _ => []
  | .error errors => errors.map ofError

/-- A diagnostic in one line. -/
def text (diagnostic : Diagnostic) : String :=
  let advice := (diagnostic.help?.map (" (" ++ · ++ ")")).getD ""
  "Syntax error at byte " ++ toString diagnostic.offset ++ ": " ++ diagnostic.message ++ ", "
    ++ diagnostic.label ++ advice

end Diagnostic

end Lox
