/-!
# Runtime errors

What can go wrong while a program runs. Each error carries what its message has to name.
-/

set_option autoImplicit false
set_option relaxedAutoImplicit false

namespace Lox

/-- A reason for which a program stops. -/
inductive RuntimeError where
  | undefinedVariable (name : String)
  | typeMismatch (operator expected found : String)
  | notCallable (typeName : String)
  | arityMismatch (name : String) (expected received : Nat)
deriving DecidableEq, Repr

/-- What went wrong, in words. -/
def RuntimeError.message : RuntimeError → String
  | undefinedVariable name => "Undefined variable `" ++ name ++ "`"
  | typeMismatch operator expected found =>
    "Operator `" ++ operator ++ "` expects " ++ expected ++ ", found " ++ found
  | notCallable typeName => "Can only call functions, found " ++ typeName
  | arityMismatch name expected received =>
    "Function `" ++ name ++ "` expected " ++ toString expected ++ " arguments but received "
      ++ toString received

end Lox
