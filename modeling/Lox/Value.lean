import Lox.Instant
import Lox.Number
import Lox.Statement
import Lox.Text.Quoted

/-!
# Values

A value is a number, a string, a boolean, `nil` or a function. A function value is either a function
declaration together with the scope that was current when it was declared, or a native operation of
the host under the name and with the number of parameters that it was registered with. Every
function value has an identity: two of them are equal exactly if they are the same one, whatever
they do.

`Value.equals` is the equality of the language. Numbers follow the rules of doubles, by which a
value that is not a number differs from itself and the two zeros are equal, and values of different
types are never equal.
-/

set_option autoImplicit false
set_option relaxedAutoImplicit false

namespace Lox

/-- The name of a scope in the store. -/
abbrev ScopeId := Nat

/-- What the host can offer to programs. The program itself offers `clock` and `date` and nothing
else. It lets whoever embeds it register further operations, and the others stand for these: each
does one of the things that a registered operation may do, which are to look at its arguments, to
fail, to call a function and to look up a global variable. No program gets them unless they have
been registered, so they serve only to try out how registered operations are called. -/
inductive Native where
  /-- The time of day at a fixed instant. -/
  | clock (now : Instant)
  /-- The date at a fixed instant. -/
  | date (now : Instant)
  /-- The first argument, or `nil`. -/
  | first
  /-- The number of arguments. -/
  | count
  /-- Fails as a variable of the function's own name that is not defined. -/
  | fail
  /-- Twice the first argument. -/
  | twice
  /-- What the first argument gives when called with the others. -/
  | apply
  /-- The global variable with the name that the first argument writes, or `nil`. -/
  | global
deriving DecidableEq, Repr

/-- What a function does when it is called. -/
inductive FunctionBody where
  | declared (declaration : FunctionDeclaration) (captured : ScopeId)
  | native (name : String) (arity : Nat) (operation : Native)

/-- A function value. -/
structure FunctionValue where
  identity : Nat
  body : FunctionBody

/-- A value. -/
inductive Value where
  | number (value : Float)
  | string (text : String)
  | boolean (value : Bool)
  | nil
  | function (callee : FunctionValue)

instance : Inhabited Value := ⟨.nil⟩

namespace FunctionValue

/-- The name that a function was declared or registered with. -/
def name (function : FunctionValue) : String :=
  match function.body with
  | .declared declaration _ => declaration.identifier.name
  | .native name _ _ => name

/-- The number of arguments that a call has to have. -/
def arity (function : FunctionValue) : Nat :=
  match function.body with
  | .declared declaration _ => declaration.parameters.length
  | .native _ arity _ => arity

/-- Whether the function is a native operation. -/
def isNative (function : FunctionValue) : Bool :=
  match function.body with
  | .declared _ _ => false
  | .native _ _ _ => true

/-- How a function is printed. -/
def display (function : FunctionValue) : String :=
  (if function.isNative then "<native fn " else "<fn ") ++ function.name ++ ">"

/-- How a function is described to whoever inspects a value. -/
def description (function : FunctionValue) : String :=
  (if function.isNative then "NativeFunction" else "UserFunction")
    ++ " \x7b name: " ++ quoted function.name ++ ", arity: " ++ toString function.arity ++ " \x7d"

end FunctionValue

/-- The value that a literal writes. -/
def Literal.value : Literal → Value
  | number value => .number value
  | string text => .string text
  | boolean value => .boolean value
  | nil => .nil

namespace Value

/-- Whether a value counts as true: every value does but `nil` and `false`. -/
def isTruthy : Value → Bool
  | nil => false
  | boolean value => value
  | _ => true

/-- The name of a value's type. -/
def typeName : Value → String
  | number _ => "number"
  | string _ => "string"
  | boolean _ => "bool"
  | nil => "nil"
  | function _ => "function"

/-- How a value is printed. -/
def display : Value → String
  | number value => Number.text value
  | string text => text
  | boolean value => if value then "true" else "false"
  | nil => "nil"
  | function callee => callee.display

/-- The equality of the language. -/
def equals : Value → Value → Bool
  | number first, number second => first == second
  | string first, string second => first = second
  | boolean first, boolean second => first = second
  | nil, nil => true
  | function first, function second => first.identity = second.identity
  | _, _ => false

end Value

end Lox
