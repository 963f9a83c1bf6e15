import Lox.Interpreter
import Lox.Operator

/-!
# Running programs

The meaning of expressions, statements and calls. Expressions yield a value. A statement ends
normally or by returning a value, which then goes through every statement around it up to the body
of the function that is being called; a call yields the returned value or else `nil`. Runtime errors
stop everything.

What the operations of the host do is up to the `Host`, which is given to everything that may call a
function; `Host.standard` is the host whose operations are described with `Native`.

All of this is bounded: a bound says how deep the evaluation may nest, a turn of a loop or a
further statement of a list counting as one level more than what comes before it. A larger bound
never changes what has ended.
-/

set_option autoImplicit false
set_option relaxedAutoImplicit false

namespace Lox

/-- How a statement ends, unless it fails. -/
inductive Flow where
  | normal
  | returned (value : Value)

/-- Calls a value, given the way in which functions are called. -/
def callValue (call : FunctionValue → List Value → Run Value) (callee : Value)
    (arguments : List Value) : Run Value :=
  match callee with
  | .function function => call function arguments
  | other => Bounded.fail (.notCallable other.typeName)

/-- Calls a function that has to have as many parameters as there are arguments. -/
def callExact (call : FunctionValue → List Value → Run Value) (function : FunctionValue)
    (arguments : List Value) : Run Value :=
  if arguments.length = function.arity then call function arguments
  else Bounded.fail (.arityMismatch function.name function.arity arguments.length)

/-- What an operation of the host does when it is called under a name, given the way in which
functions are called. -/
def Native.perform (call : FunctionValue → List Value → Run Value) (name : String)
    (operation : Native) (arguments : List Value) : Run Value :=
  match operation, arguments with
  | clock now, _ => pure (.string now.time)
  | date now, _ => pure (.string now.date)
  | first, arguments => pure (arguments.headD .nil)
  | count, arguments => pure (.number (Float.ofNat arguments.length))
  | fail, _ => Bounded.fail (.undefinedVariable name)
  | twice, .number value :: _ => pure (.number (value * 2))
  | twice, arguments =>
    Bounded.fail
      (.typeMismatch "twice" "a number" ((arguments.head?.map Value.typeName).getD "nothing"))
  | apply, arguments => callValue call (arguments.headD .nil) arguments.tail
  | global, .string target :: _ => Run.globalValue target
  | global, _ => pure .nil

/-- What the operations of a host do. Each is performed under the name that it was registered with,
given the way in which functions are called. -/
structure Host where
  perform : (FunctionValue → List Value → Run Value) → String → Native → List Value → Run Value

/-- The host that performs every operation as it is described. -/
def Host.standard : Host := ⟨Native.perform⟩

section

variable (host : Host)

mutual

/-- The value of an expression. Operands, and a callee and its arguments, are evaluated from left to
right. -/
def evaluate : Nat → Expr → Run Value
  | 0, _ => Bounded.exhausted
  | bound + 1, expression =>
    match expression with
    | .literal literal _ => pure literal.value
    | .grouping inner _ => evaluate bound inner
    | .unary operator operand _ => do
      let value ← evaluate bound operand
      Bounded.ofExcept (operator.apply value)
    | .binary operator left right _ => do
      let first ← evaluate bound left
      let second ← evaluate bound right
      Bounded.ofExcept (operator.apply first second)
    | .logical operator left right _ => do
      let first ← evaluate bound left
      if operator.isDecided first then pure first else evaluate bound right
    | .name identifier => do
      Run.valueIn identifier.name (← Bounded.gets Interpreter.current)
    | .assign target source _ => do
      let value ← evaluate bound source
      Run.assignIn target.name value (← Bounded.gets Interpreter.current)
      pure value
    | .call callee arguments _ => do
      let called ← evaluate bound callee
      let values ← evaluateAll bound arguments
      callValue (callExact (call bound)) called values

/-- The values of a list of expressions. -/
def evaluateAll : Nat → List Expr → Run (List Value)
  | 0, _ => Bounded.exhausted
  | _ + 1, [] => pure []
  | bound + 1, expression :: others => do
    let value ← evaluate bound expression
    let values ← evaluateAll bound others
    pure (value :: values)

/-- Executes a statement. -/
def execute : Nat → Stmt → Run Flow
  | 0, _ => Bounded.exhausted
  | bound + 1, statement =>
    match statement with
    | .expression expression => do
      let _ ← evaluate bound expression
      pure .normal
    | .print expression => do
      let value ← evaluate bound expression
      Bounded.modify (·.printLine value.display)
      pure .normal
    | .declare target none => do
      Run.define target.name .nil
      pure .normal
    | .declare target (some initializer) => do
      let value ← evaluate bound initializer
      Run.define target.name value
      pure .normal
    | .block body => do
      let scope ← Run.openScope (← Bounded.gets Interpreter.current) []
      Run.inScope scope (executeAll bound body)
    | .conditional condition thenBranch elseBranch => do
      let value ← evaluate bound condition
      if value.isTruthy then execute bound thenBranch
      else
        match elseBranch with
        | some branch => execute bound branch
        | none => pure .normal
    | .loop condition body => do
      let value ← evaluate bound condition
      if value.isTruthy then
        match ← execute bound body with
        | .normal => execute bound (.loop condition body)
        | .returned value => pure (.returned value)
      else pure .normal
    | .function identifier parameters body span => do
      let scope ← Bounded.gets Interpreter.current
      let value ← Bounded.update
        (·.newFunction (.declared ⟨identifier, parameters, body, span⟩ scope))
      Run.define identifier.name value
      pure .normal
    | .return none _ => pure (.returned .nil)
    | .return (some result) _ => do
      let value ← evaluate bound result
      pure (.returned value)

/-- Executes statements one after the other, up to one that returns. -/
def executeAll : Nat → List Stmt → Run Flow
  | 0, _ => Bounded.exhausted
  | _ + 1, [] => pure .normal
  | bound + 1, statement :: others => do
    match ← execute bound statement with
    | .normal => executeAll bound others
    | .returned value => pure (.returned value)

/-- Calls a function without regard to the number of its arguments. Parameters and arguments are
paired up as long as there are both. -/
def call : Nat → FunctionValue → List Value → Run Value
  | 0, _, _ => Bounded.exhausted
  | bound + 1, function, arguments =>
    match function.body with
    | .declared declaration captured => do
      let parameters := declaration.parameters.map Identifier.name
      let scope ← Run.openScope captured (parameters.zip arguments)
      match ← Run.inScope scope (executeAll bound declaration.body) with
      | .normal => pure .nil
      | .returned value => pure value
    | .native name _ operation => host.perform (call bound) name operation arguments

end

end

end Lox
