import Lox.Bounded
import Lox.RuntimeError
import Lox.Store

/-!
# Interpreters

The state of a program in the course of its run: the scopes, of which one is global and one is
current, the text printed so far, and the number of functions made so far, from which the next one
has its identity. A `Run` is a bounded computation on interpreters that may stop with a runtime
error.

`Run.inScope` makes another scope current for the time of a computation, and the former one is
current again afterwards however it ends.
-/

set_option autoImplicit false
set_option relaxedAutoImplicit false

namespace Lox

/-- The state of a running program. -/
structure Interpreter where
  store : Store
  globals : ScopeId
  current : ScopeId
  output : String
  functions : Nat

namespace Interpreter

/-- An interpreter whose only scope is global and empty. -/
def bare : Interpreter :=
  let (globals, store) := Store.empty.allocate none
  ⟨store, globals, globals, "", 0⟩

/-- Makes a function value that is none of those made before. -/
def newFunction (body : FunctionBody) (interpreter : Interpreter) : Value × Interpreter :=
  (.function ⟨interpreter.functions, body⟩,
    { interpreter with functions := interpreter.functions + 1 })

/-- Makes a scope. -/
def newScope (enclosing : ScopeId) (interpreter : Interpreter) : ScopeId × Interpreter :=
  let (scope, store) := interpreter.store.allocate (some enclosing)
  (scope, { interpreter with store })

/-- Binds a name in a scope. -/
def define (name : String) (value : Value) (scope : ScopeId) (interpreter : Interpreter) :
    Interpreter :=
  { interpreter with store := interpreter.store.define name value scope }

/-- Gives a new value to a name, and tells whether it is bound at all. -/
def assign (name : String) (value : Value) (scope : ScopeId) (interpreter : Interpreter) :
    Bool × Interpreter :=
  let (isBound, store) := interpreter.store.assign name value scope
  (isBound, { interpreter with store })

/-- Prints a line. -/
def printLine (line : String) (interpreter : Interpreter) : Interpreter :=
  { interpreter with output := interpreter.output ++ line ++ "\n" }

/-- Takes off what has been printed so far. -/
def takeOutput (interpreter : Interpreter) : String × Interpreter :=
  (interpreter.output, { interpreter with output := "" })

/-- Makes another scope current, and yields the one that was. -/
def enter (scope : ScopeId) (interpreter : Interpreter) : ScopeId × Interpreter :=
  (interpreter.current, { interpreter with current := scope })

/-- Offers an operation of the host to programs, as a global function. -/
def defineNative (name : String) (arity : Nat) (operation : Native) (interpreter : Interpreter) :
    Interpreter :=
  let (function, interpreter) := interpreter.newFunction (.native name arity operation)
  interpreter.define name function interpreter.globals

/-- An interpreter with the two functions that every program may use, at a fixed instant. -/
def standard (now : Instant) : Interpreter :=
  (bare.defineNative "clock" 0 (.clock now)).defineNative "date" 0 (.date now)

/-- The global bindings. -/
def globalBindings (interpreter : Interpreter) : Bindings :=
  interpreter.store.bindings interpreter.globals

end Interpreter

/-- A part of the run of a program. -/
abbrev Run := Bounded Interpreter RuntimeError

namespace Run

variable {α : Type}

/-- The value of a name in a scope. -/
def valueIn (name : String) (scope : ScopeId) : Run Value := fun interpreter ↦
  match interpreter.store.get? name scope with
  | some value => .done value interpreter
  | none => .failed (.undefinedVariable name) interpreter

theorem run_valueIn (name : String) (scope : ScopeId) (interpreter : Interpreter) :
    (valueIn name scope).run interpreter =
      (interpreter.store.get? name scope).elim (.failed (.undefinedVariable name) interpreter)
        (.done · interpreter) := by
  unfold Bounded.run valueIn
  cases interpreter.store.get? name scope <;> rfl

/-- The value of a global name. -/
def globalValue (name : String) : Run Value := do
  valueIn name (← .gets Interpreter.globals)

/-- Gives a new value to a name of a scope. -/
def assignIn (name : String) (value : Value) (scope : ScopeId) : Run Unit := do
  if ← .update (·.assign name value scope) then pure ()
  else .fail (.undefinedVariable name)

/-- Binds a name in the current scope. -/
def define (name : String) (value : Value) : Run Unit :=
  .modify fun interpreter ↦
    let scope := interpreter.current
    interpreter.define name value scope

/-- Makes a scope and binds names in it, one after the other. -/
def openScope (enclosing : ScopeId) (bindings : List (String × Value)) : Run ScopeId :=
  .update fun interpreter ↦
    let (scope, interpreter) := interpreter.newScope enclosing
    (scope, bindings.foldl
      (fun interpreter (name, value) ↦ interpreter.define name value scope) interpreter)

/-- Computes with another scope as the current one. -/
@[always_inline, inline]
def inScope (scope : ScopeId) (computation : Run α) : Run α :=
  .within (·.enter scope) (fun former interpreter ↦ (interpreter.enter former).2) computation

end Run

end Lox
