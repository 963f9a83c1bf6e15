import Lox.Evaluation
import Lox.Parsing.Program

/-!
# Sessions

What a host does with an interpreter: it runs programs given as statements or as source texts, lets
a user type in lines, reads and writes global variables, and calls global functions. The state
persists from one step to the next, whichever way a step ends.

In a line that is no program, `Program.ofLine` accepts a single expression without the semicolon
behind it, and prints its value.
-/

set_option autoImplicit false
set_option relaxedAutoImplicit false

namespace Lox

/-- Why a source text did not run to its end. -/
inductive SourceError where
  | unreadable (errors : List SyntaxError)
  | runtime (error : RuntimeError)

/-- A step of a session that takes a source text. -/
abbrev Step := Bounded Interpreter SourceError

/-! ### Programs -/

/-- Runs statements in order. A statement that returns ends them. -/
def runProgram (bound : Nat) (program : Program) (host : Host := .standard) : Run Unit := do
  let _ ← executeAll host bound program
  pure ()

/-- Runs what a source text is read as, if it can be read. -/
def Step.ofReading {α : Type} (reading : Except (List SyntaxError) Program)
    (run : Program → Run α) : Step α :=
  match reading with
  | .ok program => (run program).mapError .runtime
  | .error errors => Bounded.fail (.unreadable errors)

/-- Runs a source text. -/
def runSource (bound : Nat) (source : String) (host : Host := .standard) : Step Unit :=
  Step.ofReading (Program.ofSource source) (runProgram bound · host)

/-- The program that a line stands for. -/
def Program.ofLine (line : String) : Except (List SyntaxError) Program :=
  match ofSource line with
  | .ok program => .ok program
  | .error errors =>
    match ofSource (line ++ ";") with
    | .ok [.expression value] => .ok [.print value]
    | _ => .error errors

/-- Runs a line. -/
def runLine (bound : Nat) (line : String) (host : Host := .standard) : Step Unit :=
  Step.ofReading (Program.ofLine line) (runProgram bound · host)

/-- The value of an expression that lacks a semicolon behind it, or none if the text is something
else. -/
def valueOfSource (bound : Nat) (source : String) (host : Host := .standard) :
    Step (Option Value) :=
  Step.ofReading (Program.ofSource (source ++ ";")) fun
    | .expression value :: _ => do
      let value ← evaluate host bound value
      pure (some value)
    | _ => pure none

/-! ### Scopes and functions -/

/-- Executes a source text as the body of a block among the global statements. What comes out is how
the block ended, if it could be read, and what was bound in it. -/
def runBlock (bound : Nat) (source : String) (host : Host := .standard) :
    Step (Except RuntimeError Flow × Bindings) :=
  Step.ofReading (Program.ofSource source) fun program ↦ do
    let scope ← Run.openScope (← Bounded.gets Interpreter.globals) []
    let flow ← Bounded.attempt (Run.inScope scope (executeAll host bound program))
    let bindings ← Bounded.gets (·.store.bindings scope)
    pure (flow, bindings)

/-- Executes the first statement of a source text, or the body of the function it declares, in a
scope among the global statements and without parameters. -/
def runBody (bound : Nat) (source : String) (host : Host := .standard) : Step (Option Flow) :=
  Step.ofReading (Program.ofSource source) fun
    | [] => pure none
    | .function _ _ body _ :: _ => do
      let scope ← Run.openScope (← Bounded.gets Interpreter.globals) []
      let flow ← Run.inScope scope (executeAll host bound body)
      pure (some flow)
    | statement :: _ => do
      let flow ← execute host bound statement
      pure (some flow)

/-- Binds a global name. -/
def defineGlobal (name : String) (value : Value) : Run Unit :=
  Bounded.modify fun interpreter ↦
    let scope := interpreter.globals
    interpreter.define name value scope

/-- Gives a new value to a global name. -/
def assignGlobal (name : String) (value : Value) : Run Unit := do
  Run.assignIn name value (← Bounded.gets Interpreter.globals)

/-- Calls the value of a global name without regard to the number of arguments. -/
def callGlobal (bound : Nat) (name : String) (arguments : List Value)
    (host : Host := .standard) : Run Value := do
  let callee ← Run.globalValue name
  callValue (call host bound) callee arguments

end Lox
