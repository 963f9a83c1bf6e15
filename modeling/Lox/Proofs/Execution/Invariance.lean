import Lox.Proofs.Computation.Preservation
import Lox.Session

/-!
# Relations that hold along a run

A run of a program changes the state of the interpreter by few kinds of steps: a line is printed, a
name is bound in the current scope or assigned from it, a function is made, a scope is opened and
something is run in it, or the host performs an operation. `HeldByRuns` says of a relation between
states that it holds along each of these steps. If it is a preorder, it then holds along the
evaluation of every expression, the execution of every statement and every call, however they end
(`HeldByRuns.upTo`).

Statements do more to the current scope than expressions and calls do. `FramedByRuns` is about two
relations, of which the narrower one holds along expressions and calls, and the wider one along
statements; what statements do in a scope opened for them is within the narrower one again. The
induction is done for such pairs of relations (`FramedByRuns.upTo`). It is on the bound, over all
five of the mutually recursive functions at once.
-/

set_option autoImplicit false
set_option relaxedAutoImplicit false

namespace Lox

/-- A relation between states that holds along every step by which a run changes the state. A host
is only asked to keep it if the calls that it makes keep it. -/
structure HeldByRuns (host : Host) (related : Interpreter → Interpreter → Prop) : Prop where
  printLine : ∀ line interpreter, related interpreter (interpreter.printLine line)
  define : ∀ name value interpreter,
    related interpreter (interpreter.define name value interpreter.current)
  assign : ∀ name value interpreter,
    related interpreter (interpreter.assign name value interpreter.current).2
  newFunction : ∀ body interpreter, related interpreter (interpreter.newFunction body).2
  nested : ∀ enclosing bindings (body : Run Flow), body.Keeps related →
    (Run.openScope enclosing bindings >>= (Run.inScope · body)).Keeps related
  perform : ∀ call : FunctionValue → List Value → Run Value,
    (∀ function arguments, (call function arguments).Keeps related) →
      ∀ name operation arguments, (host.perform call name operation arguments).Keeps related

/-- Two relations between states, of which the first holds along every step of an expression or a
call, and the second along every step of a statement. A host is only asked to keep the first one if
the calls that it makes keep it. -/
structure FramedByRuns (host : Host) (inside along : Interpreter → Interpreter → Prop) : Prop where
  widen : ∀ before after, inside before after → along before after
  printLine : ∀ line interpreter, along interpreter (interpreter.printLine line)
  define : ∀ name value interpreter,
    along interpreter (interpreter.define name value interpreter.current)
  assign : ∀ name value interpreter,
    inside interpreter (interpreter.assign name value interpreter.current).2
  newFunction : ∀ body interpreter, along interpreter (interpreter.newFunction body).2
  nested : ∀ enclosing bindings (body : Run Flow), body.Keeps along →
    (Run.openScope enclosing bindings >>= (Run.inScope · body)).Keeps inside
  perform : ∀ call : FunctionValue → List Value → Run Value,
    (∀ function arguments, (call function arguments).Keeps inside) →
      ∀ name operation arguments, (host.perform call name operation arguments).Keeps inside

section Calls

variable {related : Interpreter → Interpreter → Prop} [IsPreorder Interpreter related]
  {call : FunctionValue → List Value → Run Value}

theorem Run.keeps_valueIn (name : String) (scope : ScopeId) :
    (Run.valueIn name scope).Keeps related := by
  intro before after hafter
  rw [Run.run_valueIn] at hafter
  cases hvalue : before.store.get? name scope <;> rw [hvalue] at hafter <;>
    exact Option.some.inj hafter ▸ refl before

theorem keeps_callValue (hcall : ∀ function arguments, (call function arguments).Keeps related)
    (callee : Value) (arguments : List Value) :
    (callValue call callee arguments).Keeps related := by
  cases callee with
  | function function => exact hcall function arguments
  | _ => exact .fail _

theorem keeps_callExact (hcall : ∀ function arguments, (call function arguments).Keeps related)
    (function : FunctionValue) (arguments : List Value) :
    (callExact call function arguments).Keeps related := by
  unfold callExact
  split
  · exact hcall function arguments
  · exact .fail _

/-- The operations described with `Native` change nothing by themselves. -/
theorem Host.standard_keeps (hcall : ∀ function arguments, (call function arguments).Keeps related)
    (name : String) (operation : Native) (arguments : List Value) :
    (Host.standard.perform call name operation arguments).Keeps related := by
  change (operation.perform call name arguments).Keeps related
  unfold Native.perform
  split
  case h_8 => exact keeps_callValue hcall _ _
  case h_9 => exact .bind (.gets _) fun _ ↦ Run.keeps_valueIn _ _
  all_goals first | exact .pure _ | exact .fail _

end Calls

/-! ### Whole runs -/

namespace FramedByRuns

variable {host : Host} {inside along : Interpreter → Interpreter → Prop}

/-- An assignment from the current scope, whether or not the name is bound. -/
theorem assignInCurrent (h : FramedByRuns host inside along) (name : String) (value : Value) :
    (Bounded.gets Interpreter.current >>= Run.assignIn name value).Keeps inside := by
  intro before after hafter
  have hstep := h.assign name value before
  rw [Bounded.run_bind_of_done (Bounded.run_gets _ _), Run.assignIn,
    Bounded.run_bind_of_done (Bounded.run_update _ _)] at hafter
  split at hafter <;> exact Option.some.inj hafter ▸ hstep

/-- The relations hold along whatever is run with a given bound. -/
structure UpTo (host : Host) (inside along : Interpreter → Interpreter → Prop) (bound : Nat) :
    Prop where
  evaluate : ∀ expression, (evaluate host bound expression).Keeps inside
  evaluateAll : ∀ expressions, (evaluateAll host bound expressions).Keeps inside
  execute : ∀ statement, (execute host bound statement).Keeps along
  executeAll : ∀ statements, (executeAll host bound statements).Keeps along
  call : ∀ function arguments, (call host bound function arguments).Keeps inside

variable [IsPreorder Interpreter inside] [IsPreorder Interpreter along] {bound : Nat}

omit [IsPreorder Interpreter along] in
theorem evaluate_succ (h : FramedByRuns host inside along) (ih : UpTo host inside along bound)
    (expression : Expr) : (evaluate host (bound + 1) expression).Keeps inside := by
  cases expression with
  | literal => exact .pure _
  | grouping inner => exact ih.evaluate inner
  | unary => exact .bind (ih.evaluate _) fun _ ↦ .ofExcept _
  | binary =>
    exact .bind (ih.evaluate _) fun _ ↦ .bind (ih.evaluate _) fun _ ↦ .ofExcept _
  | logical operator left right span =>
    simp only [Lox.evaluate]
    refine .bind (ih.evaluate left) fun first ↦ ?_
    split
    · exact .pure first
    · exact ih.evaluate right
  | name identifier =>
    simp only [Lox.evaluate]
    exact .bind (.gets _) fun _ ↦ Run.keeps_valueIn _ _
  | assign target source span =>
    simp only [Lox.evaluate]
    refine .bind (ih.evaluate source) fun value ↦ ?_
    change ((Bounded.gets Interpreter.current >>= Run.assignIn target.name value) >>=
      fun _ ↦ pure value).Keeps inside
    exact .bind (h.assignInCurrent target.name value) fun _ ↦ .pure value
  | call callee arguments span =>
    simp only [Lox.evaluate]
    refine .bind (ih.evaluate callee) fun called ↦ ?_
    refine .bind (ih.evaluateAll arguments) fun values ↦ ?_
    exact keeps_callValue (keeps_callExact ih.call) called values

omit [IsPreorder Interpreter inside] in
theorem execute_succ (h : FramedByRuns host inside along) (ih : UpTo host inside along bound)
    (statement : Stmt) : (execute host (bound + 1) statement).Keeps along := by
  have heval (expression : Expr) : (evaluate host bound expression).Keeps along :=
    (ih.evaluate expression).mono h.widen
  cases statement with
  | expression value =>
    simp only [Lox.execute]
    exact .bind (heval value) fun _ ↦ .pure _
  | print value =>
    simp only [Lox.execute]
    refine .bind (heval value) fun value ↦ ?_
    exact .bind (.modify (h.printLine _)) fun _ ↦ .pure _
  | declare target initializer =>
    cases initializer with
    | none =>
      simp only [Lox.execute]
      exact .bind (.modify (h.define _ _)) fun _ ↦ .pure _
    | some initializer =>
      simp only [Lox.execute]
      refine .bind (heval initializer) fun value ↦ ?_
      exact .bind (.modify (h.define _ _)) fun _ ↦ .pure _
  | block body =>
    simp only [Lox.execute]
    refine .bind (.gets _) fun enclosing ↦ ?_
    exact (h.nested enclosing [] _ (ih.executeAll body)).mono h.widen
  | conditional condition thenBranch elseBranch =>
    simp only [Lox.execute]
    refine .bind (heval condition) fun value ↦ ?_
    split
    · exact ih.execute thenBranch
    · cases elseBranch with
      | none => exact .pure _
      | some branch => exact ih.execute branch
  | loop condition body =>
    simp only [Lox.execute]
    refine .bind (heval condition) fun value ↦ ?_
    split
    · refine .bind (ih.execute body) fun flow ↦ ?_
      cases flow with
      | normal => exact ih.execute _
      | returned value => exact .pure _
    · exact .pure _
  | function identifier parameters body span =>
    simp only [Lox.execute]
    refine .bind (.gets _) fun scope ↦ ?_
    refine .bind (.update (h.newFunction _)) fun value ↦ ?_
    exact .bind (.modify (h.define _ _)) fun _ ↦ .pure _
  | «return» value span =>
    cases value with
    | none => exact .pure _
    | some result =>
      simp only [Lox.execute]
      exact .bind (heval result) fun _ ↦ .pure _

omit [IsPreorder Interpreter along] in
theorem evaluateAll_succ (ih : UpTo host inside along bound) (expressions : List Expr) :
    (evaluateAll host (bound + 1) expressions).Keeps inside := by
  cases expressions with
  | nil => exact .pure _
  | cons expression others =>
    simp only [Lox.evaluateAll]
    refine .bind (ih.evaluate expression) fun value ↦ ?_
    exact .bind (ih.evaluateAll others) fun _ ↦ .pure _

omit [IsPreorder Interpreter inside] in
theorem executeAll_succ (ih : UpTo host inside along bound) (statements : List Stmt) :
    (executeAll host (bound + 1) statements).Keeps along := by
  cases statements with
  | nil => exact .pure _
  | cons statement others =>
    simp only [Lox.executeAll]
    refine .bind (ih.execute statement) fun flow ↦ ?_
    cases flow with
    | normal => exact ih.executeAll others
    | returned value => exact .pure _

omit [IsPreorder Interpreter along] in
theorem call_succ (h : FramedByRuns host inside along) (ih : UpTo host inside along bound)
    (function : FunctionValue) (arguments : List Value) :
    (call host (bound + 1) function arguments).Keeps inside := by
  obtain ⟨identity, body⟩ := function
  cases body with
  | declared declaration captured =>
    simp only [Lox.call]
    rw [← bind_assoc]
    refine .bind (h.nested captured _ _ (ih.executeAll declaration.body)) fun flow ↦ ?_
    cases flow with
    | normal => exact .pure _
    | returned value => exact .pure _
  | native name arity operation => exact h.perform _ ih.call name operation arguments

/-- The relations hold along every run, with every bound. -/
theorem upTo (h : FramedByRuns host inside along) (bound : Nat) :
    UpTo host inside along bound := by
  induction bound with
  | zero =>
    exact ⟨fun _ ↦ .exhausted, fun _ ↦ .exhausted, fun _ ↦ .exhausted, fun _ ↦ .exhausted,
      fun _ _ ↦ .exhausted⟩
  | succ bound ih =>
    exact ⟨h.evaluate_succ ih, evaluateAll_succ ih, h.execute_succ ih, executeAll_succ ih,
      h.call_succ ih⟩

theorem runProgram (h : FramedByRuns host inside along) (bound : Nat) (program : Program) :
    (runProgram bound program host).Keeps along :=
  .bind ((h.upTo bound).executeAll program) fun _ ↦ .pure ()

/-- Running a source text or a line that cannot be read changes nothing, and otherwise it is running
the program that was read. -/
theorem ofReading (h : FramedByRuns host inside along) (bound : Nat)
    (reading : Except (List SyntaxError) Program) :
    (Step.ofReading reading (Lox.runProgram bound · host)).Keeps along := by
  cases reading with
  | ok program => exact .mapError (h.runProgram bound program)
  | error errors => exact .fail _

end FramedByRuns

namespace HeldByRuns

variable {host : Host} {related : Interpreter → Interpreter → Prop}

/-- A relation that holds along all steps is as wide as itself. -/
theorem framed (h : HeldByRuns host related) : FramedByRuns host related related where
  widen _ _ := id
  printLine := h.printLine
  define := h.define
  assign := h.assign
  newFunction := h.newFunction
  nested := h.nested
  perform := h.perform

variable [IsPreorder Interpreter related]

/-- The relation holds along every run, with every bound. -/
theorem upTo (h : HeldByRuns host related) (bound : Nat) :
    FramedByRuns.UpTo host related related bound := h.framed.upTo bound

theorem runProgram (h : HeldByRuns host related) (bound : Nat) (program : Program) :
    (runProgram bound program host).Keeps related := h.framed.runProgram bound program

theorem ofReading (h : HeldByRuns host related) (bound : Nat)
    (reading : Except (List SyntaxError) Program) :
    (Step.ofReading reading (Lox.runProgram bound · host)).Keeps related :=
  h.framed.ofReading bound reading

end HeldByRuns

end Lox
