import Lox.Proofs.Execution.Invariance

/-!
# The current scope is restored

Whatever is run, however it ends and from whatever state: afterwards the same scope is current as
before, and the same scope is global. A block and a call make another scope current for their time
only, and they give it up on every way out, at the end, at a return and at an error
(`Interpreter.SameScopes.nested`). So in a session, between any two of its steps, the current scope
is the global one.

All that is asked of a host is that its operations do the same, as long as the calls they make do.
-/

set_option autoImplicit false
set_option relaxedAutoImplicit false

namespace Lox

/-- The same scope is current in both states, and the same scope is global. -/
def Interpreter.SameScopes (before after : Interpreter) : Prop :=
  after.current = before.current ∧ after.globals = before.globals

/-- The operations of a host give back the current scope and leave the global one alone, if the
calls that they make do. -/
def Host.RestoresScopes (host : Host) : Prop :=
  ∀ call : FunctionValue → List Value → Run Value,
    (∀ function arguments, (call function arguments).Keeps Interpreter.SameScopes) →
      ∀ name operation arguments,
        (host.perform call name operation arguments).Keeps Interpreter.SameScopes

/-- The states in which a session can be between two of its steps: a session starts without any
binding, and a step registers an operation of the host, runs a source text or runs a line. A step
may fail, and the session goes on from where it failed. -/
inductive Interpreter.InSession (host : Host) : Interpreter → Prop
  | bare : InSession host .bare
  | native {interpreter : Interpreter} (name : String) (arity : Nat) (operation : Native) :
    InSession host interpreter → InSession host (interpreter.defineNative name arity operation)
  | source {interpreter after : Interpreter} {bound : Nat} {source : String} :
    InSession host interpreter →
      ((runSource bound source host).run interpreter).state? = some after → InSession host after
  | line {interpreter after : Interpreter} {bound : Nat} {line : String} :
    InSession host interpreter →
      ((runLine bound line host).run interpreter).state? = some after → InSession host after

namespace Interpreter.SameScopes

instance : IsPreorder Interpreter SameScopes where
  refl _ := ⟨rfl, rfl⟩
  trans _ _ _ hfirst hsecond := ⟨hsecond.1.trans hfirst.1, hsecond.2.trans hfirst.2⟩

/-- Making bindings in a scope leaves the current and the global scope as they are. -/
theorem foldl_define (scope : ScopeId) (bindings : List (String × Value))
    (interpreter : Interpreter) :
    SameScopes interpreter (bindings.foldl
      (fun interpreter (name, value) ↦ interpreter.define name value scope) interpreter) := by
  induction bindings generalizing interpreter with
  | nil => exact refl interpreter
  | cons binding others ih => exact ih (interpreter.define binding.1 binding.2 scope)

/-- Running something in a scope of its own restores the scopes if the thing itself does. -/
theorem nested {α : Type} (enclosing : ScopeId) (bindings : List (String × Value))
    {body : Run α} (hbody : body.Keeps SameScopes) :
    (Run.openScope enclosing bindings >>= (Run.inScope · body)).Keeps SameScopes := by
  refine .bind (.update fun interpreter ↦ ?_) fun scope before after hafter ↦ ?_
  · have hnew : SameScopes interpreter (interpreter.newScope enclosing).2 := ⟨rfl, rfl⟩
    exact trans_of SameScopes hnew (foldl_define _ bindings _)
  · obtain ⟨inner, hinner, rfl⟩ := Bounded.state?_run_within hafter
    have hglobals := (hbody _ _ hinner).2
    exact ⟨rfl, hglobals⟩

theorem heldByRuns {host : Host} (hhost : host.RestoresScopes) : HeldByRuns host SameScopes where
  printLine _ _ := ⟨rfl, rfl⟩
  define _ _ _ := ⟨rfl, rfl⟩
  assign _ _ _ := ⟨rfl, rfl⟩
  newFunction _ _ := ⟨rfl, rfl⟩
  nested enclosing bindings _ hbody := nested enclosing bindings hbody
  perform := hhost

end Interpreter.SameScopes

theorem Host.standard_restoresScopes : Host.standard.RestoresScopes :=
  fun _ hcall ↦ Host.standard_keeps hcall

open Interpreter in
/-- A session starts in the global scope, and no step leaves another one current. -/
theorem Interpreter.InSession.current_eq_globals {host : Host} (hhost : host.RestoresScopes)
    {interpreter : Interpreter} (hsession : InSession host interpreter) :
    interpreter.current = interpreter.globals := by
  have hheld := SameScopes.heldByRuns hhost
  induction hsession with
  | bare => rfl
  | native _ _ _ _ ih => exact ih
  | source _ hrun ih =>
    obtain ⟨hcurrent, hglobals⟩ := hheld.ofReading _ _ _ _ hrun
    rw [hcurrent, hglobals, ih]
  | line _ hrun ih =>
    obtain ⟨hcurrent, hglobals⟩ := hheld.ofReading _ _ _ _ hrun
    rw [hcurrent, hglobals, ih]

open Interpreter in
/-- Evaluating an expression, executing a statement, a block in any scope or a program, and calling
a function leave the current and the global scope as they were, whether they are done, return or
fail, and between the steps of a session the current scope is the global one. -/
theorem current_scope_restored (host : Host) (hhost : host.RestoresScopes) :
    (∀ bound expression, (evaluate host bound expression).Keeps SameScopes) ∧
    (∀ bound statement, (execute host bound statement).Keeps SameScopes) ∧
    (∀ bound scope body, (Run.inScope scope (executeAll host bound body)).Keeps SameScopes) ∧
    (∀ bound function arguments, (call host bound function arguments).Keeps SameScopes) ∧
    (∀ bound program, (runProgram bound program host).Keeps SameScopes) ∧
    (∀ interpreter, InSession host interpreter → interpreter.current = interpreter.globals) := by
  have hheld := SameScopes.heldByRuns hhost
  refine ⟨fun bound ↦ (hheld.upTo bound).evaluate, fun bound ↦ (hheld.upTo bound).execute,
    fun bound scope body before after hafter ↦ ?_, fun bound ↦ (hheld.upTo bound).call,
    hheld.runProgram, fun _ ↦ InSession.current_eq_globals hhost⟩
  obtain ⟨inner, hinner, rfl⟩ := Bounded.state?_run_within hafter
  have hglobals := ((hheld.upTo bound).executeAll body _ _ hinner).2
  exact ⟨rfl, hglobals⟩

/-- A function that fails in a block of its body, called in a scope other than the global one. -/
theorem current_scope_restored_after_failure :
    let failing : Stmt :=
      .block [.return (some (.unary .negate (.literal .nil ⟨0, 0⟩) ⟨0, 0⟩)) ⟨0, 0⟩]
    let function : FunctionValue := ⟨0, .declared ⟨⟨"f", ⟨0, 0⟩⟩, [], [failing], ⟨0, 0⟩⟩ 0⟩
    let before : Interpreter := (Interpreter.bare.newScope 0).2.enter 1 |>.2
    Host.standard.RestoresScopes ∧
      ∃ after, (call .standard 9 function []).run before =
          .failed (.typeMismatch "-" "a number" "nil") after ∧
        after.store.scopes.size = 4 ∧ after.current = 1 ∧ after.globals = 0 := by
  intro failing function before
  obtain ⟨-, -, -, hcall, -⟩ := current_scope_restored .standard Host.standard_restoresScopes
  refine ⟨Host.standard_restoresScopes, _, rfl, rfl, ?_⟩
  exact hcall 9 function [] before _ rfl

end Lox
