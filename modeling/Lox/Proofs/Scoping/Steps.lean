import Lox.Interpreter
import Lox.Proofs.Computation.Preservation
import Lox.Proofs.Scoping.Chain

/-!
# Steps on the store

What the elementary steps of a run make of the store: an assignment binds its name anew in the owner
of the name or fails (`Run.run_assignIn`), and a scope that is opened is a new one behind all others
(`Run.run_openScope`).
-/

set_option autoImplicit false
set_option relaxedAutoImplicit false

namespace Lox

/-- The bindings that come of binding names one after the other. -/
def Bindings.ofPairs (pairs : List (String × Value)) : Bindings :=
  pairs.foldl (fun made (name, value) ↦ made.insert name value) []

namespace Run

/-- An assignment either succeeds or leaves the state as it is. -/
theorem run_assignIn (name : String) (value : Value) (scope : ScopeId)
    (interpreter : Interpreter) :
    (assignIn name value scope).run interpreter =
      (interpreter.store.owner? name scope).elim (.failed (.undefinedVariable name) interpreter)
        fun owner ↦ .done () { interpreter with store := interpreter.store.define name value owner }
    := by
  unfold assignIn
  rw [Bounded.run_bind, Bounded.run_update]
  unfold Interpreter.assign
  cases howner : interpreter.store.owner? name scope with
  | none => simp only [Store.assign_of_owner?_eq_none howner]; rfl
  | some owner => simp only [Store.assign_of_owner? howner]; rfl

/-- A name bound in the scope that was made last. -/
theorem define_push (interpreter : Interpreter) (scopes : Array Scope) (scope : Scope)
    (name : String) (value : Value) :
    Interpreter.define name value scopes.size { interpreter with store := ⟨scopes.push scope⟩ }
      = { interpreter with store := ⟨scopes.push (scope.define name value)⟩ } := by
  have hpush : (scopes.push scope).modify scopes.size (·.define name value)
      = scopes.push (scope.define name value) := by
    apply Array.ext_getElem?
    intro place
    rw [Array.getElem?_modify, Array.getElem?_push, Array.getElem?_push]
    by_cases hplace : place = scopes.size
    · simp [hplace]
    · simp [hplace, Ne.symm hplace]
  unfold Interpreter.define Store.define
  rw [hpush]

theorem foldl_define_push (interpreter : Interpreter) (scopes : Array Scope) (made : Bindings)
    (enclosing : Option ScopeId) (pairs : List (String × Value)) :
    pairs.foldl (fun interpreter (name, value) ↦ interpreter.define name value scopes.size)
        { interpreter with store := ⟨scopes.push ⟨made, enclosing⟩⟩ }
      = { interpreter with
          store := ⟨scopes.push
            ⟨pairs.foldl (fun made (name, value) ↦ made.insert name value) made, enclosing⟩⟩ } := by
  induction pairs generalizing made with
  | nil => rfl
  | cons pair pairs ih =>
    obtain ⟨name, value⟩ := pair
    rw [List.foldl_cons, List.foldl_cons, ← ih]
    exact congrArg (pairs.foldl _ ·) (define_push interpreter scopes ⟨made, enclosing⟩ name value)

/-- A scope that is opened stands behind all others, with its names bound in it. -/
theorem run_openScope (enclosing : ScopeId) (pairs : List (String × Value))
    (interpreter : Interpreter) :
    (openScope enclosing pairs).run interpreter = .done interpreter.store.scopes.size
      { interpreter with
        store := ⟨interpreter.store.scopes.push ⟨.ofPairs pairs, some enclosing⟩⟩ } := by
  rw [openScope, Bounded.run_update]
  exact congrArg (Outcome.done _)
    (foldl_define_push interpreter interpreter.store.scopes [] (some enclosing) pairs)

end Run

end Lox
