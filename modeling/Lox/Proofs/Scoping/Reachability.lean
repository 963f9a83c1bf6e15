import Lox.Interpreter
import Lox.Proofs.Scoping.Chain

/-!
# Reachable scopes

A program comes from one scope to another in two ways: outwards, to the enclosing one, and through
the value of a name that is bound there, if that is a function, to the scope that the function has
captured. `Store.Reaches` is the least set of scopes that contains some roots and is closed under
both.

Two states agree on what is reachable from some roots if they have the same global scope, have
printed the same, and have the same scopes there (`Interpreter.AgreeOn`). Then the same scopes are
reachable in both (`Interpreter.AgreeOn.symm`). Elsewhere they may differ in any way, and they may
have made different numbers of scopes and functions.
-/

set_option autoImplicit false
set_option relaxedAutoImplicit false

namespace Lox

/-- The scope that a function has captured, unless it is an operation of the host. -/
def FunctionValue.captured? (function : FunctionValue) : Option ScopeId :=
  match function.body with
  | .declared _ captured => some captured
  | .native _ _ _ => none

/-- The scope that a value has captured, if it is a function. -/
def Value.captured? : Value → Option ScopeId
  | .function callee => callee.captured?
  | _ => none

/-- The scopes that can be reached from some roots. -/
inductive Store.Reaches (store : Store) (roots : ScopeId → Prop) : ScopeId → Prop
  | root {scope : ScopeId} : roots scope → Reaches store roots scope
  | enclosing {scope outer : ScopeId} : Reaches store roots scope →
    store.enclosing? scope = some outer → Reaches store roots outer
  | captured {scope captured : ScopeId} {name : String} {value : Value} :
    Reaches store roots scope → store.valueAt? name scope = some value →
    value.captured? = some captured → Reaches store roots captured

/-- What can be reached is followed from one store to another if every single link is. -/
theorem Store.Reaches.follow {store store' : Store} {roots roots' : ScopeId → Prop}
    (related : ScopeId → ScopeId → Prop)
    (hroots : ∀ root, roots root → ∃ root', related root root' ∧ roots' root')
    (henclosing : ∀ scope scope', related scope scope' →
      Option.Rel related (store.enclosing? scope) (store'.enclosing? scope'))
    (hcaptured : ∀ scope scope', related scope scope' → ∀ name,
      Option.Rel related ((store.valueAt? name scope).bind Value.captured?)
        ((store'.valueAt? name scope').bind Value.captured?))
    {scope : ScopeId} (hscope : store.Reaches roots scope) :
    ∃ scope', related scope scope' ∧ store'.Reaches roots' scope' := by
  induction hscope with
  | root hroot =>
    obtain ⟨root', hrelated, hroot'⟩ := hroots _ hroot
    exact ⟨root', hrelated, .root hroot'⟩
  | enclosing _ houter ih =>
    obtain ⟨scope', hrelated, hscope'⟩ := ih
    have hlink := henclosing _ _ hrelated
    rw [houter] at hlink
    cases houter' : store'.enclosing? scope' <;> rw [houter'] at hlink <;> cases hlink
    case some outer' hlink => exact ⟨outer', hlink, hscope'.enclosing houter'⟩
  | @captured _ _ name _ _ hvalue hcapture ih =>
    obtain ⟨scope', hrelated, hscope'⟩ := ih
    have hlink := hcaptured _ _ hrelated name
    rw [hvalue, Option.bind_some, hcapture] at hlink
    cases hfound : (store'.valueAt? name scope').bind Value.captured? <;>
      rw [hfound] at hlink <;> cases hlink
    case some captured' hlink =>
      obtain ⟨value', hvalue', hcapture'⟩ := Option.bind_eq_some_iff.mp hfound
      exact ⟨captured', hlink, hscope'.captured hvalue' hcapture'⟩

namespace Interpreter

/-- A value that can be there: the scope that it has captured has been made, and so has the function
that it is. -/
structure Knows (interpreter : Interpreter) (value : Value) : Prop where
  captured : ∀ scope, value.captured? = some scope → scope < interpreter.store.scopes.size
  identity : ∀ callee, value = .function callee → callee.identity < interpreter.functions

/-- What is true of every state that a program can be in: the current and the global scope have been
made, and everything that is bound anywhere can be there. -/
structure WellFormed (interpreter : Interpreter) : Prop where
  current : interpreter.current < interpreter.store.scopes.size
  globals : interpreter.globals < interpreter.store.scopes.size
  knows : ∀ scope name value, interpreter.store.valueAt? name scope = some value →
    interpreter.Knows value

/-- Scopes that exist are all that is reachable from scopes that exist. -/
theorem WellFormed.lt_of_reaches {interpreter : Interpreter} (hwell : interpreter.WellFormed)
    {roots : ScopeId → Prop} (hroots : ∀ scope, roots scope → scope < interpreter.store.scopes.size)
    {scope : ScopeId} (hscope : interpreter.store.Reaches roots scope) :
    scope < interpreter.store.scopes.size := by
  induction hscope with
  | root hroot => exact hroots _ hroot
  | enclosing _ houter ih => exact Nat.lt_trans (Store.lt_of_enclosing? houter) ih
  | captured _ hvalue hcaptured _ => exact (hwell.knows _ _ _ hvalue).captured _ hcaptured

/-- A value that can be there and whose captured scope can be reached. -/
structure Holds (interpreter : Interpreter) (roots : ScopeId → Prop) (value : Value) : Prop where
  knows : interpreter.Knows value
  reaches : ∀ scope, value.captured? = some scope → interpreter.store.Reaches roots scope

/-- So is every value that is bound in a scope that can be reached. -/
theorem WellFormed.holds {interpreter : Interpreter} (hwell : interpreter.WellFormed)
    {roots : ScopeId → Prop} {scope : ScopeId} (hscope : interpreter.store.Reaches roots scope)
    {name : String} {value : Value} (hvalue : interpreter.store.valueAt? name scope = some value) :
    interpreter.Holds roots value :=
  ⟨hwell.knows _ _ _ hvalue, fun _ hcaptured ↦ hscope.captured hvalue hcaptured⟩

end Interpreter

/-- The same enclosing scope, and the same names bound to the same values. -/
structure Scope.Same (scope scope' : Scope) : Prop where
  enclosing : scope.enclosing = scope'.enclosing
  value? : ∀ name, scope.value? name = scope'.value? name

theorem Scope.Same.refl (scope : Scope) : scope.Same scope := ⟨rfl, fun _ ↦ rfl⟩

theorem Scope.Same.symm {scope scope' : Scope} (hsame : scope.Same scope') : scope'.Same scope :=
  ⟨hsame.enclosing.symm, fun name ↦ (hsame.value? name).symm⟩

namespace Interpreter

/-- Two states have the same global scope, have printed the same, and have the same scopes wherever
the roots lead to. -/
structure AgreeOn (roots : ScopeId → Prop) (first second : Interpreter) : Prop where
  globals : first.globals = second.globals
  output : first.output = second.output
  scopes : ∀ scope, first.store.Reaches roots scope →
    Option.Rel Scope.Same first.store.scopes[scope]? second.store.scopes[scope]?

namespace AgreeOn

variable {roots : ScopeId → Prop} {first second : Interpreter}

theorem refl (roots : ScopeId → Prop) (interpreter : Interpreter) :
    interpreter.AgreeOn roots interpreter := by
  refine ⟨rfl, rfl, fun scope _ ↦ ?_⟩
  cases interpreter.store.scopes[scope]? with
  | some found => exact .some (.refl found)
  | none => exact .none

theorem valueAt?_eq (hagree : first.AgreeOn roots second) {scope : ScopeId}
    (hscope : first.store.Reaches roots scope) (name : String) :
    first.store.valueAt? name scope = second.store.valueAt? name scope := by
  have hsame := hagree.scopes scope hscope
  unfold Store.valueAt?
  generalize first.store.scopes[scope]? = found at hsame
  generalize second.store.scopes[scope]? = found' at hsame
  cases hsame with
  | some hsame => exact hsame.value? name
  | none => rfl

theorem enclosing?_eq (hagree : first.AgreeOn roots second) {scope : ScopeId}
    (hscope : first.store.Reaches roots scope) :
    first.store.enclosing? scope = second.store.enclosing? scope := by
  have hsame := hagree.scopes scope hscope
  unfold Store.enclosing?
  generalize first.store.scopes[scope]? = found at hsame
  generalize second.store.scopes[scope]? = found' at hsame
  cases hsame with
  | some hsame => simp only [Option.bind_some, hsame.enclosing]
  | none => rfl

theorem lt_size_iff (hagree : first.AgreeOn roots second) {scope : ScopeId}
    (hscope : first.store.Reaches roots scope) :
    scope < first.store.scopes.size ↔ scope < second.store.scopes.size := by
  have hsome : first.store.scopes[scope]?.isSome = second.store.scopes[scope]?.isSome := by
    have hsame := hagree.scopes scope hscope
    generalize first.store.scopes[scope]? = found at hsame ⊢
    generalize second.store.scopes[scope]? = found' at hsame ⊢
    cases hsame <;> rfl
  simpa using Bool.eq_iff_iff.mp hsome

/-- Whatever is reachable in the second state is so in the first. -/
theorem reaches (hagree : first.AgreeOn roots second) {scope : ScopeId}
    (hscope : second.store.Reaches roots scope) : first.store.Reaches roots scope := by
  induction hscope with
  | root hroot => exact .root hroot
  | enclosing _ houter ih => exact ih.enclosing ((hagree.enclosing?_eq ih).trans houter)
  | captured _ hvalue hcaptured ih =>
    exact ih.captured ((hagree.valueAt?_eq ih _).trans hvalue) hcaptured

theorem symm (hagree : first.AgreeOn roots second) : second.AgreeOn roots first where
  globals := hagree.globals.symm
  output := hagree.output.symm
  scopes scope hscope := by
    have hsame := hagree.scopes scope (hagree.reaches hscope)
    generalize first.store.scopes[scope]? = found at hsame
    generalize second.store.scopes[scope]? = found' at hsame
    cases hsame with
    | some hsame => exact .some hsame.symm
    | none => exact .none

theorem reaches_iff (hagree : first.AgreeOn roots second) (scope : ScopeId) :
    first.store.Reaches roots scope ↔ second.store.Reaches roots scope :=
  ⟨hagree.symm.reaches, hagree.reaches⟩

end AgreeOn

end Interpreter

end Lox
