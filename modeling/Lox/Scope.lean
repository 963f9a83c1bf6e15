import Lox.Value

/-!
# Scopes

A `Scope` binds names to values and may be enclosed by another scope. No two of its bindings have
the same name as long as they are made by `Bindings.insert`, which replaces the value of a name that
is bound already.

`Bindings.lookup_insert` says which value a name has after that.
-/

set_option autoImplicit false
set_option relaxedAutoImplicit false

namespace Lox

/-- The names bound in a scope and their values, in the order in which they were bound first. -/
abbrev Bindings := List (String × Value)

namespace Bindings

/-- Binds a name to a value, in the place of its former value if it has one. -/
def insert (name : String) (value : Value) : Bindings → Bindings
  | [] => [(name, value)]
  | (bound, former) :: others =>
    if bound = name then (name, value) :: others else (bound, former) :: insert name value others

/-- The new value is the value of its name, and every other name keeps its own. -/
theorem lookup_insert (name other : String) (value : Value) (bindings : Bindings) :
    (bindings.insert name value).lookup other
      = if other = name then some value else bindings.lookup other := by
  induction bindings with
  | nil => grind [insert]
  | cons binding others ih =>
    obtain ⟨bound, former⟩ := binding
    grind [insert]

/-- The names bound in a scope, in order. -/
def names (bindings : Bindings) : List String :=
  (bindings.map Prod.fst).mergeSort fun first second ↦ first ≤ second

/-- The bindings of a scope, in the order of their names. -/
def sorted (bindings : Bindings) : Bindings :=
  bindings.mergeSort fun first second ↦ first.1 ≤ second.1

end Bindings

/-- Bindings, and the scope where names that are not among them are looked up. -/
structure Scope where
  bindings : Bindings
  enclosing : Option ScopeId

namespace Scope

/-- The value of a name bound in this scope itself. -/
def value? (name : String) (scope : Scope) : Option Value := scope.bindings.lookup name

/-- Whether a name is bound in this scope itself. -/
def binds (name : String) (scope : Scope) : Bool := (scope.value? name).isSome

/-- Binds a name in this scope. -/
def define (name : String) (value : Value) (scope : Scope) : Scope :=
  { scope with bindings := scope.bindings.insert name value }

/-- How a scope is described to whoever inspects it. -/
def description (scope : Scope) : String :=
  "Environment \x7b names: [" ++ String.intercalate ", " (scope.bindings.names.map quoted)
    ++ "], has_enclosing: " ++ toString scope.enclosing.isSome ++ " \x7d"

end Scope

end Lox
