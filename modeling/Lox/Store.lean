import Lox.Scope

/-!
# The store of scopes

All scopes that were ever made stand in one `Store`, in the order of their making, and a `ScopeId`
is the place of one. Who holds the same place shares the scope. A scope is made inside one that
exists, so its enclosing scope stands before it; `Store.chain` is the list of scopes from one of
them outwards, and a name belongs to the first scope on the chain that binds it, its
`Store.owner?`.

`Store.owner?_eq_find?` says so.
-/

set_option autoImplicit false
set_option relaxedAutoImplicit false

namespace Lox

/-- All scopes made so far. -/
structure Store where
  scopes : Array Scope

namespace Store

/-- The store without scopes. -/
def empty : Store := ⟨#[]⟩

/-- Makes a scope without bindings. -/
def allocate (enclosing : Option ScopeId) (store : Store) : ScopeId × Store :=
  (store.scopes.size, ⟨store.scopes.push ⟨[], enclosing⟩⟩)

/-- The bindings of one scope. -/
def bindings (store : Store) (scope : ScopeId) : Bindings :=
  (store.scopes[scope]?.map Scope.bindings).getD []

/-- Whether a name is bound in a scope itself. -/
def binds (store : Store) (name : String) (scope : ScopeId) : Bool :=
  store.scopes[scope]?.any (·.binds name)

/-- The scope that encloses another one. Only a scope that was made before counts. -/
def enclosing? (store : Store) (scope : ScopeId) : Option ScopeId :=
  (store.scopes[scope]?.bind Scope.enclosing).filter (· < scope)

theorem lt_of_enclosing? {store : Store} {scope outer : ScopeId}
    (houter : store.enclosing? scope = some outer) : outer < scope := by
  simp only [enclosing?, Option.filter_eq_some_iff, decide_eq_true_eq] at houter
  exact houter.2

/-- The scopes from one of them outwards. -/
def chain (store : Store) (scope : ScopeId) : List ScopeId :=
  match _houter : store.enclosing? scope with
  | some outer => scope :: store.chain outer
  | none => [scope]
termination_by scope
decreasing_by exact lt_of_enclosing? _houter

/-- The nearest scope outwards in which a name is bound. -/
def owner? (store : Store) (name : String) (scope : ScopeId) : Option ScopeId :=
  if store.binds name scope then some scope
  else
    match _houter : store.enclosing? scope with
    | some outer => store.owner? name outer
    | none => none
termination_by scope
decreasing_by exact lt_of_enclosing? _houter

/-- The owner of a name is the first scope on the chain that binds it. -/
theorem owner?_eq_find? (store : Store) (name : String) (scope : ScopeId) :
    store.owner? name scope = (store.chain scope).find? (store.binds name) := by
  fun_induction owner? store name scope with
  | case1 scope hbinds =>
    rw [chain]
    split <;> simp [hbinds]
  | case2 scope hbinds outer houter ih =>
    rw [chain]
    split
    · next other hother =>
      obtain rfl : outer = other := Option.some.inj (houter.symm.trans hother)
      simp [hbinds, ih]
    · next hnone => simp [houter] at hnone
  | case3 scope hbinds houter =>
    rw [chain]
    split
    · next other hother => simp [houter] at hother
    · simp [hbinds]

/-- The value that a name has in a scope. -/
def get? (store : Store) (name : String) (scope : ScopeId) : Option Value := do
  let owner ← store.owner? name scope
  let found ← store.scopes[owner]?
  found.value? name

/-- Binds a name in a scope itself. -/
def define (name : String) (value : Value) (scope : ScopeId) (store : Store) : Store :=
  ⟨store.scopes.modify scope (·.define name value)⟩

/-- Gives a new value to a name where it belongs, and tells whether it is bound at all. Nothing
changes if it is not. -/
def assign (name : String) (value : Value) (scope : ScopeId) (store : Store) : Bool × Store :=
  match store.owner? name scope with
  | some owner => (true, store.define name value owner)
  | none => (false, store)

end Store

end Lox
