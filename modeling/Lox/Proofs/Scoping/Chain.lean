import Lox.Store

/-!
# Looking names up

A name is looked up scope by scope from one of them outwards. `Store.valueAt?` is its value in a
single scope, if it is bound there, and the value that a lookup finds is the first of these along
the chain (`Store.get?_eq_findSome?`).

Binding a name changes one value in one scope (`Store.valueAt?_define`) and no chain
(`Store.chain_define`), and so does assigning to it where it is bound
(`Store.assign_of_owner?`). As long as scopes are only made inside others that exist, every scope
comes after the one that encloses it (`Store.LinksBack`), and its chain goes on with the chain of
that one (`Store.LinksBack.chain_eq`).
-/

set_option autoImplicit false
set_option relaxedAutoImplicit false

namespace Lox

/-- Defining a name gives it the new value and leaves all others as they are. -/
theorem Scope.value?_define (scope : Scope) (name other : String) (value : Value) :
    (scope.define name value).value? other
      = if other = name then some value else scope.value? other :=
  Bindings.lookup_insert name other value scope.bindings

namespace Store

/-- The value of a name that is bound in a scope itself. -/
def valueAt? (store : Store) (name : String) (scope : ScopeId) : Option Value :=
  store.scopes[scope]?.bind (·.value? name)

variable (store : Store) (name other : String) (value : Value) (scope inner : ScopeId)

/-- A scope binds a name exactly if the name has a value there. -/
theorem binds_eq_isSome : store.binds name scope = (store.valueAt? name scope).isSome := by
  unfold binds valueAt? Scope.binds
  cases store.scopes[scope]? <;> rfl

/-- Defining a name changes one scope at most, and none if the handle is out of range. -/
theorem getElem?_define :
    (store.define name value scope).scopes[inner]?
      = if scope = inner then store.scopes[inner]?.map (·.define name value)
        else store.scopes[inner]? := by
  unfold define
  rw [Array.getElem?_modify]

@[simp]
theorem size_define : (store.define name value scope).scopes.size = store.scopes.size := by
  unfold define
  rw [Array.size_modify]

/-- So the new value is found in this scope under this name, and every other value is what it was.
-/
theorem valueAt?_define (hscope : scope < store.scopes.size) :
    (store.define name value scope).valueAt? other inner
      = if inner = scope ∧ other = name then some value else store.valueAt? other inner := by
  unfold valueAt?
  rw [getElem?_define]
  by_cases hinner : scope = inner
  · subst hinner
    rw [if_pos rfl, Array.getElem?_eq_getElem hscope, Option.map_some, Option.bind_some,
      Option.bind_some, Scope.value?_define]
    simp only [true_and]
  · rw [if_neg hinner, if_neg fun h ↦ hinner h.1.symm]

/-- Binding a name in a scope that exists adds it to the names of this scope. -/
theorem binds_define : (store.define name value scope).binds other inner = true ↔
    store.binds other inner = true ∨ inner = scope ∧ other = name ∧ scope < store.scopes.size := by
  rw [binds_eq_isSome, binds_eq_isSome]
  by_cases hscope : scope < store.scopes.size
  · rw [valueAt?_define _ _ _ _ _ _ hscope]
    split
    · next hsame => simp [hsame.1, hsame.2, hscope]
    · next hsame => simpa [hscope] using fun hinner hother ↦ absurd ⟨hinner, hother⟩ hsame
  · have hnone : store.scopes[scope]? = none := Array.getElem?_eq_none (Nat.le_of_not_lt hscope)
    have hsame : (store.define name value scope).valueAt? other inner = store.valueAt? other inner
    := by
      unfold valueAt?
      rw [getElem?_define]
      split
      · next hinner => rw [← hinner, hnone, Option.map_none]
      · rfl
    simp [hsame, hscope]

@[simp]
theorem enclosing?_define :
    (store.define name value scope).enclosing? inner = store.enclosing? inner := by
  unfold enclosing?
  rw [getElem?_define]
  split
  · cases store.scopes[inner]? <;> rfl
  · rfl

/-- In a new last scope a name has the value that it is bound to there, and in the other scopes the
one from before. -/
theorem valueAt?_push (found : Scope) :
    Store.valueAt? ⟨store.scopes.push found⟩ name inner
      = if inner = store.scopes.size then found.value? name else store.valueAt? name inner := by
  unfold valueAt?
  rw [Array.getElem?_push]
  split <;> rfl

/-- How the other scopes are nested is not changed by a new one, which may only lie in one before
it. -/
theorem enclosing?_push (found : Scope) :
    Store.enclosing? ⟨store.scopes.push found⟩ inner
      = if inner = store.scopes.size then found.enclosing.filter (· < inner)
        else store.enclosing? inner := by
  unfold enclosing?
  rw [Array.getElem?_push]
  split <;> rfl

/-! ### Chains -/

/-- The chain of a scope is the scope itself and the chain of the one that encloses it. -/
theorem chain_eq : store.chain scope
    = scope :: ((store.enclosing? scope).map store.chain).getD [] := by
  rw [chain]
  split
  · next outer houter => rw [houter, Option.map_some, Option.getD_some]
  · next houter => rw [houter, Option.map_none, Option.getD_none]

/-- Chains lead to scopes that were made before, so only the links of these count. -/
theorem chain_congr {store store' : Store} {scope : ScopeId}
    (hlinks : ∀ inner ≤ scope, store'.enclosing? inner = store.enclosing? inner) :
    store'.chain scope = store.chain scope := by
  induction scope using Nat.strongRecOn with
  | ind scope ih =>
    rw [chain_eq, chain_eq, hlinks scope (Nat.le_refl scope)]
    cases houter : store.enclosing? scope with
    | none => rfl
    | some outer =>
      have hlt := lt_of_enclosing? houter
      have hsame := ih outer hlt fun inner hinner ↦
        hlinks inner (Nat.le_trans hinner (Nat.le_of_lt hlt))
      rw [Option.map_some, Option.map_some, hsame]

/-- Defining a name leaves all chains as they are. -/
theorem chain_define : (store.define name value scope).chain inner = store.chain inner :=
  chain_congr fun inner _ ↦ store.enclosing?_define name value scope inner

/-- The owner of a name is the first scope on the chain that has a value for it. -/
theorem owner?_eq_find?_isSome :
    store.owner? name scope = (store.chain scope).find? fun inner ↦
      (store.valueAt? name inner).isSome := by
  rw [owner?_eq_find?]
  congr 1
  funext inner
  exact store.binds_eq_isSome name inner

/-- A name that a scope does not bind belongs to whom it belongs in the enclosing scope. -/
theorem owner?_eq : store.owner? name scope =
    if store.binds name scope then some scope
    else (store.enclosing? scope).bind (store.owner? name) := by
  rw [owner?_eq_find?, chain_eq, List.find?_cons]
  cases store.binds name scope with
  | true => rfl
  | false =>
    cases store.enclosing? scope with
    | none => rfl
    | some outer => exact (store.owner?_eq_find? name outer).symm

/-- A name has the first value that is found for it along the chain. -/
theorem get?_eq_findSome? :
    store.get? name scope = (store.chain scope).findSome? (store.valueAt? name) := by
  change (store.owner? name scope).bind (store.valueAt? name) = _
  rw [owner?_eq_find?_isSome]
  induction store.chain scope with
  | nil => rfl
  | cons inner others ih =>
    rw [List.find?_cons, List.findSome?_cons]
    cases hvalue : store.valueAt? name inner with
    | none => exact ih
    | some found => exact hvalue

variable {store name scope}

/-- A scope is what a lookup from itself sees first. -/
theorem get?_of_valueAt? {value : Value} (hvalue : store.valueAt? name scope = some value) :
    store.get? name scope = some value := by
  rw [get?_eq_findSome?, chain_eq, List.findSome?_cons, hvalue]

/-- Which scopes bind a name, and how they are linked, is all that its owner depends on. -/
theorem owner?_congr {store' : Store}
    (hlinks : ∀ inner ≤ scope, store'.enclosing? inner = store.enclosing? inner)
    (hbinds : ∀ inner, store'.binds name inner = store.binds name inner) :
    store'.owner? name scope = store.owner? name scope := by
  rw [owner?_eq_find?, owner?_eq_find?, chain_congr hlinks]
  congr 1
  funext inner
  exact hbinds inner

/-- An owner is a scope that binds the name. -/
theorem binds_of_owner? {owner : ScopeId} (howner : store.owner? name scope = some owner) :
    store.binds name owner = true := by
  rw [owner?_eq_find?] at howner
  exact List.find?_some howner

/-- A name is found only from a scope that exists. -/
theorem lt_of_isSome_get? (hvalue : (store.get? name scope).isSome) :
    scope < store.scopes.size := by
  refine Nat.lt_of_not_le fun hout ↦ ?_
  have hnone := Array.getElem?_eq_none hout
  rw [get?_eq_findSome?, chain_eq, enclosing?, hnone] at hvalue
  simp [valueAt?, hnone] at hvalue

theorem lt_of_binds (hbinds : store.binds name scope = true) : scope < store.scopes.size := by
  refine Nat.lt_of_not_le fun hout ↦ ?_
  rw [binds, Array.getElem?_eq_none hout] at hbinds
  cases hbinds

/-- Exactly the names that have an owner have a value. -/
theorem isSome_get? (store : Store) (name : String) (scope : ScopeId) :
    (store.get? name scope).isSome = (store.owner? name scope).isSome := by
  change ((store.owner? name scope).bind (store.valueAt? name)).isSome = _
  cases howner : store.owner? name scope with
  | none => rfl
  | some owner =>
    rw [Option.bind_some, ← binds_eq_isSome, binds_of_owner? howner, Option.isSome_some]

/-- An assignment to a name that is bound binds it anew in its owner. -/
theorem assign_of_owner? {owner : ScopeId} (howner : store.owner? name scope = some owner)
    (value : Value) : store.assign name value scope = (true, store.define name value owner) := by
  rw [assign, howner]

/-- If nothing on the chain binds the name, an assignment changes nothing and says so. -/
theorem assign_of_owner?_eq_none (howner : store.owner? name scope = none) (value : Value) :
    store.assign name value scope = (false, store) := by
  rw [assign, howner]

/-! ### Links -/

/-- Every scope was made after the one that encloses it. -/
def LinksBack (store : Store) : Prop :=
  ∀ (scope outer : ScopeId) (found : Scope), store.scopes[scope]? = some found →
    found.enclosing = some outer → outer < scope

/-- Definitions leave the nesting as it is, so every scope still lies in an older one. -/
theorem LinksBack.define (hlinks : store.LinksBack) (name : String)
    (value : Value) (scope : ScopeId) : (store.define name value scope).LinksBack := by
  intro inner outer found hfound houter
  rw [getElem?_define] at hfound
  split at hfound
  · obtain ⟨former, hformer, rfl⟩ := Option.map_eq_some_iff.mp hfound
    exact hlinks inner outer former hformer houter
  · exact hlinks inner outer found hfound houter

/-- A new scope is younger than the one that it is opened in. -/
theorem LinksBack.allocate (hlinks : store.LinksBack)
    {enclosing : Option ScopeId} (henclosing : ∀ outer ∈ enclosing, outer < store.scopes.size) :
    (store.allocate enclosing).2.LinksBack := by
  intro inner outer found hfound houter
  simp only [Store.allocate, Array.getElem?_push] at hfound
  split at hfound
  · next hinner =>
    cases hfound
    rw [hinner]
    exact henclosing outer houter
  · exact hlinks inner outer found hfound houter

/-- An assignment is at most a definition. -/
theorem LinksBack.assign (hlinks : store.LinksBack) (name : String)
    (value : Value) (scope : ScopeId) : (store.assign name value scope).2.LinksBack := by
  unfold Store.assign
  split
  · exact hlinks.define name value _
  · exact hlinks

/-- The chain from a scope goes on with the chain from the scope that encloses it. -/
theorem LinksBack.chain_eq (hlinks : store.LinksBack) {found : Scope}
    (hfound : store.scopes[scope]? = some found) :
    store.chain scope = scope :: (found.enclosing.map store.chain).getD [] := by
  rw [Store.chain_eq, enclosing?, hfound, Option.bind_some]
  congr 3
  cases houter : found.enclosing with
  | none => rfl
  | some outer => rw [Option.filter_some, if_pos (decide_eq_true (hlinks _ _ _ hfound houter))]

end Store

end Lox
