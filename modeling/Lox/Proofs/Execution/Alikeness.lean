import Lox.Proofs.Execution.Simulation
import Lox.Proofs.Scoping.Chain

/-!
# States that are alike

Two states are alike if they have the same scopes, with the same names bound to the same values, but
for what the declarations of functions leave open: `Interpreter.Alike`. This is a simulation
(`Interpreter.AlikeIn.simulation`) in which everything stands for itself. So programs that say the
same do the same from one state, and end in states that are alike.
-/

set_option autoImplicit false
set_option relaxedAutoImplicit false

namespace Lox

variable {leeway : Leeway}

/-- The same bindings but for declarations, and the same enclosing scope. -/
structure Scope.Alike (leeway : Leeway) (scope scope' : Scope) : Prop where
  bindings : Bindings.Matches leeway .same scope.bindings scope'.bindings
  enclosing : scope.enclosing = scope'.enclosing

/-- The same scopes but for declarations. -/
def Store.Alike (leeway : Leeway) (store store' : Store) : Prop :=
  ∀ scope : ScopeId, Option.Rel (Scope.Alike leeway) store.scopes[scope]? store'.scopes[scope]?

/-- The same state but for declarations. -/
structure Interpreter.Alike (leeway : Leeway) (interpreter interpreter' : Interpreter) : Prop where
  store : Store.Alike leeway interpreter.store interpreter'.store
  globals : interpreter.globals = interpreter'.globals
  current : interpreter.current = interpreter'.current
  output : interpreter.output = interpreter'.output
  functions : interpreter.functions = interpreter'.functions

/-- Where the same names are bound, inserting a name replaces its value on both sides or appends it
on both. -/
theorem Bindings.Matches.insert {between : Correspondence} {bindings bindings' : Bindings}
    (hbindings : Matches leeway between bindings bindings') {value value' : Value}
    (hvalue : Value.Matches leeway between value value') (name : String) :
    Matches leeway between (bindings.insert name value) (bindings'.insert name value') := by
  induction hbindings with
  | nil => exact .cons ⟨rfl, hvalue⟩ .nil
  | @cons binding binding' others others' hbinding hothers ih =>
    obtain ⟨bound, former⟩ := binding
    obtain ⟨bound', former'⟩ := binding'
    obtain ⟨rfl, hformer⟩ := hbinding
    simp only [Bindings.insert]
    split
    · exact .cons ⟨rfl, hvalue⟩ hothers
    · exact .cons ⟨rfl, hformer⟩ ih

/-- A name has values that match, or none on either side. -/
theorem Bindings.Matches.lookup {between : Correspondence} {bindings bindings' : Bindings}
    (hbindings : Matches leeway between bindings bindings') (name : String) :
    Option.Rel (Value.Matches leeway between) (bindings.lookup name) (bindings'.lookup name) := by
  induction hbindings with
  | nil => exact .none
  | @cons binding binding' others others' hbinding hothers ih =>
    obtain ⟨bound, value⟩ := binding
    obtain ⟨bound', value'⟩ := binding'
    obtain ⟨rfl, hvalue⟩ := hbinding
    simp only [List.lookup_cons]
    split
    · exact .some hvalue
    · exact ih

theorem Scope.Alike.binds_eq {scope scope' : Scope} (halike : Alike leeway scope scope')
    (name : String) : scope.binds name = scope'.binds name :=
  isSome_eq_of_rel (halike.bindings.lookup name)

/-- Values that match may be bound to the same name. -/
theorem Scope.Alike.define {scope scope' : Scope} (halike : Alike leeway scope scope')
    {value value' : Value} (hvalue : Value.Matches leeway .same value value') (name : String) :
    Alike leeway (scope.define name value) (scope'.define name value') :=
  ⟨halike.bindings.insert hvalue name, halike.enclosing⟩

namespace Store.Alike

variable {store store' : Store}

/-- Stores that are alike have as many scopes as each other. -/
theorem size_eq (halike : Alike leeway store store') :
    store.scopes.size = store'.scopes.size := by
  refine eq_of_forall_lt_iff fun scope ↦ ?_
  have hscope := isSome_eq_of_rel (halike scope)
  rw [Bool.eq_iff_iff] at hscope
  simpa using hscope

/-- The same names are bound in each of the scopes. -/
theorem binds_eq (halike : Alike leeway store store') (name : String) (scope : ScopeId) :
    store.binds name scope = store'.binds name scope := by
  have hscope := halike scope
  rw [binds, binds]
  generalize store.scopes[scope]? = found at hscope
  generalize store'.scopes[scope]? = found' at hscope
  cases hscope with
  | some hscope => exact hscope.binds_eq name
  | none => rfl

/-- The scopes are nested in the same way. -/
theorem enclosing?_eq (halike : Alike leeway store store') (scope : ScopeId) :
    store.enclosing? scope = store'.enclosing? scope := by
  have hscope := halike scope
  rw [enclosing?, enclosing?]
  generalize store.scopes[scope]? = found at hscope
  generalize store'.scopes[scope]? = found' at hscope
  cases hscope with
  | some hscope => simp only [Option.bind_some, hscope.enclosing]
  | none => rfl

/-- So the same scope is the one in which a name is found. -/
theorem owner?_eq (halike : Alike leeway store store') (name : String) (scope : ScopeId) :
    store.owner? name scope = store'.owner? name scope :=
  Store.owner?_congr (fun inner _ ↦ halike.enclosing?_eq inner) (halike.binds_eq name)

/-- A name has the same value in both stores, but for declarations. -/
theorem get? (halike : Alike leeway store store') (name : String) (scope : ScopeId) :
    Option.Rel (Value.Matches leeway .same) (store.get? name scope) (store'.get? name scope) := by
  rw [Store.get?, Store.get?, halike.owner?_eq]
  cases store'.owner? name scope with
  | none => exact .none
  | some owner =>
    have hscope := halike owner
    change Option.Rel _ (store.scopes[owner]?.bind _) (store'.scopes[owner]?.bind _)
    generalize store.scopes[owner]? = found at hscope
    generalize store'.scopes[owner]? = found' at hscope
    cases hscope with
    | some hscope => exact hscope.bindings.lookup name
    | none => exact .none

/-- A name may be bound in a scope of both stores. If there is no such scope, neither of them
changes. -/
theorem define (halike : Alike leeway store store') {value value' : Value}
    (hvalue : Value.Matches leeway .same value value') (name : String) (scope : ScopeId) :
    Alike leeway (store.define name value scope) (store'.define name value' scope) := by
  intro other
  simp only [Store.define, Array.getElem?_modify]
  have hscope := halike other
  split
  · generalize store.scopes[other]? = found at hscope
    generalize store'.scopes[other]? = found' at hscope
    cases hscope with
    | some hscope => exact .some (hscope.define hvalue name)
    | none => exact .none
  · exact hscope

/-- An assignment finds the name in the same scope or fails on both sides. -/
theorem assign (halike : Alike leeway store store') {value value' : Value}
    (hvalue : Value.Matches leeway .same value value') (name : String) (scope : ScopeId) :
    (store.assign name value scope).1 = (store'.assign name value' scope).1 ∧
      Alike leeway (store.assign name value scope).2 (store'.assign name value' scope).2 := by
  rw [Store.assign, Store.assign, halike.owner?_eq]
  cases store'.owner? name scope with
  | none => exact ⟨rfl, halike⟩
  | some owner => exact ⟨rfl, halike.define hvalue name owner⟩

/-- The next scope has the same handle on both sides, since there are equally many. -/
theorem allocate (halike : Alike leeway store store') (enclosing : Option ScopeId) :
    (store.allocate enclosing).1 = (store'.allocate enclosing).1 ∧
      Alike leeway (store.allocate enclosing).2 (store'.allocate enclosing).2 := by
  refine ⟨halike.size_eq, fun scope ↦ ?_⟩
  simp only [Store.allocate, Array.getElem?_push, halike.size_eq]
  split
  · exact .some ⟨.nil, rfl⟩
  · exact halike scope

end Store.Alike

/-! ### States -/

/-- Everything stands for itself, and the states are alike. -/
def Interpreter.AlikeIn (leeway : Leeway) (between : Correspondence)
    (interpreter interpreter' : Interpreter) : Prop :=
  between = .same ∧ interpreter.Alike leeway interpreter'

namespace Interpreter.Alike

variable {interpreter interpreter' : Interpreter}

theorem printLine (halike : Alike leeway interpreter interpreter') (line : String) :
    Alike leeway (interpreter.printLine line) (interpreter'.printLine line) :=
  { halike with output := congrArg (· ++ line ++ "\n") halike.output }

theorem define (halike : Alike leeway interpreter interpreter') {value value' : Value}
    (hvalue : Value.Matches leeway .same value value') (name : String) (scope : ScopeId) :
    Alike leeway (interpreter.define name value scope) (interpreter'.define name value' scope) :=
  { halike with store := halike.store.define hvalue name scope }

theorem assign (halike : Alike leeway interpreter interpreter') {value value' : Value}
    (hvalue : Value.Matches leeway .same value value') (name : String) (scope : ScopeId) :
    (interpreter.assign name value scope).1 = (interpreter'.assign name value' scope).1 ∧
      Alike leeway (interpreter.assign name value scope).2
        (interpreter'.assign name value' scope).2 := by
  obtain ⟨hbound, hstore⟩ := halike.store.assign hvalue name scope
  exact ⟨hbound, { halike with store := hstore }⟩

/-- Bindings that match may be made one after the other. -/
theorem foldl_define (scope : ScopeId) {bindings bindings' : Bindings}
    (hbindings : Bindings.Matches leeway .same bindings bindings')
    (halike : Alike leeway interpreter interpreter') :
    Alike leeway
      (bindings.foldl (fun interpreter (name, value) ↦ interpreter.define name value scope)
        interpreter)
      (bindings'.foldl (fun interpreter (name, value) ↦ interpreter.define name value scope)
        interpreter') := by
  induction hbindings generalizing interpreter interpreter' with
  | nil => exact halike
  | @cons binding binding' others others' hbinding _ ih =>
    obtain ⟨name, value⟩ := binding
    obtain ⟨name', value'⟩ := binding'
    obtain ⟨rfl, hvalue⟩ := hbinding
    exact ih (halike.define hvalue name scope)

/-- New scopes have the same handle and are empty. -/
theorem newScope (halike : Alike leeway interpreter interpreter') (enclosing : ScopeId) :
    (interpreter.newScope enclosing).1 = (interpreter'.newScope enclosing).1 ∧
      Alike leeway (interpreter.newScope enclosing).2 (interpreter'.newScope enclosing).2 := by
  obtain ⟨hscope, hstore⟩ := halike.store.allocate (some enclosing)
  exact ⟨hscope, { halike with store := hstore }⟩

theorem enter (halike : Alike leeway interpreter interpreter') (scope : ScopeId) :
    Alike leeway (interpreter.enter scope).2 (interpreter'.enter scope).2 :=
  { halike with current := rfl }

end Interpreter.Alike

namespace Interpreter.AlikeIn

/-- States that are alike have values that match for each name, wherever it is looked up. -/
theorem lookupsMatch : LookupsMatch leeway (AlikeIn leeway) := by
  rintro _ _ _ scope _ name ⟨rfl, halike⟩ rfl
  exact halike.store.get? name scope

/-- Being alike is a simulation in which scopes and functions stand for themselves: every step does
the same to both of the states. -/
theorem simulation {host : Host} (hhost : host.Respects leeway (AlikeIn leeway)) :
    Simulation leeway host (AlikeIn leeway) where
  current := by
    rintro _ _ _ ⟨rfl, halike⟩
    exact halike.current
  lookups := lookupsMatch
  printLine := by
    rintro _ _ _ ⟨rfl, halike⟩ line
    exact ⟨rfl, halike.printLine line⟩
  define := by
    rintro _ state state' _ _ ⟨rfl, halike⟩ hvalue name
    rw [halike.current]
    exact ⟨rfl, halike.define hvalue name _⟩
  assign := by
    rintro _ state state' _ _ ⟨rfl, halike⟩ hvalue name
    rw [halike.current]
    obtain ⟨hbound, hassigned⟩ := halike.assign hvalue name state'.current
    exact ⟨hbound, rfl, hassigned⟩
  newFunction := by
    rintro _ state state' _ _ captured _ ⟨rfl, halike⟩ hdeclaration rfl
    refine ⟨.same, le_rfl, ?_, rfl, ?_⟩
    · exact .function (.declared halike.functions hdeclaration rfl)
    · exact { halike with functions := congrArg (· + 1) halike.functions }
  openScope := by
    rintro between enclosing enclosing' bindings bindings' henclosing hbindings
    refine .update fun grown hgrown state state' ↦ ?_
    rintro ⟨rfl, halike⟩
    obtain rfl : enclosing = enclosing' := hgrown.1 _ _ henclosing
    obtain ⟨hscope, hnew⟩ := halike.newScope enclosing
    refine ⟨.same, le_rfl, hscope, rfl, ?_⟩
    generalize state.newScope enclosing = opened at hscope hnew
    generalize state'.newScope enclosing = opened' at hscope hnew
    obtain ⟨scope, inner⟩ := opened
    obtain ⟨scope', inner'⟩ := opened'
    obtain rfl : scope = scope' := hscope
    exact .foldl_define scope (hbindings.grow hgrown) hnew
  enter := by
    rintro _ state state' scope _ ⟨rfl, halike⟩ rfl
    exact ⟨rfl, halike.enter scope⟩
  perform := hhost

end Interpreter.AlikeIn

/-- The operations of the standard host do not look into the functions that they are given. -/
theorem Host.standard_respects_alikeIn :
    Host.standard.Respects leeway (Interpreter.AlikeIn leeway) := by
  refine Host.standard_respects Interpreter.AlikeIn.lookupsMatch ?_
  rintro _ _ _ ⟨rfl, halike⟩
  exact halike.globals

/-- The operations of a host take no notice of the places that function values keep, if the calls
that they make do not. -/
def Host.IgnoresPlaces (host : Host) : Prop := host.Respects .none (Interpreter.AlikeIn .none)

/-- In particular they take no notice of places. -/
theorem Host.standard_ignoresPlaces : Host.standard.IgnoresPlaces := standard_respects_alikeIn

/-! ### Programs that say the same -/

/-- Every value matches itself. -/
theorem Value.Matches.same (value : Value) : Matches leeway .same value value := by
  cases value with
  | function callee =>
    obtain ⟨identity, body⟩ := callee
    cases body with
    | declared declaration captured =>
      have hbody : Stmt.AlikeAll leeway declaration.body declaration.body :=
        Stmt.alikeAll_of_eraseSpansAll_eq _ _ rfl
      exact .function (.declared rfl ⟨rfl, rfl, hbody⟩ rfl)
    | native name arity operation => exact .function (.native name arity operation rfl)
  | _ => constructor

/-- Whether values match does not depend on their order, as nothing but declarations may differ. -/
theorem Value.Matches.symm {value value' : Value} (hvalue : Matches leeway .same value value') :
    Matches leeway .same value' value := by
  cases hvalue with
  | function hcallee =>
    cases hcallee with
    | declared hidentity hdeclaration hcaptured =>
      exact .function (.declared hidentity.symm hdeclaration.symm hcaptured.symm)
    | native name arity operation hidentity =>
      exact .function (.native name arity operation hidentity.symm)
  | _ => constructor

/-- The same holds for states that are alike. -/
theorem Interpreter.Alike.symm {interpreter interpreter' : Interpreter}
    (halike : Alike leeway interpreter interpreter') : Alike leeway interpreter' interpreter where
  store scope := by
    have hscope := halike.store scope
    generalize interpreter.store.scopes[scope]? = found at hscope ⊢
    generalize interpreter'.store.scopes[scope]? = found' at hscope ⊢
    cases hscope with
    | some hscope =>
      have hbindings := hscope.bindings.flip.imp fun _ _ hbinding ↦
        And.intro hbinding.1.symm hbinding.2.symm
      exact .some ⟨hbindings, hscope.enclosing.symm⟩
    | none => exact .none
  globals := halike.globals.symm
  current := halike.current.symm
  output := halike.output.symm
  functions := halike.functions.symm

/-- Every state is like itself. -/
theorem Interpreter.Alike.same (interpreter : Interpreter) :
    Alike leeway interpreter interpreter where
  store scope := by
    cases interpreter.store.scopes[scope]? with
    | none => exact .none
    | some found => exact .some ⟨List.forall₂_same.mpr fun _ _ ↦ ⟨rfl, .same _⟩, rfl⟩
  globals := rfl
  current := rfl
  output := rfl
  functions := rfl

end Lox
