import Lox.Evaluation
import Lox.Proofs.Computation.Preservation
import Lox.Proofs.Execution.Simulation
import Lox.Proofs.Execution.Tandem

/-!
# Statements that are never reached

In a list of statements nothing is executed behind a `return`. `Stmt.prune` drops all of this from a
statement, in every list within it, and `Interpreter.prune` from the bodies of all functions that a
state holds. Running what is left, from what is left of a state, comes to what is left of the
outcome, whatever the bound (`Host.IgnoresUnreached.prunesUpTo`): pruning goes through every step
of a run.
-/

set_option autoImplicit false
set_option relaxedAutoImplicit false

namespace Lox

/-! ### Pruned programs and states -/

namespace Stmt

/-- Whether a statement is a `return` itself. -/
def isReturn : Stmt → Bool
  | .return _ _ => true
  | _ => false

mutual

/-- A statement without what is behind a `return` in a list within it. -/
def prune : Stmt → Stmt
  | .block body => .block (pruneAll body)
  | .conditional condition thenBranch elseBranch =>
    .conditional condition thenBranch.prune (pruneOption elseBranch)
  | .loop condition body => .loop condition body.prune
  | .function identifier parameters body span =>
    .function identifier parameters (pruneAll body) span
  | .expression value => .expression value
  | .print value => .print value
  | .declare target initializer => .declare target initializer
  | .return value span => .return value span

/-- Statements up to the first `return` among them. -/
def pruneAll : List Stmt → List Stmt
  | [] => []
  | first :: others => first.prune :: if first.isReturn then [] else pruneAll others

/-- A statement, if there is one, without what is behind a `return` in a list within it. -/
def pruneOption : Option Stmt → Option Stmt
  | none => none
  | some statement => some statement.prune

end

end Stmt

/-- A declaration with a pruned body. -/
def FunctionDeclaration.prune (declaration : FunctionDeclaration) : FunctionDeclaration :=
  { declaration with body := Stmt.pruneAll declaration.body }

namespace FunctionValue

/-- A function with a pruned body. -/
def prune (function : FunctionValue) : FunctionValue :=
  match function.body with
  | .declared declaration captured => ⟨function.identity, .declared declaration.prune captured⟩
  | .native _ _ _ => function

end FunctionValue

/-- A value, pruned if it is a function. -/
def Value.prune : Value → Value
  | .function callee => .function callee.prune
  | value => value

/-- Bindings of pruned values. -/
def Bindings.prune (bindings : Bindings) : Bindings :=
  bindings.map fun (name, value) ↦ (name, value.prune)

/-- A scope of pruned values. -/
def Scope.prune (scope : Scope) : Scope := { scope with bindings := scope.bindings.prune }

/-- A store of pruned values. -/
def Store.prune (store : Store) : Store := ⟨store.scopes.map Scope.prune⟩

/-- A state of pruned values. -/
def Interpreter.prune (interpreter : Interpreter) : Interpreter :=
  { interpreter with store := interpreter.store.prune }

/-- A flow with a pruned value. -/
def Flow.prune : Flow → Flow
  | .normal => .normal
  | .returned value => .returned value.prune

/-- An outcome with a changed value and a pruned state. -/
def Outcome.prune {α : Type} (change : α → α) :
    Outcome Interpreter RuntimeError α → Outcome Interpreter RuntimeError α
  | done value state => .done (change value) state.prune
  | failed error state => .failed error state.prune
  | exhausted => .exhausted

namespace FunctionValue

variable (function : FunctionValue)

@[simp]
theorem identity_prune : function.prune.identity = function.identity := by
  obtain ⟨identity, body⟩ := function
  cases body <;> rfl

/-- A function is called, shown and compared in the same way whether its body is pruned or not:
pruning leaves its name, its number of parameters and its identity. -/
@[simp]
theorem name_prune : function.prune.name = function.name := by
  obtain ⟨identity, body⟩ := function
  cases body <;> rfl

@[simp]
theorem arity_prune : function.prune.arity = function.arity := by
  obtain ⟨identity, body⟩ := function
  cases body <;> rfl

@[simp]
theorem display_prune : function.prune.display = function.display := by
  obtain ⟨identity, body⟩ := function
  cases body <;> rfl

end FunctionValue

namespace Value

variable (value : Value)

@[simp]
theorem isTruthy_prune : value.prune.isTruthy = value.isTruthy := by
  cases value <;> rfl

/-- A pruned value is printed as the value is, since a function is shown by its name. -/
@[simp]
theorem display_prune : value.prune.display = value.display := by
  cases value with
  | function callee => exact callee.display_prune
  | _ => rfl

end Value

theorem Literal.value_prune (literal : Literal) : literal.value.prune = literal.value := by
  cases literal <;> rfl

/-- No operator looks into a function, so operators of one operand commute with pruning. -/
theorem UnaryOperator.apply_prune (operator : UnaryOperator) (value : Value) :
    operator.apply value.prune = (operator.apply value).map Value.prune := by
  cases operator <;> cases value <;> rfl

/-- Operators of two operands commute with pruning as well. Two functions are equal by their
identity, and a mismatch names the types of the operands, which stay the same. -/
theorem BinaryOperator.apply_prune (operator : BinaryOperator) (left right : Value) :
    operator.apply left.prune right.prune = (operator.apply left right).map Value.prune := by
  cases operator <;> cases left <;> cases right <;> first
    | rfl
    | simp [apply, Except.map, Value.prune, Value.equals]

/-- Whether an operand decides a logical operator does not depend on the body of a function. -/
theorem LogicalOperator.isDecided_prune (operator : LogicalOperator) (value : Value) :
    operator.isDecided value.prune = operator.isDecided value := by
  cases operator <;> simp [isDecided]

/-- A name may be bound before or after the pruning. -/
theorem Bindings.insert_prune (name : String) (value : Value) (bindings : Bindings) :
    (bindings.insert name value).prune = bindings.prune.insert name value.prune := by
  induction bindings with
  | nil => rfl
  | cons binding others ih =>
    obtain ⟨bound, former⟩ := binding
    simp only [insert, prune, List.map_cons] at ih ⊢
    split
    · rfl
    · rw [List.map_cons, ih]

/-- What a name is bound to after the pruning is what it was bound to, pruned. -/
theorem Bindings.lookup_prune (name : String) (bindings : Bindings) :
    bindings.prune.lookup name = (bindings.lookup name).map Value.prune := by
  induction bindings with
  | nil => rfl
  | cons binding others ih =>
    obtain ⟨bound, former⟩ := binding
    simp only [prune, List.map_cons, List.lookup_cons] at ih ⊢
    split
    · rfl
    · exact ih

namespace Store

variable (store : Store) (name : String) (scope : ScopeId)

theorem getElem?_prune : store.prune.scopes[scope]? = store.scopes[scope]?.map Scope.prune := by
  simp [prune]

theorem binds_prune : store.prune.binds name scope = store.binds name scope := by
  rw [binds, binds, getElem?_prune]
  cases store.scopes[scope]? with
  | none => rfl
  | some found => simp [Scope.binds, Scope.value?, Scope.prune, Bindings.lookup_prune]

theorem enclosing?_prune : store.prune.enclosing? scope = store.enclosing? scope := by
  rw [enclosing?, enclosing?, getElem?_prune]
  cases store.scopes[scope]? <;> rfl

/-- Pruning leaves the names and the links of all scopes, and so the owner of every name. -/
theorem owner?_prune : store.prune.owner? name scope = store.owner? name scope :=
  owner?_congr (fun inner _ ↦ store.enclosing?_prune inner) (store.binds_prune name)

/-- A lookup in the pruned store finds the pruned value, and finds one exactly if there was one. -/
theorem get?_prune : store.prune.get? name scope = (store.get? name scope).map Value.prune := by
  rw [get?, get?, owner?_prune]
  cases store.owner? name scope with
  | none => rfl
  | some owner =>
    simp only [Option.bind_eq_bind, Option.bind_some, getElem?_prune]
    cases store.scopes[owner]? with
    | none => rfl
    | some found => exact Bindings.lookup_prune name found.bindings

/-- A scope may get a new binding before or after the pruning, whether it exists or not. -/
theorem define_prune (value : Value) :
    (store.define name value scope).prune = store.prune.define name value.prune scope := by
  simp only [prune, define, Store.mk.injEq]
  refine Array.ext_getElem? fun inner ↦ ?_
  simp only [Array.getElem?_map, Array.getElem?_modify]
  split
  · cases store.scopes[inner]? with
    | none => rfl
    | some found => simp [Scope.define, Scope.prune, Bindings.insert_prune]
  · rfl

end Store

theorem Bindings.ofPairs_prune (pairs : List (String × Value)) :
    (ofPairs pairs).prune = ofPairs (prune pairs) := by
  suffices hall : ∀ made : Bindings,
      (pairs.foldl (fun made (name, value) ↦ made.insert name value) made).prune
        = (prune pairs).foldl (fun made (name, value) ↦ made.insert name value) made.prune from
    hall []
  intro made
  induction pairs generalizing made with
  | nil => rfl
  | cons pair others ih =>
    obtain ⟨name, value⟩ := pair
    rw [List.foldl_cons, ih, insert_prune]
    rfl

/-- A state with a new scope for a block or a call is pruned by pruning the state and what is bound
in the scope. -/
theorem Interpreter.nested_prune (enclosing : ScopeId) (pairs : List (String × Value))
    (interpreter : Interpreter) :
    (interpreter.nested enclosing pairs).prune
      = interpreter.prune.nested enclosing (Bindings.prune pairs) := by
  simp [nested, prune, Store.prune, Scope.prune, Bindings.ofPairs_prune]

/-! ### Computations -/

namespace Run

variable {α β : Type} {change : α → α} {result : β → β}

/-- From a pruned state, the second computation ends as the first one does from the state itself,
but for what is pruned. -/
def Prunes (change : α → α) (computation pruned : Run α) : Prop :=
  ∀ state : Interpreter, pruned.run state.prune = (computation.run state).prune change

namespace Prunes

variable {computation pruned : Run α} {next next' : α → Run β}

/-- What gives up gives up in either state. -/
theorem exhausted : Prunes change Bounded.exhausted Bounded.exhausted := fun _ ↦ rfl

theorem pure {value value' : α} (hvalue : value' = change value) :
    Prunes change (Pure.pure value) (Pure.pure value') := by
  rw [hvalue]
  exact fun _ ↦ rfl

theorem fail (error : RuntimeError) : Prunes change (Bounded.fail error) (Bounded.fail error) :=
  fun _ ↦ rfl

/-- A result that does not depend on the state is pruned with its value, and an error stays as it
is. -/
theorem ofExcept {outcome outcome' : Except RuntimeError α}
    (houtcome : outcome' = outcome.map change) :
    Prunes change (Bounded.ofExcept outcome) (Bounded.ofExcept outcome') := by
  rw [houtcome]
  cases outcome <;> exact fun _ ↦ rfl

/-- A change of the state prunes if it may be made before or after the pruning. -/
theorem modify {before after : Interpreter → Interpreter}
    (hchange : ∀ state : Interpreter, after state.prune = (before state).prune) :
    Prunes id (Bounded.modify before) (Bounded.modify after) := by
  intro state
  rw [Bounded.run_modify, Bounded.run_modify, hchange]
  rfl

/-- A chain of which the first part has only values of a certain kind. -/
theorem bindOf {holds : α → Prop} (hcomputation : Prunes change computation pruned)
    (hholds : computation.Yields holds)
    (hnext : ∀ value, holds value → Prunes result (next value) (next' (change value))) :
    Prunes result (computation >>= next) (pruned >>= next') := by
  intro state
  rw [Bounded.run_bind, Bounded.run_bind, hcomputation state]
  cases hrun : computation.run state with
  | done value reached => exact hnext value (hholds _ _ _ hrun) reached
  | failed error reached => rfl
  | exhausted => rfl

/-- Computations one after the other prune if each of them does; the second one goes on from the
pruned value of the first. This is where the errors and the exhaustion of the first one are carried
over once and for all. -/
theorem bind (hcomputation : Prunes change computation pruned)
    (hnext : ∀ value, Prunes result (next value) (next' (change value))) :
    Prunes result (computation >>= next) (pruned >>= next') :=
  hcomputation.bindOf (fun _ _ _ _ ↦ True.intro) fun value _ ↦ hnext value

/-- A view of the state that is not pruned. -/
theorem view {view : Interpreter → α} (hview : ∀ state : Interpreter, view state.prune = view state)
    (hnext : ∀ value, Prunes result (next value) (next' value)) :
    Prunes result (Bounded.gets view >>= next) (Bounded.gets view >>= next') := by
  have hgets : Prunes id (Bounded.gets view) (Bounded.gets view) := by
    intro state
    rw [Bounded.run_gets, Bounded.run_gets, hview]
    rfl
  exact hgets.bind hnext

/-- What is run in a scope of its own. -/
theorem nested (enclosing : ScopeId) (pairs : List (String × Value))
    (hbody : Prunes change computation pruned) :
    Prunes change (Run.nested enclosing pairs computation)
      (Run.nested enclosing (Bindings.prune pairs) pruned) := by
  intro state
  rw [Run.nested, Run.nested, Bounded.run_within, Bounded.run_within, ← Interpreter.nested_prune,
    hbody]
  cases computation.run (state.nested enclosing pairs) <;> rfl

/-- A name is looked up with the pruned value, or fails in both states. -/
theorem valueIn (name : String) (scope : ScopeId) :
    Prunes Value.prune (Run.valueIn name scope) (Run.valueIn name scope) := by
  intro state
  rw [run_valueIn, run_valueIn, Interpreter.prune, Store.get?_prune]
  cases state.store.get? name scope <;> rfl

/-- A name is assigned a pruned value where it is found, or fails in both states. -/
theorem assignIn (name : String) (value : Value) (scope : ScopeId) :
    Prunes id (Run.assignIn name value scope) (Run.assignIn name value.prune scope) := by
  intro state
  rw [run_assignIn, run_assignIn, Interpreter.prune, Store.owner?_prune]
  cases state.store.owner? name scope with
  | none => rfl
  | some owner =>
    simp only [Option.elim_some, ← Store.define_prune]
    rfl

theorem define (name : String) (value : Value) :
    Prunes id (Run.define name value) (Run.define name value.prune) :=
  .modify fun state ↦ by
    simp only [Interpreter.define, Interpreter.prune, ← Store.define_prune]

/-- What is printed is the same, and so is the text of it. -/
theorem printLine (line : String) : Prunes id (Bounded.modify (·.printLine line))
    (Bounded.modify (·.printLine line)) :=
  .modify fun _ ↦ rfl

/-- A declaration that is executed makes a function of the same identity, with the pruned body. -/
theorem newFunction (declaration : FunctionDeclaration) (captured : ScopeId) :
    Prunes Value.prune (Bounded.update (·.newFunction (.declared declaration captured)))
      (Bounded.update (·.newFunction (.declared declaration.prune captured))) :=
  fun _ ↦ rfl

end Prunes

end Run

open Run (Prunes)

/-- Calls of pruned functions, with pruned arguments, end as the calls of the functions do. -/
def CallsPrune (call : FunctionValue → List Value → Run Value) : Prop :=
  ∀ function arguments, Prunes Value.prune (call function arguments)
    (call function.prune (arguments.map Value.prune))

/-- The operations of a host take no notice of what is behind a `return` in the body of a function,
if the calls that they make do not. -/
def Host.IgnoresUnreached (host : Host) : Prop :=
  ∀ call, CallsPrune call → ∀ name operation arguments,
    Prunes Value.prune (host.perform call name operation arguments)
      (host.perform call name operation (arguments.map Value.prune))

namespace CallsPrune

variable {call : FunctionValue → List Value → Run Value}

/-- A value that is no function is refused in the same words, and a function is called as it is. -/
theorem callValue (hcall : CallsPrune call) (callee : Value) (arguments : List Value) :
    Prunes Value.prune (callValue call callee arguments)
      (callValue call callee.prune (arguments.map Value.prune)) := by
  cases callee with
  | function callee => exact hcall callee arguments
  | _ => exact .fail _

/-- The number of arguments is compared with the same number of parameters. -/
theorem callExact (hcall : CallsPrune call) : CallsPrune (callExact call) := by
  intro function arguments
  simp only [Lox.callExact, List.length_map, FunctionValue.arity_prune, FunctionValue.name_prune]
  split
  · exact hcall function arguments
  · exact .fail _

end CallsPrune

/-- The operations of the standard host look at the arguments and at global names, and call what
they are given; none of them looks into the body of a function. -/
theorem Host.standard_ignoresUnreached : Host.standard.IgnoresUnreached := by
  intro call hcall name operation arguments
  change Prunes Value.prune (operation.perform call name arguments)
    (operation.perform call name (arguments.map Value.prune))
  cases operation with
  | clock now => exact .pure rfl
  | date now => exact .pure rfl
  | first => cases arguments <;> exact .pure rfl
  | count =>
    simp only [Native.perform, List.length_map]
    exact .pure rfl
  | fail => exact .fail _
  | twice =>
    cases arguments with
    | nil => exact .fail _
    | cons argument others =>
      cases argument with
      | number value => exact .pure rfl
      | _ => exact .fail _
  | apply =>
    cases arguments with
    | nil => exact hcall.callValue .nil []
    | cons argument others => exact hcall.callValue argument others
  | global =>
    cases arguments with
    | nil => exact .pure rfl
    | cons argument others =>
      cases argument with
      | string target => exact .view (fun _ ↦ rfl) fun scope ↦ .valueIn target scope
      | _ => exact .pure rfl

/-! ### Whole runs -/

/-- Whatever is run with a given bound, what is left of it ends as it does, but for what is
pruned. -/
structure PrunesUpTo (host : Host) (bound : Nat) : Prop where
  evaluate : ∀ tree, Prunes Value.prune (evaluate host bound tree) (evaluate host bound tree)
  evaluateAll : ∀ trees,
    Prunes (List.map Value.prune) (evaluateAll host bound trees) (evaluateAll host bound trees)
  execute : ∀ tree : Stmt,
    Prunes Flow.prune (execute host bound tree) (execute host bound tree.prune)
  executeAll : ∀ trees,
    Prunes Flow.prune (executeAll host bound trees) (executeAll host bound (Stmt.pruneAll trees))
  call : CallsPrune (call host bound)

namespace PrunesUpTo

variable {host : Host} {bound : Nat}

/-- An expression is the same in both runs, for nothing is pruned in it. Its operands are, and the
names it finds have pruned values. -/
theorem evaluate_succ (ih : PrunesUpTo host bound) (tree : Expr) :
    Prunes Value.prune (Lox.evaluate host (bound + 1) tree)
      (Lox.evaluate host (bound + 1) tree) := by
  cases tree with
  | literal literal span => exact .pure literal.value_prune.symm
  | grouping inner span => exact ih.evaluate inner
  | unary operator operand span =>
    exact .bind (ih.evaluate operand) fun value ↦ .ofExcept (operator.apply_prune value)
  | binary operator left right span =>
    exact .bind (ih.evaluate left) fun first ↦ .bind (ih.evaluate right) fun second ↦
      .ofExcept (operator.apply_prune first second)
  | logical operator left right span =>
    refine .bind (ih.evaluate left) fun first ↦ ?_
    rw [operator.isDecided_prune]
    split
    · exact .pure rfl
    · exact ih.evaluate right
  | name identifier =>
    exact .view (fun _ ↦ rfl) fun scope ↦ .valueIn identifier.name scope
  | assign target source span =>
    refine .bind (ih.evaluate source) fun value ↦ ?_
    refine .view (fun _ ↦ rfl) fun scope ↦ ?_
    exact .bind (.assignIn target.name value scope) fun _ ↦ .pure rfl
  | call callee arguments span =>
    exact .bind (ih.evaluate callee) fun called ↦ .bind (ih.evaluateAll arguments) fun values ↦
      ih.call.callExact.callValue called values

theorem evaluateAll_succ (ih : PrunesUpTo host bound) (trees : List Expr) :
    Prunes (List.map Value.prune) (Lox.evaluateAll host (bound + 1) trees)
      (Lox.evaluateAll host (bound + 1) trees) := by
  cases trees with
  | nil => exact .pure rfl
  | cons tree others =>
    exact .bind (ih.evaluate tree) fun value ↦ .bind (ih.evaluateAll others) fun values ↦ .pure rfl

/-- A statement is run pruned. Only blocks, branches, turns and the bodies of functions have
anything to prune, and each is one of the statements with the smaller bound. -/
theorem execute_succ (ih : PrunesUpTo host bound) (tree : Stmt) :
    Prunes Flow.prune (Lox.execute host (bound + 1) tree)
      (Lox.execute host (bound + 1) tree.prune) := by
  cases tree with
  | expression value => exact .bind (ih.evaluate value) fun _ ↦ .pure rfl
  | print value =>
    refine .bind (ih.evaluate value) fun value ↦ ?_
    rw [value.display_prune]
    exact .bind (.printLine _) fun _ ↦ .pure rfl
  | declare target initializer =>
    cases initializer with
    | none => exact .bind (.define target.name .nil) fun _ ↦ .pure rfl
    | some initializer =>
      exact .bind (ih.evaluate initializer) fun value ↦
        .bind (.define target.name value) fun _ ↦ .pure rfl
  | block body =>
    refine .view (fun _ ↦ rfl) fun scope ↦ ?_
    simp only [Run.openScope_bind_inScope]
    exact .nested scope [] (ih.executeAll body)
  | conditional condition thenBranch elseBranch =>
    refine .bind (ih.evaluate condition) fun value ↦ ?_
    rw [value.isTruthy_prune]
    split
    · exact ih.execute thenBranch
    · cases elseBranch with
      | none => exact .pure rfl
      | some branch => exact ih.execute branch
  | loop condition body =>
    refine .bind (ih.evaluate condition) fun value ↦ ?_
    rw [value.isTruthy_prune]
    split
    · refine .bind (ih.execute body) fun flow ↦ ?_
      cases flow with
      | normal => exact ih.execute (.loop condition body)
      | returned value => exact .pure rfl
    · exact .pure rfl
  | function identifier parameters body span =>
    refine .view (fun _ ↦ rfl) fun scope ↦ ?_
    refine .bind (.newFunction ⟨identifier, parameters, body, span⟩ scope) fun value ↦ ?_
    exact .bind (.define identifier.name value) fun _ ↦ .pure rfl
  | «return» value span =>
    cases value with
    | none => exact .pure rfl
    | some result => exact .bind (ih.evaluate result) fun value ↦ .pure rfl

/-- This is the step that pruning is about. Behind a `return` the list ends in both runs, since the
`return` ends with a value or not at all, and behind any other statement the list goes on. -/
theorem executeAll_succ (ih : PrunesUpTo host bound) (trees : List Stmt) :
    Prunes Flow.prune (Lox.executeAll host (bound + 1) trees)
      (Lox.executeAll host (bound + 1) (Stmt.pruneAll trees)) := by
  cases trees with
  | nil => exact .pure rfl
  | cons tree others =>
    cases hreturn : tree.isReturn with
    | false =>
      rw [Stmt.pruneAll, hreturn, if_neg Bool.false_ne_true]
      refine .bind (ih.execute tree) fun flow ↦ ?_
      cases flow with
      | normal => exact ih.executeAll others
      | returned value => exact .pure rfl
    | true =>
      obtain ⟨value, span, rfl⟩ : ∃ value span, tree = .return value span := by
        cases tree with
        | «return» value span => exact ⟨value, span, rfl⟩
        | _ => cases hreturn
      rw [Stmt.pruneAll, hreturn, if_pos rfl]
      refine .bindOf (ih.execute (.return value span)) (Simulation.yields_returned value span) ?_
      rintro _ ⟨result, rfl⟩
      exact .pure rfl

/-- A function is called with the pruned body in a frame of pruned arguments, and what is returned
is the pruned value. -/
theorem call_succ (hhost : host.IgnoresUnreached) (ih : PrunesUpTo host bound) :
    CallsPrune (Lox.call host (bound + 1)) := by
  rintro ⟨identity, body⟩ arguments
  cases body with
  | declared declaration captured =>
    have hpairs : (declaration.parameters.map Identifier.name).zip (arguments.map Value.prune)
        = Bindings.prune ((declaration.parameters.map Identifier.name).zip arguments) := by
      rw [List.zip_map_right]
      rfl
    simp only [Lox.call, FunctionValue.prune, FunctionDeclaration.prune,
      Run.openScope_bind_inScope_bind, hpairs]
    refine .bind (.nested captured _ (ih.executeAll declaration.body)) fun flow ↦ ?_
    cases flow <;> exact .pure rfl
  | native name arity operation => exact hhost _ ih.call name operation arguments

end PrunesUpTo

/-- Whatever is run comes to what is left of the outcome, by induction on the bound. -/
theorem Host.IgnoresUnreached.prunesUpTo {host : Host} (hhost : host.IgnoresUnreached)
    (bound : Nat) : PrunesUpTo host bound := by
  induction bound with
  | zero =>
    exact ⟨fun _ ↦ .exhausted, fun _ ↦ .exhausted, fun _ ↦ .exhausted, fun _ ↦ .exhausted,
      fun _ _ ↦ .exhausted⟩
  | succ bound ih =>
    exact ⟨ih.evaluate_succ, ih.evaluateAll_succ, ih.execute_succ, ih.executeAll_succ,
      ih.call_succ hhost⟩

end Lox
