import Lox.Proofs.Computation.Termination
import Lox.Proofs.Execution.Correspondence
import Lox.Proofs.Execution.ScopeRestoration
import Lox.Proofs.Scoping.Steps

/-!
# Invariants that know the values

What a run does to a state depends on the values that it has come by: a call opens a scope inside
the one that the called function has captured. So an invariant of runs has to speak of values, of
those that are bound and of those that are only in hand, as arguments and results are.

An `Invariant` says which states are valid, and which values and scopes are known, at a *stage*. The
stage is a record of what has been made so far; it only grows, and what is known stays known. If
every single step keeps the invariant (`Invariant.HeldBySteps`), and what the host brings in keeps
it too (`Invariant.HeldByHost`), then everything that is run from a valid state with known values
leaves a valid state behind, however it ends, and yields known values
(`Invariant.HeldByHost.upTo`). It follows for all states that can come up
(`Invariant.HeldByHost.exists_valid`), in the middle of a run too: `Interpreter.ComesUp` goes on
from a state, with the values in hand there, by whole runs and by the steps of which they are made.
-/

set_option autoImplicit false
set_option relaxedAutoImplicit false

namespace Lox

open Interpreter

/-- A value that stands for itself when no function stands for any is no function. -/
theorem Value.ne_function_of_matches {value : Value}
    (hvalue : ∀ between, Value.Matches .none between value value) (callee : FunctionValue) :
    value ≠ .function callee := by
  rintro rfl
  cases hvalue ⟨fun _ _ ↦ False, fun _ _ ↦ False, False.elim⟩ with
  | function hcallee => exact hcallee.identity

/-- Unary operators never yield a function, so what they yield is known at every stage. -/
theorem UnaryOperator.ne_function {operator : UnaryOperator} {value result : Value}
    (hresult : operator.apply value = .ok result) : ∀ callee, result ≠ .function callee :=
  Value.ne_function_of_matches fun _ ↦ matches_apply hresult

/-- Nor do binary operators, also not by giving one of their operands back. -/
theorem BinaryOperator.ne_function {operator : BinaryOperator} {left right result : Value}
    (hresult : operator.apply left right = .ok result) : ∀ callee, result ≠ .function callee :=
  Value.ne_function_of_matches fun _ ↦ matches_apply hresult

/-! ### Invariants -/

/-- Which states are valid, and which values and scopes are known, at the stages of a run. -/
structure Invariant (Stage : Type) where
  valid : Stage → Interpreter → Prop
  value : Stage → Value → Prop
  scope : Stage → ScopeId → Prop

namespace Invariant

variable {Stage : Type} [Preorder Stage] (inv : Invariant Stage) {α β : Type}

/-- From a valid state a computation goes on to a valid state of a later stage, and if it yields a
value, then one that is as it should be at that stage. -/
def Safe (stage : Stage) (result : Stage → α → Prop) (computation : Run α) : Prop :=
  ∀ before after, inv.valid stage before → (computation.run before).state? = some after →
    ∃ later, stage ≤ later ∧ inv.valid later after ∧
      ∀ value, computation.run before = .done value after → result later value

/-- How a statement ends: a value that is returned is known. -/
def flow (stage : Stage) (flow : Flow) : Prop :=
  ∀ value, flow = .returned value → inv.value stage value

/-- All values of a list are known. -/
def values (stage : Stage) (values : List Value) : Prop :=
  ∀ value ∈ values, inv.value stage value

/-- Calls of known functions with known arguments are safe and yield known values. -/
def SafeCalls (stage : Stage) (call : FunctionValue → List Value → Run Value) : Prop :=
  ∀ later, stage ≤ later → ∀ function arguments, inv.value later (.function function) →
    inv.values later arguments → inv.Safe later inv.value (call function arguments)

/-- An invariant that every step of a run keeps, the steps of a host apart. -/
structure HeldBySteps : Prop where
  value_mono : ∀ {stage later value}, stage ≤ later → inv.value stage value → inv.value later value
  scope_mono : ∀ {stage later scope}, stage ≤ later → inv.scope stage scope → inv.scope later scope
  plain : ∀ stage value, (∀ callee, value ≠ .function callee) → inv.value stage value
  captured : ∀ {stage identity declaration captured},
    inv.value stage (.function ⟨identity, .declared declaration captured⟩) →
      inv.scope stage captured
  current : ∀ {stage interpreter}, inv.valid stage interpreter → inv.scope stage interpreter.current
  globals : ∀ {stage interpreter}, inv.valid stage interpreter → inv.scope stage interpreter.globals
  made : ∀ {stage interpreter scope}, inv.valid stage interpreter →
    scope < interpreter.store.scopes.size → inv.scope stage scope
  found : ∀ {stage interpreter name scope value}, inv.valid stage interpreter →
    interpreter.store.valueAt? name scope = some value → inv.value stage value
  output : ∀ {stage interpreter} text, inv.valid stage interpreter →
    inv.valid stage { interpreter with output := text }
  define : ∀ {stage interpreter value scope} name, inv.valid stage interpreter →
    inv.scope stage scope → inv.value stage value →
      inv.valid stage (interpreter.define name value scope)
  newFunction : ∀ {stage interpreter} body, inv.valid stage interpreter →
    (∀ declaration captured, body = .declared declaration captured → inv.scope stage captured) →
      ∃ later, stage ≤ later ∧ inv.valid later (interpreter.newFunction body).2 ∧
        inv.value later (interpreter.newFunction body).1
  newScope : ∀ {stage interpreter enclosing}, inv.valid stage interpreter →
    inv.scope stage enclosing →
      ∃ later, stage ≤ later ∧ inv.valid later (interpreter.newScope enclosing).2 ∧
        inv.scope later (interpreter.newScope enclosing).1
  enter : ∀ {stage interpreter scope}, inv.valid stage interpreter → inv.scope stage scope →
    inv.valid stage (interpreter.enter scope).2

/-- A host keeps the invariant as well, if the calls that it makes keep it. -/
structure HeldByHost (host : Host) : Prop extends inv.HeldBySteps where
  perform : ∀ stage call, inv.SafeCalls stage call → ∀ name operation arguments,
    inv.values stage arguments →
      inv.Safe stage inv.value (host.perform call name operation arguments)

namespace Safe

variable {inv} {stage : Stage} {result : Stage → α → Prop}

/-- A computation that has no bound left goes on to nothing at all. -/
theorem exhausted : inv.Safe stage result Bounded.exhausted := by
  intro before after _ hafter
  cases hafter

/-- A value that is as it should be now may be yielded, and no new stage is needed for it. -/
theorem pure {value : α} (hvalue : result stage value) :
    inv.Safe stage result (Pure.pure value) := by
  intro before after hvalid hafter
  obtain rfl := Option.some.inj hafter
  refine ⟨stage, le_rfl, hvalid, ?_⟩
  rintro _ ⟨⟩
  exact hvalue

/-- A failure leaves the state as it is and yields no value. -/
theorem fail (error : RuntimeError) : inv.Safe stage result (Bounded.fail error) := by
  intro before after hvalid hafter
  obtain rfl := Option.some.inj hafter
  refine ⟨stage, le_rfl, hvalid, ?_⟩
  rintro _ ⟨⟩

theorem ofExcept {outcome : Except RuntimeError α}
    (hvalue : ∀ value, outcome = .ok value → result stage value) :
    inv.Safe stage result (Bounded.ofExcept outcome) := by
  cases outcome with
  | ok value => exact pure (hvalue value rfl)
  | error error => exact fail error

/-- A view of the state is as it should be if it is so of every valid state. -/
theorem gets {view : Interpreter → α}
    (hview : ∀ interpreter, inv.valid stage interpreter → result stage (view interpreter)) :
    inv.Safe stage result (Bounded.gets view) := by
  intro before after hvalid hafter
  obtain rfl := Option.some.inj hafter
  refine ⟨stage, le_rfl, hvalid, ?_⟩
  rintro _ ⟨⟩
  exact hview _ hvalid

/-- A change that keeps states valid at their stage is safe by itself. -/
theorem modify {change : Interpreter → Interpreter}
    (hchange : ∀ interpreter, inv.valid stage interpreter → inv.valid stage (change interpreter)) :
    inv.Safe stage (fun _ _ ↦ True) (Bounded.modify change) := by
  intro before after hvalid hafter
  obtain rfl := Option.some.inj hafter
  exact ⟨stage, le_rfl, hchange _ hvalid, fun _ _ ↦ trivial⟩

/-- A change that makes something new may go on to a later stage, at which its result is looked at.
-/
theorem update {change : Interpreter → α × Interpreter}
    (hchange : ∀ interpreter, inv.valid stage interpreter → ∃ later, stage ≤ later ∧
      inv.valid later (change interpreter).2 ∧ result later (change interpreter).1) :
    inv.Safe stage result (Bounded.update change) := by
  intro before after hvalid hafter
  obtain rfl := Option.some.inj hafter
  obtain ⟨later, hlater, hvalid, hresult⟩ := hchange before hvalid
  refine ⟨later, hlater, hvalid, ?_⟩
  rintro _ ⟨⟩
  exact hresult

/-- One computation after the other: the second one begins at whatever stage the first has come to,
and only with values that are as they should be there. -/
theorem bind {last : Stage → β → Prop} {first : Run α} {next : α → Run β}
    (hfirst : inv.Safe stage result first)
    (hnext : ∀ later, stage ≤ later → ∀ value, result later value →
      inv.Safe later last (next value)) :
    inv.Safe stage last (first >>= next) := by
  intro before after hvalid hafter
  obtain ⟨error, hrun⟩ | ⟨value, middle, hrun, hafter⟩ := Bounded.state?_run_bind hafter
  · obtain ⟨later, hlater, hreached, -⟩ := hfirst before after hvalid (by rw [hrun, Outcome.state?])
    refine ⟨later, hlater, hreached, fun value hvalue ↦ ?_⟩
    rw [Bounded.run_bind, hrun] at hvalue
    cases hvalue
  · obtain ⟨later, hlater, hmiddle, hresult⟩ :=
      hfirst before middle hvalid (by rw [hrun, Outcome.state?])
    obtain ⟨latest, hlatest, hreached, hlast⟩ :=
      hnext later hlater value (hresult value hrun) middle after hmiddle hafter
    refine ⟨latest, le_trans hlater hlatest, hreached, fun reached hreached ↦ ?_⟩
    rw [Bounded.run_bind_of_done hrun] at hreached
    exact hlast reached hreached

end Safe

namespace HeldBySteps

variable {inv} (h : inv.HeldBySteps) {stage : Stage}

include h

/-- What is known stays known, for the values of a list one by one. -/
theorem values_mono {later : Stage} (hlater : stage ≤ later) {values : List Value}
    (hvalues : inv.values stage values) : inv.values later values :=
  fun value hmem ↦ h.value_mono hlater (hvalues value hmem)

/-- Whatever a name has for its value in a valid state is known, since it is bound in one of the
scopes. -/
theorem get? {interpreter : Interpreter} (hvalid : inv.valid stage interpreter) {name : String}
    {scope : ScopeId} {value : Value} (hvalue : interpreter.store.get? name scope = some value) :
    inv.value stage value := by
  rw [Store.get?_eq_findSome?] at hvalue
  obtain ⟨owner, -, howner⟩ := List.exists_of_findSome?_eq_some hvalue
  exact h.found hvalid howner

theorem currentScope : inv.Safe stage inv.scope (Bounded.gets Interpreter.current) :=
  .gets fun _ hvalid ↦ h.current hvalid

theorem globalScope : inv.Safe stage inv.scope (Bounded.gets Interpreter.globals) :=
  .gets fun _ hvalid ↦ h.globals hvalid

/-- A name that is looked up yields a known value or fails. -/
theorem valueIn (name : String) (scope : ScopeId) :
    inv.Safe stage inv.value (Run.valueIn name scope) := by
  intro before after hvalid hafter
  have hrun := Run.run_valueIn name scope before
  cases hvalue : before.store.get? name scope <;> rw [hvalue] at hrun <;> rw [hrun] at hafter <;>
    obtain rfl := Option.some.inj hafter
  · refine ⟨stage, le_rfl, hvalid, fun value hdone ↦ ?_⟩
    rw [hrun] at hdone
    cases hdone
  · refine ⟨stage, le_rfl, hvalid, fun value hdone ↦ ?_⟩
    rw [hrun] at hdone
    cases hdone
    exact h.get? hvalid hvalue

/-- An assignment binds the name anew in a scope that has been made, or it fails. -/
theorem assignIn {value : Value} (hvalue : inv.value stage value) (name : String)
    (scope : ScopeId) : inv.Safe stage (fun _ _ ↦ True) (Run.assignIn name value scope) := by
  intro before after hvalid hafter
  have hrun := Run.run_assignIn name value scope before
  cases howner : before.store.owner? name scope with
  | none =>
    rw [howner] at hrun
    rw [hrun] at hafter
    obtain rfl := Option.some.inj hafter
    exact ⟨stage, le_rfl, hvalid, fun _ _ ↦ trivial⟩
  | some owner =>
    rw [howner] at hrun
    rw [hrun] at hafter
    obtain rfl := Option.some.inj hafter
    have hmade := h.made hvalid (Store.lt_of_binds (Store.binds_of_owner? howner))
    exact ⟨stage, le_rfl, h.define name hvalid hmade hvalue, fun _ _ ↦ trivial⟩

/-- A known value may be bound in the current scope. -/
theorem defineCurrent {value : Value} (hvalue : inv.value stage value) (name : String) :
    inv.Safe stage (fun _ _ ↦ True) (Run.define name value) :=
  .modify fun _ hvalid ↦ h.define name hvalid (h.current hvalid) hvalue

/-- Known values may be bound one after the other in a known scope, as parameters and global
functions are. -/
theorem foldl_define {scope : ScopeId} (hscope : inv.scope stage scope)
    {pairs : List (String × Value)} (hpairs : ∀ pair ∈ pairs, inv.value stage pair.2)
    {interpreter : Interpreter} (hvalid : inv.valid stage interpreter) :
    inv.valid stage (pairs.foldl
      (fun interpreter (name, value) ↦ interpreter.define name value scope) interpreter) := by
  induction pairs generalizing interpreter with
  | nil => exact hvalid
  | cons pair pairs ih =>
    obtain ⟨hpair, hpairs⟩ := List.forall_mem_cons.mp hpairs
    exact ih hpairs (h.define pair.1 hvalid hscope hpair)

/-- A scope that is opened in a known one is known from then on, with what is bound in it at once.
-/
theorem openScope {enclosing : ScopeId} (henclosing : inv.scope stage enclosing)
    {pairs : List (String × Value)} (hpairs : ∀ pair ∈ pairs, inv.value stage pair.2) :
    inv.Safe stage inv.scope (Run.openScope enclosing pairs) := by
  refine .update fun interpreter hvalid ↦ ?_
  obtain ⟨later, hlater, hnew, hscope⟩ := h.newScope hvalid henclosing
  have hpairs (pair) (hpair : pair ∈ pairs) := h.value_mono hlater (hpairs pair hpair)
  exact ⟨later, hlater, h.foldl_define hscope hpairs hnew, hscope⟩

/-- Something runs in another scope, and the scope that was current is known afterwards too. -/
theorem inScope {result : Stage → α → Prop} {scope : ScopeId} (hscope : inv.scope stage scope)
    {body : Run α} (hbody : inv.Safe stage result body) :
    inv.Safe stage result (Run.inScope scope body) := by
  intro before after hvalid hafter
  obtain ⟨inner, hinner, rfl⟩ := Bounded.state?_run_within hafter
  obtain ⟨later, hlater, hreached, hresult⟩ := hbody _ inner (h.enter hvalid hscope) hinner
  have hformer := h.scope_mono hlater (h.current hvalid)
  refine ⟨later, hlater, h.enter hreached hformer, fun value hdone ↦ hresult value ?_⟩
  obtain ⟨reached, hrun, -⟩ := Bounded.run_within_eq_done.mp hdone
  rw [hrun] at hinner
  obtain rfl := Option.some.inj hinner
  exact hrun

/-- Something runs in a scope that is opened for it. -/
theorem nested {result : Stage → α → Prop} {enclosing : ScopeId}
    (henclosing : inv.scope stage enclosing) {pairs : List (String × Value)}
    (hpairs : ∀ pair ∈ pairs, inv.value stage pair.2) {body : Run α}
    (hbody : ∀ later, stage ≤ later → inv.Safe later result body) :
    inv.Safe stage result (Run.openScope enclosing pairs >>= (Run.inScope · body)) :=
  (h.openScope henclosing hpairs).bind fun later hlater _ hscope ↦
    h.inScope hscope (hbody later hlater)

omit h in
/-- A known value may be called with known arguments, whether it turns out to be a function or not.
-/
theorem callValue {call : FunctionValue → List Value → Run Value} (hcall : inv.SafeCalls stage call)
    {callee : Value} (hcallee : inv.value stage callee) {arguments : List Value}
    (harguments : inv.values stage arguments) :
    inv.Safe stage inv.value (callValue call callee arguments) := by
  cases callee with
  | function function => exact hcall stage le_rfl function arguments hcallee harguments
  | _ => exact .fail _

omit h in
/-- That the number of arguments is checked first makes no difference. -/
theorem callExact {call : FunctionValue → List Value → Run Value}
    (hcall : inv.SafeCalls stage call) : inv.SafeCalls stage (callExact call) := by
  intro later hlater function arguments hfunction harguments
  unfold Lox.callExact
  split
  · exact hcall later hlater function arguments hfunction harguments
  · exact .fail _

/-- The operations described with `Native` do nothing but to call functions and to look up names. -/
theorem performStandard {call : FunctionValue → List Value → Run Value}
    (hcall : inv.SafeCalls stage call) (name : String) (operation : Native)
    {arguments : List Value} (harguments : inv.values stage arguments) :
    inv.Safe stage inv.value (Host.standard.perform call name operation arguments) := by
  have hplain {value : Value} (hvalue : ∀ callee, value ≠ .function callee) :
      inv.Safe stage inv.value (pure value : Run Value) := .pure (h.plain stage value hvalue)
  have hhead : inv.value stage (arguments.headD .nil) := by
    cases arguments with
    | nil => exact h.plain stage .nil (by rintro _ ⟨⟩)
    | cons value values => exact harguments value List.mem_cons_self
  change inv.Safe stage inv.value (operation.perform call name arguments)
  unfold Native.perform
  split
  case h_3 => exact .pure hhead
  case h_8 =>
    exact callValue hcall hhead fun value hmem ↦ harguments value (List.mem_of_mem_tail hmem)
  case h_9 => exact h.globalScope.bind fun later _ scope _ ↦ h.valueIn _ scope
  all_goals first | exact .fail _ | exact hplain (by rintro _ ⟨⟩)

/-- The operations of the standard host yield one of their arguments, the result of a call, the
value of a global name or something that is no function. -/
theorem heldByStandard : inv.HeldByHost .standard where
  toHeldBySteps := h
  perform _ _ hcall name operation _ harguments := h.performStandard hcall name operation harguments

end HeldBySteps

namespace HeldByHost

variable {inv} {host : Host} (h : inv.HeldByHost host) {stage : Stage}

include h

/-! ### Whole runs -/

/-- Whatever is run with a given bound is safe. -/
structure UpTo (inv : Invariant Stage) (host : Host) (bound : Nat) : Prop where
  evaluate : ∀ stage expression, inv.Safe stage inv.value (evaluate host bound expression)
  evaluateAll : ∀ stage expressions, inv.Safe stage inv.values (evaluateAll host bound expressions)
  execute : ∀ stage statement, inv.Safe stage inv.flow (execute host bound statement)
  executeAll : ∀ stage statements, inv.Safe stage inv.flow (executeAll host bound statements)
  call : ∀ stage, inv.SafeCalls stage (call host bound)

variable {bound : Nat}

/-- Expressions yield known values. Functions come only from names and calls, everything else is
made by literals and operators. -/
theorem evaluate_succ (ih : UpTo inv host bound) (expression : Expr) :
    inv.Safe stage inv.value (evaluate host (bound + 1) expression) := by
  cases expression with
  | literal literal =>
    refine .pure (h.plain stage _ ?_)
    cases literal <;> rintro _ ⟨⟩
  | grouping inner => exact ih.evaluate stage inner
  | unary operator operand =>
    refine (ih.evaluate stage operand).bind fun later _ value _ ↦ ?_
    exact .ofExcept fun result hresult ↦ h.plain later result (UnaryOperator.ne_function hresult)
  | binary operator left right =>
    refine (ih.evaluate stage left).bind fun later _ first _ ↦ ?_
    refine (ih.evaluate later right).bind fun latest _ second _ ↦ ?_
    exact .ofExcept fun result hresult ↦ h.plain latest result (BinaryOperator.ne_function hresult)
  | logical operator left right =>
    simp only [Lox.evaluate]
    refine (ih.evaluate stage left).bind fun later _ first hfirst ↦ ?_
    split
    · exact .pure hfirst
    · exact ih.evaluate later right
  | name identifier =>
    simp only [Lox.evaluate]
    exact h.currentScope.bind fun later _ scope _ ↦ h.valueIn _ scope
  | assign target source =>
    simp only [Lox.evaluate]
    refine (ih.evaluate stage source).bind fun later _ value hvalue ↦ ?_
    refine h.currentScope.bind fun later' hlater' scope _ ↦ ?_
    have hvalue := h.value_mono hlater' hvalue
    refine (h.assignIn hvalue _ scope).bind fun latest hlatest _ _ ↦ ?_
    exact .pure (h.value_mono hlatest hvalue)
  | call callee arguments =>
    simp only [Lox.evaluate]
    refine (ih.evaluate stage callee).bind fun later _ called hcalled ↦ ?_
    refine (ih.evaluateAll later arguments).bind fun latest hlatest values hvalues ↦ ?_
    exact HeldBySteps.callValue (HeldBySteps.callExact (ih.call latest))
      (h.value_mono hlatest hcalled) hvalues

/-- Arguments are evaluated from left to right, and the first ones are still known when the last
ones are. -/
theorem evaluateAll_succ (ih : UpTo inv host bound) (expressions : List Expr) :
    inv.Safe stage inv.values (evaluateAll host (bound + 1) expressions) := by
  cases expressions with
  | nil => exact .pure (by rintro _ ⟨⟩)
  | cons expression others =>
    simp only [Lox.evaluateAll]
    refine (ih.evaluate stage expression).bind fun later _ value hvalue ↦ ?_
    refine (ih.evaluateAll later others).bind fun latest hlatest values hvalues ↦ ?_
    exact .pure (List.forall_mem_cons.mpr ⟨h.value_mono hlatest hvalue, hvalues⟩)

/-- Statements are safe, and what a `return` hands on is known. Blocks and declarations of functions
go on to a later stage, since they make something. -/
theorem execute_succ (ih : UpTo inv host bound) (statement : Stmt) :
    inv.Safe stage inv.flow (execute host (bound + 1) statement) := by
  have hnormal (later : Stage) : inv.Safe later inv.flow (pure .normal) := .pure (by rintro _ ⟨⟩)
  have hreturned {later : Stage} {value : Value} (hvalue : inv.value later value) :
      inv.Safe later inv.flow (pure (.returned value)) := .pure (by rintro _ ⟨⟩; exact hvalue)
  have hnil (later : Stage) : inv.value later .nil := h.plain later .nil (by rintro _ ⟨⟩)
  cases statement with
  | expression expression =>
    simp only [Lox.execute]
    exact (ih.evaluate stage expression).bind fun later _ _ _ ↦ hnormal later
  | print expression =>
    simp only [Lox.execute]
    refine (ih.evaluate stage expression).bind fun later _ value _ ↦ ?_
    exact (Safe.modify fun _ hvalid ↦ h.output _ hvalid).bind fun latest _ _ _ ↦ hnormal latest
  | declare target initializer =>
    cases initializer with
    | none =>
      simp only [Lox.execute]
      exact (h.defineCurrent (hnil stage) _).bind fun later _ _ _ ↦ hnormal later
    | some initializer =>
      simp only [Lox.execute]
      refine (ih.evaluate stage initializer).bind fun later _ value hvalue ↦ ?_
      exact (h.defineCurrent hvalue _).bind fun latest _ _ _ ↦ hnormal latest
  | block body =>
    simp only [Lox.execute]
    refine h.currentScope.bind fun later _ enclosing henclosing ↦ ?_
    exact h.nested henclosing (by rintro _ ⟨⟩) fun latest _ ↦ ih.executeAll latest body
  | conditional condition thenBranch elseBranch =>
    simp only [Lox.execute]
    refine (ih.evaluate stage condition).bind fun later _ value _ ↦ ?_
    split
    · exact ih.execute later thenBranch
    · cases elseBranch with
      | none => exact hnormal later
      | some branch => exact ih.execute later branch
  | loop condition body =>
    simp only [Lox.execute]
    refine (ih.evaluate stage condition).bind fun later _ value _ ↦ ?_
    split
    · refine (ih.execute later body).bind fun latest _ flow hflow ↦ ?_
      cases flow with
      | normal => exact ih.execute latest _
      | returned value => exact hreturned (hflow value rfl)
    · exact hnormal later
  | function identifier parameters body span =>
    simp only [Lox.execute]
    refine h.currentScope.bind fun later _ scope hscope ↦ ?_
    have hcaptured (declaration : FunctionDeclaration) (captured : ScopeId)
        (hbody : FunctionBody.declared ⟨identifier, parameters, body, span⟩ scope
          = .declared declaration captured) : inv.scope later captured := by
      cases hbody
      exact hscope
    refine (Safe.update fun _ hvalid ↦ h.newFunction _ hvalid hcaptured).bind
      fun latest _ value hvalue ↦ ?_
    exact (h.defineCurrent hvalue _).bind fun latest' _ _ _ ↦ hnormal latest'
  | «return» value span =>
    cases value with
    | none => exact hreturned (hnil stage)
    | some result =>
      simp only [Lox.execute]
      exact (ih.evaluate stage result).bind fun later _ value hvalue ↦ hreturned hvalue

omit h in
/-- Statements are executed one after the other, until one of them hands on a known value. -/
theorem executeAll_succ (ih : UpTo inv host bound) (statements : List Stmt) :
    inv.Safe stage inv.flow (executeAll host (bound + 1) statements) := by
  cases statements with
  | nil => exact .pure (by rintro _ ⟨⟩)
  | cons statement others =>
    simp only [Lox.executeAll]
    refine (ih.execute stage statement).bind fun later _ flow hflow ↦ ?_
    cases flow with
    | normal => exact ih.executeAll later others
    | returned value => exact .pure hflow

/-- A call runs the body of a known function in a scope inside a known one, where the parameters are
bound to known arguments. -/
theorem call_succ (ih : UpTo inv host bound) (stage : Stage) :
    inv.SafeCalls stage (call host (bound + 1)) := by
  intro later _ function arguments hfunction harguments
  obtain ⟨identity, body⟩ := function
  cases body with
  | declared declaration captured =>
    simp only [Lox.call]
    rw [← bind_assoc]
    have hpairs (pair : String × Value)
        (hpair : pair ∈ (declaration.parameters.map Identifier.name).zip arguments) :
        inv.value later pair.2 := harguments pair.2 (List.of_mem_zip hpair).2
    refine (h.nested (h.captured hfunction) hpairs fun later _ ↦
      ih.executeAll later declaration.body).bind fun latest _ flow hflow ↦ ?_
    cases flow with
    | normal => exact .pure (h.plain latest .nil (by rintro _ ⟨⟩))
    | returned value => exact .pure (hflow value rfl)
  | native name arity operation =>
    exact h.perform later _ (ih.call later) name operation _ harguments

/-- Everything that is run is safe, with every bound. -/
theorem upTo (bound : Nat) : UpTo inv host bound := by
  induction bound with
  | zero =>
    exact ⟨fun _ _ ↦ .exhausted, fun _ _ ↦ .exhausted, fun _ _ ↦ .exhausted, fun _ _ ↦ .exhausted,
      fun _ _ _ _ _ _ _ ↦ .exhausted⟩
  | succ bound ih =>
    exact ⟨fun _ ↦ h.evaluate_succ ih, fun _ ↦ h.evaluateAll_succ ih, fun _ ↦ h.execute_succ ih,
      fun _ ↦ executeAll_succ ih, h.call_succ ih⟩

/-- A program is run in the global scope and yields nothing that would have to be known. -/
theorem runProgram (bound : Nat) (program : Program) :
    inv.Safe stage (fun _ _ ↦ True) (runProgram bound program host) :=
  ((h.upTo bound).executeAll stage program).bind fun _ _ _ _ ↦ .pure trivial

/-- Running a source text or a line that cannot be read changes nothing, and otherwise it is running
the program that was read. -/
theorem ofReading {reading : Except (List SyntaxError) Program} {before after : Interpreter}
    (hvalid : inv.valid stage before)
    (hafter : ((Step.ofReading reading (Lox.runProgram bound · host)).run before).state?
      = some after) : ∃ later, stage ≤ later ∧ inv.valid later after := by
  cases reading with
  | error errors =>
    obtain rfl := Option.some.inj hafter
    exact ⟨stage, le_rfl, hvalid⟩
  | ok program =>
    have hstate : ((Lox.runProgram bound program host).run before).state? = some after := by
      rw [← hafter, Step.ofReading, Bounded.run_mapError_eq_map]
      cases (Lox.runProgram bound program host).run before <;> rfl
    obtain ⟨later, hlater, hreached, -⟩ := h.runProgram bound program before after hvalid hstate
    exact ⟨later, hlater, hreached⟩

end HeldByHost

end Invariant

/-! ### States that come up -/

/-- The states that can come up in a session and in the middle of its runs, with values that are in
hand there. A session starts without any binding. Whatever comes up, it can go on from there with a
whole run, which may fail, or with one of the steps that runs are made of: a function is declared, a
value that is in hand is bound in a scope that exists, a scope is opened in one that exists, or one
that exists becomes current. What a run yields, and what is bound anywhere, can be in hand. -/
inductive Interpreter.ComesUp (host : Host) : Interpreter → List Value → Prop
  | bare : ComesUp host .bare []
  | native {interpreter : Interpreter} {held : List Value} (name : String) (arity : Nat)
    (operation : Native) : ComesUp host interpreter held →
      ComesUp host (interpreter.defineNative name arity operation) held
  | source {interpreter after : Interpreter} {held : List Value} {bound : Nat} {source : String} :
    ComesUp host interpreter held →
      ((runSource bound source host).run interpreter).state? = some after → ComesUp host after held
  | line {interpreter after : Interpreter} {held : List Value} {bound : Nat} {line : String} :
    ComesUp host interpreter held →
      ((runLine bound line host).run interpreter).state? = some after → ComesUp host after held
  | program {interpreter after : Interpreter} {held : List Value} {bound : Nat}
    {program : Program} : ComesUp host interpreter held →
      ((runProgram bound program host).run interpreter).state? = some after →
      ComesUp host after held
  | executed {interpreter after : Interpreter} {held yielded : List Value} {bound : Nat}
    {statement : Stmt} : ComesUp host interpreter held →
      ((execute host bound statement).run interpreter).state? = some after →
      (∀ value ∈ yielded,
        (execute host bound statement).run interpreter = .done (.returned value) after) →
      ComesUp host after (yielded ++ held)
  | evaluated {interpreter after : Interpreter} {held yielded : List Value} {bound : Nat}
    {expression : Expr} : ComesUp host interpreter held →
      ((evaluate host bound expression).run interpreter).state? = some after →
      (∀ value ∈ yielded, (evaluate host bound expression).run interpreter = .done value after) →
      ComesUp host after (yielded ++ held)
  | called {interpreter after : Interpreter} {held yielded : List Value} {bound : Nat}
    {function : FunctionValue} {arguments : List Value} : ComesUp host interpreter held →
      .function function ∈ held → (∀ argument ∈ arguments, argument ∈ held) →
      ((call host bound function arguments).run interpreter).state? = some after →
      (∀ value ∈ yielded, (call host bound function arguments).run interpreter = .done value after)
      → ComesUp host after (yielded ++ held)
  | declared {interpreter : Interpreter} {held : List Value} (declaration : FunctionDeclaration) :
    ComesUp host interpreter held →
      ComesUp host (interpreter.newFunction (.declared declaration interpreter.current)).2
        ((interpreter.newFunction (.declared declaration interpreter.current)).1 :: held)
  | bound {interpreter : Interpreter} {held : List Value} (name : String) {value : Value}
    {scope : ScopeId} : ComesUp host interpreter held → value ∈ held →
      scope < interpreter.store.scopes.size →
      ComesUp host (interpreter.define name value scope) held
  | opened {interpreter after : Interpreter} {held : List Value} {enclosing scope : ScopeId}
    {pairs : List (String × Value)} : ComesUp host interpreter held →
      enclosing < interpreter.store.scopes.size → (∀ pair ∈ pairs, pair.2 ∈ held) →
      (Run.openScope enclosing pairs).run interpreter = .done scope after →
      ComesUp host after held
  | entered {interpreter : Interpreter} {held : List Value} {scope : ScopeId} :
    ComesUp host interpreter held → scope < interpreter.store.scopes.size →
      ComesUp host (interpreter.enter scope).2 held
  | printed {interpreter : Interpreter} {held : List Value} (text : String) :
    ComesUp host interpreter held → ComesUp host { interpreter with output := text } held
  | found {interpreter : Interpreter} {held : List Value} {name : String} {scope : ScopeId}
    {value : Value} : ComesUp host interpreter held →
      interpreter.store.valueAt? name scope = some value → ComesUp host interpreter (value :: held)
  | plain {interpreter : Interpreter} {held : List Value} (value : Value) :
    (∀ callee, value ≠ .function callee) → ComesUp host interpreter held →
      ComesUp host interpreter (value :: held)

/-- Between two steps of a session nothing needs to be in hand. -/
theorem Interpreter.InSession.comesUp {host : Host} {interpreter : Interpreter}
    (hsession : InSession host interpreter) : ComesUp host interpreter [] := by
  induction hsession with
  | bare => exact .bare
  | native name arity operation _ ih => exact .native name arity operation ih
  | source _ hrun ih => exact .source ih hrun
  | line _ hrun ih => exact .line ih hrun

/-- An invariant that holds at the start, and that every step keeps, holds whenever something comes
up, and knows the values in hand. -/
theorem Invariant.HeldByHost.exists_valid {Stage : Type} [Preorder Stage] {inv : Invariant Stage}
    {host : Host} (h : inv.HeldByHost host) {start : Stage} (hstart : inv.valid start .bare)
    {interpreter : Interpreter} {held : List Value} (hcomes : ComesUp host interpreter held) :
    ∃ stage, inv.valid stage interpreter ∧ inv.values stage held := by
  induction hcomes with
  | bare => exact ⟨start, hstart, by rintro _ ⟨⟩⟩
  | native name arity operation _ ih =>
    obtain ⟨stage, hvalid, hheld⟩ := ih
    obtain ⟨later, hlater, hmade, hvalue⟩ :=
      h.newFunction (.native name arity operation) hvalid (by rintro _ _ ⟨⟩)
    have hglobals := h.scope_mono hlater (h.globals hvalid)
    exact ⟨later, h.define name hmade hglobals hvalue, h.values_mono hlater hheld⟩
  | source _ hrun ih | line _ hrun ih =>
    obtain ⟨stage, hvalid, hheld⟩ := ih
    obtain ⟨later, hlater, hreached⟩ := h.ofReading hvalid hrun
    exact ⟨later, hreached, h.values_mono hlater hheld⟩
  | program _ hrun ih =>
    obtain ⟨stage, hvalid, hheld⟩ := ih
    obtain ⟨later, hlater, hreached, -⟩ := h.runProgram _ _ _ _ hvalid hrun
    exact ⟨later, hreached, h.values_mono hlater hheld⟩
  | executed _ hrun hyielded ih =>
    obtain ⟨stage, hvalid, hheld⟩ := ih
    obtain ⟨later, hlater, hreached, hresult⟩ := (h.upTo _).execute stage _ _ _ hvalid hrun
    refine ⟨later, hreached, List.forall_mem_append.mpr ⟨fun value hvalue ↦ ?_, ?_⟩⟩
    · exact hresult _ (hyielded value hvalue) value rfl
    · exact h.values_mono hlater hheld
  | evaluated _ hrun hyielded ih =>
    obtain ⟨stage, hvalid, hheld⟩ := ih
    obtain ⟨later, hlater, hreached, hresult⟩ := (h.upTo _).evaluate stage _ _ _ hvalid hrun
    refine ⟨later, hreached, List.forall_mem_append.mpr ⟨fun value hvalue ↦ ?_, ?_⟩⟩
    · exact hresult _ (hyielded value hvalue)
    · exact h.values_mono hlater hheld
  | called _ hfunction harguments hrun hyielded ih =>
    obtain ⟨stage, hvalid, hheld⟩ := ih
    obtain ⟨later, hlater, hreached, hresult⟩ := (h.upTo _).call stage stage le_rfl _ _
      (hheld _ hfunction) (fun value hvalue ↦ hheld value (harguments value hvalue)) _ _ hvalid hrun
    refine ⟨later, hreached, List.forall_mem_append.mpr ⟨fun value hvalue ↦ ?_, ?_⟩⟩
    · exact hresult _ (hyielded value hvalue)
    · exact h.values_mono hlater hheld
  | declared declaration _ ih =>
    obtain ⟨stage, hvalid, hheld⟩ := ih
    obtain ⟨later, hlater, hmade, hvalue⟩ := h.newFunction (.declared declaration _) hvalid (by
      rintro _ _ ⟨⟩
      exact h.current hvalid)
    exact ⟨later, hmade, List.forall_mem_cons.mpr ⟨hvalue, h.values_mono hlater hheld⟩⟩
  | bound name _ hvalue hscope ih =>
    obtain ⟨stage, hvalid, hheld⟩ := ih
    exact ⟨stage, h.define name hvalid (h.made hvalid hscope) (hheld _ hvalue), hheld⟩
  | opened _ henclosing hpairs hrun ih =>
    obtain ⟨stage, hvalid, hheld⟩ := ih
    obtain ⟨later, hlater, hreached, -⟩ := h.openScope (h.made hvalid henclosing)
      (fun pair hpair ↦ hheld _ (hpairs pair hpair)) _ _ hvalid (by rw [hrun, Outcome.state?])
    exact ⟨later, hreached, h.values_mono hlater hheld⟩
  | entered _ hscope ih =>
    obtain ⟨stage, hvalid, hheld⟩ := ih
    exact ⟨stage, h.enter hvalid (h.made hvalid hscope), hheld⟩
  | printed text _ ih =>
    obtain ⟨stage, hvalid, hheld⟩ := ih
    exact ⟨stage, h.output text hvalid, hheld⟩
  | found _ hvalue ih =>
    obtain ⟨stage, hvalid, hheld⟩ := ih
    exact ⟨stage, hvalid, List.forall_mem_cons.mpr ⟨h.found hvalid hvalue, hheld⟩⟩
  | plain value hvalue _ ih =>
    obtain ⟨stage, hvalid, hheld⟩ := ih
    exact ⟨stage, hvalid, List.forall_mem_cons.mpr ⟨h.plain stage value hvalue, hheld⟩⟩

end Lox
