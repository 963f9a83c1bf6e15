import Lox.Proofs.Execution.CallFrames
import Lox.Proofs.Execution.KnownValues
import Lox.Proofs.Execution.MergedScopes
import Lox.Proofs.Execution.Padding
import Lox.Proofs.Execution.ReturnUnwinding

/-!
# The functions that a run makes

A run makes a function each time that it executes a declaration of one, and the operations of the
host may make others. A `Making` lists the functions that come of this, in the order in which they
are made. `Making.ofExpression`, `Making.ofStatement` and `Making.ofCall` go along with the run of
an expression, a statement and a call and list what is made there, until it fails or gives up: one
function for each time that a declaration is executed, and nothing else but what operations make. A
`LoggedHost` knows that of its operations.

The lists are complete. If a list has all functions that were made before a run, in order, and every
function that is bound is among them (`Interpreter.HasMade`), then together with what the run makes
it has all functions that were made up to its end, however it ends; and what the run yields is
among them if it is a function (`LoggedHost.LogsExactly.upTo`). The state never gives a function the
identity of another one, since the functions that were made are numbered one after the other.
-/

set_option autoImplicit false
set_option relaxedAutoImplicit false

namespace Lox

/-! ### What is made -/

/-- The function that is made in a state, with the next identity. -/
def Interpreter.nextFunction (body : FunctionBody) (interpreter : Interpreter) : FunctionValue :=
  ⟨interpreter.functions, body⟩

/-- The functions that something makes if it is run from a state, in the order of their making. -/
abbrev Making := Interpreter → List FunctionValue

namespace Making

/-- Makes no function. -/
def nothing : Making := fun _ ↦ []

/-- What a computation makes, and what is made after it if it is done. -/
def andThen {α : Type} (making : Making) (computation : Run α) (next : α → Making) : Making :=
  fun state ↦ making state ++
    match computation.run state with
    | .done value reached => next value reached
    | .failed _ _ | .exhausted => []

/-- What the call of a value makes, given what the calls of functions make. -/
def ofValue (call : FunctionValue → List Value → Making) (callee : Value)
    (arguments : List Value) : Making :=
  match callee with
  | .function function => call function arguments
  | _ => nothing

/-- What a call makes that is made only with as many arguments as there are parameters. -/
def ofExact (call : FunctionValue → List Value → Making) (function : FunctionValue)
    (arguments : List Value) : Making :=
  if arguments.length = function.arity then call function arguments else nothing

end Making

/-- A host of which it is known which functions its operations make, given what calls do and which
functions they make. -/
structure LoggedHost extends Host where
  makes : (FunctionValue → List Value → Run Value) → (FunctionValue → List Value → Making) →
    String → Native → List Value → Making

/-- The operations described with `Native` make what the calls make that they make. -/
def Native.makes (call : FunctionValue → List Value → Making) (operation : Native)
    (arguments : List Value) : Making :=
  match operation with
  | apply => Making.ofValue call (arguments.headD .nil) arguments.tail
  | clock _ | date _ | first | count | fail | twice | global => Making.nothing

/-- The standard host, with what its operations make. -/
def LoggedHost.standard : LoggedHost where
  toHost := .standard
  makes _ making _ operation arguments := operation.makes making arguments

namespace Making

variable (host : LoggedHost)

mutual

/-- What evaluating an expression makes. -/
def ofExpression : Nat → Expr → Making
  | 0, _ => nothing
  | bound + 1, expression =>
    match expression with
    | .literal _ _ | .name _ => nothing
    | .grouping inner _ => ofExpression bound inner
    | .unary _ operand _ => ofExpression bound operand
    | .binary _ left right _ =>
      (ofExpression bound left).andThen (evaluate host.toHost bound left) fun _ ↦
        ofExpression bound right
    | .logical operator left right _ =>
      (ofExpression bound left).andThen (evaluate host.toHost bound left) fun first ↦
        if operator.isDecided first then nothing else ofExpression bound right
    | .assign _ source _ => ofExpression bound source
    | .call callee arguments _ =>
      (ofExpression bound callee).andThen (evaluate host.toHost bound callee) fun called ↦
        (ofExpressions bound arguments).andThen (evaluateAll host.toHost bound arguments)
          (ofValue (ofExact (ofCall bound)) called)

/-- What evaluating a list of expressions makes. -/
def ofExpressions : Nat → List Expr → Making
  | 0, _ | _ + 1, [] => nothing
  | bound + 1, expression :: others =>
    (ofExpression bound expression).andThen (evaluate host.toHost bound expression) fun _ ↦
      ofExpressions bound others

/-- What executing a statement makes. -/
def ofStatement : Nat → Stmt → Making
  | 0, _ => nothing
  | bound + 1, statement =>
    match statement with
    | .expression expression | .print expression => ofExpression bound expression
    | .declare _ none => nothing
    | .declare _ (some initializer) => ofExpression bound initializer
    | .block body => fun state ↦ ofStatements bound body (state.nested state.current [])
    | .conditional condition thenBranch elseBranch =>
      (ofExpression bound condition).andThen (evaluate host.toHost bound condition) fun value ↦
        if value.isTruthy then ofStatement bound thenBranch
        else
          match elseBranch with
          | some branch => ofStatement bound branch
          | none => nothing
    | .loop condition body =>
      (ofExpression bound condition).andThen (evaluate host.toHost bound condition) fun value ↦
        if value.isTruthy then
          (ofStatement bound body).andThen (execute host.toHost bound body) fun
            | .normal => ofStatement bound (.loop condition body)
            | .returned _ => nothing
        else nothing
    | .function identifier parameters body span => fun state ↦
      [state.nextFunction (.declared ⟨identifier, parameters, body, span⟩ state.current)]
    | .return none _ => nothing
    | .return (some result) _ => ofExpression bound result

/-- What executing a list of statements makes. -/
def ofStatements : Nat → List Stmt → Making
  | 0, _ | _ + 1, [] => nothing
  | bound + 1, statement :: others =>
    (ofStatement bound statement).andThen (execute host.toHost bound statement) fun
      | .normal => ofStatements bound others
      | .returned _ => nothing

/-- What the call of a function makes. -/
def ofCall : Nat → FunctionValue → List Value → Making
  | 0, _, _ => nothing
  | bound + 1, function, arguments =>
    match function.body with
    | .declared declaration captured => fun state ↦
      ofStatements bound declaration.body
        (state.nested captured ((declaration.parameters.map Identifier.name).zip arguments))
    | .native name _ operation =>
      host.makes (call host.toHost bound) (ofCall bound) name operation arguments

end

/-- What running what a text is read as makes. A text that cannot be read makes nothing. -/
def ofReading (bound : Nat) : Except (List SyntaxError) Program → Making
  | .ok program => ofStatements host bound program
  | .error _ => nothing

end Making

/-! ### All functions that were made -/

/-- If the value is a function, it is one of those that were made. -/
def Value.IsMade (made : List FunctionValue) (value : Value) : Prop :=
  ∀ callee, value = .function callee → callee ∈ made

/-- All values are functions that were made, if they are functions. -/
def Value.AreMade (made : List FunctionValue) (values : List Value) : Prop :=
  ∀ value ∈ values, value.IsMade made

/-- If a statement returns a function, it is one of those that were made. -/
def Flow.IsMade (made : List FunctionValue) (flow : Flow) : Prop :=
  ∀ value, flow = .returned value → value.IsMade made

/-- All functions that were made up to a state, in order: there are as many as the state has
counted, each has its place as its identity, and every function that is bound is one of them. The
current scope exists. -/
structure Interpreter.HasMade (made : List FunctionValue) (interpreter : Interpreter) : Prop where
  numbered : made.map FunctionValue.identity = List.range interpreter.functions
  bound : ∀ scope name value, interpreter.store.valueAt? name scope = some value →
    value.IsMade made
  current : interpreter.current < interpreter.store.scopes.size

section Made

variable {made : List FunctionValue}

/-- A value that is no function has nothing to satisfy. -/
theorem Value.IsMade.of_ne_function {value : Value} (hvalue : ∀ callee, value ≠ .function callee) :
    value.IsMade made := fun callee hcallee ↦ absurd hcallee (hvalue callee)

theorem Value.isMade_nil : Value.nil.IsMade made := .of_ne_function (by rintro _ ⟨⟩)

/-- A function that was made remains one of those that were made. -/
theorem Value.IsMade.append {value : Value} (hvalue : value.IsMade made)
    (more : List FunctionValue) : value.IsMade (made ++ more) :=
  fun callee hcallee ↦ List.mem_append_left more (hvalue callee hcallee)

theorem Value.AreMade.append {values : List Value} (hvalues : Value.AreMade made values)
    (more : List FunctionValue) : Value.AreMade (made ++ more) values :=
  fun value hmem ↦ (hvalues value hmem).append more

/-- The function made last is one of them. -/
theorem Value.isMade_last (function : FunctionValue) :
    (Value.function function).IsMade (made ++ [function]) := by
  rintro _ ⟨⟩
  exact List.mem_append_right made List.mem_cons_self

theorem Flow.isMade_normal : Flow.normal.IsMade made := by rintro _ ⟨⟩

theorem Flow.isMade_returned {value : Value} (hvalue : value.IsMade made) :
    (Flow.returned value).IsMade made := by
  rintro _ ⟨⟩
  exact hvalue

namespace Interpreter

/-- In the bare state no function has been made, and none is bound. -/
theorem hasMade_bare : bare.HasMade [] where
  numbered := rfl
  bound scope name value hvalue := by
    change Store.valueAt? ⟨#[].push ⟨[], none⟩⟩ name scope = some value at hvalue
    rw [Store.valueAt?_push] at hvalue
    split at hvalue <;> cases hvalue
  current := Nat.one_pos

namespace HasMade

variable {interpreter : Interpreter}

/-- A function has the place of its making as its identity. -/
theorem identity_eq (h : interpreter.HasMade made) {place : Nat} {function : FunctionValue}
    (hfunction : made[place]? = some function) : function.identity = place := by
  have hplace : (List.range interpreter.functions)[place]? = some function.identity := by
    rw [← h.numbered, List.getElem?_map, hfunction, Option.map_some]
  obtain ⟨hlt, heq⟩ := List.getElem?_eq_some_iff.mp hplace
  rw [← heq, List.getElem_range]

/-- The count of the state is the number of functions that were made. -/
theorem functions_eq (h : interpreter.HasMade made) : interpreter.functions = made.length := by
  simpa using (congrArg List.length h.numbered).symm

/-- What a lookup finds is bound in some scope, so it was made if it is a function. -/
theorem get? (h : interpreter.HasMade made) {name : String} {scope : ScopeId} {value : Value}
    (hvalue : interpreter.store.get? name scope = some value) : value.IsMade made := by
  rw [Store.get?_eq_findSome?] at hvalue
  obtain ⟨owner, -, howner⟩ := List.exists_of_findSome?_eq_some hvalue
  exact h.bound owner name value howner

/-- What has been printed does not matter. -/
theorem output (h : interpreter.HasMade made) (text : String) :
    { interpreter with output := text }.HasMade made :=
  ⟨h.numbered, h.bound, h.current⟩

/-- Any scope that exists may become the current one. -/
theorem enter (h : interpreter.HasMade made) {scope : ScopeId}
    (hscope : scope < interpreter.store.scopes.size) : (interpreter.enter scope).2.HasMade made :=
  ⟨h.numbered, h.bound, hscope⟩

/-- A name may be bound to a value that was made. Only this binding is new, and the others are as
they were. -/
theorem define (h : interpreter.HasMade made) {value : Value} (hvalue : value.IsMade made)
    (name : String) (scope : ScopeId) : (interpreter.define name value scope).HasMade made where
  numbered := h.numbered
  bound inner other found hfound := by
    rw [Interpreter.define, Store.valueAt?_define_ite] at hfound
    split at hfound
    · exact Option.some.inj hfound ▸ hvalue
    · exact h.bound inner other found hfound
  current := by
    rw [Interpreter.define, Store.size_define]
    exact h.current

/-- A function that is made gets the number of functions so far as its identity, which is its place
behind them. -/
theorem newFunction (h : interpreter.HasMade made) (body : FunctionBody) :
    (interpreter.newFunction body).2.HasMade (made ++ [interpreter.nextFunction body]) where
  numbered := by
    rw [List.map_append, h.numbered]
    exact List.range_succ.symm
  bound scope name value hvalue := (h.bound scope name value hvalue).append _
  current := h.current

/-- A new scope may be opened with arguments that were made, and it exists from then on. -/
theorem nested (h : interpreter.HasMade made) (enclosing : ScopeId)
    {pairs : List (String × Value)} (hpairs : ∀ pair ∈ pairs, pair.2.IsMade made) :
    (interpreter.nested enclosing pairs).HasMade made where
  numbered := h.numbered
  bound scope name value hvalue := by
    rw [valueAt?_nested] at hvalue
    split at hvalue
    · obtain ⟨place, hplace, -⟩ := (Bindings.lookup_ofPairs_eq_some_iff pairs name value).mp hvalue
      exact hpairs _ (List.mem_of_getElem? hplace)
    · exact h.bound scope name value hvalue
  current := by
    rw [size_nested]
    exact Nat.lt_succ_self _

end HasMade

end Interpreter

end Made

/-- From a state up to which certain functions were made, a computation makes exactly those that are
listed, and if it yields a value, then one that is as it should be after that. No scope gets lost.
-/
def MakesExactly {α : Type} (made : List FunctionValue) (making : Making)
    (result : List FunctionValue → α → Prop) (computation : Run α) : Prop :=
  ∀ before after, before.HasMade made → (computation.run before).state? = some after →
    after.HasMade (made ++ making before) ∧ before.store.scopes.size ≤ after.store.scopes.size ∧
      ∀ value, computation.run before = .done value after → result (made ++ making before) value

/-- Calls of functions that were made, with arguments that were made if they are functions, make
exactly what is listed and yield nothing else. -/
def CallsMakeExactly (making : FunctionValue → List Value → Making)
    (call : FunctionValue → List Value → Run Value) : Prop :=
  ∀ made function arguments, function ∈ made → Value.AreMade made arguments →
    MakesExactly made (making function arguments) Value.IsMade (call function arguments)

/-- The operations of the host make exactly what is listed if the calls that they make do. -/
def LoggedHost.LogsExactly (host : LoggedHost) : Prop :=
  ∀ making call, CallsMakeExactly making call → ∀ made name operation arguments,
    Value.AreMade made arguments → MakesExactly made
      (host.makes call making name operation arguments) Value.IsMade
      (host.perform call name operation arguments)

theorem Making.andThen_nothing {α : Type} (making : Making) (computation : Run α) :
    (making.andThen computation fun _ ↦ nothing) = making := by
  funext state
  unfold andThen
  split <;> exact List.append_nil _

namespace MakesExactly

variable {α β : Type} {made : List FunctionValue} {making : Making}
  {result : List FunctionValue → α → Prop}

/-- Where nothing is made, nothing is added to what was made. -/
theorem of_nothing {computation : Run α}
    (h : ∀ before after, before.HasMade made → (computation.run before).state? = some after →
      after.HasMade made ∧ before.store.scopes.size ≤ after.store.scopes.size ∧
        ∀ value, computation.run before = .done value after → result made value) :
    MakesExactly made .nothing result computation := by
  intro before after hbefore hafter
  rw [Making.nothing, List.append_nil]
  exact h before after hbefore hafter

/-- A computation that gives up has no last state, so there is nothing to list. -/
theorem exhausted : MakesExactly made making result Bounded.exhausted := by
  intro before after _ hafter
  cases hafter

/-- What only yields a value makes nothing, and the value is as it should be if it was. -/
theorem pure {value : α} (hvalue : result made value) :
    MakesExactly made .nothing result (Pure.pure value) := by
  refine of_nothing fun before after hbefore hafter ↦ ?_
  obtain rfl := Option.some.inj hafter
  refine ⟨hbefore, le_rfl, ?_⟩
  rintro _ ⟨⟩
  exact hvalue

theorem fail (error : RuntimeError) :
    MakesExactly made .nothing result (Bounded.fail error) := by
  refine of_nothing fun before after hbefore hafter ↦ ?_
  obtain rfl := Option.some.inj hafter
  refine ⟨hbefore, le_rfl, ?_⟩
  rintro _ ⟨⟩

/-- An operator makes nothing; the value that it may yield has to be looked at. -/
theorem ofExcept {outcome : Except RuntimeError α}
    (hvalue : ∀ value, outcome = .ok value → result made value) :
    MakesExactly made .nothing result (Bounded.ofExcept outcome) := by
  cases outcome with
  | ok value => exact pure (hvalue value rfl)
  | error error => exact fail error

theorem gets (view : Interpreter → α) :
    MakesExactly made .nothing (fun _ _ ↦ True) (Bounded.gets view) := by
  refine of_nothing fun before after hbefore hafter ↦ ?_
  obtain rfl := Option.some.inj hafter
  exact ⟨hbefore, le_rfl, fun _ _ ↦ trivial⟩

theorem printLine (line : String) :
    MakesExactly made .nothing (fun _ _ ↦ True) (Bounded.modify (·.printLine line)) := by
  refine of_nothing fun before after hbefore hafter ↦ ?_
  obtain rfl := Option.some.inj hafter
  exact ⟨hbefore.output _, le_rfl, fun _ _ ↦ trivial⟩

theorem define {value : Value} (hvalue : value.IsMade made) (name : String) :
    MakesExactly made .nothing (fun _ _ ↦ True) (Run.define name value) := by
  refine of_nothing fun before after hbefore hafter ↦ ?_
  obtain rfl := Option.some.inj hafter
  exact ⟨hbefore.define hvalue name _, (Store.size_define ..).ge, fun _ _ ↦ trivial⟩

/-- A lookup makes nothing, and it yields what is bound. -/
theorem valueIn (name : String) (scope : ScopeId) :
    MakesExactly made .nothing Value.IsMade (Run.valueIn name scope) := by
  refine of_nothing fun before after hbefore hafter ↦ ?_
  have hrun := Run.run_valueIn name scope before
  cases hvalue : before.store.get? name scope <;> rw [hvalue] at hrun <;> rw [hrun] at hafter <;>
    obtain rfl := Option.some.inj hafter <;> refine ⟨hbefore, le_rfl, fun value hdone ↦ ?_⟩ <;>
    rw [hrun] at hdone <;> cases hdone
  exact hbefore.get? hvalue

/-- An assignment makes nothing, and it binds what was made. -/
theorem assignIn {value : Value} (hvalue : value.IsMade made) (name : String) (scope : ScopeId) :
    MakesExactly made .nothing (fun _ _ ↦ True) (Run.assignIn name value scope) := by
  refine of_nothing fun before after hbefore hafter ↦ ?_
  rw [Run.run_assignIn] at hafter
  cases howner : before.store.owner? name scope with
  | none =>
    rw [howner] at hafter
    obtain rfl := Option.some.inj hafter
    exact ⟨hbefore, le_rfl, fun _ _ ↦ trivial⟩
  | some owner =>
    rw [howner] at hafter
    obtain rfl := Option.some.inj hafter
    exact ⟨hbefore.define hvalue name owner, (Store.size_define ..).ge, fun _ _ ↦ trivial⟩

/-- What comes second goes on from what was made first. -/
theorem bind {last : List FunctionValue → β → Prop} {first : Run α} {next : α → Run β}
    {further : α → Making} (hfirst : MakesExactly made making result first)
    (hnext : ∀ more value, result (made ++ more) value →
      MakesExactly (made ++ more) (further value) last (next value)) :
    MakesExactly made (making.andThen first further) last (first >>= next) := by
  intro before after hbefore hafter
  obtain ⟨error, hrun⟩ | ⟨value, middle, hrun, hafter⟩ := Bounded.state?_run_bind hafter
  · obtain ⟨hreached, hsize, -⟩ := hfirst before after hbefore (by rw [hrun, Outcome.state?])
    rw [Making.andThen, hrun, List.append_nil]
    refine ⟨hreached, hsize, fun value hdone ↦ ?_⟩
    rw [Bounded.run_bind, hrun] at hdone
    cases hdone
  · obtain ⟨hmiddle, hsize, hresult⟩ :=
      hfirst before middle hbefore (by rw [hrun, Outcome.state?])
    obtain ⟨hreached, hsize', hlast⟩ :=
      hnext (making before) value (hresult value hrun) middle after hmiddle hafter
    rw [Making.andThen, hrun, ← List.append_assoc]
    refine ⟨hreached, hsize.trans hsize', fun value hdone ↦ hlast value ?_⟩
    rwa [Bounded.run_bind_of_done hrun] at hdone

/-- What comes second may make nothing. -/
theorem bind_nothing {last : List FunctionValue → β → Prop} {first : Run α} {next : α → Run β}
    (hfirst : MakesExactly made making result first)
    (hnext : ∀ more value, result (made ++ more) value →
      MakesExactly (made ++ more) .nothing last (next value)) :
    MakesExactly made making last (first >>= next) := by
  rw [← making.andThen_nothing first]
  exact hfirst.bind hnext

/-- Something is made in a scope that is opened for it and is left afterwards. No scope gets lost,
so the one that is current again still exists. -/
theorem nested (enclosing : ScopeId) {pairs : List (String × Value)}
    (hpairs : ∀ pair ∈ pairs, pair.2.IsMade made) {body : Run α}
    (hbody : MakesExactly made making result body) :
    MakesExactly made (fun state ↦ making (state.nested enclosing pairs)) result
      (Run.nested enclosing pairs body) := by
  intro before after hbefore hafter
  obtain ⟨inner, hinner, rfl⟩ := Bounded.state?_run_within hafter
  obtain ⟨hreached, hsize, hresult⟩ := hbody _ inner (hbefore.nested enclosing hpairs) hinner
  have hsize : before.store.scopes.size ≤ inner.store.scopes.size := by
    rw [Interpreter.size_nested] at hsize
    exact (Nat.le_succ _).trans hsize
  refine ⟨hreached.enter (hbefore.current.trans_le hsize), hsize, fun value hdone ↦ ?_⟩
  obtain ⟨reached, hrun, -⟩ := Bounded.run_within_eq_done.mp hdone
  rw [hrun] at hinner
  obtain rfl := Option.some.inj hinner
  exact hresult value hrun

/-- The call of a value makes what the call of the function makes, if it is one. If not, it fails
and makes nothing. -/
theorem callValue {call : FunctionValue → List Value → Run Value}
    {ofCall : FunctionValue → List Value → Making} (hcall : CallsMakeExactly ofCall call)
    {callee : Value} (hcallee : callee.IsMade made) {arguments : List Value}
    (harguments : Value.AreMade made arguments) :
    MakesExactly made (.ofValue ofCall callee arguments) Value.IsMade
      (callValue call callee arguments) := by
  cases callee with
  | function function => exact hcall made function arguments (hcallee function rfl) harguments
  | _ => exact .fail _

end MakesExactly

/-- A call that is refused because of the number of its arguments makes nothing. -/
theorem CallsMakeExactly.callExact {call : FunctionValue → List Value → Run Value}
    {making : FunctionValue → List Value → Making} (hcall : CallsMakeExactly making call) :
    CallsMakeExactly (.ofExact making) (callExact call) := by
  intro made function arguments hfunction harguments
  unfold Making.ofExact Lox.callExact
  split
  · exact hcall made function arguments hfunction harguments
  · exact .fail _

/-- The operations described with `Native` make no function themselves. -/
theorem LoggedHost.standard_logsExactly : standard.LogsExactly := by
  intro making call hcall made name operation arguments harguments
  have hplain {value : Value} (hvalue : ∀ callee, value ≠ .function callee) :
      MakesExactly made .nothing Value.IsMade (pure value : Run Value) :=
    .pure (.of_ne_function hvalue)
  have hhead : (arguments.headD .nil).IsMade made := by
    cases arguments with
    | nil => exact Value.isMade_nil
    | cons value values => exact harguments value List.mem_cons_self
  change MakesExactly made (operation.makes making arguments) Value.IsMade
    (operation.perform call name arguments)
  unfold Native.perform
  split
  case h_3 => exact .pure hhead
  case h_8 =>
    exact .callValue hcall hhead fun value hmem ↦ harguments value (List.mem_of_mem_tail hmem)
  case h_9 =>
    exact (MakesExactly.gets Interpreter.globals).bind_nothing fun _ scope _ ↦ .valueIn _ scope
  all_goals first | exact .fail _ | exact hplain (by rintro _ ⟨⟩)

/-! ### Whole runs -/

namespace LoggedHost.LogsExactly

/-- Whatever is run with a given bound makes exactly what is listed. -/
structure UpTo (host : LoggedHost) (bound : Nat) : Prop where
  evaluate : ∀ made expression, MakesExactly made (.ofExpression host bound expression)
    Value.IsMade (evaluate host.toHost bound expression)
  evaluateAll : ∀ made expressions, MakesExactly made (.ofExpressions host bound expressions)
    Value.AreMade (evaluateAll host.toHost bound expressions)
  execute : ∀ made statement, MakesExactly made (.ofStatement host bound statement) Flow.IsMade
    (execute host.toHost bound statement)
  executeAll : ∀ made statements, MakesExactly made (.ofStatements host bound statements)
    Flow.IsMade (executeAll host.toHost bound statements)
  call : CallsMakeExactly (.ofCall host bound) (call host.toHost bound)

variable {host : LoggedHost} {bound : Nat} {made : List FunctionValue}

/-- An expression makes what its operands make, one after the other, up to the one that fails. If it
is a call, it makes after them what the call makes. -/
theorem evaluate_succ (ih : UpTo host bound) (expression : Expr) :
    MakesExactly made (.ofExpression host (bound + 1) expression) Value.IsMade
      (evaluate host.toHost (bound + 1) expression) := by
  cases expression with
  | literal literal =>
    refine .pure (.of_ne_function ?_)
    cases literal <;> rintro _ ⟨⟩
  | grouping inner => exact ih.evaluate made inner
  | unary operator operand =>
    refine (ih.evaluate made operand).bind_nothing fun more value _ ↦ ?_
    exact .ofExcept fun _ hresult ↦ .of_ne_function (UnaryOperator.ne_function hresult)
  | binary operator left right =>
    refine (ih.evaluate made left).bind fun more first _ ↦ ?_
    refine (ih.evaluate _ right).bind_nothing fun further second _ ↦ ?_
    exact .ofExcept fun _ hresult ↦ .of_ne_function (BinaryOperator.ne_function hresult)
  | logical operator left right =>
    refine (ih.evaluate made left).bind fun more first hfirst ↦ ?_
    split
    · exact .pure hfirst
    · exact ih.evaluate _ right
  | name identifier =>
    exact (MakesExactly.gets Interpreter.current).bind_nothing fun _ scope _ ↦ .valueIn _ scope
  | assign target source =>
    refine (ih.evaluate made source).bind_nothing fun more value hvalue ↦ ?_
    refine (MakesExactly.gets Interpreter.current).bind_nothing fun _ scope _ ↦ ?_
    refine (MakesExactly.assignIn (hvalue.append _) _ scope).bind_nothing fun _ _ _ ↦ ?_
    exact .pure ((hvalue.append _).append _)
  | call callee arguments =>
    refine (ih.evaluate made callee).bind fun more called hcalled ↦ ?_
    refine (ih.evaluateAll _ arguments).bind fun further values hvalues ↦ ?_
    exact .callValue ih.call.callExact (hcalled.append further) hvalues

/-- Arguments make what each of them makes, in their order. -/
theorem evaluateAll_succ (ih : UpTo host bound) (expressions : List Expr) :
    MakesExactly made (.ofExpressions host (bound + 1) expressions) Value.AreMade
      (evaluateAll host.toHost (bound + 1) expressions) := by
  cases expressions with
  | nil => exact .pure (by rintro _ ⟨⟩)
  | cons expression others =>
    refine (ih.evaluate made expression).bind fun more value hvalue ↦ ?_
    refine (ih.evaluateAll _ others).bind_nothing fun further values hvalues ↦ ?_
    exact .pure (List.forall_mem_cons.mpr ⟨hvalue.append further, hvalues⟩)

/-- Executing a declaration makes the next function, and binds it. -/
theorem makesExactly_declaration (identifier : Identifier) (parameters : List Identifier)
    (body : List Stmt) (span : Span) :
    MakesExactly made (.ofStatement host (bound + 1) (.function identifier parameters body span))
      Flow.IsMade
      (execute host.toHost (bound + 1) (.function identifier parameters body span)) := by
  intro before after hbefore hafter
  obtain rfl := Option.some.inj hafter
  have hnew := hbefore.newFunction (.declared ⟨identifier, parameters, body, span⟩ before.current)
  refine ⟨hnew.define (Value.isMade_last _) _ _, (Store.size_define ..).ge, ?_⟩
  rintro _ ⟨⟩
  exact Flow.isMade_normal

/-- A statement makes what the parts of it make that are executed. The declaration of a function is
the only step that adds to the list by itself, and it adds one function. -/
theorem execute_succ (ih : UpTo host bound) (statement : Stmt) :
    MakesExactly made (.ofStatement host (bound + 1) statement) Flow.IsMade
      (execute host.toHost (bound + 1) statement) := by
  have hnormal (made : List FunctionValue) :
      MakesExactly made .nothing Flow.IsMade (pure .normal) := .pure Flow.isMade_normal
  cases statement with
  | expression expression =>
    exact (ih.evaluate made expression).bind_nothing fun _ _ _ ↦ hnormal _
  | print expression =>
    refine (ih.evaluate made expression).bind_nothing fun more value _ ↦ ?_
    exact (MakesExactly.printLine _).bind_nothing fun _ _ _ ↦ hnormal _
  | declare target initializer =>
    cases initializer with
    | none =>
      exact (MakesExactly.define Value.isMade_nil _).bind_nothing fun _ _ _ ↦ hnormal _
    | some initializer =>
      refine (ih.evaluate made initializer).bind_nothing fun more value hvalue ↦ ?_
      exact (MakesExactly.define hvalue _).bind_nothing fun _ _ _ ↦ hnormal _
  | block body =>
    intro before after hbefore hafter
    rw [run_execute_block] at hafter ⊢
    have hbody := ih.executeAll made body
    exact hbody.nested before.current (by rintro _ ⟨⟩) before after hbefore hafter
  | conditional condition thenBranch elseBranch =>
    refine (ih.evaluate made condition).bind fun more value _ ↦ ?_
    split
    · exact ih.execute _ thenBranch
    · cases elseBranch with
      | none => exact hnormal _
      | some branch => exact ih.execute _ branch
  | loop condition body =>
    refine (ih.evaluate made condition).bind fun more value _ ↦ ?_
    split
    · refine (ih.execute _ body).bind fun further flow hflow ↦ ?_
      cases flow with
      | normal => exact ih.execute _ _
      | returned value => exact .pure hflow
    · exact hnormal _
  | function identifier parameters body span =>
    exact makesExactly_declaration identifier parameters body span
  | «return» value span =>
    cases value with
    | none => exact .pure (Flow.isMade_returned Value.isMade_nil)
    | some result =>
      refine (ih.evaluate made result).bind_nothing fun more value hvalue ↦ ?_
      exact .pure (Flow.isMade_returned hvalue)

/-- A list of statements makes what its statements make, up to the one that returns or fails. -/
theorem executeAll_succ (ih : UpTo host bound) (statements : List Stmt) :
    MakesExactly made (.ofStatements host (bound + 1) statements) Flow.IsMade
      (executeAll host.toHost (bound + 1) statements) := by
  cases statements with
  | nil => exact .pure Flow.isMade_normal
  | cons statement others =>
    refine (ih.execute made statement).bind fun more flow hflow ↦ ?_
    cases flow with
    | normal => exact ih.executeAll _ others
    | returned value => exact .pure hflow

/-- A call makes what the body of the function makes, in a scope where the parameters are bound to
the arguments. -/
theorem call_succ (hhost : host.LogsExactly) (ih : UpTo host bound) :
    CallsMakeExactly (.ofCall host (bound + 1)) (call host.toHost (bound + 1)) := by
  intro made function arguments _ harguments
  obtain ⟨identity, body⟩ := function
  cases body with
  | declared declaration captured =>
    have hpairs (pair : String × Value)
        (hpair : pair ∈ (declaration.parameters.map Identifier.name).zip arguments) :
        pair.2.IsMade made := harguments pair.2 (List.of_mem_zip hpair).2
    simp only [Lox.call, Run.openScope_bind_inScope_bind]
    refine ((ih.executeAll made declaration.body).nested captured hpairs).bind_nothing
      fun more flow hflow ↦ ?_
    cases flow with
    | normal => exact .pure Value.isMade_nil
    | returned value => exact .pure (hflow value rfl)
  | native name arity operation =>
    exact hhost _ _ ih.call made name operation arguments harguments

/-- Everything that is run makes exactly what is listed, with every bound. -/
theorem upTo (hhost : host.LogsExactly) (bound : Nat) : UpTo host bound := by
  induction bound with
  | zero =>
    exact ⟨fun _ _ ↦ .exhausted, fun _ _ ↦ .exhausted, fun _ _ ↦ .exhausted, fun _ _ ↦ .exhausted,
      fun _ _ _ _ _ ↦ .exhausted⟩
  | succ bound ih =>
    exact ⟨fun _ ↦ evaluate_succ ih, fun _ ↦ evaluateAll_succ ih, fun _ ↦ execute_succ ih,
      fun _ ↦ executeAll_succ ih, call_succ hhost ih⟩

/-- So do source texts and lines. -/
theorem ofReading (hhost : host.LogsExactly) {reading : Except (List SyntaxError) Program}
    {before after : Interpreter} (hbefore : before.HasMade made)
    (hafter : ((Step.ofReading reading (runProgram bound · host.toHost)).run before).state?
      = some after) :
    after.HasMade (made ++ Making.ofReading host bound reading before) := by
  cases reading with
  | error errors =>
    obtain rfl := Option.some.inj hafter
    rwa [Making.ofReading, Making.nothing, List.append_nil]
  | ok program =>
    have hstate : ((runProgram bound program host.toHost).run before).state? = some after := by
      rw [← hafter, Step.ofReading, Bounded.run_mapError_eq_map]
      cases (runProgram bound program host.toHost).run before <;> rfl
    have hrun : MakesExactly made (.ofStatements host bound program) (fun _ _ ↦ True)
        (runProgram bound program host.toHost) :=
      ((hhost.upTo bound).executeAll made program).bind_nothing fun _ _ _ ↦ .pure trivial
    exact (hrun before after hbefore hstate).1

end LoggedHost.LogsExactly

end Lox
