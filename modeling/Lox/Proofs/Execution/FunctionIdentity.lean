import Lox.Proofs.Execution.MadeFunctions
import Lox.Proofs.Scoping.WriteVisibility

/-!
# Identity of functions

Two function values are equal exactly if they come of the same making: the same execution of a
declaration, or the same registration of an operation of the host. A `Moment` of a session has all
functions that were made up to it in a list, in the order of their making, so that a making is a
place in this list; beside it stand the state and the values in hand. `Moment.Next` goes on from one
moment to another, by whole runs and by the steps that runs are made of.

Every function that is bound anywhere or is in hand is in the list, once, and later moments only add
to the list (`Moment.Next.accounted`, `Moment.Next.made_isPrefix`). So a function that is found at a
later moment is equal to an earlier one only if it is the same in every respect, and no function
that is made is equal to one that there was (`functions_keep_identity`). What a variable, an
assignment, a parameter, a `return` and a closure pass on is the value itself (`PassesOn`).
-/

set_option autoImplicit false
set_option relaxedAutoImplicit false

namespace Lox

open Relation (ReflTransGen)

/-! ### Moments -/

/-- What there is at some moment of a session, perhaps in the middle of a run: all functions that
were made up to it, in the order of their making, the state, and values in hand, such as arguments
and results. -/
structure Moment where
  made : List FunctionValue
  state : Interpreter
  held : List Value

namespace Moment

/-- A session starts without any function. -/
def start : Moment := ⟨[], .bare, []⟩

/-- A function is bound in some scope or is in hand. -/
def Has (moment : Moment) (function : FunctionValue) : Prop :=
  .function function ∈ moment.held ∨
    ∃ scope name, moment.state.store.valueAt? name scope = some (.function function)

/-- The moments that a session can go on to. An operation of the host is registered; a source text
or a line is read and run; an expression is evaluated, a statement is executed or a function in hand
is called, and what this yields can be in hand afterwards, unless it fails. In the middle of a run,
a function is declared, a value in hand is bound, a scope is opened and becomes current, one that
exists becomes current, or something is printed. Values that are bound can be in hand, and so can
all values that are no functions. -/
inductive Next (host : LoggedHost) (moment : Moment) : Moment → Prop
  | registered (name : String) (arity : Nat) (operation : Native) :
    Next host moment ⟨moment.made ++ [moment.state.nextFunction (.native name arity operation)],
      moment.state.defineNative name arity operation, moment.held⟩
  | read {bound : Nat} {reading : Except (List SyntaxError) Program} {after : Interpreter} :
    ((Step.ofReading reading (runProgram bound · host.toHost)).run moment.state).state?
      = some after →
    Next host moment ⟨moment.made ++ Making.ofReading host bound reading moment.state, after,
      moment.held⟩
  | evaluated {bound : Nat} {expression : Expr} {after : Interpreter} {yielded : List Value} :
    ((evaluate host.toHost bound expression).run moment.state).state? = some after →
    (∀ value ∈ yielded,
      (evaluate host.toHost bound expression).run moment.state = .done value after) →
    Next host moment ⟨moment.made ++ Making.ofExpression host bound expression moment.state, after,
      yielded ++ moment.held⟩
  | executed {bound : Nat} {statement : Stmt} {after : Interpreter} {yielded : List Value} :
    ((execute host.toHost bound statement).run moment.state).state? = some after →
    (∀ value ∈ yielded,
      (execute host.toHost bound statement).run moment.state = .done (.returned value) after) →
    Next host moment ⟨moment.made ++ Making.ofStatement host bound statement moment.state, after,
      yielded ++ moment.held⟩
  | called {bound : Nat} {function : FunctionValue} {arguments : List Value} {after : Interpreter}
    {yielded : List Value} : .function function ∈ moment.held → arguments ⊆ moment.held →
    ((call host.toHost bound function arguments).run moment.state).state? = some after →
    (∀ value ∈ yielded,
      (call host.toHost bound function arguments).run moment.state = .done value after) →
    Next host moment ⟨moment.made ++ Making.ofCall host bound function arguments moment.state,
      after, yielded ++ moment.held⟩
  | declared (declaration : FunctionDeclaration) :
    Next host moment
      ⟨moment.made ++ [moment.state.nextFunction (.declared declaration moment.state.current)],
      (moment.state.newFunction (.declared declaration moment.state.current)).2,
      (moment.state.newFunction (.declared declaration moment.state.current)).1 :: moment.held⟩
  | bound (name : String) {value : Value} (scope : ScopeId) : value ∈ moment.held →
    Next host moment { moment with state := moment.state.define name value scope }
  | opened (enclosing : ScopeId) {pairs : List (String × Value)} :
    pairs.map Prod.snd ⊆ moment.held →
    Next host moment { moment with state := moment.state.nested enclosing pairs }
  | entered {scope : ScopeId} : scope < moment.state.store.scopes.size →
    Next host moment { moment with state := (moment.state.enter scope).2 }
  | printed (text : String) :
    Next host moment { moment with state := { moment.state with output := text } }
  | found {name : String} {scope : ScopeId} {value : Value} :
    moment.state.store.valueAt? name scope = some value →
    Next host moment { moment with held := value :: moment.held }
  | plain {value : Value} : (∀ callee, value ≠ .function callee) →
    Next host moment { moment with held := value :: moment.held }

/-- The list has all functions that were made, and all that there are. -/
structure Accounted (moment : Moment) : Prop where
  state : moment.state.HasMade moment.made
  held : Value.AreMade moment.made moment.held

theorem start_accounted : start.Accounted := ⟨Interpreter.hasMade_bare, by rintro _ ⟨⟩⟩

namespace Accounted

variable {moment : Moment}

theorem mem_of_has (h : moment.Accounted) {function : FunctionValue}
    (hfunction : moment.Has function) : function ∈ moment.made := by
  obtain hheld | ⟨scope, name, hbound⟩ := hfunction
  · exact h.held _ hheld function rfl
  · exact h.state.bound scope name _ hbound function rfl

/-- What is yielded when functions are made may be one of them. -/
theorem after (h : moment.Accounted) {more : List FunctionValue} {reached : Interpreter}
    {yielded : List Value} (hreached : reached.HasMade (moment.made ++ more))
    (hyielded : Value.AreMade (moment.made ++ more) yielded) :
    Accounted ⟨moment.made ++ more, reached, yielded ++ moment.held⟩ :=
  ⟨hreached, List.forall_mem_append.mpr ⟨hyielded, h.held.append more⟩⟩

end Accounted

/-- No function that was made is lost, and their order stays. -/
theorem Next.made_isPrefix {host : LoggedHost} {moment later : Moment}
    (hnext : Next host moment later) : moment.made <+: later.made := by
  cases hnext
  case registered | read | evaluated | executed | called | declared =>
    exact List.prefix_append _ _
  all_goals exact List.prefix_rfl

theorem Next.accounted {host : LoggedHost} (hhost : host.LogsExactly) {moment later : Moment}
    (hnext : Next host moment later) (h : moment.Accounted) : later.Accounted := by
  cases hnext with
  | registered name arity operation =>
    have hnew := h.state.newFunction (.native name arity operation)
    exact ⟨hnew.define (Value.isMade_last _) _ _, h.held.append _⟩
  | read hafter => exact ⟨hhost.ofReading h.state hafter, h.held.append _⟩
  | evaluated hafter hyielded =>
    obtain ⟨hreached, -, hvalue⟩ := (hhost.upTo _).evaluate _ _ _ _ h.state hafter
    exact h.after hreached fun value hmem ↦ hvalue value (hyielded value hmem)
  | executed hafter hyielded =>
    obtain ⟨hreached, -, hflow⟩ := (hhost.upTo _).execute _ _ _ _ h.state hafter
    exact h.after hreached fun value hmem ↦ hflow _ (hyielded value hmem) value rfl
  | called hfunction harguments hafter hyielded =>
    obtain ⟨hreached, -, hvalue⟩ := (hhost.upTo _).call _ _ _ (h.held _ hfunction _ rfl)
      (fun value hmem ↦ h.held value (harguments hmem)) _ _ h.state hafter
    exact h.after hreached fun value hmem ↦ hvalue value (hyielded value hmem)
  | declared declaration =>
    have hnew := h.state.newFunction (.declared declaration moment.state.current)
    exact h.after hnew (List.forall_mem_singleton.mpr (Value.isMade_last _))
  | bound name scope hvalue => exact ⟨h.state.define (h.held _ hvalue) name scope, h.held⟩
  | opened enclosing hpairs =>
    refine ⟨h.state.nested enclosing fun pair hpair ↦ h.held _ (hpairs ?_), h.held⟩
    exact List.mem_map_of_mem hpair
  | entered hscope => exact ⟨h.state.enter hscope, h.held⟩
  | printed text => exact ⟨h.state.output text, h.held⟩
  | found hvalue => exact ⟨h.state, List.forall_mem_cons.mpr ⟨h.state.bound _ _ _ hvalue, h.held⟩⟩
  | plain hvalue => exact ⟨h.state, List.forall_mem_cons.mpr ⟨.of_ne_function hvalue, h.held⟩⟩

/-! ### Whole histories -/

variable {host : LoggedHost} {moment last : Moment}

theorem made_isPrefix (hlast : ReflTransGen (Next host) moment last) :
    moment.made <+: last.made := by
  induction hlast with
  | refl => exact List.prefix_rfl
  | tail _ hnext ih => exact ih.trans hnext.made_isPrefix

theorem exists_next_of_evaluates {bound : Nat} {expression : Expr} {value : Value}
    {after : Interpreter}
    (hrun : (evaluate host.toHost bound expression).run moment.state = .done value after) :
    ∃ later, Next host moment later ∧ later.state = after :=
  ⟨_, .evaluated (by rw [hrun, Outcome.state?]) (List.forall_mem_singleton.mpr hrun), rfl⟩

theorem exists_next_of_executes {bound : Nat} {statement : Stmt} {after : Interpreter}
    (hrun : (execute host.toHost bound statement).run moment.state = .done .normal after) :
    ∃ later, Next host moment later ∧ later.state = after := by
  have hafter : ((execute host.toHost bound statement).run moment.state).state? = some after := by
    rw [hrun, Outcome.state?]
  exact ⟨_, @Next.executed _ _ _ _ _ [] hafter (by rintro _ ⟨⟩), rfl⟩

theorem exists_of_leads {point point' : Point} (hleads : Leads host.toHost point point')
    (hmoment : moment.state = point.state) :
    ∃ last, ReflTransGen (Next host) moment last ∧ last.state = point'.state := by
  obtain ⟨bound, work, state⟩ := point
  obtain rfl : moment.state = state := hmoment
  cases hleads with
  | first => exact ⟨moment, .refl, rfl⟩
  | others hrun =>
    obtain ⟨later, hnext, hlater⟩ := exists_next_of_executes hrun
    exact ⟨later, .single hnext, hlater⟩
  | block => exact ⟨_, .single (@Next.opened host moment _ [] (by rintro _ ⟨⟩)), rfl⟩
  | thenBranch hcondition | elseBranch hcondition | turn hcondition =>
    obtain ⟨later, hnext, hlater⟩ := exists_next_of_evaluates hcondition
    exact ⟨later, .single hnext, hlater⟩
  | nextTurn hcondition _ hbody =>
    obtain ⟨later, hnext, rfl⟩ := exists_next_of_evaluates hcondition
    obtain ⟨last, hlast, hstate⟩ := exists_next_of_executes hbody
    exact ⟨last, .tail (.single hnext) hlast, hstate⟩

/-- A session also comes to every statement that the statements of a run lead to. -/
theorem exists_of_leads_to {first final : Point}
    (hleads : ReflTransGen (Leads host.toHost) first final) (hmoment : moment.state = first.state) :
    ∃ last, ReflTransGen (Next host) moment last ∧ last.state = final.state := by
  induction hleads with
  | refl => exact ⟨moment, .refl, hmoment⟩
  | tail _ hstep ih =>
    obtain ⟨middle, hmiddle, hstate⟩ := ih
    obtain ⟨last, hlast, hfinal⟩ := exists_of_leads hstep hstate
    exact ⟨last, hmiddle.trans hlast, hfinal⟩

theorem Accounted.later (hhost : host.LogsExactly) (h : moment.Accounted)
    (hlast : ReflTransGen (Next host) moment last) : last.Accounted := by
  induction hlast with
  | refl => exact h
  | tail _ hnext ih => exact hnext.accounted hhost ih

end Moment

/-- The operator compares identities. -/
theorem FunctionValue.apply_equal (first second : FunctionValue) :
    BinaryOperator.equal.apply (.function first) (.function second)
      = .ok (.boolean (first.identity = second.identity)) := rfl

namespace Interpreter.HasMade

variable {made : List FunctionValue} {interpreter : Interpreter}

/-- Of all functions that were made, one is equal only to itself. -/
theorem apply_equal_iff (h : interpreter.HasMade made) {first second : FunctionValue}
    (hfirst : first ∈ made) (hsecond : second ∈ made) :
    BinaryOperator.equal.apply (.function first) (.function second) = .ok (.boolean true) ↔
      second = first := by
  obtain ⟨place, hplace⟩ := List.mem_iff_getElem?.mp hfirst
  obtain ⟨place', hplace'⟩ := List.mem_iff_getElem?.mp hsecond
  rw [FunctionValue.apply_equal, h.identity_eq hplace, h.identity_eq hplace']
  constructor
  · intro hequal
    have hsame : place = place' := by simpa using hequal
    rw [hsame, hplace'] at hplace
    exact Option.some.inj hplace
  · rintro rfl
    rw [← h.identity_eq hplace, ← h.identity_eq hplace', decide_eq_true rfl]

/-- A function was made once only. -/
theorem existsUnique_place (h : interpreter.HasMade made) {function : FunctionValue}
    (hfunction : function ∈ made) : ∃! place : Nat, made[place]? = some function := by
  obtain ⟨place, hplace⟩ := List.mem_iff_getElem?.mp hfunction
  refine ⟨place, hplace, fun other hother ↦ ?_⟩
  rw [← h.identity_eq hother, h.identity_eq hplace]

/-- A function that is made next is equal to none that were made before. -/
theorem apply_equal_nextFunction (h : interpreter.HasMade made) (body : FunctionBody)
    {former : FunctionValue} (hformer : former ∈ made) :
    BinaryOperator.equal.apply (.function (interpreter.nextFunction body)) (.function former)
      = .ok (.boolean false) := by
  obtain ⟨place, hplace⟩ := List.mem_iff_getElem?.mp hformer
  obtain ⟨hlt, -⟩ := List.getElem?_eq_some_iff.mp hplace
  have hne : interpreter.functions ≠ place := by
    rw [h.functions_eq]
    exact hlt.ne'
  rw [FunctionValue.apply_equal, h.identity_eq hplace, Interpreter.nextFunction,
    decide_eq_false hne]

end Interpreter.HasMade

namespace Store

variable {store : Store} {name : String} {scope : ScopeId}

/-- A name that is bound anew where it belongs has the new value. -/
theorem get?_define_owner {owner : ScopeId} (howner : store.owner? name scope = some owner)
    (value : Value) : (store.define name value owner).get? name scope = some value := by
  have hbinds := binds_of_owner? howner
  rw [owner?_eq_find?] at howner
  exact get?_define_of_exposes (lt_of_binds hbinds) ((exposes_iff_find? hbinds).mpr howner) value

end Store

/-- In a scope that is opened in another one, a name that is not bound there has the value that it
has in the other one. -/
theorem Interpreter.get?_nested_of_lookup_eq_none {state : Interpreter} {enclosing : ScopeId}
    {pairs : List (String × Value)} {name : String} {value : Value}
    (hvalue : state.store.get? name enclosing = some value)
    (hname : (Bindings.ofPairs pairs).lookup name = none) :
    (state.nested enclosing pairs).store.get? name (state.nested enclosing pairs).current
      = some value := by
  have hlt : enclosing < state.store.scopes.size :=
    Store.lt_of_isSome_get? (by rw [hvalue, Option.isSome_some])
  have hchain : (state.nested enclosing pairs).store.chain enclosing
      = state.store.chain enclosing := by
    refine Store.chain_congr fun inner hinner ↦ ?_
    rw [enclosing?_nested hlt, if_neg (hinner.trans_lt hlt).ne]
  have hvalues : (state.nested enclosing pairs).store.valueAt? name
      = state.store.valueAt? name := by
    funext scope
    rw [valueAt?_nested]
    split
    · next hscope =>
      rw [hname, hscope, Store.valueAt?, Array.getElem?_size, Option.bind_none]
    · rfl
  change (state.nested enclosing pairs).store.get? name state.store.scopes.size = some value
  rw [Store.get?_eq_findSome?, Store.chain_eq, enclosing?_nested hlt, if_pos rfl, Option.map_some,
    Option.getD_some, hchain, List.findSome?_cons, valueAt?_nested, if_pos rfl, hname, hvalues]
  exact (Store.get?_eq_findSome? ..).symm.trans hvalue

/-- The ways in which a run that has come to a state passes on a value. What comes of each of them
is the value itself. -/
structure PassesOn (host : Host) (state : Interpreter) (value : Value) : Prop where
  /-- A name yields the value that it has. -/
  name (bound : Nat) (identifier : Identifier) :
    state.store.get? identifier.name state.current = some value →
    (evaluate host (bound + 1) (.name identifier)).run state = .done value state
  /-- A variable has the value that its initializer yields. -/
  declared (bound : Nat) (target : Identifier) (initializer : Expr) (before : Interpreter) :
    (evaluate host bound initializer).run before = .done value state → ∃ after,
      (execute host (bound + 1) (.declare target (some initializer))).run before
        = .done .normal after ∧ after.store.get? target.name after.current = some value
  /-- So has a variable that is assigned to, and the assignment yields the value as well. -/
  assigned (bound : Nat) (target : Identifier) (source : Expr) (span : Span)
    (before : Interpreter) : (evaluate host bound source).run before = .done value state →
    (state.store.get? target.name state.current).isSome → ∃ after,
      (evaluate host (bound + 1) (.assign target source span)).run before = .done value after ∧
        after.store.get? target.name after.current = some value
  /-- A parameter has the value of the argument, the last one if it is named repeatedly. -/
  argument (captured : ScopeId) (parameters : List String) (arguments : List Value) (place : Nat)
    (name : String) : parameters[place]? = some name → arguments[place]? = some value →
    (∀ later, place < later → parameters[later]? = some name → arguments[later]? = none) →
    let entry := state.nested captured (parameters.zip arguments)
    entry.store.get? name entry.current = some value
  /-- Another name has the value that it has in the scope that the function has captured. -/
  captured (captured : ScopeId) (parameters : List String) (arguments : List Value)
    (name : String) : state.store.get? name captured = some value → name ∉ parameters →
    let entry := state.nested captured (parameters.zip arguments)
    entry.store.get? name entry.current = some value
  /-- A call yields the value of a `return` that is executed in the body. -/
  returned (bound identity : Nat) (declaration : FunctionDeclaration) (captured : ScopeId)
    (arguments : List Value) (before : Interpreter) :
    Point.Returns host ⟨bound, .list declaration.body, before.nested captured
      ((declaration.parameters.map Identifier.name).zip arguments)⟩ value state →
    (call host (bound + 1) ⟨identity, .declared declaration captured⟩ arguments).run before
      = .done value { state with current := before.current }

theorem passesOn (host : Host) {state : Interpreter}
    (hcurrent : state.current < state.store.scopes.size) (value : Value) :
    PassesOn host state value where
  name bound identifier hvalue := by
    change (Run.valueIn identifier.name state.current).run state = _
    rw [Run.run_valueIn, hvalue, Option.elim_some]
  declared bound target initializer before hrun := by
    simp only [execute]
    refine ⟨_, Bounded.run_bind_of_done hrun, Store.get?_of_valueAt? ?_⟩
    exact (Store.valueAt?_define _ _ _ _ _ _ hcurrent).trans (if_pos ⟨rfl, rfl⟩)
  assigned bound target source span before hrun hbound := by
    rw [Store.isSome_get?] at hbound
    obtain ⟨owner, howner⟩ := Option.isSome_iff_exists.mp hbound
    have hassign := Run.run_assignIn target.name value state.current state
    rw [howner, Option.elim_some] at hassign
    have hlast : (evaluate host (bound + 1) (.assign target source span)).run before
        = (Run.assignIn target.name value state.current >>= fun _ ↦ pure value).run state := by
      simp only [evaluate]
      exact Bounded.run_bind_of_done hrun
    exact ⟨_, hlast.trans (Bounded.run_bind_of_done hassign), Store.get?_define_owner howner value⟩
  argument captured parameters arguments place name hparameter hargument hlater :=
    Store.get?_of_valueAt? <|
      ((frame_nested state captured parameters arguments).value name value).mpr
        ⟨place, hparameter, hargument, hlater⟩
  captured captured parameters arguments name hvalue hname := by
    refine Interpreter.get?_nested_of_lookup_eq_none hvalue ?_
    rw [← Option.not_isSome_iff_eq_none, Bindings.isSome_lookup_ofPairs, List.mem_map]
    rintro ⟨pair, hpair, rfl⟩
    exact hname (List.of_mem_zip hpair).1
  returned bound identity declaration captured arguments before hreturns := hreturns.call_eq

/-! ### All histories -/

/-- At every moment of a session, every function that is bound in any scope or in hand was made once
and only once, and two of them are equal exactly if they come of the same making. Executing a
declaration makes one function more, binds it, and it is equal to no function that was made before,
whatever their bodies are. At all later moments, whatever is equal to a function that there was is
the same function, with the same body; among these moments are those at which the statements of a
run are executed. And functions are passed on as they are. -/
theorem functions_keep_identity (host : LoggedHost) (hhost : host.LogsExactly) {moment : Moment}
    (hmoment : ReflTransGen (Moment.Next host) .start moment) :
    (∀ function, moment.Has function → ∃! place : Nat, moment.made[place]? = some function) ∧
    (∀ first second, moment.Has first → moment.Has second →
      (BinaryOperator.equal.apply (.function first) (.function second) = .ok (.boolean true) ↔
        ∃ place : Nat, moment.made[place]? = some first ∧ moment.made[place]? = some second)) ∧
    (∀ bound identifier parameters body span,
      let function := moment.state.nextFunction
        (.declared ⟨identifier, parameters, body, span⟩ moment.state.current)
      ∃ after,
        (execute host.toHost (bound + 1) (.function identifier parameters body span)).run
          moment.state = .done .normal after ∧
        Moment.Next host moment ⟨moment.made ++ [function], after, moment.held⟩ ∧
        after.store.get? identifier.name after.current = some (.function function) ∧
        ∀ former ∈ moment.made,
          BinaryOperator.equal.apply (.function function) (.function former)
            = .ok (.boolean false)) ∧
    (∀ later, ReflTransGen (Moment.Next host) moment later →
      moment.made <+: later.made ∧
      ∀ former function, moment.Has former → later.Has function →
        (BinaryOperator.equal.apply (.function former) (.function function) = .ok (.boolean true) ↔
          function = former)) ∧
    (∀ first final : Point, moment.state = first.state →
      ReflTransGen (Leads host.toHost) first final →
      ∃ later, ReflTransGen (Moment.Next host) moment later ∧ later.state = final.state) ∧
    ∀ function, PassesOn host.toHost moment.state (.function function) := by
  have haccounted := Moment.start_accounted.later hhost hmoment
  have hmade := haccounted.state
  refine ⟨fun function hhas ↦ hmade.existsUnique_place (haccounted.mem_of_has hhas),
    fun first second hfirst hsecond ↦ ?_, fun bound identifier parameters body span ↦ ?_,
    fun later hlater ↦ ⟨Moment.made_isPrefix hlater, fun former function hformer hfunction ↦ ?_⟩,
    fun first final hstate hleads ↦ Moment.exists_of_leads_to hleads hstate,
    fun function ↦ passesOn host.toHost hmade.current (.function function)⟩
  · have hfirst := haccounted.mem_of_has hfirst
    rw [hmade.apply_equal_iff hfirst (haccounted.mem_of_has hsecond)]
    constructor
    · rintro rfl
      obtain ⟨place, hplace⟩ := List.mem_iff_getElem?.mp hfirst
      exact ⟨place, hplace, hplace⟩
    · rintro ⟨place, hplace, hplace'⟩
      exact Option.some.inj (hplace'.symm.trans hplace)
  · let statement : Stmt := .function identifier parameters body span
    have hnext := @Moment.Next.executed host moment (bound + 1) statement _ [] rfl (by rintro _ ⟨⟩)
    refine ⟨_, rfl, hnext, Store.get?_of_valueAt? ?_,
      fun former hformer ↦ hmade.apply_equal_nextFunction _ hformer⟩
    exact (Store.valueAt?_define _ _ _ _ _ _ hmade.current).trans (if_pos ⟨rfl, rfl⟩)
  · have hformer := (Moment.made_isPrefix hlater).subset (haccounted.mem_of_has hformer)
    have hlast := haccounted.later hhost hlater
    exact hlast.state.apply_equal_iff hformer (hlast.mem_of_has hfunction)

/-- The same declaration, executed twice in the same scope, makes two functions. -/
theorem repeated_declaration_makes_two_functions :
    let nowhere : Span := ⟨0, 0⟩
    let body : FunctionBody := .declared ⟨⟨"f", nowhere⟩, [], [], nowhere⟩ 0
    let first : FunctionValue := ⟨0, body⟩
    let second : FunctionValue := ⟨1, body⟩
    let moment : Moment := ⟨[first, second],
      ⟨⟨#[⟨[("f", .function second)], none⟩]⟩, 0, 0, "", 2⟩, [.function first]⟩
    LoggedHost.standard.LogsExactly ∧
      ReflTransGen (Moment.Next .standard) .start moment ∧ moment.Has first ∧ moment.Has second ∧
      BinaryOperator.equal.apply (.function first) (.function second) ≠ .ok (.boolean true) := by
  intro nowhere body first second moment
  let declaration : Stmt := .function ⟨"f", nowhere⟩ [] [] nowhere
  let middle : Interpreter := ⟨⟨#[⟨[("f", .function first)], none⟩]⟩, 0, 0, "", 1⟩
  have hfirst : Moment.Next .standard .start ⟨[first], middle, []⟩ :=
    @Moment.Next.executed _ _ 1 declaration middle [] rfl (by rintro _ ⟨⟩)
  have hfound : Moment.Next .standard ⟨[first], middle, []⟩
      ⟨[first], middle, [.function first]⟩ := @Moment.Next.found _ _ "f" 0 _ rfl
  have hsecond : Moment.Next .standard ⟨[first], middle, [.function first]⟩ moment :=
    @Moment.Next.executed _ _ 1 declaration moment.state [] rfl (by rintro _ ⟨⟩)
  have hmoment : ReflTransGen (Moment.Next .standard) .start moment :=
    .tail (.tail (.single hfirst) hfound) hsecond
  have hhas : moment.Has first := .inl List.mem_cons_self
  have hhas' : moment.Has second := .inr ⟨0, "f", rfl⟩
  obtain ⟨-, hequal, -⟩ :=
    functions_keep_identity .standard LoggedHost.standard_logsExactly hmoment
  refine ⟨LoggedHost.standard_logsExactly, hmoment, hhas, hhas', ?_⟩
  rw [ne_eq, hequal first second hhas hhas']
  rintro ⟨place, hfirst, hsecond⟩
  have hsame := Option.some.inj (hfirst.symm.trans hsecond)
  exact absurd (congrArg FunctionValue.identity hsame) (by decide)

end Lox
