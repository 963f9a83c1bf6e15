import Lox.Proofs.Execution.Tandem
import Mathlib.Data.List.Induction

/-!
# Call frames

The body of a function is run in a scope of its own, which is made for the call. `Frame` says what
the state is when the body starts: the scope is new, the captured scope encloses it, and it binds
the parameters that there are arguments for. A parameter may be named twice, and it has the last of
its arguments then. Nothing else is different from the state of the call (`frame_nested`).

A call expression has its callee evaluated first and its arguments behind it, one after the other
(`EvaluatesInTurn`), up to one that fails (`FailsInTurn`). Only then the callee and the number of
arguments are looked at (`Refused`). `CallEnds` gathers in which ways a call expression may end.

`calls_are_framed` says that both ways of calling a function, with the number of arguments looked at
or without, lead to such a frame, and that call expressions end in no other way.
-/

set_option autoImplicit false
set_option relaxedAutoImplicit false

namespace Lox

namespace Bindings

theorem ofPairs_append (pairs : List (String × Value)) (name : String) (value : Value) :
    ofPairs (pairs ++ [(name, value)]) = (ofPairs pairs).insert name value := by
  simp [ofPairs]

/-- Of the values that a name is bound to one after the other, it keeps the last one. The induction
is on the pairs from the end: the last one decides, unless it is about another name. -/
theorem lookup_ofPairs_eq_some_iff (pairs : List (String × Value)) (name : String)
    (value : Value) : (ofPairs pairs).lookup name = some value ↔
      ∃ place : Nat, pairs[place]? = some (name, value) ∧
        ∀ later, place < later → ∀ other, pairs[later]? ≠ some (name, other) := by
  induction pairs using List.reverseRecOn with
  | nil => simp [ofPairs]
  | append_singleton pairs last ih =>
    obtain ⟨bound, new⟩ := last
    rw [ofPairs_append, lookup_insert]
    have hlast : (pairs ++ [(bound, new)])[pairs.length]? = some (bound, new) := by simp
    have hend {place : Nat} {pair : String × Value}
        (hplace : (pairs ++ [(bound, new)])[place]? = some pair) : place ≤ pairs.length := by
      obtain ⟨hlt, -⟩ := List.getElem?_eq_some_iff.mp hplace
      rw [List.length_append, List.length_singleton] at hlt
      exact Nat.le_of_lt_succ hlt
    by_cases hname : name = bound
    · subst hname
      rw [if_pos rfl]
      constructor
      · rintro ⟨⟩
        exact ⟨pairs.length, hlast, fun later hlater other hother ↦
          absurd (hend hother) (Nat.not_le.mpr hlater)⟩
      · rintro ⟨place, hplace, hlater⟩
        obtain hlt | rfl := (hend hplace).lt_or_eq
        · exact absurd hlast (hlater _ hlt new)
        · rw [hlast] at hplace
          cases hplace
          rfl
    · rw [if_neg hname, ih]
      have hsame (place : Nat) (other : Value) :
          (pairs ++ [(bound, new)])[place]? = some (name, other)
            ↔ pairs[place]? = some (name, other) := by
        rw [List.getElem?_append]
        split
        · rfl
        · next hplace =>
          rw [List.getElem?_eq_none (Nat.not_lt.mp hplace)]
          simp only [reduceCtorEq, iff_false]
          intro hother
          obtain ⟨hlt, hpair⟩ := List.getElem?_eq_some_iff.mp hother
          simp only [List.getElem_singleton, Prod.mk.injEq] at hpair
          exact hname hpair.1.symm
      simp only [hsame, ne_eq]

theorem isSome_lookup_ofPairs (pairs : List (String × Value)) (name : String) :
    ((ofPairs pairs).lookup name).isSome = true ↔ name ∈ pairs.map Prod.fst := by
  induction pairs using List.reverseRecOn with
  | nil => simp [ofPairs]
  | append_singleton pairs last ih =>
    rw [ofPairs_append, lookup_insert]
    split
    · next hname => simp [hname]
    · next hname => simp [ih, hname]

end Bindings

/-! ### Frames -/

/-- A function that has captured a scope is called in a state, and its body starts in another one.
-/
structure Frame (before : Interpreter) (captured : ScopeId) (parameters : List String)
    (arguments : List Value) (entry : Interpreter) : Prop where
  /-- The scope of the call did not exist. -/
  new : before.store.scopes[entry.current]? = none
  /-- It does now, and the captured scope encloses it. -/
  enclosed : entry.store.scopes[entry.current]?.map Scope.enclosing = some (some captured)
  /-- It binds those parameters that there are arguments for. -/
  names (name : String) : entry.store.binds name entry.current = true ↔
    name ∈ parameters.take (min parameters.length arguments.length)
  /-- Each has the argument at the last place where the parameter is named. -/
  value (name : String) (value : Value) : entry.store.valueAt? name entry.current = some value ↔
    ∃ place : Nat, parameters[place]? = some name ∧ arguments[place]? = some value ∧
      ∀ later, place < later → parameters[later]? = some name → arguments[later]? = none
  /-- No other scope has changed, -/
  others (scope : ScopeId) : scope ≠ entry.current →
    entry.store.scopes[scope]? = before.store.scopes[scope]?
  /-- and nothing else has either. -/
  rest : entry.globals = before.globals ∧ entry.output = before.output ∧
    entry.functions = before.functions

/-- The state in which the body of a function is run is that of a frame. -/
theorem frame_nested (before : Interpreter) (captured : ScopeId) (parameters : List String)
    (arguments : List Value) : Frame before captured parameters arguments
      (before.nested captured (parameters.zip arguments)) := by
  have hvalue (name : String) : (before.nested captured (parameters.zip arguments)).store.valueAt?
      name before.store.scopes.size = (Bindings.ofPairs (parameters.zip arguments)).lookup name :=
    (Store.valueAt?_push ..).trans (if_pos rfl)
  have hnew : (before.nested captured (parameters.zip arguments)).store.scopes[
      before.store.scopes.size]? = some ⟨.ofPairs (parameters.zip arguments), some captured⟩ :=
    Array.getElem?_push_size
  refine ⟨Array.getElem?_eq_none le_rfl, ?_, fun name ↦ ?_, fun name value ↦ ?_,
    fun scope hscope ↦ ?_, rfl, rfl, rfl⟩
  · exact congrArg (Option.map Scope.enclosing) hnew
  · change Store.binds _ name before.store.scopes.size = true ↔ _
    rw [Store.binds_eq_isSome, hvalue, Bindings.isSome_lookup_ofPairs, List.zip_eq_zip_take_min,
      List.map_fst_zip (by simp)]
  · change Store.valueAt? _ name before.store.scopes.size = some value ↔ _
    rw [hvalue, Bindings.lookup_ofPairs_eq_some_iff]
    simp only [ne_eq, List.getElem?_zip_eq_some, not_and, Option.eq_none_iff_forall_ne_some,
      and_assoc]
    exact exists_congr fun place ↦ and_congr_right fun _ ↦ and_congr_right fun _ ↦
      forall₂_congr fun later _ ↦ forall_comm
  · exact Array.getElem?_push.trans (if_neg hscope)

/-- As many arguments as there are parameters bind all of them. -/
theorem Frame.binds_of_length_eq {before entry : Interpreter} {captured : ScopeId}
    {parameters : List String} {arguments : List Value}
    (hframe : Frame before captured parameters arguments entry)
    (hlength : arguments.length = parameters.length) :
    ∀ name ∈ parameters, entry.store.binds name entry.current = true := by
  intro name hmem
  rw [hframe.names, hlength, Nat.min_self, List.take_length]
  exact hmem

/-- What a call makes of how the body ends: the current scope is that of the caller again. -/
def Outcome.leaveCall (caller : ScopeId) :
    Outcome Interpreter RuntimeError Flow → Outcome Interpreter RuntimeError Value
  | done .normal after => .done .nil { after with current := caller }
  | done (.returned value) after => .done value { after with current := caller }
  | failed error after => .failed error { after with current := caller }
  | exhausted => .exhausted

variable {host : Host}

/-- The call of a declared function runs its body in a scope of its own. -/
theorem run_call_declared (host : Host) (bound identity : Nat) (declaration : FunctionDeclaration)
    (captured : ScopeId) (arguments : List Value) (before : Interpreter) :
    let pairs := (declaration.parameters.map Identifier.name).zip arguments
    (call host (bound + 1) ⟨identity, .declared declaration captured⟩ arguments).run before
      = ((executeAll host bound declaration.body).run (before.nested captured pairs)).leaveCall
          before.current := by
  intro pairs
  simp only [call, Run.openScope_bind_inScope_bind]
  rw [Bounded.run_bind, Run.nested, Bounded.run_within]
  simp only
  cases (executeAll host bound declaration.body).run (before.nested captured pairs) with
  | done flow after => cases flow <;> rfl
  | failed error after => rfl
  | exhausted => rfl

/-- Expressions that are evaluated from left to right, each once, have these values. The bound gets
less by one from each to the next. -/
inductive EvaluatesInTurn (host : Host) :
    Nat → List Expr → Interpreter → List Value → Interpreter → Prop
  | nil {bound : Nat} {before : Interpreter} :
    EvaluatesInTurn host (bound + 1) [] before [] before
  | cons {bound : Nat} {expression : Expr} {others : List Expr} {value : Value}
    {values : List Value} {before middle after : Interpreter} :
    (evaluate host bound expression).run before = .done value middle →
    EvaluatesInTurn host bound others middle values after →
    EvaluatesInTurn host (bound + 1) (expression :: others) before (value :: values) after

/-- Of expressions that are evaluated from left to right, one fails, and those behind it are not
evaluated. -/
inductive FailsInTurn (host : Host) :
    Nat → List Expr → Interpreter → RuntimeError → Interpreter → Prop
  | here {bound : Nat} {expression : Expr} {others : List Expr} {error : RuntimeError}
    {before after : Interpreter} :
    (evaluate host bound expression).run before = .failed error after →
    FailsInTurn host (bound + 1) (expression :: others) before error after
  | later {bound : Nat} {expression : Expr} {others : List Expr} {value : Value}
    {error : RuntimeError} {before middle after : Interpreter} :
    (evaluate host bound expression).run before = .done value middle →
    FailsInTurn host bound others middle error after →
    FailsInTurn host (bound + 1) (expression :: others) before error after

theorem run_evaluateAll_eq_done_iff {bound : Nat} {expressions : List Expr} {values : List Value}
    {before after : Interpreter} :
    (evaluateAll host bound expressions).run before = .done values after ↔
      EvaluatesInTurn host bound expressions before values after := by
  constructor
  · intro hrun
    induction bound generalizing expressions values before with
    | zero => cases hrun
    | succ bound ih =>
      cases expressions with
      | nil =>
        cases hrun
        exact .nil
      | cons expression others =>
        simp only [evaluateAll] at hrun
        obtain ⟨value, middle, hvalue, hrun⟩ := Bounded.run_bind_eq_done.mp hrun
        obtain ⟨rest, reached, hrest, hrun⟩ := Bounded.run_bind_eq_done.mp hrun
        cases hrun
        exact .cons hvalue (ih hrest)
  · intro hturn
    induction hturn with
    | nil => rfl
    | cons hvalue _ ih =>
      simp only [evaluateAll]
      rw [Bounded.run_bind_of_done hvalue, Bounded.run_bind_of_done ih]
      rfl

theorem run_evaluateAll_eq_failed_iff {bound : Nat} {expressions : List Expr}
    {error : RuntimeError} {before after : Interpreter} :
    (evaluateAll host bound expressions).run before = .failed error after ↔
      FailsInTurn host bound expressions before error after := by
  constructor
  · intro hrun
    induction bound generalizing expressions before with
    | zero => cases hrun
    | succ bound ih =>
      cases expressions with
      | nil => cases hrun
      | cons expression others =>
        simp only [evaluateAll] at hrun
        rcases Bounded.run_bind_eq_failed.mp hrun with hfirst | ⟨value, middle, hvalue, hrun⟩
        · exact .here hfirst
        · rcases Bounded.run_bind_eq_failed.mp hrun with hrest | ⟨rest, reached, -, hrun⟩
          · exact .later hvalue (ih hrest)
          · cases hrun
  · intro hturn
    induction hturn with
    | here hfirst =>
      simp only [evaluateAll]
      rw [Bounded.run_bind, hfirst]
    | later hvalue _ ih =>
      simp only [evaluateAll]
      rw [Bounded.run_bind_of_done hvalue, Bounded.run_bind, ih]

/-! ### Call expressions -/

/-- A callee and arguments that are not called, and why. -/
inductive Refused : Value → List Value → RuntimeError → Prop
  | notCallable {callee : Value} {arguments : List Value} :
    (∀ function, callee ≠ .function function) →
    Refused callee arguments (.notCallable callee.typeName)
  | arityMismatch {function : FunctionValue} {arguments : List Value} :
    arguments.length ≠ function.arity →
    Refused (.function function) arguments
      (.arityMismatch function.name function.arity arguments.length)

/-- How a call expression may end. -/
inductive CallEnds (host : Host) (bound : Nat) (callee : Expr) (arguments : List Expr)
    (before : Interpreter) : Outcome Interpreter RuntimeError Value → Prop
  /-- The callee fails, and no argument is evaluated. -/
  | calleeFails {error : RuntimeError} {after : Interpreter} :
    (evaluate host bound callee).run before = .failed error after →
    CallEnds host bound callee arguments before (.failed error after)
  /-- An argument fails. -/
  | argumentFails {called : Value} {error : RuntimeError} {middle after : Interpreter} :
    (evaluate host bound callee).run before = .done called middle →
    FailsInTurn host bound arguments middle error after →
    CallEnds host bound callee arguments before (.failed error after)
  /-- Nothing is called, and the state is what the arguments have left. -/
  | refused {called : Value} {values : List Value} {error : RuntimeError}
    {middle after : Interpreter} :
    (evaluate host bound callee).run before = .done called middle →
    EvaluatesInTurn host bound arguments middle values after → Refused called values error →
    CallEnds host bound callee arguments before (.failed error after)
  /-- The body of a function is run in a scope of its own. -/
  | declared {identity inner : Nat} {declaration : FunctionDeclaration} {captured : ScopeId}
    {values : List Value} {middle after : Interpreter} :
    bound = inner + 1 →
    (evaluate host bound callee).run before
      = .done (.function ⟨identity, .declared declaration captured⟩) middle →
    EvaluatesInTurn host bound arguments middle values after →
    values.length = declaration.parameters.length →
    CallEnds host bound callee arguments before
      (((executeAll host inner declaration.body).run (after.nested captured
        ((declaration.parameters.map Identifier.name).zip values))).leaveCall after.current)
  /-- An operation of the host is performed. -/
  | native {identity inner arity : Nat} {name : String} {operation : Native}
    {values : List Value} {middle after : Interpreter} :
    bound = inner + 1 →
    (evaluate host bound callee).run before
      = .done (.function ⟨identity, .native name arity operation⟩) middle →
    EvaluatesInTurn host bound arguments middle values after → values.length = arity →
    CallEnds host bound callee arguments before
      ((host.perform (call host inner) name operation values).run after)

section CallExpression

variable {bound : Nat} {callee : Expr} {arguments : List Expr} {before middle after : Interpreter}

/-- What a call expression comes to once its callee and its arguments are evaluated. -/
theorem run_evaluate_call {called : Value} {values : List Value}
    (hcallee : (evaluate host bound callee).run before = .done called middle)
    (harguments : EvaluatesInTurn host bound arguments middle values after) (span : Span) :
    (evaluate host (bound + 1) (.call callee arguments span)).run before
      = (callValue (callExact (call host bound)) called values).run after := by
  simp only [evaluate]
  rw [Bounded.run_bind_of_done hcallee,
    Bounded.run_bind_of_done (run_evaluateAll_eq_done_iff.mpr harguments)]

theorem callValue_function {perform : FunctionValue → List Value → Run Value}
    {function : FunctionValue} {values : List Value} (harity : values.length = function.arity) :
    callValue (callExact perform) (.function function) values = perform function values :=
  if_pos harity

theorem Refused.run_callValue {called : Value} {values : List Value} {error : RuntimeError}
    (hrefused : Refused called values error) (state : Interpreter) :
    (callValue (callExact (call host bound)) called values).run state = .failed error state := by
  cases hrefused with
  | notCallable hcalled =>
    cases called with
    | function function => exact absurd rfl (hcalled function)
    | _ => rfl
  | arityMismatch harity =>
    rw [callValue, callExact, if_neg harity]
    rfl

theorem CallEnds.run_eq {outcome : Outcome Interpreter RuntimeError Value}
    (hends : CallEnds host bound callee arguments before outcome) (span : Span) :
    (evaluate host (bound + 1) (.call callee arguments span)).run before = outcome := by
  cases hends with
  | calleeFails hcallee =>
    simp only [evaluate]
    rw [Bounded.run_bind, hcallee]
  | argumentFails hcallee hargument =>
    simp only [evaluate]
    rw [Bounded.run_bind_of_done hcallee, Bounded.run_bind,
      run_evaluateAll_eq_failed_iff.mpr hargument]
  | refused hcallee harguments hrefused =>
    rw [run_evaluate_call hcallee harguments, hrefused.run_callValue]
  | declared hbound hcallee harguments harity =>
    subst hbound
    rw [run_evaluate_call hcallee harguments, callValue_function harity, run_call_declared]
  | native hbound hcallee harguments harity =>
    subst hbound
    rw [run_evaluate_call hcallee harguments, callValue_function harity, call]

/-- What is not refused is called. -/
theorem CallEnds.of_done {called : Value} {values : List Value}
    (hcallee : (evaluate host bound callee).run before = .done called middle)
    (harguments : EvaluatesInTurn host bound arguments middle values after)
    (hended : (callValue (callExact (call host bound)) called values).run after ≠ .exhausted) :
    CallEnds host bound callee arguments before
      ((callValue (callExact (call host bound)) called values).run after) := by
  by_cases hfunction : ∃ function, called = .function function
  · obtain ⟨function, rfl⟩ := hfunction
    by_cases harity : values.length = function.arity
    · rw [callValue_function harity] at hended ⊢
      cases bound with
      | zero => exact absurd rfl hended
      | succ inner =>
        obtain ⟨identity, ⟨declaration, captured⟩ | ⟨name, arity, operation⟩⟩ := function
        · rw [run_call_declared]
          exact .declared rfl hcallee harguments harity
        · rw [call]
          exact .native rfl hcallee harguments harity
    · have hrefused := Refused.arityMismatch harity
      rw [hrefused.run_callValue]
      exact .refused hcallee harguments hrefused
  · have hrefused : Refused called values _ := .notCallable (not_exists.mp hfunction)
    rw [hrefused.run_callValue]
    exact .refused hcallee harguments hrefused

/-- There is no other way in which a call expression ends. -/
theorem CallEnds.of_run {span : Span} {outcome : Outcome Interpreter RuntimeError Value}
    (hrun : (evaluate host (bound + 1) (.call callee arguments span)).run before = outcome)
    (hended : outcome ≠ .exhausted) : CallEnds host bound callee arguments before outcome := by
  cases hcallee : (evaluate host bound callee).run before with
  | failed error after =>
    have hfails : CallEnds host bound callee arguments before _ := .calleeFails hcallee
    rw [← hrun, hfails.run_eq]
    exact hfails
  | done called middle =>
    cases harguments : (evaluateAll host bound arguments).run middle with
    | failed error after =>
      have hfails := CallEnds.argumentFails hcallee (run_evaluateAll_eq_failed_iff.mp harguments)
      rw [← hrun, hfails.run_eq]
      exact hfails
    | done values after =>
      have hturn := run_evaluateAll_eq_done_iff.mp harguments
      rw [run_evaluate_call hcallee hturn] at hrun
      rw [← hrun] at hended ⊢
      exact .of_done hcallee hturn hended
    | exhausted =>
      simp only [evaluate] at hrun
      rw [Bounded.run_bind_of_done hcallee, Bounded.run_bind, harguments] at hrun
      exact absurd hrun.symm hended
  | exhausted =>
    simp only [evaluate] at hrun
    rw [Bounded.run_bind, hcallee] at hrun
    exact absurd hrun.symm hended

end CallExpression

/-- A name that the current scope binds itself is found there, and nothing happens besides. -/
theorem run_evaluate_name_of_valueAt? {bound : Nat} {identifier : Identifier} {value : Value}
    {interpreter : Interpreter}
    (hvalue : interpreter.store.valueAt? identifier.name interpreter.current = some value) :
    (evaluate host (bound + 1) (.name identifier)).run interpreter = .done value interpreter := by
  simp only [evaluate, Bounded.run_bind, Bounded.run_gets]
  rw [Run.run_valueIn, Store.get?_of_valueAt? hvalue, Option.elim_some]

/-- The body of a function that is called starts in the state of a frame, whatever the number of
arguments. A call expression ends in one of the ways of `CallEnds`: its callee and its arguments are
evaluated in turn up to the first that fails; then it is refused, in the state that they left,
exactly if the callee is no function or has another number of parameters; and otherwise its body
starts in a frame that binds all parameters. -/
theorem calls_are_framed (host : Host) :
    (∀ bound identity declaration captured arguments before,
      let parameters := declaration.parameters.map Identifier.name
      let entry := before.nested captured (parameters.zip arguments)
      Frame before captured parameters arguments entry ∧
      (call host (bound + 1) ⟨identity, .declared declaration captured⟩ arguments).run before
        = ((executeAll host bound declaration.body).run entry).leaveCall before.current ∧
      (arguments.length = declaration.parameters.length →
        ∀ name ∈ parameters, entry.store.binds name entry.current = true)) ∧
    ∀ bound callee arguments span before outcome, outcome ≠ .exhausted →
      ((evaluate host (bound + 1) (.call callee arguments span)).run before = outcome ↔
        CallEnds host bound callee arguments before outcome) := by
  refine ⟨fun bound identity declaration captured arguments before ↦ ?_,
    fun bound callee arguments span before outcome hended ↦
      ⟨fun hrun ↦ .of_run hrun hended, fun hends ↦ hends.run_eq span⟩⟩
  have hframe := frame_nested before captured (declaration.parameters.map Identifier.name) arguments
  refine ⟨hframe, run_call_declared host bound identity declaration captured arguments before,
    fun hlength ↦ hframe.binds_of_length_eq ?_⟩
  rw [hlength, List.length_map]

/-- A parameter that is named twice has the last of its arguments, and an argument too many has no
name where the number of arguments is not looked at. A call expression has it looked at: with two
arguments the body is run and returns the last of them, and with one the call is refused in the
state that the arguments left. -/
theorem repeated_parameter_has_last_argument :
    let parameter : Identifier := ⟨"a", .origin⟩
    let declaration : FunctionDeclaration :=
      ⟨⟨"f", .origin⟩, [parameter, parameter], [.return (some (.name parameter)) .origin], .origin⟩
    let function : FunctionValue := ⟨0, .declared declaration 0⟩
    let before := Interpreter.bare.define "f" (.function function) 0
    let callee : Expr := .name ⟨"f", .origin⟩
    let first : Expr := .literal (.boolean false) .origin
    let last : Expr := .literal (.boolean true) .origin
    (∃ entry after, Frame before 0 ["a", "a"] [.boolean false, .boolean true, .nil] entry ∧
      entry.store.valueAt? "a" entry.current = some (.boolean true) ∧
      (call .standard 4 function [.boolean false, .boolean true, .nil]).run before
        = .done (.boolean true) after) ∧
    (∃ after, (evaluate .standard 6 (.call callee [first, last] .origin)).run before
        = .done (.boolean true) after ∧
      CallEnds .standard 5 callee [first, last] before (.done (.boolean true) after)) ∧
    (evaluate .standard 6 (.call callee [first] .origin)).run before
        = .failed (.arityMismatch "f" 2 1) before ∧
      CallEnds .standard 5 callee [first] before (.failed (.arityMismatch "f" 2 1) before) := by
  intro parameter declaration function before callee first last
  obtain ⟨hdirect, hexpression⟩ := calls_are_framed .standard
  obtain ⟨hframe, hcall, -⟩ :=
    hdirect 3 0 declaration 0 [.boolean false, .boolean true, .nil] before
  have hcallee : (evaluate .standard 5 callee).run before = .done (.function function) before :=
    run_evaluate_name_of_valueAt? rfl
  have hbody (entry : Interpreter)
      (hentry : entry.store.valueAt? "a" entry.current = some (.boolean true)) (bound : Nat) :
      (executeAll .standard (bound + 3) declaration.body).run entry
        = .done (.returned (.boolean true)) entry := by
    have hvalue : (evaluate .standard (bound + 1) (.name parameter)).run entry = _ :=
      run_evaluate_name_of_valueAt? hentry
    simp only [declaration, executeAll, execute, Bounded.run_bind, hvalue]
    rfl
  have hentered : CallEnds .standard 5 callee [first, last] before _ :=
    .declared rfl hcallee (.cons rfl (.cons rfl .nil)) rfl
  rw [hbody _ rfl 1] at hentered
  have hrefused : CallEnds .standard 5 callee [first] before _ :=
    .refused hcallee (.cons rfl .nil) (.arityMismatch (by decide))
  rw [hbody _ rfl 0] at hcall
  exact ⟨⟨_, _, hframe, rfl, hcall⟩,
    ⟨_, (hexpression 5 _ _ _ _ (.done _ _) (by rintro ⟨⟩)).mpr hentered, hentered⟩,
    (hexpression 5 _ _ _ _ (.failed _ _) (by rintro ⟨⟩)).mpr hrefused, hrefused⟩

end Lox
