import Lox.Proofs.Execution.Agreement
import Lox.Proofs.Execution.ScopeRestoration

/-!
# Runs in step

Two computations are in step if from states that agree they end alike, or neither ends: with values
that stand for each other or with the same error, in states that agree again. What is run in the
current scope needs states whose current scopes stand for each other as well
(`Interpreter.InStepAt`); a call does not (`Interpreter.InStep`), since all that it is run in is the
scope opened for it, inside of the one that the function has captured.

Whatever is run is in step with itself (`Interpreter.upTo_inStep`). The induction is on the bound,
over all of the mutually recursive functions at once. Between the two notions,
`Interpreter.InStep.at` goes from calls to what is around them, because the current scope is
restored, and `Interpreter.inStep_nested` from a body to the block or call that it is the body of.
-/

set_option autoImplicit false
set_option relaxedAutoImplicit false

namespace Lox

/-- How a statement ends, but for the names of scopes and functions. -/
inductive Flow.Same (between : Correspondence) : Flow → Flow → Prop
  | normal : Same between .normal .normal
  | returned {value value' : Value} : Value.Same between value value' →
    Same between (.returned value) (.returned value')

namespace Interpreter

variable (first second : Interpreter) (kept : ScopeId → Prop)

/-- If the one computation ends, so does the other, and in the same way. -/
abbrev InStep {α : Type} (related : Correspondence → α → α → Prop) (between : Correspondence)
    (computation computation' : Run α) : Prop :=
  Follows (first.Agreeing second kept) related between computation fun _ ↦ computation'

/-- The same for computations that begin in scopes that stand for each other. -/
abbrev InStepAt {α : Type} (related : Correspondence → α → α → Prop) (between : Correspondence)
    (computation computation' : Run α) : Prop :=
  Follows (first.AgreeingAt second kept) related between computation fun _ ↦ computation'

/-- The calls of functions that stand for each other, with such arguments, are in step. -/
def CallsInStep (between : Correspondence) (call : FunctionValue → List Value → Run Value) : Prop :=
  ∀ grown, between ≤ grown → ∀ function function' arguments arguments',
    FunctionValue.Same grown function function' →
    List.Forall₂ (Value.Same grown) arguments arguments' →
    first.InStep second kept Value.Same grown (call function arguments)
      (call function' arguments')

end Interpreter

/-- The operations of a host use nothing but their arguments and the global scope, and what can be
reached from there: from states that agree on that, whatever else is in them and whichever scope is
current, they are in step, if the calls that they make are. -/
def Host.UsesArgumentsAndGlobals (host : Host) : Prop :=
  ∀ first second kept between call, Interpreter.CallsInStep first second kept between call →
    ∀ name operation arguments arguments', List.Forall₂ (Value.Same between) arguments arguments' →
      first.InStep second kept Value.Same between (host.perform call name operation arguments)
        (host.perform call name operation arguments')

namespace Interpreter

variable {first second : Interpreter} {kept : ScopeId → Prop} {between : Correspondence}
  {calls : FunctionValue → List Value → Run Value} {host : Host}

/-- Computations that restore the scopes may begin in any that stand for each other. -/
theorem InStep.at {α : Type} {related : Correspondence → α → α → Prop}
    {computation computation' : Run α}
    (hstep : first.InStep second kept related between computation computation')
    (hrestores : computation.Keeps SameScopes) (hrestores' : computation'.Keeps SameScopes) :
    first.InStepAt second kept related between computation computation' := by
  intro grown hgrown state state' hagree
  refine (hstep grown hgrown state state' hagree.toAgreeing).imp_right ?_
  rintro ⟨outcome, hends, houtcome⟩
  refine ⟨outcome, hends, houtcome.mono fun hmore hreached hreached' hagree' ↦ ⟨hagree', ?_⟩⟩
  obtain ⟨-, rfl⟩ := hends.exists_run
  rw [(hrestores _ _ hreached).1, (hrestores' _ _ hreached').1]
  exact hmore.1 _ _ hagree.current

theorem inStep_current : first.InStepAt second kept Correspondence.scopes between
    (Bounded.gets current) (Bounded.gets current) :=
  .gets fun _ _ _ _ hagree ↦ hagree.current

/-- Scopes that stand for each other give a name values that do, or both of them leave it undefined.
-/
theorem inStep_valueIn {scope scope' : ScopeId} (hscope : between.scopes scope scope')
    (name : String) : first.InStep second kept Value.Same between (Run.valueIn name scope)
      (Run.valueIn name scope') := by
  refine .of_matches fun grown hgrown state state' hagree ↦ ?_
  have hvalue := hagree.get? (hgrown.1 _ _ hscope) name
  rw [Run.run_valueIn, Run.run_valueIn]
  generalize state.store.get? name scope = found at hvalue
  generalize state'.store.get? name scope' = found' at hvalue
  cases hvalue with
  | some hvalue => exact .done le_rfl hvalue hagree
  | none => exact .failed le_rfl hagree

/-- An assignment changes scopes that stand for each other, or fails on both sides. -/
theorem inStep_assignIn {scope scope' : ScopeId} (hscope : between.scopes scope scope')
    {value value' : Value} (hvalue : Value.Same between value value') (name : String) :
    first.InStepAt second kept (fun _ _ _ ↦ True) between (Run.assignIn name value scope)
      (Run.assignIn name value' scope') := by
  refine .of_matches fun grown hgrown state state' hagree ↦ ?_
  have howner := hagree.owner? (hgrown.1 _ _ hscope) name
  rw [Run.run_assignIn, Run.run_assignIn]
  generalize state.store.owner? name scope = owner at howner
  generalize state'.store.owner? name scope' = owner' at howner
  cases howner with
  | some howner =>
    have hdefined := hagree.define howner (hvalue.grow hgrown) name
    exact .done le_rfl trivial { hdefined with current := hagree.current }
  | none => exact .failed le_rfl hagree

theorem inStep_define {value value' : Value} (hvalue : Value.Same between value value')
    (name : String) : first.InStepAt second kept (fun _ _ _ ↦ True) between (Run.define name value)
      (Run.define name value') := by
  refine .modify fun grown hgrown state state' hagree ↦ ?_
  have hdefined := hagree.define hagree.current (hvalue.grow hgrown) name
  exact { hdefined with current := hagree.current }

theorem inStep_printLine (line : String) :
    first.InStepAt second kept (fun _ _ _ ↦ True) between (Bounded.modify (·.printLine line))
      (Bounded.modify (·.printLine line)) := by
  refine .modify fun grown hgrown state state' hagree ↦ ?_
  exact { hagree.printLine line with current := hagree.current }

/-- A declaration makes a function on either side, and from then on these stand for each other. -/
theorem inStep_newFunction {captured captured' : ScopeId}
    (hcaptured : between.scopes captured captured') (declaration : FunctionDeclaration) :
    first.InStepAt second kept Value.Same between
      (Bounded.update (·.newFunction (.declared declaration captured)))
      (Bounded.update (·.newFunction (.declared declaration captured'))) := by
  refine .update fun grown hgrown state state' hagree ↦ ?_
  obtain ⟨more, hmore, hvalue, hmade⟩ :=
    hagree.newFunction (hgrown.1 _ _ hcaptured) declaration
  exact ⟨more, hmore, hvalue, { hmade with current := hmore.1 _ _ hagree.current }⟩

/-- So does a scope that is opened on either side, in scopes that stand for each other. -/
theorem inStep_openScope {enclosing enclosing' : ScopeId}
    (henclosing : between.scopes enclosing enclosing') {pairs pairs' : List (String × Value)}
    (hpairs : Bindings.Same between pairs pairs') :
    first.InStep second kept Correspondence.scopes between (Run.openScope enclosing pairs)
      (Run.openScope enclosing' pairs') := by
  refine .of_matches fun grown hgrown state state' hagree ↦ ?_
  rw [Run.run_openScope, Run.run_openScope]
  have hvalues (name : String) : Option.Rel (Value.Same grown)
      (Scope.value? name ⟨.ofPairs pairs, some enclosing⟩)
      (Scope.value? name ⟨.ofPairs pairs', some enclosing'⟩) :=
    rel_imp (Bindings.rel_lookup_ofPairs hpairs name) fun _ _ hvalue ↦ hvalue.grow hgrown
  obtain ⟨more, hmore, hscope, hpushed⟩ :=
    hagree.push hvalues (.some (hgrown.1 _ _ henclosing))
  exact .done hmore hscope hpushed

/-- What is run in scopes that stand for each other may be run from any. -/
theorem inStep_inScope {α : Type} {related : Correspondence → α → α → Prop} {body : Run α}
    {scope scope' : ScopeId} (hscope : between.scopes scope scope')
    (hbody : first.InStepAt second kept related between body body) :
    first.InStep second kept related between (Run.inScope scope body)
      (Run.inScope scope' body) := by
  intro grown hgrown state state' hagree
  have hinside := hagree.enter (hgrown.1 _ _ hscope)
  simp only [Run.inScope, Bounded.run_within_eq_map]
  refine (hbody grown hgrown _ _ hinside).imp Outcome.map_eq_exhausted_iff.mpr ?_
  rintro ⟨outcome, hends, houtcome⟩
  refine ⟨_, hends.within, ?_⟩
  generalize body.run (state.enter scope).2 = reached at houtcome
  cases houtcome with
  | done hmore hvalue hreached => exact .done hmore hvalue hreached.toAgreeing.leave
  | failed hmore hreached => exact .failed hmore hreached.toAgreeing.leave

/-- Something is run in a scope of its own. -/
theorem inStep_nested {α : Type} {related : Correspondence → α → α → Prop}
    {enclosing enclosing' : ScopeId} (henclosing : between.scopes enclosing enclosing')
    {pairs pairs' : List (String × Value)}
    (hpairs : Bindings.Same between pairs pairs') {body : Run α}
    (hbody : ∀ {between}, first.InStepAt second kept related between body body) :
    first.InStep second kept related between
      (Run.openScope enclosing pairs >>= (Run.inScope · body))
      (Run.openScope enclosing' pairs' >>= (Run.inScope · body)) :=
  .bind (inStep_openScope henclosing hpairs) fun _ _ _ _ hscope ↦ inStep_inScope hscope hbody

/-- What is called is a function on both sides, or on both it is refused. -/
theorem CallsInStep.callValue (hcall : CallsInStep first second kept between calls)
    {callee callee' : Value} (hcallee : Value.Same between callee callee')
    {arguments arguments' : List Value}
    (harguments : List.Forall₂ (Value.Same between) arguments arguments') :
    first.InStep second kept Value.Same between (callValue calls callee arguments)
      (callValue calls callee' arguments') := by
  cases hcallee with
  | function hfunction => exact hcall _ le_rfl _ _ _ _ hfunction harguments
  | _ => exact .fail _

/-- Functions that stand for each other take as many arguments as each other. -/
theorem CallsInStep.callExact (hcall : CallsInStep first second kept between calls) :
    CallsInStep first second kept between (callExact calls) := by
  intro grown hgrown function function' arguments arguments' hfunction harguments
  have hmatches := hfunction.toMatches
  simp only [Lox.callExact, hmatches.arity_eq, hmatches.name_eq, harguments.length_eq]
  split
  · exact hcall grown hgrown _ _ _ _ hfunction harguments
  · exact .fail _

/-! ### Whole runs -/

/-- Whatever is run with a given bound is in step with itself. -/
structure UpToInStep (host : Host) (first second : Interpreter) (kept : ScopeId → Prop)
    (bound : Nat) : Prop where
  evaluate : ∀ {between} expression, first.InStepAt second kept Value.Same between
    (evaluate host bound expression) (evaluate host bound expression)
  evaluateAll : ∀ {between} expressions,
    first.InStepAt second kept (fun between ↦ List.Forall₂ (Value.Same between)) between
      (evaluateAll host bound expressions) (evaluateAll host bound expressions)
  execute : ∀ {between} statement, first.InStepAt second kept Flow.Same between
    (execute host bound statement) (execute host bound statement)
  executeAll : ∀ {between} statements, first.InStepAt second kept Flow.Same between
    (executeAll host bound statements) (executeAll host bound statements)
  call : ∀ {between}, CallsInStep first second kept between (call host bound)

variable {bound : Nat}

/-- Expressions are in step with themselves, if everything with a smaller bound is. Behind an
operand the current scopes stand for each other again, as calls restore them. -/
theorem evaluate_inStep (hrestores : host.RestoresScopes)
    (ih : UpToInStep host first second kept bound) (expression : Expr) :
    first.InStepAt second kept Value.Same between (evaluate host (bound + 1) expression)
      (evaluate host (bound + 1) expression) := by
  cases expression with
  | literal literal span =>
    refine .pure fun _ _ ↦ ?_
    cases literal <;> constructor
  | grouping inner span => exact ih.evaluate inner
  | unary operator operand span =>
    simp only [Lox.evaluate]
    refine .bind (ih.evaluate operand) fun _ _ value value' hvalue ↦ ?_
    rw [operator.apply_eq hvalue.toMatches]
    exact .ofExcept fun _ _ hresult ↦ .of_matches fun _ ↦ UnaryOperator.matches_apply hresult
  | binary operator left right span =>
    simp only [Lox.evaluate]
    refine .bind (ih.evaluate left) fun _ _ value value' hvalue ↦ ?_
    refine .bind (ih.evaluate right) fun _ hgrown other other' hother ↦ ?_
    rw [operator.apply_eq (hvalue.grow hgrown).toMatches hother.toMatches]
    exact .ofExcept fun _ _ hresult ↦ .of_matches fun _ ↦ BinaryOperator.matches_apply hresult
  | logical operator left right span =>
    simp only [Lox.evaluate]
    refine .bind (ih.evaluate left) fun _ _ value value' hvalue ↦ ?_
    have hdecided : operator.isDecided value = operator.isDecided value' := by
      cases operator <;> simp only [LogicalOperator.isDecided, hvalue.toMatches.isTruthy_eq]
    rw [hdecided]
    split
    · exact .pure fun _ ↦ hvalue.grow
    · exact ih.evaluate right
  | name identifier =>
    simp only [Lox.evaluate]
    refine .bind inStep_current fun _ _ _ _ hscope ↦ ?_
    exact (inStep_valueIn hscope identifier.name).at (Run.keeps_valueIn _ _) (Run.keeps_valueIn _ _)
  | assign target source span =>
    simp only [Lox.evaluate]
    refine .bind (ih.evaluate source) fun _ _ value value' hvalue ↦ ?_
    refine .bind inStep_current fun _ hgrown _ _ hscope ↦ ?_
    refine .bind (inStep_assignIn hscope (hvalue.grow hgrown) target.name) fun _ hmore _ _ _ ↦ ?_
    exact .pure fun _ hmore' ↦ hvalue.grow ((hgrown.trans hmore).trans hmore')
  | call callee arguments span =>
    simp only [Lox.evaluate]
    refine .bind (ih.evaluate callee) fun _ _ called called' hcalled ↦ ?_
    refine .bind (ih.evaluateAll arguments) fun _ hgrown values values' hvalues ↦ ?_
    have hkeeps (called : Value) (values : List Value) :
        (callValue (callExact (call host bound)) called values).Keeps SameScopes :=
      keeps_callValue (keeps_callExact ((SameScopes.heldByRuns hrestores).upTo bound).call) _ _
    have hcalls := CallsInStep.callValue ih.call.callExact (hcalled.grow hgrown) hvalues
    exact hcalls.at (hkeeps _ _) (hkeeps _ _)

theorem evaluateAll_inStep (ih : UpToInStep host first second kept bound)
    (expressions : List Expr) :
    first.InStepAt second kept (fun between ↦ List.Forall₂ (Value.Same between)) between
      (evaluateAll host (bound + 1) expressions) (evaluateAll host (bound + 1) expressions) := by
  cases expressions with
  | nil => exact .pure fun _ _ ↦ .nil
  | cons expression others =>
    simp only [Lox.evaluateAll]
    refine .bind (ih.evaluate expression) fun _ _ value value' hvalue ↦ ?_
    refine .bind (ih.evaluateAll others) fun _ hgrown values values' hvalues ↦ ?_
    exact .pure fun _ hmore ↦ .cons (hvalue.grow (hgrown.trans hmore))
      (hvalues.imp fun _ _ hvalue ↦ hvalue.grow hmore)

/-- The same holds for statements. Blocks are run in new scopes that stand for each other. -/
theorem execute_inStep (hrestores : host.RestoresScopes)
    (ih : UpToInStep host first second kept bound) (statement : Stmt) :
    first.InStepAt second kept Flow.Same between (execute host (bound + 1) statement)
      (execute host (bound + 1) statement) := by
  cases statement with
  | expression value =>
    simp only [Lox.execute]
    exact .bind (ih.evaluate value) fun _ _ _ _ _ ↦ .pure fun _ _ ↦ .normal
  | print value =>
    simp only [Lox.execute]
    refine .bind (ih.evaluate value) fun _ _ value value' hvalue ↦ ?_
    rw [hvalue.toMatches.display_eq]
    exact .bind (inStep_printLine _) fun _ _ _ _ _ ↦ .pure fun _ _ ↦ .normal
  | declare target initializer =>
    cases initializer with
    | none =>
      simp only [Lox.execute]
      exact .bind (inStep_define .nil target.name) fun _ _ _ _ _ ↦ .pure fun _ _ ↦ .normal
    | some initializer =>
      simp only [Lox.execute]
      refine .bind (ih.evaluate initializer) fun _ _ value value' hvalue ↦ ?_
      exact .bind (inStep_define hvalue target.name) fun _ _ _ _ _ ↦ .pure fun _ _ ↦ .normal
  | block body =>
    simp only [Lox.execute]
    refine .bind inStep_current fun _ _ enclosing enclosing' henclosing ↦ ?_
    have hkeeps (enclosing : ScopeId) : (Run.openScope enclosing [] >>=
        (Run.inScope · (executeAll host bound body))).Keeps SameScopes :=
      .nested enclosing [] (((SameScopes.heldByRuns hrestores).upTo bound).executeAll body)
    exact (inStep_nested henclosing .nil (ih.executeAll body)).at (hkeeps _) (hkeeps _)
  | conditional condition thenBranch elseBranch =>
    simp only [Lox.execute]
    refine .bind (ih.evaluate condition) fun _ _ value value' hvalue ↦ ?_
    rw [hvalue.toMatches.isTruthy_eq]
    split
    · exact ih.execute thenBranch
    · cases elseBranch with
      | none => exact .pure fun _ _ ↦ .normal
      | some branch => exact ih.execute branch
  | loop condition body =>
    simp only [Lox.execute]
    refine .bind (ih.evaluate condition) fun _ _ value value' hvalue ↦ ?_
    rw [hvalue.toMatches.isTruthy_eq]
    split
    · refine .bind (ih.execute body) fun _ _ flow flow' hflow ↦ ?_
      cases hflow with
      | normal => exact ih.execute (.loop condition body)
      | returned hresult => exact .pure fun _ hgrown ↦ .returned (hresult.grow hgrown)
    · exact .pure fun _ _ ↦ .normal
  | function identifier parameters body span =>
    simp only [Lox.execute]
    refine .bind inStep_current fun _ _ scope scope' hscope ↦ ?_
    refine .bind (inStep_newFunction hscope _) fun _ _ value value' hvalue ↦ ?_
    exact .bind (inStep_define hvalue identifier.name) fun _ _ _ _ _ ↦ .pure fun _ _ ↦ .normal
  | «return» value span =>
    cases value with
    | none => exact .pure fun _ _ ↦ .returned .nil
    | some result =>
      simp only [Lox.execute]
      refine .bind (ih.evaluate result) fun _ _ value value' hvalue ↦ ?_
      exact .pure fun _ hgrown ↦ .returned (hvalue.grow hgrown)

/-- Lists of statements are in step up to the first `return` on both sides. -/
theorem executeAll_inStep (ih : UpToInStep host first second kept bound)
    (statements : List Stmt) : first.InStepAt second kept Flow.Same between
      (executeAll host (bound + 1) statements) (executeAll host (bound + 1) statements) := by
  cases statements with
  | nil => exact .pure fun _ _ ↦ .normal
  | cons statement others =>
    simp only [Lox.executeAll]
    refine .bind (ih.execute statement) fun _ _ flow flow' hflow ↦ ?_
    cases hflow with
    | normal => exact ih.executeAll others
    | returned hresult => exact .pure fun _ hgrown ↦ .returned (hresult.grow hgrown)

/-- A call of a declared function runs its body in a new scope, inside of the one that it has
captured. An operation of the host is in step by assumption. -/
theorem call_inStep (hhost : host.UsesArgumentsAndGlobals)
    (ih : UpToInStep host first second kept bound) :
    CallsInStep first second kept between (call host (bound + 1)) := by
  intro grown hgrown function function' arguments arguments' hfunction harguments
  cases hfunction with
  | declared declaration hidentity hcaptured =>
    simp only [Lox.call]
    rw [← bind_assoc, ← bind_assoc]
    have hpairs := Bindings.forall₂_zip harguments (declaration.parameters.map Identifier.name)
    refine .bind (inStep_nested hcaptured hpairs (ih.executeAll declaration.body)) ?_
    intro _ _ flow flow' hflow
    cases hflow with
    | normal => exact .pure fun _ _ ↦ .nil
    | returned hresult => exact .pure fun _ hmore ↦ hresult.grow hmore
  | native name arity operation hidentity =>
    simp only [Lox.call]
    exact hhost _ _ _ _ _ ih.call name operation _ _ harguments

/-- Whatever is run with any bound is in step with itself. -/
theorem upTo_inStep (hrestores : host.RestoresScopes) (hhost : host.UsesArgumentsAndGlobals)
    (first second : Interpreter) (kept : ScopeId → Prop) (bound : Nat) :
    UpToInStep host first second kept bound := by
  induction bound with
  | zero =>
    exact ⟨fun _ ↦ .exhausted, fun _ ↦ .exhausted, fun _ ↦ .exhausted, fun _ ↦ .exhausted,
      fun _ _ _ _ _ _ _ _ ↦ .exhausted⟩
  | succ bound ih =>
    exact ⟨evaluate_inStep hrestores ih, evaluateAll_inStep ih, execute_inStep hrestores ih,
      executeAll_inStep ih, call_inStep hhost ih⟩

end Interpreter

/-- The operations described with `Native` look at nothing but their arguments and the global
scope. -/
theorem Host.standard_usesArgumentsAndGlobals : Host.standard.UsesArgumentsAndGlobals := by
  intro first second kept between call hcall name operation arguments arguments' harguments
  change first.InStep second kept Value.Same between (operation.perform call name arguments)
    (operation.perform call name arguments')
  have hfirst : Value.Same between (arguments.headD .nil) (arguments'.headD .nil) := by
    cases harguments with
    | nil => exact .nil
    | cons hargument _ => exact hargument
  have hothers : List.Forall₂ (Value.Same between) arguments.tail arguments'.tail := by
    cases harguments with
    | nil => exact .nil
    | cons _ hothers => exact hothers
  cases operation with
  | clock now => exact .pure fun _ _ ↦ .string _
  | date now => exact .pure fun _ _ ↦ .string _
  | first => exact .pure fun _ ↦ hfirst.grow
  | count =>
    simp only [Native.perform, harguments.length_eq]
    exact .pure fun _ _ ↦ .number _
  | fail => exact .fail _
  | twice =>
    cases harguments with
    | nil => exact .fail _
    | cons hargument _ =>
      cases hargument with
      | number value => exact .pure fun _ _ ↦ .number _
      | _ => exact .fail _
  | apply => exact hcall.callValue hfirst hothers
  | global =>
    cases harguments with
    | nil => exact .pure fun _ _ ↦ .nil
    | cons hargument _ =>
      cases hargument with
      | string target =>
        refine .bind (.gets fun _ _ _ _ hagree ↦ hagree.globals) fun _ _ _ _ hscope ↦ ?_
        exact Interpreter.inStep_valueIn hscope target
      | _ => exact .pure fun _ _ ↦ .nil

end Lox
