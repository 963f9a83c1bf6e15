import Lox.Evaluation
import Lox.Proofs.Execution.Following

/-!
# Simulations

A relation between states is a `Simulation` if both sides can take every step of a run together:
look a name up, bind it or assign to it, make a function, open a scope, make a scope current, print
a line and perform an operation of the host. Then runs of programs that say the same follow each
other from states that are related: so do evaluations, executions and calls (`Simulation.upTo`).

The induction is on the bound of the run that is followed, over all of the mutually recursive
functions at once; what follows may need another bound. Within one bound a second induction is
needed where the other program has more parentheses (`Simulation.evaluate_succ`).
-/

set_option autoImplicit false
set_option relaxedAutoImplicit false

namespace Lox

variable {leeway : Leeway} {host : Host}
  {states : Correspondence → Interpreter → Interpreter → Prop} {between grown : Correspondence}

/-- How a statement ends, up to what stands for each other. -/
inductive Flow.Matches (leeway : Leeway) (between : Correspondence) : Flow → Flow → Prop
  | normal : Matches leeway between .normal .normal
  | returned {value value' : Value} : Value.Matches leeway between value value' →
    Matches leeway between (.returned value) (.returned value')

/-- Lists of values that stand for each other, one after the other. -/
def Value.MatchesAll (leeway : Leeway) (between : Correspondence) :
    List Value → List Value → Prop :=
  List.Forall₂ (Value.Matches leeway between)

/-- Arguments that stand for each other are bound to the same names. -/
theorem Value.MatchesAll.zip {arguments arguments' : List Value}
    (harguments : MatchesAll leeway between arguments arguments') (names : List String) :
    Bindings.Matches leeway between (names.zip arguments) (names.zip arguments') :=
  Bindings.forall₂_zip harguments names

/-- The calls of functions that stand for each other, with such arguments, follow each other. -/
def CallsFollow (leeway : Leeway) (states : Correspondence → Interpreter → Interpreter → Prop)
    (between : Correspondence) (call : FunctionValue → List Value → Run Value)
    (calls : Nat → FunctionValue → List Value → Run Value) : Prop :=
  ∀ grown, between ≤ grown → ∀ function function' arguments arguments',
    FunctionValue.Matches leeway grown function function' →
    Value.MatchesAll leeway grown arguments arguments' →
    Follows states (Value.Matches leeway) grown (call function arguments)
      fun bound ↦ calls bound function' arguments'

/-- The operations of a host, on arguments that stand for each other, follow each other if the calls
that they make do. -/
def Host.Respects (host : Host) (leeway : Leeway)
    (states : Correspondence → Interpreter → Interpreter → Prop) : Prop :=
  ∀ between call calls, CallsFollow leeway states between call calls →
    ∀ name operation arguments arguments', Value.MatchesAll leeway between arguments arguments' →
      Follows states (Value.Matches leeway) between (host.perform call name operation arguments)
        fun bound ↦ host.perform (calls bound) name operation arguments'

/-- In scopes that stand for each other, every name has values that do so too. -/
def LookupsMatch (leeway : Leeway)
    (states : Correspondence → Interpreter → Interpreter → Prop) : Prop :=
  ∀ between state state' scope scope' name, states between state state' →
    between.scopes scope scope' →
      Option.Rel (Value.Matches leeway between) (state.store.get? name scope)
        (state'.store.get? name scope')

/-- A relation between states in which every step of a run can be taken on both sides. -/
structure Simulation (leeway : Leeway) (host : Host)
    (states : Correspondence → Interpreter → Interpreter → Prop) : Prop where
  current : ∀ {between state state'}, states between state state' →
    between.scopes state.current state'.current
  lookups : LookupsMatch leeway states
  printLine : ∀ {between state state'}, states between state state' → ∀ line,
    states between (state.printLine line) (state'.printLine line)
  define : ∀ {between state state' value value'}, states between state state' →
    Value.Matches leeway between value value' → ∀ name,
      states between (state.define name value state.current)
        (state'.define name value' state'.current)
  assign : ∀ {between state state' value value'}, states between state state' →
    Value.Matches leeway between value value' → ∀ name,
      (state.assign name value state.current).1 = (state'.assign name value' state'.current).1 ∧
        states between (state.assign name value state.current).2
          (state'.assign name value' state'.current).2
  newFunction : ∀ {between state state' declaration declaration' captured captured'},
    states between state state' → declaration.Alike leeway declaration' →
    between.scopes captured captured' → ∃ grown, between ≤ grown ∧
      Value.Matches leeway grown (state.newFunction (.declared declaration captured)).1
        (state'.newFunction (.declared declaration' captured')).1 ∧
      states grown (state.newFunction (.declared declaration captured)).2
        (state'.newFunction (.declared declaration' captured')).2
  openScope : ∀ {between enclosing enclosing' bindings bindings'},
    between.scopes enclosing enclosing' → Bindings.Matches leeway between bindings bindings' →
      Follows states Correspondence.scopes between (Run.openScope enclosing bindings)
        fun _ ↦ Run.openScope enclosing' bindings'
  enter : ∀ {between state state' scope scope'}, states between state state' →
    between.scopes scope scope' → states between (state.enter scope).2 (state'.enter scope').2
  perform : host.Respects leeway states

theorem LookupsMatch.followsValueIn (hlookups : LookupsMatch leeway states) {scope scope' : ScopeId}
    (hscope : between.scopes scope scope') (name : String) :
    Follows states (Value.Matches leeway) between (Run.valueIn name scope)
      fun _ ↦ Run.valueIn name scope' := by
  refine .of_matches fun grown hgrown state state' hstates ↦ ?_
  have hvalue := hlookups _ _ _ _ _ name hstates (hgrown.1 _ _ hscope)
  rw [Run.run_valueIn, Run.run_valueIn]
  generalize state.store.get? name scope = found at hvalue
  generalize state'.store.get? name scope' = found' at hvalue
  cases hvalue with
  | some hvalue => exact .done le_rfl hvalue hstates
  | none => exact .failed le_rfl hstates

theorem CallsFollow.followsCallValue {call : FunctionValue → List Value → Run Value}
    {calls : Nat → FunctionValue → List Value → Run Value}
    (hcall : CallsFollow leeway states between call calls) {callee callee' : Value}
    {arguments arguments' : List Value} (hcallee : Value.Matches leeway between callee callee')
    (harguments : Value.MatchesAll leeway between arguments arguments') :
    Follows states (Value.Matches leeway) between (callValue call callee arguments)
      fun bound ↦ callValue (calls bound) callee' arguments' := by
  cases hcallee with
  | function hfunction => exact hcall _ le_rfl _ _ _ _ hfunction harguments
  | _ => exact .fail _

theorem CallsFollow.callExact {call : FunctionValue → List Value → Run Value}
    {calls : Nat → FunctionValue → List Value → Run Value}
    (hcall : CallsFollow leeway states between call calls) :
    CallsFollow leeway states between (callExact call) fun bound ↦ callExact (calls bound) := by
  intro grown hgrown function function' arguments arguments' hfunction harguments
  simp only [Lox.callExact, hfunction.arity_eq, hfunction.name_eq, harguments.length_eq]
  split
  · exact hcall grown hgrown _ _ _ _ hfunction harguments
  · exact .fail _

/-- The operations described with `Native` look at nothing but their arguments and the global
scope. -/
theorem Host.standard_respects (hlookups : LookupsMatch leeway states)
    (hglobals : ∀ {between state state'}, states between state state' →
      between.scopes state.globals state'.globals) : Host.standard.Respects leeway states := by
  intro between call calls hcall name operation arguments arguments' harguments
  change Follows states (Value.Matches leeway) between (operation.perform call name arguments)
    fun bound ↦ operation.perform (calls bound) name arguments'
  have hfirst : Value.Matches leeway between (arguments.headD .nil) (arguments'.headD .nil) := by
    cases harguments with
    | nil => exact .nil
    | cons hargument _ => exact hargument
  have hothers : Value.MatchesAll leeway between arguments.tail arguments'.tail := by
    cases harguments with
    | nil => exact .nil
    | cons _ hothers => exact hothers
  cases operation with
  | clock now => exact .pure fun _ _ ↦ .string _
  | date now => exact .pure fun _ _ ↦ .string _
  | first => exact .pure fun _ ↦ hfirst.grow
  | count =>
    simp only [Native.perform, harguments.length_eq]
    exact .pure fun _ _ ↦ .number _
  | fail => exact .fail _
  | twice =>
    cases harguments with
    | nil => exact .fail _
    | cons hargument _ =>
      cases hargument with
      | number value => exact .pure fun _ _ ↦ .number _
      | _ => exact .fail _
  | apply => exact hcall.followsCallValue hfirst hothers
  | global =>
    cases harguments with
    | nil => exact .pure fun _ _ ↦ .nil
    | cons hargument _ =>
      cases hargument with
      | string target =>
        refine .bind (.gets fun _ _ _ _ ↦ hglobals) fun _ _ _ _ hscope ↦ ?_
        exact hlookups.followsValueIn hscope target
      | _ => exact .pure fun _ _ ↦ .nil

namespace Simulation

theorem followsCurrent (h : Simulation leeway host states) :
    Follows states Correspondence.scopes between (Bounded.gets Interpreter.current : Run ScopeId)
      fun _ ↦ Bounded.gets Interpreter.current :=
  .gets fun _ _ _ _ hstates ↦ h.current hstates

theorem followsDefine (h : Simulation leeway host states) {value value' : Value}
    (hvalue : Value.Matches leeway between value value') (name : String) :
    Follows states (fun _ _ _ ↦ True) between (Run.define name value)
      fun _ ↦ Run.define name value' :=
  .modify fun _ hgrown _ _ hstates ↦ h.define hstates (hvalue.grow hgrown) name

/-- An assignment from the current scope, whether or not the name is bound. -/
theorem followsAssign (h : Simulation leeway host states) {value value' : Value}
    (hvalue : Value.Matches leeway between value value') (name : String) :
    Follows states (fun _ _ _ ↦ True) between
      (Bounded.gets Interpreter.current >>= Run.assignIn name value)
      fun _ ↦ Bounded.gets Interpreter.current >>= Run.assignIn name value' := by
  refine .of_matches fun grown hgrown state state' hstates ↦ ?_
  obtain ⟨hbound, hassigned⟩ := h.assign hstates (hvalue.grow hgrown) name
  simp only [Bounded.run_bind, Bounded.run_gets, Run.assignIn, Bounded.run_update, hbound]
  split
  · exact .done le_rfl trivial hassigned
  · exact .failed le_rfl hassigned

theorem followsNewFunction (h : Simulation leeway host states)
    {declaration declaration' : FunctionDeclaration} {captured captured' : ScopeId}
    (hdeclaration : declaration.Alike leeway declaration')
    (hcaptured : between.scopes captured captured') :
    Follows states (Value.Matches leeway) between
      (Bounded.update (·.newFunction (.declared declaration captured)) : Run Value)
      fun _ ↦ Bounded.update (·.newFunction (.declared declaration' captured')) :=
  .update fun _ hgrown _ _ hstates ↦
    h.newFunction hstates hdeclaration (hgrown.1 _ _ hcaptured)

/-- What is run in other scopes follows if it does so by itself, and the former scopes are current
again afterwards. -/
theorem followsInScope {α α' : Type} {related : Correspondence → α → α' → Prop}
    (h : Simulation leeway host states) {scope scope' : ScopeId}
    (hscope : between.scopes scope scope') {body : Run α} {bodies : Nat → Run α'}
    (hbody : Follows states related between body bodies) :
    Follows states related between (Run.inScope scope body)
      fun bound ↦ Run.inScope scope' (bodies bound) :=
  .inScope h.current h.enter hscope hbody

/-- Something is run in a scope of its own. -/
theorem followsNested {α α' : Type} {related : Correspondence → α → α' → Prop}
    (h : Simulation leeway host states) {enclosing enclosing' : ScopeId}
    {bindings bindings' : Bindings} (henclosing : between.scopes enclosing enclosing')
    (hbindings : Bindings.Matches leeway between bindings bindings') {body : Run α}
    {bodies : Nat → Run α'} (hbody : ∀ {between}, Follows states related between body bodies) :
    Follows states related between (Run.openScope enclosing bindings >>= (Run.inScope · body))
      fun bound ↦ Run.openScope enclosing' bindings' >>= (Run.inScope · (bodies bound)) :=
  .bind (h.openScope henclosing hbindings) fun _ _ _ _ hscope ↦ h.followsInScope hscope hbody

/-! ### Whole runs -/

/-- What is run with a given bound is followed by what says the same. -/
structure UpTo (leeway : Leeway) (host : Host)
    (states : Correspondence → Interpreter → Interpreter → Prop) (bound : Nat) : Prop where
  evaluate : ∀ {between tree tree'}, Expr.Alike leeway tree tree' →
    Follows states (Value.Matches leeway) between (evaluate host bound tree) (evaluate host · tree')
  evaluateAll : ∀ {between trees trees'}, List.Forall₂ (Expr.Alike leeway) trees trees' →
    Follows states (Value.MatchesAll leeway) between (evaluateAll host bound trees)
      (evaluateAll host · trees')
  execute : ∀ {between tree tree'}, Stmt.Alike leeway tree tree' →
    Follows states (Flow.Matches leeway) between (execute host bound tree) (execute host · tree')
  executeAll : ∀ {between trees trees'}, Stmt.AlikeAll leeway trees trees' →
    Follows states (Flow.Matches leeway) between (executeAll host bound trees)
      (executeAll host · trees')
  call : ∀ {between}, CallsFollow leeway states between (call host bound) (call host)

variable {bound : Nat}

/-- The second induction is on the tree of the run that follows, because its additional parentheses
take a turn of their own. -/
theorem evaluate_succ (h : Simulation leeway host states) (ih : UpTo leeway host states bound)
    {tree tree' : Expr} (halike : Expr.Alike leeway tree tree') :
    Follows states (Value.Matches leeway) between (evaluate host (bound + 1) tree)
      (evaluate host · tree') := by
  induction hsize : sizeOf tree' using Nat.strongRecOn generalizing tree' with
  | ind size peel =>
    subst hsize
    rw [← Follows.succ_iff]
    cases halike with
    | literal value =>
      refine .pure fun _ _ ↦ ?_
      cases value <;> constructor
    | grouping hinner => exact ih.evaluate hinner
    | unary operator hoperand =>
      simp only [Lox.evaluate]
      refine .bind (ih.evaluate hoperand) fun _ _ value value' hvalue ↦ ?_
      rw [operator.apply_eq hvalue]
      exact .ofExcept fun _ _ ↦ UnaryOperator.matches_apply
    | binary operator hleft hright =>
      simp only [Lox.evaluate]
      refine .bind (ih.evaluate hleft) fun _ _ first first' hfirst ↦ ?_
      refine .bind (ih.evaluate hright) fun _ hgrown second second' hsecond ↦ ?_
      rw [BinaryOperator.apply_eq (hfirst.grow hgrown) hsecond]
      exact .ofExcept fun _ _ ↦ BinaryOperator.matches_apply
    | logical operator hleft hright =>
      simp only [Lox.evaluate]
      refine .bind (ih.evaluate hleft) fun _ _ first first' hfirst ↦ ?_
      have hdecided : operator.isDecided first = operator.isDecided first' := by
        cases operator <;> simp only [LogicalOperator.isDecided, hfirst.isTruthy_eq]
      rw [hdecided]
      split
      · exact .pure fun _ ↦ hfirst.grow
      · exact ih.evaluate hright
    | name name =>
      simp only [Lox.evaluate]
      exact .bind h.followsCurrent fun _ _ _ _ hscope ↦ h.lookups.followsValueIn hscope name
    | assign name hvalue =>
      simp only [Lox.evaluate]
      refine .bind (ih.evaluate hvalue) fun grown hgrown value value' hvalue ↦ ?_
      change Follows _ _ _
        ((Bounded.gets Interpreter.current >>= Run.assignIn name value) >>= fun _ ↦ pure value)
        fun _ ↦ (Bounded.gets Interpreter.current >>= Run.assignIn name value') >>=
          fun _ ↦ pure value'
      refine .bind (h.followsAssign hvalue name) fun _ hmore _ _ _ ↦ ?_
      exact .pure fun _ hmore' ↦ hvalue.grow (hmore.trans hmore')
    | call hcallee harguments =>
      simp only [Lox.evaluate]
      refine .bind (ih.evaluate hcallee) fun _ _ called called' hcalled ↦ ?_
      refine .bind (ih.evaluateAll harguments) fun _ hgrown values values' hvalues ↦ ?_
      exact CallsFollow.followsCallValue ih.call.callExact (hcalled.grow hgrown) hvalues
    | opened hallowed hinner => exact Follows.succ_iff.mpr (ih.evaluate hinner)
    | @closed inner _ span hallowed hinner =>
      have hsmaller : sizeOf inner < sizeOf (Expr.grouping inner span) := by
        rw [Expr.grouping.sizeOf_spec]
        omega
      exact peel _ hsmaller hinner rfl

theorem evaluateAll_succ (ih : UpTo leeway host states bound) {trees trees' : List Expr}
    (halike : List.Forall₂ (Expr.Alike leeway) trees trees') :
    Follows states (Value.MatchesAll leeway) between (evaluateAll host (bound + 1) trees)
      (evaluateAll host · trees') := by
  rw [← Follows.succ_iff]
  cases halike with
  | nil => exact .pure fun _ _ ↦ .nil
  | cons hfirst hothers =>
    simp only [Lox.evaluateAll]
    refine .bind (ih.evaluate hfirst) fun _ _ value value' hvalue ↦ ?_
    refine .bind (ih.evaluateAll hothers) fun _ hgrown values values' hvalues ↦ ?_
    exact .pure fun _ hmore ↦ .cons (hvalue.grow (hgrown.trans hmore))
      (hvalues.imp fun _ _ hvalue ↦ hvalue.grow hmore)

theorem execute_succ (h : Simulation leeway host states) (ih : UpTo leeway host states bound)
    {tree tree' : Stmt} (halike : Stmt.Alike leeway tree tree') :
    Follows states (Flow.Matches leeway) between (execute host (bound + 1) tree)
      (execute host · tree') := by
  rw [← Follows.succ_iff]
  cases halike with
  | expression hvalue =>
    simp only [Lox.execute]
    exact .bind (ih.evaluate hvalue) fun _ _ _ _ _ ↦ .pure fun _ _ ↦ .normal
  | print hvalue =>
    simp only [Lox.execute]
    refine .bind (ih.evaluate hvalue) fun _ _ value value' hvalue ↦ ?_
    rw [hvalue.display_eq]
    refine .bind (.modify fun _ _ _ _ hstates ↦ h.printLine hstates _) fun _ _ _ _ _ ↦ ?_
    exact .pure fun _ _ ↦ .normal
  | declare name hinitializer =>
    cases hinitializer with
    | none =>
      simp only [Lox.execute]
      exact .bind (h.followsDefine .nil name) fun _ _ _ _ _ ↦ .pure fun _ _ ↦ .normal
    | some hvalue =>
      simp only [Lox.execute]
      refine .bind (ih.evaluate hvalue) fun _ _ value value' hvalue ↦ ?_
      exact .bind (h.followsDefine hvalue name) fun _ _ _ _ _ ↦ .pure fun _ _ ↦ .normal
  | block hbody =>
    simp only [Lox.execute]
    refine .bind h.followsCurrent fun _ _ enclosing enclosing' henclosing ↦ ?_
    exact h.followsNested henclosing .nil (ih.executeAll hbody)
  | conditional hcondition hthen helse =>
    simp only [Lox.execute]
    refine .bind (ih.evaluate hcondition) fun _ _ value value' hvalue ↦ ?_
    rw [hvalue.isTruthy_eq]
    split
    · exact ih.execute hthen
    · cases helse with
      | none => exact .pure fun _ _ ↦ .normal
      | some hbranch => exact ih.execute hbranch
  | loop hcondition hbody =>
    simp only [Lox.execute]
    refine .bind (ih.evaluate hcondition) fun _ _ value value' hvalue ↦ ?_
    rw [hvalue.isTruthy_eq]
    split
    · refine .bind (ih.execute hbody) fun _ _ flow flow' hflow ↦ ?_
      cases hflow with
      | normal => exact ih.execute (.loop hcondition hbody)
      | returned hresult => exact .pure fun _ hgrown ↦ .returned (hresult.grow hgrown)
    · exact .pure fun _ _ ↦ .normal
  | @function identifier identifier' parameters parameters' body body' span span' hname hparameters
      hbody =>
    simp only [Lox.execute]
    refine .bind h.followsCurrent fun _ _ scope scope' hscope ↦ ?_
    have hdeclaration : FunctionDeclaration.Alike leeway ⟨identifier, parameters, body, span⟩
        ⟨identifier', parameters', body', span'⟩ := ⟨hname, hparameters, hbody⟩
    refine .bind (h.followsNewFunction hdeclaration hscope) fun _ _ value value' hvalue ↦ ?_
    rw [hname]
    exact .bind (h.followsDefine hvalue _) fun _ _ _ _ _ ↦ .pure fun _ _ ↦ .normal
  | «return» hvalue =>
    cases hvalue with
    | none => exact .pure fun _ _ ↦ .returned .nil
    | some hvalue =>
      simp only [Lox.execute]
      refine .bind (ih.evaluate hvalue) fun _ _ value value' hvalue ↦ ?_
      exact .pure fun _ hgrown ↦ .returned (hvalue.grow hgrown)

/-- A `return` never ends normally. -/
theorem yields_returned (value : Option Expr) (span : Span) :
    (execute host bound (.return value span)).Yields
      fun flow ↦ ∃ result, flow = .returned result := by
  cases bound with
  | zero => exact .exhausted
  | succ bound =>
    cases value with
    | none => exact .pure ⟨_, rfl⟩
    | some value =>
      simp only [Lox.execute]
      exact .bind_right fun result ↦ .pure ⟨result, rfl⟩

/-- Lists of statements that say the same do the same. What is behind a `return` may differ, as it
is not executed: the `return` never ends normally. -/
theorem executeAll_succ (ih : UpTo leeway host states bound) {trees trees' : List Stmt}
    (halike : Stmt.AlikeAll leeway trees trees') :
    Follows states (Flow.Matches leeway) between (executeAll host (bound + 1) trees)
      (executeAll host · trees') := by
  rw [← Follows.succ_iff]
  cases halike with
  | nil => exact .pure fun _ _ ↦ .normal
  | cons hfirst hothers =>
    simp only [Lox.executeAll]
    refine .bind (ih.execute hfirst) fun _ _ flow flow' hflow ↦ ?_
    cases hflow with
    | normal => exact ih.executeAll hothers
    | returned hresult => exact .pure fun _ hgrown ↦ .returned (hresult.grow hgrown)
  | unreached hallowed hvalue =>
    simp only [Lox.executeAll]
    refine .bind ((ih.execute (.return hvalue)).restrict (yields_returned _ _)) ?_
    rintro _ _ flow flow' ⟨⟨_, rfl⟩, hflow⟩
    cases hflow with
    | returned hresult => exact .pure fun _ hgrown ↦ .returned (hresult.grow hgrown)

theorem call_succ (h : Simulation leeway host states) (ih : UpTo leeway host states bound) :
    CallsFollow leeway states between (call host (bound + 1)) (call host) := by
  intro grown hgrown function function' arguments arguments' hfunction harguments
  rw [← Follows.succ_iff]
  cases hfunction with
  | @declared _ _ declaration declaration' _ _ hidentity hdeclaration hcaptured =>
    simp only [Lox.call, hdeclaration.parameters]
    rw [← bind_assoc]
    simp only [← bind_assoc]
    have hbindings := harguments.zip (declaration'.parameters.map Identifier.name)
    refine .bind (h.followsNested hcaptured hbindings (ih.executeAll hdeclaration.body)) ?_
    intro _ _ flow flow' hflow
    cases hflow with
    | normal => exact .pure fun _ _ ↦ .nil
    | returned hresult => exact .pure fun _ hmore ↦ hresult.grow hmore
  | native name arity operation hidentity =>
    simp only [Lox.call]
    exact h.perform _ _ _ ih.call _ _ _ _ harguments

/-- What is run with any bound is followed by what says the same. -/
theorem upTo (h : Simulation leeway host states) (bound : Nat) : UpTo leeway host states bound := by
  induction bound with
  | zero =>
    exact ⟨fun _ ↦ .exhausted, fun _ ↦ .exhausted, fun _ ↦ .exhausted, fun _ ↦ .exhausted,
      fun _ _ _ _ _ _ _ _ ↦ .exhausted⟩
  | succ bound ih =>
    exact ⟨h.evaluate_succ ih, evaluateAll_succ ih, h.execute_succ ih, executeAll_succ ih,
      h.call_succ ih⟩

end Simulation

end Lox
