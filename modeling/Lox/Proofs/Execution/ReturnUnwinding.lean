import Lox.Proofs.Execution.NormalEnd
import Lox.Proofs.Execution.UnreachedStatements
import Lox.Session
import Mathlib.Logic.Relation

/-!
# Returning from nested statements

A `return` goes through all statements around it up to the body of the function that is being
called, or to the end of the program, and the call has its value. The statements that are executed
within one call lead from one to the next (`Leads`), and if they lead to a `return`, its value is
what the first of them ends with, in the state that the `return` left (`Point.Returns.unwind`).
There is no other way to return (`Point.exists_returns`).

So what is behind a `return` in its list may be dropped from a program (`Stmt.CutAll`), wherever the
list stands (`returns_unwind`).
-/

set_option autoImplicit false
set_option relaxedAutoImplicit false

namespace Lox

open Relation (ReflTransGen)

namespace Stmt

mutual

/-- In one list within a statement, what is behind a `return` is dropped. -/
inductive Cut : Stmt → Stmt → Prop
  | block {body body' : List Stmt} : CutAll body body' → Cut (.block body) (.block body')
  | thenBranch {condition : Expr} {branch branch' : Stmt} {elseBranch : Option Stmt} :
    Cut branch branch' →
    Cut (.conditional condition branch elseBranch) (.conditional condition branch' elseBranch)
  | elseBranch {condition : Expr} {thenBranch branch branch' : Stmt} : Cut branch branch' →
    Cut (.conditional condition thenBranch (some branch))
      (.conditional condition thenBranch (some branch'))
  | loop {condition : Expr} {body body' : Stmt} : Cut body body' →
    Cut (.loop condition body) (.loop condition body')
  | function {identifier : Identifier} {parameters : List Identifier} {body body' : List Stmt}
    {span : Span} : CutAll body body' →
    Cut (.function identifier parameters body span) (.function identifier parameters body' span)

/-- In a list of statements, or in one list within one of them, what is behind a `return` is
dropped. -/
inductive CutAll : List Stmt → List Stmt → Prop
  | here (before : List Stmt) (value : Option Expr) (span : Span) (after : List Stmt) :
    CutAll (before ++ .return value span :: after) (before ++ [.return value span])
  | inside (before : List Stmt) {statement statement' : Stmt} (after : List Stmt) :
    Cut statement statement' → CutAll (before ++ statement :: after) (before ++ statement' :: after)

end

theorem pruneAll_append_congr {rest rest' : List Stmt} (hrest : pruneAll rest = pruneAll rest')
    (before : List Stmt) : pruneAll (before ++ rest) = pruneAll (before ++ rest') := by
  induction before with
  | nil => exact hrest
  | cons first others ih => simp only [List.cons_append, pruneAll, ih]

theorem Cut.isReturn_eq {statement statement' : Stmt} (hcut : Cut statement statement') :
    statement.isReturn = statement'.isReturn := by
  cases hcut <;> rfl

mutual

/-- What is dropped is pruned in any case. -/
theorem Cut.prune_eq {statement statement' : Stmt} :
    Cut statement statement' → statement.prune = statement'.prune
  | .block hbody => by rw [prune, prune, hbody.pruneAll_eq]
  | .thenBranch hbranch => by rw [prune, prune, hbranch.prune_eq]
  | .elseBranch hbranch => by rw [prune, prune, pruneOption, pruneOption, hbranch.prune_eq]
  | .loop hbody => by rw [prune, prune, hbody.prune_eq]
  | .function hbody => by rw [prune, prune, hbody.pruneAll_eq]

theorem CutAll.pruneAll_eq {statements statements' : List Stmt} :
    CutAll statements statements' → pruneAll statements = pruneAll statements'
  | .here before value span after => pruneAll_append_congr (by simp [pruneAll, isReturn]) before
  | .inside before after hcut =>
    pruneAll_append_congr (by rw [pruneAll, pruneAll, hcut.prune_eq, hcut.isReturn_eq]) before

end

end Stmt

/-! ### Statements of one call -/

/-- A statement or a list of statements. -/
inductive Work where
  | one (statement : Stmt)
  | list (statements : List Stmt)

/-- Statements that are about to be executed in a state, with a bound. -/
structure Point where
  bound : Nat
  work : Work
  state : Interpreter

/-- How the statements at a point end. -/
def Point.outcome (host : Host) (point : Point) : Outcome Interpreter RuntimeError Flow :=
  match point.work with
  | .one statement => (execute host point.bound statement).run point.state
  | .list statements => (executeAll host point.bound statements).run point.state

/-- Executing what is at one point leads, in the same call, to executing what is at another. -/
inductive Leads (host : Host) : Point → Point → Prop
  | first {bound : Nat} {statement : Stmt} {others : List Stmt} {state : Interpreter} :
    Leads host ⟨bound + 1, .list (statement :: others), state⟩ ⟨bound, .one statement, state⟩
  | others {bound : Nat} {statement : Stmt} {others : List Stmt} {state middle : Interpreter} :
    (execute host bound statement).run state = .done .normal middle →
    Leads host ⟨bound + 1, .list (statement :: others), state⟩ ⟨bound, .list others, middle⟩
  | block {bound : Nat} {body : List Stmt} {state : Interpreter} :
    Leads host ⟨bound + 1, .one (.block body), state⟩
      ⟨bound, .list body, state.nested state.current []⟩
  | thenBranch {bound : Nat} {condition : Expr} {thenBranch : Stmt} {elseBranch : Option Stmt}
    {state middle : Interpreter} {value : Value} :
    (evaluate host bound condition).run state = .done value middle → value.isTruthy = true →
    Leads host ⟨bound + 1, .one (.conditional condition thenBranch elseBranch), state⟩
      ⟨bound, .one thenBranch, middle⟩
  | elseBranch {bound : Nat} {condition : Expr} {thenBranch elseBranch : Stmt}
    {state middle : Interpreter} {value : Value} :
    (evaluate host bound condition).run state = .done value middle → value.isTruthy = false →
    Leads host ⟨bound + 1, .one (.conditional condition thenBranch (some elseBranch)), state⟩
      ⟨bound, .one elseBranch, middle⟩
  | turn {bound : Nat} {condition : Expr} {body : Stmt} {state middle : Interpreter}
    {value : Value} :
    (evaluate host bound condition).run state = .done value middle → value.isTruthy = true →
    Leads host ⟨bound + 1, .one (.loop condition body), state⟩ ⟨bound, .one body, middle⟩
  | nextTurn {bound : Nat} {condition : Expr} {body : Stmt} {state middle after : Interpreter}
    {value : Value} :
    (evaluate host bound condition).run state = .done value middle → value.isTruthy = true →
    (execute host bound body).run middle = .done .normal after →
    Leads host ⟨bound + 1, .one (.loop condition body), state⟩
      ⟨bound, .one (.loop condition body), after⟩

/-- What is at a point leads, in the same call, to a `return` that is executed: it has a value, and
leaves a state. -/
def Point.Returns (host : Host) (start : Point) (value : Value) (last : Interpreter) : Prop :=
  ∃ point result span, ReflTransGen (Leads host) start point ∧
    point.work = .one (.return result span) ∧ point.outcome host = .done (.returned value) last

variable {host : Host} {start point : Point} {value : Value} {last : Interpreter}

theorem run_execute_block {bound : Nat} {body : List Stmt} {state : Interpreter} :
    (execute host (bound + 1) (.block body)).run state
      = (Run.nested state.current [] (executeAll host bound body)).run state := by
  simp only [execute, Run.openScope_bind_inScope]
  rfl

/-- What is returned leaves the scope that it is run in. -/
theorem Run.run_nested_of_done {α : Type} {enclosing : ScopeId} {pairs : List (String × Value)}
    {body : Run α} {state reached : Interpreter} {value : α} {scope : ScopeId}
    (hbody : body.run (state.nested enclosing pairs)
      = .done value { reached with current := scope }) :
    (Run.nested enclosing pairs body).run state
      = .done value { reached with current := state.current } := by
  rw [Run.nested, Bounded.run_within, hbody]
  rfl

/-- A step hands on what is returned. Nothing else happens, but for leaving a scope. -/
theorem Leads.unwind (hleads : Leads host start point)
    (hpoint : point.outcome host = .done (.returned value) last) :
    ∃ scope, start.outcome host = .done (.returned value) { last with current := scope } := by
  cases hleads with
  | first =>
    refine ⟨last.current, ?_⟩
    simp only [Point.outcome] at hpoint ⊢
    rw [executeAll, Bounded.run_bind_of_done hpoint]
    rfl
  | others hfirst =>
    refine ⟨last.current, ?_⟩
    simp only [Point.outcome] at hpoint ⊢
    rw [executeAll, Bounded.run_bind_of_done hfirst]
    exact hpoint
  | @block bound body state =>
    refine ⟨state.current, ?_⟩
    simp only [Point.outcome] at hpoint ⊢
    rw [run_execute_block]
    exact Run.run_nested_of_done hpoint
  | thenBranch hcondition htruthy =>
    refine ⟨last.current, ?_⟩
    simp only [Point.outcome, execute] at hpoint ⊢
    rw [Bounded.run_bind_of_done hcondition, if_pos htruthy]
    exact hpoint
  | elseBranch hcondition htruthy =>
    refine ⟨last.current, ?_⟩
    simp only [Point.outcome, execute] at hpoint ⊢
    rw [Bounded.run_bind_of_done hcondition, htruthy, if_neg Bool.false_ne_true]
    exact hpoint
  | turn hcondition htruthy =>
    refine ⟨last.current, ?_⟩
    simp only [Point.outcome, execute] at hpoint ⊢
    rw [Bounded.run_bind_of_done hcondition, if_pos htruthy, Bounded.run_bind_of_done hpoint]
    rfl
  | nextTurn hcondition htruthy hbody =>
    refine ⟨last.current, ?_⟩
    simp only [Point.outcome, execute] at hpoint ⊢
    rw [Bounded.run_bind_of_done hcondition, if_pos htruthy, Bounded.run_bind_of_done hbody]
    exact hpoint

/-- Once a `return` is executed, nothing else is, but for leaving scopes. -/
theorem Point.Returns.unwind (hreturns : start.Returns host value last) :
    ∃ scope, start.outcome host = .done (.returned value) { last with current := scope } := by
  obtain ⟨point, result, span, hleads, -, hpoint⟩ := hreturns
  induction hleads using ReflTransGen.head_induction_on with
  | refl => exact ⟨last.current, hpoint⟩
  | head hfirst _ ih =>
    obtain ⟨inner, hmiddle⟩ := ih
    obtain ⟨scope, hstart⟩ := hfirst.unwind hmiddle
    exact ⟨scope, hstart⟩

/-- So the call of a function has the value of the `return` that is executed in its body. -/
theorem Point.Returns.call_eq {bound identity : Nat} {declaration : FunctionDeclaration}
    {captured : ScopeId} {arguments : List Value} {state : Interpreter}
    (hreturns : Point.Returns host ⟨bound, .list declaration.body, state.nested captured
      ((declaration.parameters.map Identifier.name).zip arguments)⟩ value last) :
    (call host (bound + 1) ⟨identity, .declared declaration captured⟩ arguments).run state
      = .done value { last with current := state.current } := by
  obtain ⟨scope, hbody⟩ := hreturns.unwind
  simp only [call, Run.openScope_bind_inScope_bind]
  rw [Bounded.run_bind_of_done (Run.run_nested_of_done hbody)]
  rfl

/-- What is at a point leads to a `return` that leaves a state but for its current scope. -/
def Point.ReturnsUpToScope (host : Host) (start : Point) (value : Value) (final : Interpreter) :
    Prop :=
  ∃ last scope, start.Returns host value last ∧ final = { last with current := scope }

theorem Leads.returns {final : Interpreter} (hleads : Leads host start point)
    (hpoint : point.ReturnsUpToScope host value final) :
    start.ReturnsUpToScope host value final := by
  obtain ⟨last, scope, ⟨there, result, span, hthere, hwork, houtcome⟩, hfinal⟩ := hpoint
  exact ⟨last, scope, ⟨there, result, span, .head hleads hthere, hwork, houtcome⟩, hfinal⟩

/-- Statements that end with a value have come to a `return` with this value. -/
theorem Point.exists_returns {final : Interpreter}
    (hstart : start.outcome host = .done (.returned value) final) :
    start.ReturnsUpToScope host value final := by
  obtain ⟨bound, work, state⟩ := start
  induction bound generalizing work state final with
  | zero => cases work <;> cases hstart
  | succ bound ih =>
    cases work with
    | list statements =>
      cases statements with
      | nil => cases hstart
      | cons first others =>
        simp only [outcome, executeAll] at hstart
        obtain ⟨flow, middle, hfirst, hothers⟩ := Bounded.run_bind_eq_done.mp hstart
        cases flow with
        | normal => exact (Leads.others hfirst).returns (ih (.list others) middle hothers)
        | returned result =>
          obtain ⟨hresult, hfinal⟩ := Outcome.done.inj hothers
          obtain rfl := Flow.returned.inj hresult
          obtain rfl : middle = final := hfinal
          exact Leads.first.returns (ih (.one first) state hfirst)
    | one statement =>
      have hnormal (hreturn : statement.hasReturn = false) : False := by
        cases (yields_normal (bound + 1)).1 statement hreturn _ _ _ hstart
      cases statement with
      | block body =>
        simp only [outcome] at hstart
        rw [run_execute_block] at hstart
        obtain ⟨reached, hbody, rfl⟩ := Bounded.run_within_eq_done.mp hstart
        obtain ⟨last, scope, hreturns, rfl⟩ := ih (.list body) _ hbody
        exact Leads.block.returns ⟨last, state.current, hreturns, rfl⟩
      | conditional condition thenBranch elseBranch =>
        simp only [outcome, execute] at hstart
        obtain ⟨test, middle, hcondition, hbranch⟩ := Bounded.run_bind_eq_done.mp hstart
        split at hbranch
        · next htruthy =>
          exact (Leads.thenBranch hcondition htruthy).returns (ih (.one thenBranch) middle hbranch)
        · next htruthy =>
          cases elseBranch with
          | none => cases hbranch
          | some branch =>
            exact (Leads.elseBranch hcondition (Bool.eq_false_iff.mpr htruthy)).returns
              (ih (.one branch) middle hbranch)
      | loop condition body =>
        simp only [outcome, execute] at hstart
        obtain ⟨test, middle, hcondition, hturn⟩ := Bounded.run_bind_eq_done.mp hstart
        split at hturn
        · next htruthy =>
          obtain ⟨flow, after, hbody, hnext⟩ := Bounded.run_bind_eq_done.mp hturn
          cases flow with
          | normal =>
            exact (Leads.nextTurn hcondition htruthy hbody).returns
              (ih (.one (.loop condition body)) after hnext)
          | returned result =>
            obtain ⟨hresult, hfinal⟩ := Outcome.done.inj hnext
            obtain rfl := Flow.returned.inj hresult
            obtain rfl : after = final := hfinal
            exact (Leads.turn hcondition htruthy).returns (ih (.one body) middle hbody)
        · cases hturn
      | «return» result span =>
        exact ⟨final, final.current, ⟨_, result, span, .refl, rfl, hstart⟩, rfl⟩
      | _ => exact (hnormal rfl).elim

/-! ### Whole programs -/

/-- What is behind a `return` in any list of statements of a program can be dropped. From states
that are the same, but for what is behind a `return` in the functions that they hold, both programs
end in the same way with every bound: with the same output, the same flow or the same error and the
same bindings, but for functions of which one has what is behind a `return` and the other one does
not; and so do calls of such functions. For once a `return` is executed, no other statement of the
same call is: nothing is left to do but to leave scopes, the call has the value of the `return`, and
a program is done. -/
theorem returns_unwind (hhost : host.IgnoresUnreached) :
    (∀ (program shortened : Program) (bound : Nat) (state state' : Interpreter),
      Stmt.CutAll program shortened → state.prune = state'.prune →
      ((executeAll host bound program).run state).prune Flow.prune
        = ((executeAll host bound shortened).run state').prune Flow.prune ∧
      ((runProgram bound program host).run state).prune id
        = ((runProgram bound shortened host).run state').prune id ∧
      ∀ (function function' : FunctionValue) (arguments arguments' : List Value),
        function.prune = function'.prune →
        arguments.map Value.prune = arguments'.map Value.prune →
        ((call host bound function arguments).run state).prune Value.prune
          = ((call host bound function' arguments').run state').prune Value.prune) ∧
    (∀ (start : Point) (value : Value) (last : Interpreter), start.Returns host value last →
      ∃ scope, start.outcome host = .done (.returned value) { last with current := scope }) ∧
    (∀ (bound identity : Nat) (declaration : FunctionDeclaration) (captured : ScopeId)
      (arguments : List Value) (state : Interpreter) (value : Value) (last : Interpreter),
      Point.Returns host ⟨bound, .list declaration.body, state.nested captured
        ((declaration.parameters.map Identifier.name).zip arguments)⟩ value last →
      (call host (bound + 1) ⟨identity, .declared declaration captured⟩ arguments).run state
        = .done value { last with current := state.current }) ∧
    ∀ (bound : Nat) (program : Program) (state : Interpreter) (value : Value) (last : Interpreter),
      Point.Returns host ⟨bound, .list program, state⟩ value last →
      ∃ scope, (runProgram bound program host).run state
        = .done () { last with current := scope } := by
  refine ⟨fun program shortened bound state state' hcut hstates ↦ ⟨?_, ?_, ?_⟩,
    fun start value last hreturns ↦ hreturns.unwind,
    fun bound identity declaration captured arguments state value last hreturns ↦ hreturns.call_eq,
    fun bound program state value last hreturns ↦ ?_⟩
  · have hprunes := (hhost.prunesUpTo bound).executeAll
    rw [← hprunes program state, ← hprunes shortened state', hcut.pruneAll_eq, hstates]
  · have hprunes (statements : Program) : Run.Prunes id (runProgram bound statements host)
        (runProgram bound (Stmt.pruneAll statements) host) :=
      ((hhost.prunesUpTo bound).executeAll statements).bind fun _ ↦ .pure rfl
    rw [← hprunes program state, ← hprunes shortened state', hcut.pruneAll_eq, hstates]
  · intro function function' arguments arguments' hfunction harguments
    have hprunes := (hhost.prunesUpTo bound).call
    rw [← hprunes function arguments state, ← hprunes function' arguments' state', hfunction,
      harguments, hstates]
  · obtain ⟨scope, hbody⟩ := hreturns.unwind
    refine ⟨scope, ?_⟩
    rw [runProgram, Bounded.run_bind_of_done hbody]
    rfl

/-- A `return` in a block of a conditional in a loop, with and without a statement behind it. -/
theorem returns_unwind_in_loop :
    let yes : Expr := .literal (.boolean true) .origin
    let returning : Stmt := .return (some yes) .origin
    let body (inner : List Stmt) : List Stmt :=
      [.loop yes (.block [.conditional yes (.block inner) none]), .print yes]
    let program (inner : List Stmt) : Program :=
      [.function ⟨"f", .origin⟩ [] (body inner) .origin,
        .print (.call (.name ⟨"f", .origin⟩) [] .origin)]
    ((runProgram 20 (program [returning, .print yes])).run .bare).prune id
        = ((runProgram 20 (program [returning])).run .bare).prune id ∧
      ∃ last : Interpreter, last.output = "" ∧
        (call .standard 10 ⟨0, .declared ⟨⟨"f", .origin⟩, [], body [returning, .print yes], .origin⟩
          0⟩ []).run .bare = .done (.boolean true) last := by
  intro yes returning body program
  obtain ⟨hprograms, -, hcalls, -⟩ := returns_unwind Host.standard_ignoresUnreached
  have hcut : Stmt.CutAll (program [returning, .print yes]) (program [returning]) :=
    .inside [] _ (.function (.inside [] _ (.loop (.block (.inside [] _ (.thenBranch
      (.block (.here [] (some yes) .origin [.print yes]))))))))
  have hreturns : Point.Returns .standard
      ⟨9, .list (body [returning, .print yes]), Interpreter.bare.nested 0 []⟩ (.boolean true) _ :=
    ⟨_, some yes, .origin, .head .first <| .head (.turn rfl rfl) <| .head .block <| .head .first <|
      .head (.thenBranch rfl rfl) <| .head .block <| .head .first .refl, rfl, rfl⟩
  exact ⟨(hprograms _ _ 20 .bare .bare hcut rfl).2.1, _, rfl, hcalls 9 0 _ 0 [] .bare _ _ hreturns⟩

end Lox
