import Lox.Proofs.Execution.Lockstep

/-!
# Only what can be reached matters

Two states may differ in any way in the scopes that cannot be reached from some roots, among them
the global scope. Then no expression and no statement that is run in a scope that can be reached,
and no call of a function that can be, tells them apart (`only_reachable_scopes_matter`): with every
bound the two runs are exhausted both, or end with the same value, flow or error, have printed the
same, agree again on all that can be reached then, but for the names of the scopes and functions
made meanwhile, and have left every scope that could not be reached as it was. For a call it makes
no difference which scopes are current.

All that is asked of a host is that its operations restore the scopes and use nothing but their
arguments and the global scope. The states are asked to be well-formed, and every state of a session
is (`Interpreter.InSession.wellFormed`): a run in step with itself binds nothing but what is there
(`Interpreter.Agreeing.wellFormed`).
-/

set_option autoImplicit false
set_option relaxedAutoImplicit false

namespace Lox

namespace Interpreter

variable {host : Host} {first second state state' : Interpreter} {kept : ScopeId → Prop}
  {between : Correspondence} {α : Type} {related : Correspondence → α → α → Prop}

/-- A value that stands for another one is there. -/
theorem Agreeing.knows (hagree : first.Agreeing second kept between state state')
    {value value' : Value} (hvalue : Value.Same between value value') : state.Knows value := by
  refine ⟨fun captured hcaptured ↦ ?_, fun callee hcallee ↦ ?_⟩
  · have hrelated := hvalue.captured?
    rw [hcaptured] at hrelated
    generalize value'.captured? = captured? at hrelated
    cases hrelated with
    | some hrelated => exact (hagree.lt_size hrelated).1
  · subst hcallee
    cases hvalue with
    | function hcallee =>
      obtain ⟨scopes, functions, rfl, -, -, hfunctions, -⟩ := hagree.made
      rw [hfunctions]
      obtain ⟨hlt, -⟩ | ⟨made, hmade, hidentity, -⟩ := hcallee.toMatches.identity
      · exact Nat.lt_add_right _ hlt
      · rw [hidentity]
        exact Nat.add_lt_add_left hmade _

/-- In a run in step with itself, every scope stands for itself if every former one does. -/
theorem Agreeing.scopes_self (hagree : first.Agreeing first kept between state state')
    (hkept : ∀ scope < first.store.scopes.size, kept scope) {scope : ScopeId}
    (hscope : scope < state.store.scopes.size) : between.scopes scope scope := by
  obtain ⟨scopes, functions, rfl, hsize, -⟩ := hagree.made
  by_cases hformer : scope < first.store.scopes.size
  · exact .inl ⟨hkept scope hformer, rfl⟩
  · obtain ⟨made, rfl⟩ := Nat.exists_eq_add_of_le (Nat.le_of_not_lt hformer)
    rw [hsize] at hscope
    exact .inr ⟨made, Nat.lt_of_add_lt_add_left hscope, rfl, rfl⟩

/-- Nothing but what is there is bound after a run that is in step with itself. -/
theorem Agreeing.wellFormed (hagree : first.Agreeing first kept between state state')
    (hkept : ∀ scope < first.store.scopes.size, kept scope)
    (hcurrent : state.current < state.store.scopes.size) : state.WellFormed where
  current := hcurrent
  globals := (hagree.lt_size hagree.globals).1
  knows scope name value hvalue := by
    have hbinds : state.store.binds name scope = true := by
      rw [Store.binds_eq_isSome, hvalue, Option.isSome_some]
    have hsame := hagree.values (hagree.scopes_self hkept (Store.lt_of_binds hbinds)) name
    rw [hvalue] at hsame
    generalize state'.store.valueAt? name scope = found at hsame
    cases hsame with
    | some hsame => exact hagree.knows hsame

/-- The state after is well-formed if the state before is. -/
def StaysWellFormed (before after : Interpreter) : Prop := before.WellFormed → after.WellFormed

instance : IsPreorder Interpreter StaysWellFormed where
  refl _ := id
  trans _ _ _ hfirst hsecond := hsecond ∘ hfirst

/-- A computation that is in step with itself leads from well-formed states to such states. -/
theorem staysWellFormed {computation : Run α}
    (hstep : ∀ (first : Interpreter) kept between,
      first.InStepAt first kept related between computation computation) :
    computation.Keeps StaysWellFormed := by
  intro before after hafter hwell
  let kept := before.store.Reaches (· < before.store.scopes.size)
  have hkept (scope : ScopeId) (hscope : scope < before.store.scopes.size) : kept scope :=
    .root hscope
  have hagree : before.AgreeingAt before kept (.since before before kept 0 0) before before :=
    ⟨(AgreeOn.refl _ before).agreeing hwell hwell (fun _ hscope ↦ hscope) (.root hwell.globals),
      .inl ⟨hkept _ hwell.current, rfl⟩⟩
  have houtcome := (hstep before kept _).matches_run hagree
  generalize computation.run before = reached at houtcome hafter
  obtain rfl | houtcome := houtcome
  · simp [Outcome.state?] at hafter
  · cases houtcome with
    | done _ _ hreached =>
      obtain rfl := Option.some.inj hafter
      exact hreached.wellFormed hkept (hreached.lt_size hreached.current).1
    | failed _ hreached =>
      obtain rfl := Option.some.inj hafter
      exact hreached.wellFormed hkept (hreached.lt_size hreached.current).1

/-- Binding a value that is there in a scope that is there. -/
theorem WellFormed.define (hwell : first.WellFormed) {scope : ScopeId}
    (hscope : scope < first.store.scopes.size) {value : Value} (hvalue : first.Knows value)
    (name : String) : (first.define name value scope).WellFormed where
  current := by simpa only [Interpreter.define, Store.size_define] using hwell.current
  globals := by simpa only [Interpreter.define, Store.size_define] using hwell.globals
  knows inner other found hfound := by
    have hknows : first.Knows found := by
      rw [Interpreter.define, Store.valueAt?_define _ _ _ _ _ _ hscope] at hfound
      split at hfound
      · exact Option.some.inj hfound ▸ hvalue
      · exact hwell.knows _ _ _ hfound
    refine ⟨fun captured hcaptured ↦ ?_, hknows.identity⟩
    simpa only [Interpreter.define, Store.size_define] using hknows.captured captured hcaptured

theorem WellFormed.enter (hwell : first.WellFormed) {scope : ScopeId}
    (hscope : scope < first.store.scopes.size) : (first.enter scope).2.WellFormed where
  current := hscope
  globals := hwell.globals
  knows inner name value hvalue :=
    ⟨(hwell.knows inner name value hvalue).captured, (hwell.knows inner name value hvalue).identity⟩

/-- An operation of the host is a function that captures nothing. -/
theorem WellFormed.defineNative (hwell : first.WellFormed) (name : String) (arity : Nat)
    (operation : Native) : (first.defineNative name arity operation).WellFormed := by
  let more := (first.newFunction (.native name arity operation)).2
  have hmore : more.WellFormed := by
    refine ⟨hwell.current, hwell.globals, fun scope other value hvalue ↦ ?_⟩
    have hknows := hwell.knows scope other value hvalue
    exact ⟨hknows.captured, fun callee hcallee ↦ Nat.lt_succ_of_lt (hknows.identity callee hcallee)⟩
  refine hmore.define hwell.globals ⟨?_, ?_⟩ name
  · rintro scope ⟨⟩
  · rintro callee ⟨⟩
    exact Nat.lt_succ_self _

theorem wellFormed_bare : bare.WellFormed := by
  refine ⟨Nat.zero_lt_one, Nat.zero_lt_one, fun scope name value hvalue ↦ ?_⟩
  cases scope <;> cases hvalue

/-- Every state of a session is well-formed. -/
theorem InSession.wellFormed (hrestores : host.RestoresScopes)
    (hhost : host.UsesArgumentsAndGlobals) {interpreter : Interpreter}
    (hsession : InSession host interpreter) : interpreter.WellFormed := by
  have hprogram (bound : Nat) (program : Program) :
      (runProgram bound program host).Keeps StaysWellFormed :=
    .bind (staysWellFormed fun first kept _ ↦
      (upTo_inStep hrestores hhost first first kept bound).executeAll program) fun _ ↦ .pure _
  have hreading (bound : Nat) (reading : Except (List SyntaxError) Program) :
      (Step.ofReading reading (runProgram bound · host)).Keeps StaysWellFormed := by
    cases reading with
    | ok program => exact .mapError (hprogram bound program)
    | error errors => exact .fail _
  induction hsession with
  | bare => exact wellFormed_bare
  | native name arity operation _ ih => exact ih.defineNative name arity operation
  | source _ hrun ih => exact hreading _ _ _ _ hrun ih
  | line _ hrun ih => exact hreading _ _ _ _ hrun ih

/-! ### What can be reached afterwards -/

/-- Scopes that stand for each other have links to such scopes. -/
theorem Agreeing.captured (hagree : first.Agreeing second kept between state state')
    {scope scope' : ScopeId} (hscope : between.scopes scope scope') (name : String) :
    Option.Rel between.scopes ((state.store.valueAt? name scope).bind Value.captured?)
      ((state'.store.valueAt? name scope').bind Value.captured?) := by
  have hsame := hagree.values hscope name
  generalize state.store.valueAt? name scope = value at hsame
  generalize state'.store.valueAt? name scope' = value' at hsame
  cases hsame with
  | some hsame => exact hsame.captured?
  | none => exact .none

/-- Whatever can be reached on the one side stands for what can be reached on the other. -/
theorem Agreeing.reaches (hagree : first.Agreeing second kept between state state')
    {roots roots' : ScopeId → Prop}
    (hroots : ∀ root, roots root → ∃ root', between.scopes root root' ∧ roots' root')
    {scope : ScopeId} (hscope : state.store.Reaches roots scope) :
    ∃ scope', between.scopes scope scope' ∧ state'.store.Reaches roots' scope' :=
  hscope.follow between.scopes hroots (fun _ _ ↦ hagree.enclosing) fun _ _ ↦ hagree.captured

/-- And the other way round. -/
theorem Agreeing.reaches' (hagree : first.Agreeing second kept between state state')
    {roots roots' : ScopeId → Prop}
    (hroots : ∀ root', roots' root' → ∃ root, between.scopes root root' ∧ roots root)
    {scope' : ScopeId} (hscope' : state'.store.Reaches roots' scope') :
    ∃ scope, between.scopes scope scope' ∧ state.store.Reaches roots scope :=
  hscope'.follow (fun scope' scope ↦ between.scopes scope scope') hroots
    (fun _ _ hscope ↦ rel_flip (hagree.enclosing hscope))
    fun _ _ hscope name ↦ rel_flip (hagree.captured hscope name)

/-- How the states compare in which two runs have ended. They agree, the same scopes are current
as before, and whatever can be reached in the one stands for what can be reached in the other, if
this is so of where one starts from. -/
structure AgreeAfter (first second : Interpreter) (kept : ScopeId → Prop)
    (between : Correspondence) (state state' : Interpreter) : Prop
    extends first.Agreeing second kept between state state' where
  current : state.current = first.current
  current' : state'.current = second.current
  reaches : ∀ roots roots' : ScopeId → Prop,
    (∀ root, roots root → ∃ root', between.scopes root root' ∧ roots' root') →
      ∀ scope, state.store.Reaches roots scope →
        ∃ scope', between.scopes scope scope' ∧ state'.store.Reaches roots' scope'
  reaches' : ∀ roots roots' : ScopeId → Prop,
    (∀ root', roots' root' → ∃ root, between.scopes root root' ∧ roots root) →
      ∀ scope', state'.store.Reaches roots' scope' →
        ∃ scope, between.scopes scope scope' ∧ state.store.Reaches roots scope

/-- From both states a computation is exhausted, or it ends in the same way, with what has been made
since standing for each other. -/
def RunsAlike (first second : Interpreter) (kept : ScopeId → Prop)
    (related : Correspondence → α → α → Prop) (computation : Run α) : Prop :=
  (computation.run first = .exhausted ∧ computation.run second = .exhausted) ∨
    (computation.run first).Matches (first.AgreeAfter second kept) related
      (.since first second kept 0 0) (computation.run second)

/-- A computation that follows itself in both directions ends from both states, in the same way, or
from neither. -/
theorem runsAlike {states states' : Correspondence → Interpreter → Interpreter → Prop}
    {kept' : ScopeId → Prop} {computation : Run α}
    (hforth : Follows states related (.since first second kept 0 0) computation
      fun _ ↦ computation)
    (hback : Follows states' related (.since second first kept' 0 0) computation
      fun _ ↦ computation)
    (hbegin : states (.since first second kept 0 0) first second)
    (hbegin' : states' (.since second first kept' 0 0) second first)
    (hagree : ∀ between state state', states between state state' →
      first.Agreeing second kept between state state')
    (hrestores : computation.Keeps SameScopes) :
    first.RunsAlike second kept related computation := by
  obtain hexhausted | houtcome := hforth.matches_run hbegin
  · obtain hexhausted' | houtcome' := hback.matches_run hbegin'
    · exact .inl ⟨hexhausted, hexhausted'⟩
    · exact absurd hexhausted houtcome'.ne_exhausted
  · refine .inr (houtcome.mono fun {_ state state'} _ hstate hstate' hstates ↦ ?_)
    have hreached := hagree _ _ _ hstates
    exact {
      hreached with
      current := (hrestores _ _ hstate).1
      current' := (hrestores _ _ hstate').1
      reaches := fun _ _ hroots _ ↦ hreached.reaches hroots
      reaches' := fun _ _ hroots _ ↦ hreached.reaches' hroots }

/-! ### Runs from states that agree -/

section

variable {roots : ScopeId → Prop} (hfirst : first.WellFormed) (hsecond : second.WellFormed)
  (hroots : ∀ scope, roots scope → scope < first.store.scopes.size) (hglobals : roots first.globals)

include hfirst hsecond hroots hglobals

theorem AgreeOn.agreeing_symm (hagree : first.AgreeOn roots second) :
    second.Agreeing first (second.store.Reaches roots)
      (.since second first (second.store.Reaches roots) 0 0) second first := by
  refine hagree.symm.agreeing hsecond hfirst (fun scope hroot ↦ ?_) ?_
  · exact (hagree.lt_size_iff (.root hroot)).mp (hroots scope hroot)
  · exact .root (hagree.globals ▸ hglobals)

/-- What is run in a scope that can be reached. -/
theorem AgreeOn.runsAlike (hagree : first.AgreeOn roots second)
    (hcurrent : first.current = second.current) (hkept : first.store.Reaches roots first.current)
    {computation : Run α}
    (hstep : ∀ (first second : Interpreter) kept between,
      first.InStepAt second kept related between computation computation)
    (hrestores : computation.Keeps SameScopes) :
    first.RunsAlike second (first.store.Reaches roots) related computation := by
  have hbegin := hagree.agreeing hfirst hsecond hroots (.root hglobals)
  have hbegin' := hagree.agreeing_symm hfirst hsecond hroots hglobals
  have hkept' : second.store.Reaches roots second.current :=
    hcurrent ▸ (hagree.reaches_iff _).mp hkept
  exact Interpreter.runsAlike (hstep _ _ _ _) (hstep _ _ _ _) ⟨hbegin, .inl ⟨hkept, hcurrent.symm⟩⟩
    ⟨hbegin', .inl ⟨hkept', hcurrent⟩⟩ (fun _ _ _ hstates ↦ hstates.toAgreeing) hrestores

/-- A call of a value that can be come by, with such arguments. -/
theorem AgreeOn.runsAlike_callValue (hagree : first.AgreeOn roots second)
    {calls : FunctionValue → List Value → Run Value}
    (hcalls : ∀ first second kept between, CallsInStep first second kept between calls)
    (hrestores : ∀ function arguments, (calls function arguments).Keeps SameScopes)
    {callee : Value} {arguments : List Value}
    (hheld : ∀ value ∈ callee :: arguments,
      first.Holds roots value ∧ second.Holds roots value) :
    first.RunsAlike second (first.store.Reaches roots) Value.Same
      (callValue calls callee arguments) := by
  obtain ⟨hcallee, hcallee'⟩ := hheld callee List.mem_cons_self
  have hothers (value : Value) (hvalue : value ∈ arguments) :
      first.Holds roots value ∧ second.Holds roots value :=
    hheld value (List.mem_cons_of_mem _ hvalue)
  have harguments := List.forall₂_same.mpr fun value hvalue ↦
    (hothers value hvalue).1.same (hothers value hvalue).2
  have harguments' := List.forall₂_same.mpr fun value hvalue ↦
    (hothers value hvalue).2.same (hothers value hvalue).1
  exact Interpreter.runsAlike ((hcalls _ _ _ _).callValue (hcallee.same hcallee') harguments)
    ((hcalls _ _ _ _).callValue (hcallee'.same hcallee) harguments')
    (hagree.agreeing hfirst hsecond hroots (.root hglobals))
    (hagree.agreeing_symm hfirst hsecond hroots hglobals) (fun _ _ _ ↦ id)
    (keeps_callValue hrestores callee arguments)

end

end Interpreter

open Interpreter in
/-- Two states that agree on what can be reached from some roots, among them the global scope, are
the same to every expression and every statement that is run in a scope that can be reached, and,
whichever scopes are current, to every call of a function that can be, with arguments that can be,
whether or not their number is checked. -/
theorem only_reachable_scopes_matter {host : Host} (hrestores : host.RestoresScopes)
    (hhost : host.UsesArgumentsAndGlobals) {first second : Interpreter}
    (hfirst : first.WellFormed) (hsecond : second.WellFormed) {roots : ScopeId → Prop}
    (hroots : ∀ scope, roots scope → scope < first.store.scopes.size)
    (hglobals : roots first.globals) (hagree : first.AgreeOn roots second) :
    let kept := first.store.Reaches roots
    (first.current = second.current → kept first.current → ∀ bound,
      (∀ expression,
        first.RunsAlike second kept Value.Same (evaluate host bound expression)) ∧
      ∀ statement, first.RunsAlike second kept Flow.Same (execute host bound statement)) ∧
    ∀ callee arguments,
      (∀ value ∈ callee :: arguments, first.Holds roots value ∧ second.Holds roots value) →
        ∀ bound,
          first.RunsAlike second kept Value.Same
            (callValue (callExact (call host bound)) callee arguments) ∧
          first.RunsAlike second kept Value.Same
            (callValue (call host bound) callee arguments) := by
  intro kept
  have hstep := upTo_inStep hrestores hhost
  have hkeeps := (SameScopes.heldByRuns hrestores).upTo
  refine ⟨fun hcurrent hkept bound ↦ ⟨fun expression ↦ ?_, fun statement ↦ ?_⟩,
    fun callee arguments hheld bound ↦ ⟨?_, ?_⟩⟩
  · exact hagree.runsAlike hfirst hsecond hroots hglobals hcurrent hkept
      (fun _ _ _ _ ↦ (hstep _ _ _ bound).evaluate expression) ((hkeeps bound).evaluate expression)
  · exact hagree.runsAlike hfirst hsecond hroots hglobals hcurrent hkept
      (fun _ _ _ _ ↦ (hstep _ _ _ bound).execute statement) ((hkeeps bound).execute statement)
  · exact hagree.runsAlike_callValue hfirst hsecond hroots hglobals
      (fun _ _ _ _ ↦ (hstep _ _ _ bound).call.callExact) (keeps_callExact (hkeeps bound).call) hheld
  · exact hagree.runsAlike_callValue hfirst hsecond hroots hglobals
      (fun _ _ _ _ ↦ (hstep _ _ _ bound).call) (hkeeps bound).call hheld

/-- The evaluation of a name fails where the name has no value. -/
theorem run_evaluate_name {host : Host} {bound : Nat} {identifier : Identifier}
    {interpreter : Interpreter}
    (hvalue : interpreter.store.get? identifier.name interpreter.current = none) :
    (evaluate host (bound + 1) (.name identifier)).run interpreter
      = .failed (.undefinedVariable identifier.name) interpreter := by
  simp only [evaluate, Bounded.run_bind, Bounded.run_gets]
  rw [Run.run_valueIn, hvalue, Option.elim_none]

open Interpreter in
/-- A function that looks for a name which is bound only in a scope that it cannot reach does not
find it, whether or not it is called from there, and neither does a statement outside. The global
scope is empty and leads nowhere, and nothing is bound in the scope that is opened for the call. -/
theorem callers_scope_is_not_seen :
    let named : Expr := .name ⟨"hidden", ⟨0, 0⟩⟩
    let function : FunctionDeclaration :=
      ⟨⟨"f", ⟨0, 0⟩⟩, [], [.return (some named) ⟨0, 0⟩], ⟨0, 0⟩⟩
    let callee : Value := .function ⟨0, .declared function 0⟩
    let first : Interpreter := { bare with functions := 1 }
    let second : Interpreter := (first.newScope 0).2.define "hidden" .nil 1
    let kept := first.store.Reaches (· = 0)
    first.WellFormed ∧ second.WellFormed ∧ (second.enter 1).2.WellFormed ∧
      first.AgreeOn (· = 0) second ∧ (second.store.get? "hidden" 1).isSome ∧
      (first.RunsAlike second kept Flow.Same (execute .standard 9 (.print named)) ∧
        ∃ after, (execute .standard 9 (.print named)).run first
          = .failed (.undefinedVariable "hidden") after) ∧
      (first.RunsAlike (second.enter 1).2 kept Value.Same
          (callValue (callExact (call .standard 9)) callee []) ∧
        ∃ after, (callValue (callExact (call .standard 9)) callee []).run first
          = .failed (.undefinedVariable "hidden") after) := by
  intro named function callee first second kept
  have hfirst : first.WellFormed := by
    refine ⟨Nat.zero_lt_one, Nat.zero_lt_one, fun scope name value hvalue ↦ ?_⟩
    cases scope <;> cases hvalue
  have hopened : (first.newScope 0).2.WellFormed := by
    refine ⟨Nat.zero_lt_two, Nat.zero_lt_two, fun scope name value hvalue ↦ ?_⟩
    rcases scope with _ | _ | scope <;> cases hvalue
  have hsecond : second.WellFormed :=
    hopened.define Nat.one_lt_two ⟨by rintro _ ⟨⟩, by rintro _ ⟨⟩⟩ "hidden"
  have hinside : (second.enter 1).2.WellFormed := hsecond.enter Nat.one_lt_two
  have hkept (scope : ScopeId) (hscope : kept scope) : scope = 0 := by
    induction hscope with
    | root hroot => exact hroot
    | enclosing _ houter ih => subst ih; cases houter
    | captured _ hvalue _ ih => subst ih; cases hvalue
  have hagree : first.AgreeOn (· = 0) second := by
    refine ⟨rfl, rfl, fun scope hscope ↦ ?_⟩
    rw [hkept scope hscope]
    exact .some (.refl ⟨[], none⟩)
  have hexists (scope : ScopeId) (hscope : scope = 0) : scope < first.store.scopes.size :=
    hscope ▸ Nat.zero_lt_one
  let opened : Interpreter := (first.newScope 0).2
  have hprint : (execute .standard 9 (.print named)).run first
      = .failed (.undefinedVariable "hidden") first := by
    simp only [execute, Bounded.run_bind]
    rw [run_evaluate_name (Option.isNone_iff_eq_none.mp (by decide +kernel))]
  have hbody : (executeAll .standard 8 function.body).run (opened.enter 1).2
      = .failed (.undefinedVariable "hidden") (opened.enter 1).2 := by
    simp only [executeAll, execute, function, Bounded.run_bind]
    rw [run_evaluate_name (Option.isNone_iff_eq_none.mp (by decide +kernel))]
  have hcall : (callValue (callExact (call .standard 9)) callee []).run first
      = .failed (.undefinedVariable "hidden") opened := by
    change (callExact (call .standard 9) ⟨0, .declared function 0⟩ []).run first = _
    rw [callExact, if_pos (by rfl)]
    simp only [call, Run.inScope, Bounded.run_bind, Run.run_openScope, Bounded.run_within_eq_map]
    have hopened : { first with store := ⟨first.store.scopes.push ⟨.ofPairs [], some 0⟩⟩ }
        = opened := rfl
    have hbehind : first.store.scopes.size = 1 := rfl
    simp only [List.zip_nil_right, hopened, hbehind, hbody]
    rfl
  have hbound : (second.store.get? "hidden" 1).isSome := by decide +kernel
  refine ⟨hfirst, hsecond, hinside, hagree, hbound, ⟨?_, first, hprint⟩, ?_, opened, hcall⟩
  · have hruns := only_reachable_scopes_matter Host.standard_restoresScopes
      Host.standard_usesArgumentsAndGlobals hfirst hsecond hexists rfl hagree
    exact (hruns.1 rfl (.root rfl) 9).2 _
  · have hholds (interpreter : Interpreter) (hfunctions : interpreter.functions = 1)
        (hscopes : 0 < interpreter.store.scopes.size) : interpreter.Holds (· = 0) callee := by
      refine ⟨⟨?_, ?_⟩, ?_⟩
      · rintro scope ⟨⟩
        exact hscopes
      · intro other hother
        obtain rfl := Value.function.inj hother
        rw [hfunctions]
        exact Nat.zero_lt_one
      · rintro scope ⟨⟩
        exact .root rfl
    have hagree' : first.AgreeOn (· = 0) (second.enter 1).2 := { hagree with }
    have hruns := only_reachable_scopes_matter Host.standard_restoresScopes
      Host.standard_usesArgumentsAndGlobals hfirst hinside hexists rfl hagree'
    refine (hruns.2 callee [] (fun value hvalue ↦ ?_) 9).1
    rw [List.mem_singleton.mp hvalue]
    exact ⟨hholds _ rfl Nat.zero_lt_one, hholds _ rfl Nat.zero_lt_two⟩

end Lox
