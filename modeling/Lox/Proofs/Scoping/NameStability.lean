import Lox.Proofs.Execution.Invariance
import Lox.Proofs.Scoping.Steps
import Mathlib.Logic.Relation

/-!
# Names are kept

A run never takes a scope away, never moves it into another one, never unbinds a name and never
takes back what it has printed. An expression, a call and a block bind no new names in the scopes
that were there before: what they bind, they bind in scopes of their own, also where a function is
called whose captured scope is one of the others. Only a statement binds names in the scope that is
current.

`Interpreter.GainsNamesIn` is the relation between the states before and after, with the scopes that
may gain names as a parameter; it frames every run with none of them for expressions and calls and
with the current scope for statements (`Host.NamesNothing.framedByRuns`). Which names the current
scope gains is followed along a statement, into branches and loops but into no block and no function
(`ExecutesInPlace`): they are those of the declarations met there.
-/

set_option autoImplicit false
set_option relaxedAutoImplicit false

namespace Lox

namespace Interpreter

/-- Something may have been printed, and every scope that was there still stands inside the same one
and binds what it bound; it may bind more if it is one of those that may gain names. -/
structure GainsNamesIn (gaining : ScopeId → Prop) (before after : Interpreter) : Prop where
  output : ∃ more, after.output = before.output ++ more
  kept : ∀ (scope : ScopeId) (found : Scope), before.store.scopes[scope]? = some found →
    ∃ other : Scope, after.store.scopes[scope]? = some other ∧ other.enclosing = found.enclosing
  bound : ∀ scope name, before.store.binds name scope = true → after.store.binds name scope = true
  gained : ∀ scope name, scope < before.store.scopes.size → after.store.binds name scope = true →
    before.store.binds name scope = true ∨ gaining scope

/-- No scope gains a name, and the same one is current. -/
def KeepsNames (before after : Interpreter) : Prop :=
  after.current = before.current ∧ before.GainsNamesIn (fun _ ↦ False) after

/-- No scope but the current one gains a name, and it is still current. -/
def GrowsNames (before after : Interpreter) : Prop :=
  after.current = before.current ∧ before.GainsNamesIn (· = before.current) after

namespace GainsNamesIn

variable {gaining wider : ScopeId → Prop} {before middle after : Interpreter}

/-- Only what may have happened to the scopes that were there before counts. -/
theorem mono (hgains : before.GainsNamesIn gaining after)
    (hwider : ∀ scope, scope < before.store.scopes.size → gaining scope → wider scope) :
    before.GainsNamesIn wider after :=
  { hgains with
    gained := fun scope name hscope hbinds ↦
      (hgains.gained scope name hscope hbinds).imp_right (hwider scope hscope) }

theorem lt_size (hgains : before.GainsNamesIn gaining after) {scope : ScopeId}
    (hscope : scope < before.store.scopes.size) : scope < after.store.scopes.size := by
  obtain ⟨other, hother, -⟩ := hgains.kept scope _ (Array.getElem?_eq_getElem hscope)
  exact (Array.getElem?_eq_some_iff.mp hother).1

/-- The scopes are the same ones. -/
theorem of_store_eq (houtput : ∃ more, after.output = before.output ++ more)
    (hstore : after.store = before.store) : before.GainsNamesIn gaining after where
  output := houtput
  kept _ found hfound := ⟨found, hstore ▸ hfound, rfl⟩
  bound _ _ hbinds := hstore ▸ hbinds
  gained _ _ _ hbinds := .inl (hstore ▸ hbinds)

theorem of_same (houtput : after.output = before.output) (hstore : after.store = before.store) :
    before.GainsNamesIn gaining after :=
  of_store_eq ⟨"", by rw [houtput, String.append_empty]⟩ hstore

theorem trans (hfirst : before.GainsNamesIn gaining middle)
    (hsecond : middle.GainsNamesIn gaining after) : before.GainsNamesIn gaining after where
  output := by
    obtain ⟨first, hfirst⟩ := hfirst.output
    obtain ⟨second, hsecond⟩ := hsecond.output
    exact ⟨first ++ second, by rw [hsecond, hfirst, String.append_assoc]⟩
  kept scope found hfound := by
    obtain ⟨moved, hmoved, hsame⟩ := hfirst.kept scope found hfound
    obtain ⟨other, hother, hsame'⟩ := hsecond.kept scope moved hmoved
    exact ⟨other, hother, hsame'.trans hsame⟩
  bound scope name hbinds := hsecond.bound scope name (hfirst.bound scope name hbinds)
  gained scope name hscope hbinds :=
    (hsecond.gained scope name (hfirst.lt_size hscope) hbinds).elim
      (hfirst.gained scope name hscope) Or.inr

instance : IsPreorder Interpreter (GainsNamesIn gaining) where
  refl _ := of_same rfl rfl
  trans _ _ _ := trans

/-- A name is bound in a scope that may gain names, or that binds it already. -/
theorem define {scope : ScopeId} {name : String} {interpreter : Interpreter} (value : Value)
    (hscope : gaining scope ∨ interpreter.store.binds name scope = true) :
    interpreter.GainsNamesIn gaining (interpreter.define name value scope) where
  output := ⟨"", String.append_empty.symm⟩
  kept inner found hfound := by
    rw [Interpreter.define, Store.getElem?_define, hfound]
    split
    · exact ⟨_, rfl, rfl⟩
    · exact ⟨found, rfl, rfl⟩
  bound inner other hbinds := (Store.binds_define ..).mpr (.inl hbinds)
  gained inner other _ hbinds := by
    obtain hbinds | ⟨rfl, rfl, -⟩ := (Store.binds_define ..).mp hbinds
    · exact .inl hbinds
    · exact hscope.symm

/-- An assignment names nothing new, whatever scope the name belongs to. -/
theorem assign (name : String) (value : Value) (scope : ScopeId) (interpreter : Interpreter) :
    interpreter.GainsNamesIn gaining (interpreter.assign name value scope).2 := by
  unfold Interpreter.assign
  cases howner : interpreter.store.owner? name scope with
  | none =>
    rw [Store.assign_of_owner?_eq_none howner]
    exact of_same rfl rfl
  | some owner =>
    rw [Store.assign_of_owner? howner]
    exact define value (.inr (Store.binds_of_owner? howner))

/-- A new scope stands behind all that were there, and any scope may be current from now on. -/
theorem push (scope : Scope) (current : ScopeId) (interpreter : Interpreter) :
    interpreter.GainsNamesIn gaining
      { interpreter with store := ⟨interpreter.store.scopes.push scope⟩, current } := by
  have hsame (inner : ScopeId) (hinner : inner < interpreter.store.scopes.size) :
      (interpreter.store.scopes.push scope)[inner]? = interpreter.store.scopes[inner]? := by
    rw [Array.getElem?_push, if_neg (Nat.ne_of_lt hinner)]
  have hbinds (inner : ScopeId) (name : String) (hinner : inner < interpreter.store.scopes.size) :
      Store.binds ⟨interpreter.store.scopes.push scope⟩ name inner
        = interpreter.store.binds name inner := by
    unfold Store.binds
    rw [hsame inner hinner]
  refine ⟨⟨"", String.append_empty.symm⟩, fun inner found hfound ↦ ?_, fun inner name hbound ↦ ?_,
    fun inner name hinner hbound ↦ ?_⟩
  · exact ⟨found, (hsame inner (Array.getElem?_eq_some_iff.mp hfound).1).trans hfound, rfl⟩
  · exact (hbinds inner name (Store.lt_of_binds hbound)).trans hbound
  · exact .inl ((hbinds inner name hinner).symm.trans hbound)

end GainsNamesIn

instance : IsPreorder Interpreter KeepsNames where
  refl interpreter := ⟨rfl, refl interpreter⟩
  trans _ _ _ hfirst hsecond := ⟨hsecond.1.trans hfirst.1, hfirst.2.trans hsecond.2⟩

instance : IsPreorder Interpreter GrowsNames where
  refl interpreter := ⟨rfl, refl interpreter⟩
  trans _ _ _ hfirst hsecond :=
    ⟨hsecond.1.trans hfirst.1, hfirst.2.trans (hfirst.1 ▸ hsecond.2)⟩

theorem growsNames_of_keepsNames {before after : Interpreter} (hkeeps : before.KeepsNames after) :
    before.GrowsNames after :=
  ⟨hkeeps.1, hkeeps.2.mono fun _ _ ↦ False.elim⟩

theorem keepsNames_printLine (line : String) (interpreter : Interpreter) :
    interpreter.KeepsNames (interpreter.printLine line) :=
  ⟨rfl, .of_store_eq ⟨line ++ "\n", String.append_assoc⟩ rfl⟩

/-- What is run in a scope of its own names nothing new in the others: the only scope that may gain
names is the new one. -/
theorem keepsNames_nested (enclosing : ScopeId) (bindings : List (String × Value))
    {body : Run Flow} (hbody : body.Keeps GrowsNames) :
    (Run.openScope enclosing bindings >>= (Run.inScope · body)).Keeps KeepsNames := by
  intro before after hafter
  rw [Bounded.run_bind_of_done (Run.run_openScope enclosing bindings before)] at hafter
  obtain ⟨inner, hinner, rfl⟩ := Bounded.state?_run_within hafter
  have hgains : before.GainsNamesIn (· = before.store.scopes.size) inner :=
    (GainsNamesIn.push ⟨.ofPairs bindings, some enclosing⟩ _ before).trans (hbody _ _ hinner).2
  have hleft : inner.GainsNamesIn (· = before.store.scopes.size) (inner.enter before.current).2 :=
    .of_same rfl rfl
  refine ⟨rfl, (hgains.trans hleft).mono fun scope hscope hnew ↦ ?_⟩
  exact Nat.ne_of_lt hscope hnew

end Interpreter

open Interpreter

/-- The operations of a host name nothing new, if the calls that they make do not. -/
def Host.NamesNothing (host : Host) : Prop :=
  ∀ call : FunctionValue → List Value → Run Value,
    (∀ function arguments, (call function arguments).Keeps KeepsNames) →
      ∀ name operation arguments, (host.perform call name operation arguments).Keeps KeepsNames

theorem Host.standard_namesNothing : Host.standard.NamesNothing :=
  fun _ hcall ↦ Host.standard_keeps hcall

theorem Host.NamesNothing.framedByRuns {host : Host} (hhost : host.NamesNothing) :
    FramedByRuns host KeepsNames GrowsNames where
  widen _ _ := growsNames_of_keepsNames
  printLine line interpreter := growsNames_of_keepsNames (keepsNames_printLine line interpreter)
  define _ value _ := ⟨rfl, .define value (.inl rfl)⟩
  assign name value _ := ⟨rfl, .assign name value _ _⟩
  newFunction _ _ := ⟨rfl, .of_same rfl rfl⟩
  nested enclosing bindings _ hbody := keepsNames_nested enclosing bindings hbody
  perform := hhost

/-- A block names nothing new, because its statements have a scope of their own. -/
theorem keepsNames_execute_block {host : Host} (hhost : host.NamesNothing) (bound : Nat)
    (body : List Stmt) : (execute host bound (.block body)).Keeps KeepsNames := by
  cases bound with
  | zero => exact .exhausted
  | succ bound =>
    simp only [execute]
    refine .bind (.gets _) fun enclosing ↦ ?_
    exact keepsNames_nested enclosing [] ((hhost.framedByRuns.upTo bound).executeAll body)

/-! ### The names that a statement brings -/

/-- The name that a statement binds in its own scope. -/
def Stmt.declaredName? : Stmt → Option String
  | .declare target _ => some target.name
  | .function identifier _ _ _ => some identifier.name
  | _ => none

/-- Executing a statement from a state comes to executing a part of it from another state, in the
same scope: the part is the statement itself, or it is met in the branch that is taken or in a turn
of a loop. There is no way into a block or into the body of a function. The bounds are those with
which the statement and the part are executed. -/
inductive ExecutesInPlace (host : Host) :
    Nat → Stmt → Interpreter → Nat → Stmt → Interpreter → Prop
  | whole (bound : Nat) (statement : Stmt) (before : Interpreter) :
    ExecutesInPlace host bound statement before bound statement before
  | thenBranch {bound inner : Nat} {condition : Expr} {branch part : Stmt}
    {elseBranch : Option Stmt} {before middle state : Interpreter} {value : Value} :
    (evaluate host bound condition).run before = .done value middle → value.isTruthy = true →
      ExecutesInPlace host bound branch middle inner part state →
      ExecutesInPlace host (bound + 1) (.conditional condition branch elseBranch) before inner part
        state
  | elseBranch {bound inner : Nat} {condition : Expr} {thenBranch branch part : Stmt}
    {before middle state : Interpreter} {value : Value} :
    (evaluate host bound condition).run before = .done value middle → value.isTruthy = false →
      ExecutesInPlace host bound branch middle inner part state →
      ExecutesInPlace host (bound + 1) (.conditional condition thenBranch (some branch)) before
        inner part state
  | turn {bound inner : Nat} {condition : Expr} {body part : Stmt}
    {before middle state : Interpreter} {value : Value} :
    (evaluate host bound condition).run before = .done value middle → value.isTruthy = true →
      ExecutesInPlace host bound body middle inner part state →
      ExecutesInPlace host (bound + 1) (.loop condition body) before inner part state
  | further {bound inner : Nat} {condition : Expr} {body part : Stmt}
    {before middle reached state : Interpreter} {value : Value} :
    (evaluate host bound condition).run before = .done value middle → value.isTruthy = true →
      (execute host bound body).run middle = .done .normal reached →
      ExecutesInPlace host bound (.loop condition body) reached inner part state →
      ExecutesInPlace host (bound + 1) (.loop condition body) before inner part state

/-- The current scope is there, and it binds the name afterwards, but it did not before. -/
structure Interpreter.Gains (name : String) (before after : Interpreter) : Prop where
  lt_size : before.current < before.store.scopes.size
  unbound : before.store.binds name before.current = false
  bound : after.store.binds name before.current = true

namespace Interpreter.Gains

variable {name : String} {before middle after : Interpreter}

theorem not_keepsNames (hgains : Gains name before after) : ¬before.KeepsNames after := by
  intro hkeeps
  have hbound := hkeeps.2.gained _ name hgains.lt_size hgains.bound
  rw [hgains.unbound] at hbound
  simp at hbound

/-- What comes before the name is gained does not count if it names nothing. -/
theorem of_keepsNames (hgains : Gains name before after) (hkeeps : before.KeepsNames middle) :
    Gains name middle after where
  lt_size := hkeeps.1 ▸ hkeeps.2.lt_size hgains.lt_size
  unbound := by
    rw [hkeeps.1, Bool.eq_false_iff]
    intro hbound
    have hformer := hkeeps.2.gained _ name hgains.lt_size hbound
    rw [hgains.unbound] at hformer
    simp at hformer
  bound := hkeeps.1 ▸ hgains.bound

/-- The name is gained earlier, unless it is gained later. -/
theorem of_growsNames (hgains : Gains name before after) (hgrows : before.GrowsNames middle) :
    Gains name before middle ∨ Gains name middle after := by
  cases hbound : middle.store.binds name before.current with
  | true => exact .inl ⟨hgains.lt_size, hgains.unbound, hbound⟩
  | false =>
    refine .inr ⟨hgrows.1 ▸ hgrows.2.lt_size hgains.lt_size, ?_, ?_⟩
    · rw [hgrows.1, hbound]
    · rw [hgrows.1, hgains.bound]

/-- Binding a name in the current scope gains this one at most. -/
theorem eq_of_define {other : String} {value : Value} {interpreter : Interpreter}
    (hgains : Gains name interpreter (interpreter.define other value interpreter.current)) :
    name = other := by
  obtain hbound | ⟨-, rfl, -⟩ := (Store.binds_define ..).mp hgains.bound
  · rw [hgains.unbound] at hbound
    cases hbound
  · rfl

end Interpreter.Gains

section Declarations

variable {host : Host} {name : String} {bound : Nat} {statement : Stmt}
  {before after : Interpreter}

/-- A part that a statement comes to declares the name, in the scope that is current before the
statement, and is executed to its end. -/
def Stmt.Declares (host : Host) (name : String) (bound : Nat) (statement : Stmt)
    (before : Interpreter) : Prop :=
  ∃ inner part state reached, ExecutesInPlace host bound statement before inner part state ∧
    part.declaredName? = some name ∧ state.current = before.current ∧
    (execute host inner part).run state = .done .normal reached

theorem Stmt.Declares.whole (hname : statement.declaredName? = some name)
    (hrun : (execute host bound statement).run before = .done .normal after) :
    statement.Declares host name bound before :=
  ⟨bound, statement, before, after, .whole bound statement before, hname, rfl, hrun⟩

/-- What a branch or a turn of a loop declares is declared by the statement around it. -/
theorem Stmt.Declares.around {outer : Stmt} {middle : Interpreter}
    (hdeclares : statement.Declares host name bound middle)
    (hcurrent : middle.current = before.current)
    (hplace : ∀ {inner part state}, ExecutesInPlace host bound statement middle inner part state →
      ExecutesInPlace host (bound + 1) outer before inner part state) :
    outer.Declares host name (bound + 1) before := by
  obtain ⟨inner, part, state, reached, hpart, hname, hstate, hrun⟩ := hdeclares
  exact ⟨inner, part, state, reached, hplace hpart, hname, hstate.trans hcurrent, hrun⟩

namespace Interpreter.Gains

/-- Nothing is gained by evaluating an expression first. -/
theorem of_evaluate (hhost : host.NamesNothing) {expression : Expr} {next : Value → Run Flow}
    (hafter : ((evaluate host bound expression >>= next).run before).state? = some after)
    (hgains : Gains name before after) :
    ∃ value middle, (evaluate host bound expression).run before = .done value middle ∧
      ((next value).run middle).state? = some after ∧ middle.current = before.current ∧
      Gains name middle after := by
  have hkeeps := (hhost.framedByRuns.upTo bound).evaluate expression before
  obtain ⟨error, hrun⟩ | ⟨value, middle, hrun, hnext⟩ := Bounded.state?_run_bind hafter
  · exact absurd (hkeeps after (by rw [hrun, Outcome.state?])) hgains.not_keepsNames
  · have hmiddle := hkeeps middle (by rw [hrun, Outcome.state?])
    exact ⟨value, middle, hrun, hnext, hmiddle.1, hgains.of_keepsNames hmiddle⟩

/-- The current scope gains a name along a conditional in the branch that is taken. -/
theorem declares_conditional (hhost : host.NamesNothing)
    (ih : ∀ {statement : Stmt} {before : Interpreter},
      ((execute host bound statement).run before).state? = some after → Gains name before after →
        statement.Declares host name bound before)
    {condition : Expr} {thenBranch : Stmt} {elseBranch : Option Stmt}
    (hafter : ((execute host (bound + 1) (.conditional condition thenBranch elseBranch)).run
      before).state? = some after)
    (hgains : Gains name before after) :
    (Stmt.conditional condition thenBranch elseBranch).Declares host name (bound + 1) before := by
  simp only [execute] at hafter
  obtain ⟨value, middle, hvalue, hnext, hcurrent, hgains⟩ := hgains.of_evaluate hhost hafter
  cases htruthy : value.isTruthy with
  | true =>
    rw [if_pos htruthy] at hnext
    exact (ih hnext hgains).around hcurrent (.thenBranch hvalue htruthy)
  | false =>
    rw [htruthy, if_neg Bool.false_ne_true] at hnext
    cases elseBranch with
    | none =>
      obtain rfl := Option.some.inj hnext
      exact absurd (refl _) hgains.not_keepsNames
    | some branch => exact (ih hnext hgains).around hcurrent (.elseBranch hvalue htruthy)

/-- The current scope gains a name along a loop in its first turn, or else in a further one. -/
theorem declares_loop (hhost : host.NamesNothing)
    (ih : ∀ {statement : Stmt} {before after : Interpreter},
      ((execute host bound statement).run before).state? = some after → Gains name before after →
        statement.Declares host name bound before)
    {condition : Expr} {body : Stmt}
    (hafter : ((execute host (bound + 1) (.loop condition body)).run before).state? = some after)
    (hgains : Gains name before after) :
    (Stmt.loop condition body).Declares host name (bound + 1) before := by
  simp only [execute] at hafter
  obtain ⟨value, middle, hvalue, hnext, hcurrent, hgains⟩ := hgains.of_evaluate hhost hafter
  have hgrows := (hhost.framedByRuns.upTo bound).execute body middle
  cases htruthy : value.isTruthy with
  | true =>
    rw [if_pos htruthy] at hnext
    have hturn (hbody : ((execute host bound body).run middle).state? = some after) :
        (Stmt.loop condition body).Declares host name (bound + 1) before :=
      (ih hbody hgains).around hcurrent (.turn hvalue htruthy)
    obtain ⟨error, hbody⟩ | ⟨flow, reached, hbody, hrest⟩ := Bounded.state?_run_bind hnext
    · exact hturn (by rw [hbody, Outcome.state?])
    · cases flow with
      | returned value =>
        obtain rfl := Option.some.inj hrest
        exact hturn (by rw [hbody, Outcome.state?])
      | normal =>
        have hreached := hgrows reached (by rw [hbody, Outcome.state?])
        obtain hgains | hgains := hgains.of_growsNames hreached
        · have hdeclares := ih (by rw [hbody, Outcome.state?]) hgains
          exact hdeclares.around hcurrent (.turn hvalue htruthy)
        · exact (ih hrest hgains).around (hreached.1.trans hcurrent)
            (.further hvalue htruthy hbody)
  | false =>
    rw [htruthy, if_neg Bool.false_ne_true] at hnext
    obtain rfl := Option.some.inj hnext
    exact absurd (refl _) hgains.not_keepsNames

/-- Every name that the current scope gains along a statement is declared by a part of it that is
executed in this scope. The induction is on the bound, which counts the turns of loops too. Whatever
keeps the names of all scopes gains none, which leaves the statements that bind a name or contain
others. -/
theorem declares (hhost : host.NamesNothing)
    (hafter : ((execute host bound statement).run before).state? = some after)
    (hgains : Gains name before after) : statement.Declares host name bound before := by
  induction bound generalizing statement before after with
  | zero => cases hafter
  | succ bound ih =>
    have hruns := hhost.framedByRuns.upTo bound
    have hkept (hkeeps : (execute host (bound + 1) statement).Keeps KeepsNames) :
        statement.Declares host name (bound + 1) before :=
      absurd (hkeeps before after hafter) hgains.not_keepsNames
    cases statement with
    | expression value =>
      refine hkept ?_
      simp only [execute]
      exact .bind (hruns.evaluate value) fun _ ↦ .pure _
    | print value =>
      refine hkept ?_
      simp only [execute]
      refine .bind (hruns.evaluate value) fun value ↦ ?_
      exact .bind (.modify (keepsNames_printLine value.display)) fun _ ↦ .pure _
    | declare target initializer =>
      cases initializer with
      | none =>
        obtain rfl := Option.some.inj hafter
        obtain rfl := hgains.eq_of_define
        exact .whole rfl rfl
      | some initializer =>
        simp only [execute] at hafter
        obtain ⟨value, middle, hvalue, hnext, -, hgains⟩ := hgains.of_evaluate hhost hafter
        obtain rfl := Option.some.inj hnext
        obtain rfl := hgains.eq_of_define
        have hrun : (execute host (bound + 1) (.declare target (some initializer))).run before
            = .done .normal (middle.define target.name value middle.current) := by
          simp only [execute]
          rw [Bounded.run_bind_of_done hvalue]
          rfl
        exact .whole rfl hrun
    | block body => exact hkept (keepsNames_execute_block hhost (bound + 1) body)
    | conditional => exact hgains.declares_conditional hhost (ih · ·) hafter
    | loop => exact hgains.declares_loop hhost ih hafter
    | function identifier parameters body span =>
      obtain rfl := Option.some.inj hafter
      have hmade : before.KeepsNames
          (before.newFunction (.declared ⟨identifier, parameters, body, span⟩ before.current)).2 :=
        ⟨rfl, .of_same rfl rfl⟩
      obtain rfl := (hgains.of_keepsNames hmade).eq_of_define
      exact .whole rfl rfl
    | «return» result span =>
      refine hkept ?_
      cases result with
      | none => exact .pure _
      | some result =>
        simp only [execute]
        exact .bind (hruns.evaluate result) fun _ ↦ .pure _

end Interpreter.Gains

end Declarations

/-! ### What holds for ever -/

/-- One thing that is done with an interpreter, whether it succeeds or fails: something is
evaluated, executed, called or read and run, or the host binds a name, assigns to one or registers
an operation. -/
inductive Interpreter.Proceeds (host : Host) (before after : Interpreter) : Prop
  | expression {bound : Nat} {expression : Expr} :
    ((evaluate host bound expression).run before).state? = some after → Proceeds host before after
  | statement {bound : Nat} {statement : Stmt} :
    ((execute host bound statement).run before).state? = some after → Proceeds host before after
  | block {bound : Nat} {scope : ScopeId} {body : List Stmt} :
    ((Run.inScope scope (executeAll host bound body)).run before).state? = some after →
      Proceeds host before after
  | call {bound : Nat} {function : FunctionValue} {arguments : List Value} :
    ((call host bound function arguments).run before).state? = some after →
      Proceeds host before after
  | source {bound : Nat} {source : String} :
    ((runSource bound source host).run before).state? = some after → Proceeds host before after
  | line {bound : Nat} {line : String} :
    ((runLine bound line host).run before).state? = some after → Proceeds host before after
  | define {name : String} {value : Value} {scope : ScopeId} :
    after = before.define name value scope → Proceeds host before after
  | assign {name : String} {value : Value} {scope : ScopeId} :
    after = (before.assign name value scope).2 → Proceeds host before after
  | native {name : String} {arity : Nat} {operation : Native} :
    after = before.defineNative name arity operation → Proceeds host before after

namespace Interpreter

variable {before after : Interpreter}

/-- However a step ends, some scopes may have gained names at most. -/
theorem Proceeds.gainsNamesIn {host : Host} (hhost : host.NamesNothing)
    (hstep : Proceeds host before after) : before.GainsNamesIn (fun _ ↦ True) after := by
  have hframed := hhost.framedByRuns
  have hkeeps (h : before.KeepsNames after) : before.GainsNamesIn (fun _ ↦ True) after :=
    h.2.mono fun _ _ _ ↦ trivial
  have hgrows (h : before.GrowsNames after) : before.GainsNamesIn (fun _ ↦ True) after :=
    h.2.mono fun _ _ _ ↦ trivial
  cases hstep with
  | expression hafter => exact hkeeps ((hframed.upTo _).evaluate _ _ _ hafter)
  | statement hafter => exact hgrows ((hframed.upTo _).execute _ _ _ hafter)
  | @block bound scope body hafter =>
    obtain ⟨inner, hinner, rfl⟩ := Bounded.state?_run_within hafter
    have hbody := ((hframed.upTo _).executeAll _ _ _ hinner).2
    have hentered : before.GainsNamesIn (fun _ ↦ True) (before.enter scope).2 := .of_same rfl rfl
    have hleft : inner.GainsNamesIn (fun _ ↦ True) (inner.enter before.current).2 :=
      .of_same rfl rfl
    exact (hentered.trans (hbody.mono fun _ _ _ ↦ trivial)).trans hleft
  | call hafter => exact hkeeps ((hframed.upTo _).call _ _ _ _ hafter)
  | source hafter => exact hgrows (hframed.ofReading _ _ _ _ hafter)
  | line hafter => exact hgrows (hframed.ofReading _ _ _ _ hafter)
  | define hafter => exact hafter ▸ .define _ (.inl trivial)
  | assign hafter => exact hafter ▸ .assign _ _ _ before
  | @native name arity operation hafter =>
    rw [hafter]
    have hmade : before.GainsNamesIn (fun _ ↦ True)
        (before.newFunction (.native name arity operation)).2 := .of_same rfl rfl
    exact hmade.trans (.define _ (.inl trivial))

/-- A name that can be resolved from a scope still can if scopes have only gained names. -/
theorem GainsNamesIn.isSome_get? {gaining : ScopeId → Prop}
    (hgains : before.GainsNamesIn gaining after) {name : String} {scope : ScopeId}
    (hvalue : (before.store.get? name scope).isSome) : (after.store.get? name scope).isSome := by
  have hchain : after.store.chain scope = before.store.chain scope := by
    refine Store.chain_congr fun inner hinner ↦ ?_
    have hlt := Nat.lt_of_le_of_lt hinner (Store.lt_of_isSome_get? hvalue)
    have hfound := Array.getElem?_eq_getElem hlt
    obtain ⟨other, hother, hsame⟩ := hgains.kept inner _ hfound
    rw [Store.enclosing?, Store.enclosing?, hother, hfound, Option.bind_some, Option.bind_some,
      hsame]
  rw [Store.isSome_get?, Store.owner?_eq_find?, List.find?_isSome] at hvalue ⊢
  obtain ⟨owner, howner, hbinds⟩ := hvalue
  exact ⟨owner, hchain ▸ howner, hgains.bound owner name hbinds⟩

end Interpreter

/-- Expressions, calls and blocks take no scope away and bind no new name in one that was there, and
statements bind new names only in the current scope, which are those of the declarations executed in
it outside of blocks and functions. This holds however they end. A name that can be resolved from a
scope can be resolved from it for ever, and what is printed stays printed. -/
theorem names_are_kept (host : Host) (hhost : host.NamesNothing) :
    (∀ bound statement before after,
      ((execute host bound statement).run before).state? = some after →
        before.GrowsNames after ∧
        ∀ name, Gains name before after → statement.Declares host name bound before) ∧
    (∀ bound body, (execute host bound (.block body)).Keeps KeepsNames) ∧
    (∀ bound expression, (evaluate host bound expression).Keeps KeepsNames) ∧
    (∀ bound function arguments, (call host bound function arguments).Keeps KeepsNames) ∧
    (∀ before after, Relation.ReflTransGen (Proceeds host) before after →
      (∀ name scope, (before.store.get? name scope).isSome →
        (after.store.get? name scope).isSome) ∧
      ∃ more, after.output = before.output ++ more) := by
  have hruns := hhost.framedByRuns.upTo
  refine ⟨fun bound statement before after hafter ↦ ⟨?_, fun name hgains ↦ ?_⟩,
    fun bound body ↦ ?_, fun bound ↦ (hruns bound).evaluate, fun bound ↦ (hruns bound).call,
    fun before after hsteps ↦ ?_⟩
  · exact (hruns bound).execute statement before after hafter
  · exact hgains.declares hhost hafter
  · exact keepsNames_execute_block hhost bound body
  · have hgains : before.GainsNamesIn (fun _ ↦ True) after := by
      induction hsteps with
      | refl => exact refl before
      | tail _ hstep ih => exact ih.trans (hstep.gainsNamesIn hhost)
    exact ⟨fun name scope ↦ hgains.isSome_get?, hgains.output⟩

/-- A function that binds a name in its body, called in the scope that it has captured. -/
theorem names_are_kept_by_call :
    let function : FunctionValue :=
      ⟨0, .declared ⟨⟨"f", ⟨0, 0⟩⟩, [], [.declare ⟨"x", ⟨0, 0⟩⟩ none], ⟨0, 0⟩⟩ 0⟩
    Host.standard.NamesNothing ∧
      ∃ after, (call .standard 9 function []).run .bare = .done .nil after ∧
        after.store.binds "x" 1 = true ∧ after.store.binds "x" 0 = false := by
  intro function
  obtain ⟨-, -, -, hcall, -⟩ := names_are_kept .standard Host.standard_namesNothing
  refine ⟨Host.standard_namesNothing, _, rfl, rfl, ?_⟩
  have hkeeps := hcall 9 function [] .bare _ rfl
  have hunbound : Interpreter.bare.store.binds "x" 0 = false := rfl
  rw [Bool.eq_false_iff]
  intro hbound
  have hformer := hkeeps.2.gained 0 "x" Nat.zero_lt_one hbound
  rw [hunbound] at hformer
  simp at hformer

end Lox
