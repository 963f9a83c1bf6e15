import Lox.Proofs.Execution.Locality
import Lox.Proofs.Execution.Padding
import Lox.Proofs.Syntax.StatementPlacing

/-!
# Loops taken as they are written

A loop with an initializer, a condition and an increment is read as a block around a loop with a
condition alone, in which each turn is a block of its own. `executeFor` is the meaning that such a
loop should have, without these blocks: the initializer is run once, in a scope around the loop, and
then each turn evaluates the condition, executes the body and evaluates the increment, all in this
scope. The two agree on every loop that is read and from every state
(`for_loop_is_taken_as_written`).

They do not make the same scopes. The block of each turn opens a scope in which nothing is bound,
since a body declares nothing (`Stmt.WrittenBy.bindsHere_eq_false`), and functions that are made in
the body or called by the increment may capture it and be called long after the loop. That is
`Interpreter.Padded`, and nothing can tell.
-/

set_option autoImplicit false
set_option relaxedAutoImplicit false

namespace Lox

open Interpreter (Indistinguishable PaddedAt Standpoint)

section

variable (host : Host)

/-- Whether a loop goes on. Without a condition it does. -/
def evaluateCondition (bound : Nat) : Option Expr → Run Bool
  | none => pure true
  | some condition => do
    let value ← evaluate host bound condition
    pure value.isTruthy

/-- One turn of a loop: the body and then, unless it returns, the increment. -/
def executeTurn (bound : Nat) (increment : Option Expr) (body : Stmt) : Run Flow := do
  match ← execute host bound body with
  | .returned value => pure (.returned value)
  | .normal =>
    match increment with
    | none => pure .normal
    | some step => do
      let _ ← evaluate host bound step
      pure .normal

/-- The turns of a loop, as long as it goes on and none of them returns. -/
def executeTurns : Nat → Option Expr → Option Expr → Stmt → Run Flow
  | 0, _, _, _ => Bounded.exhausted
  | bound + 1, condition, increment, body => do
    if ← evaluateCondition host bound condition then
      match ← executeTurn host bound increment body with
      | .normal => executeTurns bound condition increment body
      | .returned value => pure (.returned value)
    else pure .normal

/-- The loop `for (initializer; condition; increment) body`, taken as it is written. With an
initializer there is a scope around the loop. -/
def executeFor (bound : Nat) (initializer : Option Stmt) (condition increment : Option Expr)
    (body : Stmt) : Run Flow :=
  match initializer with
  | none => executeTurns host bound condition increment body
  | some first => do
    let scope ← Run.openScope (← Bounded.gets Interpreter.current) []
    Run.inScope scope do
      match ← execute host bound first with
      | .normal => executeTurns host bound condition increment body
      | .returned value => pure (.returned value)

end

/-- A body declares nothing in the scope that it stands in. -/
theorem Stmt.WrittenBy.bindsHere_eq_false {place : StatementPlace} {inFunction closed : Bool}
    {tokens : List Token} {tree : Stmt} (hwritten : WrittenBy place inFunction closed tokens tree)
    (hplace : place = .asBody) : tree.bindsHere = false := by
  induction hwritten with
  | conditional _ _ _ _ _ ih => exact ih rfl
  | conditionalElse _ _ _ _ _ _ _ ihbody ihother =>
    rw [bindsHere, ihbody rfl, ihother rfl, Bool.or_false]
  | whileLoop _ _ _ _ _ ih => exact ih rfl
  | @forLoop _ _ _ _ _ _ _ initializer _ increment _ _ _ _ _ _ _ _ _ ih =>
    cases initializer with
    | some first => rfl
    | none =>
      cases increment with
      | some step => rfl
      | none => exact ih rfl
  | declare => cases hplace
  | function => cases hplace
  | _ => rfl

/-! ### Turns -/

variable {host : Host} {standpoint : Standpoint} {world : Padding}

/-- How two runs with and without padding end. -/
abbrev Flow.SameIn (world : Padding) : Flow → Flow → Prop :=
  Flow.Related (Value.Same world.between)

theorem inTandem_condition (hhost : host.UsesLookups) (keyword : Span) (condition : Option Expr)
    (bound : Nat) : InTandem (PaddedAt standpoint) (fun _ value goesOn ↦ value.isTruthy = goesOn)
      world bound (evaluate host · (condition.getD (.literal (.boolean true) keyword)))
      (evaluateCondition host · condition) := by
  cases condition with
  | none =>
    have htrue (bound : Nat) : InTandem (PaddedAt standpoint)
        (fun _ value goesOn ↦ value.isTruthy = goesOn) world bound
        (fun _ ↦ (pure (.boolean true) : Run Value)) fun _ ↦ pure true := .pure fun _ _ ↦ rfl
    exact .succ_left rfl htrue bound
  | some condition =>
    refine .bind_right (((PaddedAt.tandem hhost).upTo bound).evaluate condition) ?_
    intro _ _ value value' hvalue
    exact .pure fun _ _ ↦ hvalue.toMatches.isTruthy_eq

/-- The increment at the end of a turn. -/
theorem inTandem_increment (hhost : host.UsesLookups) (step : Expr) (bound : Nat) :
    InTandem (PaddedAt standpoint) Flow.SameIn world bound
      (executeAll host · [.expression step])
      fun bound ↦ evaluate host bound step >>= fun _ ↦ pure .normal := by
  refine .succ_left rfl (fun bound ↦ .succ_left rfl (fun bound ↦ ?_) bound) bound
  simp only [executeAll, execute, bind_assoc, pure_bind]
  exact .bind (((PaddedAt.tandem hhost).upTo bound).evaluate step)
    fun _ _ _ _ _ ↦ .pure fun _ _ ↦ .normal

/-- A computation that does nothing else changes no scope. -/
theorem Bounded.within_same {σ ε α : Type} (computation : Bounded σ ε α) :
    computation.within (fun state ↦ ((), state)) (fun _ state ↦ state) = computation := by
  funext state
  change (computation.within (fun state ↦ ((), state)) fun _ state ↦ state).run state = _
  rw [run_within_eq_map]
  change (computation.run state).map id id = computation.run state
  cases computation.run state <;> rfl

/-- A block opens a scope inside of the current one. -/
theorem execute_block (bound : Nat) (body : List Stmt) : execute host (bound + 1) (.block body) =
    (executeAll host bound body).within
      (fun state ↦ (state.current, state.nested state.current []))
      fun former reached ↦ (reached.enter former).2 := by
  simp only [execute, Run.openScope_bind_inScope]
  rfl

/-- In the scope of the block of a turn, what stands in the block is the turn. -/
theorem inTandem_turn_inside (hhost : host.UsesLookups) {body : Stmt}
    (hbody : body.bindsHere = false) (step : Expr) (bound : Nat) :
    InTandem (PaddedAt standpoint) Flow.SameIn world bound
      (executeAll host · [body, .expression step]) (executeTurn host · (some step) body) := by
  refine .succ_left rfl (fun bound ↦ ?_) bound
  simp only [executeAll, executeTurn]
  refine .bind (((PaddedAt.tandem hhost).upTo bound).execute body (by simp [hbody])) ?_
  intro _ _ flow flow' hflow
  cases hflow with
  | normal => exact inTandem_increment hhost step bound
  | returned hvalue => exact (PaddedAt.tandem hhost).inTandem_returned hvalue

/-- The block of a turn is the turn: all that it does beyond that is to open a scope. -/
theorem inTandem_turn (hhost : host.UsesLookups) {body : Stmt} (hbody : body.bindsHere = false)
    (step : Expr) (bound : Nat) : InTandem (PaddedAt standpoint) Flow.SameIn world bound
      (execute host · (.block [body, .expression step])) (executeTurn host · (some step) body) := by
  refine .succ_left rfl (fun bound ↦ ?_) bound
  have hwithin : InTandem (PaddedAt standpoint) Flow.SameIn world bound
      (fun bound ↦ execute host (bound + 1) (.block [body, .expression step]))
      fun bound ↦ (executeTurn host bound (some step) body).within (fun state ↦ ((), state))
        fun _ state ↦ state := by
    simp only [execute_block]
    refine .within (fun _ ↦ True) PaddedAt (fun more _ state state' hstates ↦ ?_)
      fun _ ↦ inTandem_turn_inside hhost hbody step bound
    have hcurrent : more.between.scopes state.current standpoint.scope' := by
      rw [hstates.current]
      exact hstates.related
    refine ⟨⟨state.store.scopes.size, standpoint.scope', false⟩, _, trivial, more.le_relate _ _,
      (hstates.toPadded.pad hcurrent).at rfl hstates.current' (.inr ⟨rfl, rfl⟩) (by simp), ?_⟩
    intro last hlast reached reached' hreached
    have hmore := (more.le_relate _ _).trans hlast
    have hleft : Interpreter.Padded last (reached.enter state.current).2 reached' :=
      { hreached.toPadded with }
    exact hleft.at hstates.current hreached.current' (hmore.1.1 _ _ hstates.related)
      fun hbind ↦ hmore.2 _ (hstates.proper hbind)
  simpa only [Bounded.within_same] using hwithin

/-! ### Loops -/

/-- A loop whose turns are those of another loop. -/
theorem inTandem_turns (hhost : host.UsesLookups) (keyword : Span)
    (condition increment : Option Expr) {body turn : Stmt}
    (hturn : ∀ {world} bound, InTandem (PaddedAt standpoint) Flow.SameIn world bound
      (execute host · turn) (executeTurn host · increment body)) (bound : Nat) :
    InTandem (PaddedAt standpoint) Flow.SameIn world bound
      (execute host · (.loop (condition.getD (.literal (.boolean true) keyword)) turn))
      (executeTurns host · condition increment body) := by
  induction bound generalizing world with
  | zero => exact .exhausted rfl rfl
  | succ bound ih =>
    refine .succ ?_
    simp only [execute, executeTurns]
    refine .bind (inTandem_condition hhost keyword condition bound) fun _ _ value goesOn hvalue ↦ ?_
    rw [hvalue]
    split
    · refine .bind (hturn bound) fun _ _ flow flow' hflow ↦ ?_
      cases hflow with
      | normal => exact ih
      | returned hresult => exact (PaddedAt.tandem hhost).inTandem_returned hresult
    · exact .pure fun _ _ ↦ .normal

/-- A loop without an initializer. -/
theorem inTandem_loop (hhost : host.UsesLookups) (keyword : Span)
    (condition increment : Option Expr) {body : Stmt} (hbody : body.bindsHere = false)
    (bound : Nat) :
    InTandem (PaddedAt standpoint) Flow.SameIn world bound
      (execute host · (.ofFor keyword none condition increment body))
      (executeTurns host · condition increment body) := by
  cases increment with
  | some step =>
    exact inTandem_turns hhost keyword condition (some step) (inTandem_turn hhost hbody step) bound
  | none =>
    refine inTandem_turns hhost keyword condition none (fun bound ↦ ?_) bound
    refine .bind_right (((PaddedAt.tandem hhost).upTo bound).execute body (by simp [hbody])) ?_
    intro _ _ flow flow' hflow
    cases hflow with
    | normal => exact .pure fun _ _ ↦ .normal
    | returned hvalue => exact (PaddedAt.tandem hhost).inTandem_returned hvalue

/-- A loop of any of the eight shapes. -/
theorem inTandem_ofFor (hhost : host.UsesLookups) (keyword : Span) (initializer : Option Stmt)
    (condition increment : Option Expr) {body : Stmt} (hbody : body.bindsHere = false)
    (bound : Nat) : InTandem (PaddedAt standpoint) Flow.SameIn world bound
      (execute host · (.ofFor keyword initializer condition increment body))
      (executeFor host · initializer condition increment body) := by
  cases initializer with
  | none => exact inTandem_loop hhost keyword condition increment hbody bound
  | some first =>
    have htandem := PaddedAt.tandem hhost
    refine .succ_left rfl (fun bound ↦ ?_) bound
    have hwhole : Stmt.ofFor keyword (some first) condition increment body =
        .block [first, .ofFor keyword none condition increment body] := rfl
    simp only [hwhole, execute, executeFor, Run.openScope_bind_inScope]
    refine .bind htandem.inTandem_current fun _ _ enclosing enclosing' henclosing ↦ ?_
    refine htandem.inTandem_nested henclosing .nil fun hbinds ↦
      .succ_left rfl (fun bound ↦ ?_) bound
    simp only [executeAll]
    refine .bind ((htandem.upTo bound).execute first fun _ ↦ hbinds) fun _ _ flow flow' hflow ↦ ?_
    cases hflow with
    | returned hvalue => exact htandem.inTandem_returned hvalue
    | normal =>
      refine .succ_left rfl (fun bound ↦ ?_) bound
      simp only [executeAll]
      refine .bind_left (inTandem_loop hhost keyword condition increment hbody bound) ?_
      intro _ _ flow flow' hflow
      cases hflow with
      | returned hvalue => exact htandem.inTandem_returned hvalue
      | normal => exact .succ_left rfl (fun _ ↦ .pure fun _ _ ↦ .normal) bound

/-- Wherever a loop with an initializer, a condition and an increment is read, with or without each
of these, executing the statement that comes of it and executing the loop as it is written end
together from every state that a program can be in: with the same flow or the same error, and in
states that nothing can tell apart, not even functions that were made in the loop and are called
later. The scope that was current before the loop is so again. -/
theorem for_loop_is_taken_as_written {host : Host} (hhost : host.UsesLookups) {depth bound : Nat}
    {first last : Cursor} {tree : Stmt}
    (hread : (Parse.forLoop (Parse.statement depth .asBody) bound).run first = .done tree last)
    (hreported : last.reported = []) :
    ∃ (opening mark closing : Span) (start test step own : List Token)
      (initializer : Option Stmt) (condition increment : Option Expr) (body : Stmt),
      first.Reads (⟨.symbol .leftParenthesis, opening⟩ :: (start ++ (test ++
        ⟨.symbol .semicolon, mark⟩ :: (step ++ ⟨.symbol .rightParenthesis, closing⟩ :: own))))
        last ∧
      Stmt.InitializerWrittenBy start initializer ∧ Expr.OptionWrittenBy test condition ∧
      Expr.OptionWrittenBy step increment ∧
      Stmt.WrittenBy .asBody (decide (first.depth ≠ 0))
        (decide (last.next? = some (.keyword .else))) own body ∧
      ∀ interpreter : Interpreter, interpreter.WellFormed →
        EndTogether (PaddedAt ⟨interpreter.current, interpreter.current, true⟩) Flow.SameIn
          (.initial interpreter.store.scopes.size) (execute host · tree)
          (executeFor host · initializer condition increment body) interpreter interpreter ∧
        ∀ world, .initial interpreter.store.scopes.size ≤ world →
          ∀ scope < interpreter.store.scopes.size, ∀ state state',
            PaddedAt ⟨scope, scope, true⟩ world state state' →
            Indistinguishable host interpreter.store.scopes.size scope world state state' := by
  obtain ⟨_, hreads, opening, mark, closing, start, test, step, own, initializer, condition,
    increment, body, rfl, hinitializer, hcondition, hincrement, hbody, rfl⟩ :=
    Parse.Places.forLoop (.statement depth .asBody) bound hread hreported
  refine ⟨opening, mark, closing, start, test, step, own, initializer, condition, increment, body,
    hreads, hinitializer, hcondition, hincrement, hbody, fun interpreter hwell ↦ ⟨?_, ?_⟩⟩
  · refine InTandem.endTogether (fun bound ↦ inTandem_ofFor hhost _ initializer condition increment
      (hbody.bindsHere_eq_false rfl) bound) ?_
    exact hwell.padded.at rfl rfl ⟨rfl, hwell.current⟩ fun _ ↦ hwell.current
  · exact fun world hworld scope _ state state' hstates ↦ hstates.indistinguishable hhost hworld

/-- A body that returns: the increment, which would fail, is not evaluated. -/
theorem loop_returns_before_increment :
    let first : Cursor := ⟨some ⟨.keyword .for, 0, 3⟩, [⟨.symbol .leftParenthesis, 4, 5⟩,
      ⟨.keyword .var, 5, 8⟩, ⟨.identifier "i", 9, 10⟩, ⟨.symbol .equal, 11, 12⟩,
      ⟨.keyword .true, 13, 17⟩, ⟨.symbol .semicolon, 17, 18⟩, ⟨.symbol .semicolon, 18, 19⟩,
      ⟨.symbol .minus, 20, 21⟩, ⟨.keyword .nil, 21, 24⟩, ⟨.symbol .rightParenthesis, 24, 25⟩,
      ⟨.keyword .return, 26, 32⟩, ⟨.keyword .false, 33, 38⟩, ⟨.symbol .semicolon, 38, 39⟩,
      ⟨.symbol .rightBrace, 40, 41⟩], [], 1⟩
    let last : Cursor := ⟨some ⟨.symbol .semicolon, 38, 39⟩, [⟨.symbol .rightBrace, 40, 41⟩], [], 1⟩
    let tree : Stmt := .block [.declare ⟨"i", 9, 10⟩ (some (.literal (.boolean true) ⟨13, 17⟩)),
      .loop (.literal (.boolean true) ⟨0, 3⟩) (.block [
        .return (some (.literal (.boolean false) ⟨33, 38⟩)) ⟨26, 39⟩,
        .expression (.unary .negate (.literal .nil ⟨21, 24⟩) ⟨20, 24⟩)])]
    (Parse.forLoop (Parse.statement 1 .asBody) 9).run first = .done tree last ∧
    ∃ (initializer : Option Stmt) (condition increment : Option Expr) (body : Stmt)
      (value : Value) (reached : Interpreter),
      Ends (executeFor .standard · initializer condition increment body) .bare
        (.done (.returned value) reached) ∧
      value.display = "false" ∧ reached.output = "" ∧ reached.current = 0 := by
  intro first last tree
  have hread : (Parse.forLoop (Parse.statement 1 .asBody) 9).run first = .done tree last := rfl
  obtain ⟨_, _, _, _, _, _, _, initializer, condition, increment, body, -, -, -, -, -, hruns⟩ :=
    for_loop_is_taken_as_written Host.standard_usesLookups hread rfl
  have hends : Ends (execute .standard · tree) .bare (.done (.returned (.boolean false))
      { Interpreter.bare with
        store := ⟨#[⟨[], none⟩, ⟨[("i", .boolean true)], some 0⟩, ⟨[], some 1⟩]⟩ }) :=
    (Ends.add_iff 8).mp (.of_forall (by simp) fun bound ↦ rfl)
  obtain ⟨htogether, hlater⟩ := hruns .bare Interpreter.wellFormed_bare
  obtain ⟨outcome, hdirect, hmatches⟩ := htogether.1 _ hends
  cases hmatches with
  | done hworld hflow hstates =>
    have hseen := hlater _ hworld 0 Nat.one_pos _ _ hstates
    cases hflow with
    | returned hvalue =>
      exact ⟨hread, initializer, condition, increment, body, _, _, hdirect,
        hvalue.toMatches.display_eq.symm, hseen.output.symm, hseen.current.2⟩

end Lox
