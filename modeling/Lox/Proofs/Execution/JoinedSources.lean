import Lox.Proofs.Execution.Alikeness
import Lox.Proofs.Execution.NormalEnd
import Lox.Session

/-!
# Running two sources at once

Running two source texts that can be read with a line feed between them is the same as running one
and then, unless it failed, the other in the same interpreter (`joined_sources_agree`). The
statements of the joined text differ from those of the two texts in their places alone; they are
executed one after the other, and there is no `return` by which the first ones could end the second
(`ends_runProgram_append_iff`).
-/

set_option autoImplicit false
set_option relaxedAutoImplicit false

namespace Lox

open Interpreter (AlikeIn)

variable {leeway : Leeway} {host : Host}

/-- Two computations are done, or have failed with the same error, in states that are alike. -/
inductive Outcome.Alike {ε : Type} (leeway : Leeway) :
    Outcome Interpreter ε Unit → Outcome Interpreter ε Unit → Prop
  | done {state state' : Interpreter} : state.Alike leeway state' →
    Alike leeway (.done () state) (.done () state')
  | failed {error : ε} {state state' : Interpreter} : state.Alike leeway state' →
    Alike leeway (.failed error state) (.failed error state')

theorem followsRunProgram (hhost : host.Respects leeway (AlikeIn leeway)) {trees trees' : Program}
    (halike : Stmt.AlikeAll leeway trees trees') (bound : Nat) :
    Follows (AlikeIn leeway) (fun _ _ _ ↦ True) .same (runProgram bound trees host)
      (runProgram · trees' host) :=
  .bind (((AlikeIn.simulation hhost).upTo bound).executeAll halike) fun _ _ _ _ _ ↦
    .pure fun _ _ ↦ trivial

theorem converges_execute (hhost : host.Respects leeway (AlikeIn leeway)) (tree : Stmt) :
    Converges (execute host · tree) := by
  have htree : Stmt.Alike leeway tree tree := Stmt.alike_of_eraseSpans_eq _ _ rfl
  exact Follows.converges (fun bound ↦ ((AlikeIn.simulation hhost).upTo bound).execute htree)
    fun state ↦ ⟨rfl, .same state⟩

theorem converges_runProgram (hhost : host.Respects leeway (AlikeIn leeway)) (program : Program) :
    Converges (runProgram · program host) :=
  Follows.converges (followsRunProgram hhost (Stmt.alikeAll_of_eraseSpansAll_eq _ _ rfl))
    fun state ↦ ⟨rfl, .same state⟩

/-- The first statement of a program, and unless it returns the others. -/
theorem runProgram_succ_cons (bound : Nat) (tree : Stmt) (trees : Program) :
    runProgram (bound + 1) (tree :: trees) host =
      execute host bound tree >>= fun flow ↦
        match flow with
        | .normal => runProgram bound trees host
        | .returned _ => pure () := by
  simp only [runProgram, executeAll, bind_assoc]
  congr 1
  funext flow
  cases flow <;> rfl

/-- The statements of a program without an open `return` are followed by those of another one. -/
theorem ends_runProgram_append_iff (hhost : host.Respects leeway (AlikeIn leeway))
    {first : Program} (hreturn : Stmt.anyHasReturn first = false) (second : Program)
    {state : Interpreter} {outcome : Outcome Interpreter RuntimeError Unit} :
    Ends (runProgram · (first ++ second) host) state outcome ↔
      Ends (fun bound ↦ runProgram bound first host >>= fun _ ↦ runProgram bound second host) state
        outcome := by
  induction first generalizing state with
  | nil =>
    calc Ends (runProgram · second host) state outcome
      _ ↔ Ends (fun bound ↦ runProgram (bound + 1) second host) state outcome := Ends.succ_iff.symm
      _ ↔ _ := @Ends.succ_iff _ _ _
        (fun bound ↦ runProgram bound [] host >>= fun _ ↦ runProgram bound second host) _ _
  | cons tree trees ih =>
    obtain ⟨htree, htrees⟩ := Bool.or_eq_false_iff.mp hreturn
    have hconverges := converges_execute hhost tree
    calc Ends (runProgram · (tree :: (trees ++ second)) host) state outcome
      _ ↔ Ends (fun bound ↦ runProgram (bound + 1) (tree :: (trees ++ second)) host) state
          outcome := Ends.succ_iff.symm
      _ ↔ Ends (fun bound ↦ runProgram (bound + 1) (tree :: trees) host >>= fun _ ↦
          runProgram (bound + 1) second host) state outcome := by
        simp only [runProgram_succ_cons, bind_assoc]
        refine ends_bind_congr hconverges fun flow reached hends ↦ ?_
        obtain ⟨bound, hbound⟩ := hends.exists_run
        obtain rfl := (yields_normal bound).1 tree htree _ _ _ hbound
        refine (ih htrees).trans ?_
        exact ends_bind_congr (converges_runProgram hhost trees) fun _ _ _ ↦ Ends.succ_iff.symm
      _ ↔ _ := @Ends.succ_iff _ _ _
        (fun bound ↦ runProgram bound (tree :: trees) host >>= fun _ ↦
          runProgram bound second host) _ _

/-! ### Source texts -/

theorem runSource_of_ofSource {source : String} {program : Program}
    (hprogram : Program.ofSource source = .ok program) (bound : Nat) :
    runSource bound source host = (runProgram bound program host).mapError .runtime := by
  rw [runSource, hprogram, Step.ofReading]

theorem runtime_injective : SourceError.runtime.Injective := by
  rintro _ _ ⟨⟩
  rfl

/-- A source text ends as its program does. -/
theorem ends_runSource_iff {source : String} {program : Program}
    (hprogram : Program.ofSource source = .ok program) {state : Interpreter}
    {outcome : Outcome Interpreter SourceError Unit} :
    Ends (runSource · source host) state outcome ↔
      ∃ origin, Ends (runProgram · program host) state origin ∧
        outcome = origin.map .runtime id := by
  simp only [runSource_of_ofSource hprogram]
  exact ends_mapError_iff runtime_injective

/-- Two source texts, one after the other, end as their statements together do. -/
theorem ends_runSource_bind_iff (hhost : host.Respects leeway (AlikeIn leeway))
    {first second : String} {before after : Program}
    (hfirst : Program.ofSource first = .ok before) (hsecond : Program.ofSource second = .ok after)
    {state : Interpreter} {outcome : Outcome Interpreter SourceError Unit} :
    Ends (fun bound ↦ runSource bound first host >>= fun _ ↦ runSource bound second host) state
        outcome ↔
      ∃ origin, Ends (runProgram · (before ++ after) host) state origin ∧
        outcome = origin.map .runtime id := by
  have hreturn := anyHasReturn_eq_false_of_ofSource hfirst
  simp only [runSource_of_ofSource hfirst, runSource_of_ofSource hsecond, ← Bounded.mapError_bind,
    ends_runProgram_append_iff hhost hreturn]
  exact ends_mapError_iff runtime_injective

/-- Programs that say the same end alike. -/
theorem exists_ends_runProgram (hhost : host.Respects leeway (AlikeIn leeway))
    {trees trees' : Program} (halike : Stmt.AlikeAll leeway trees trees') {state : Interpreter}
    {outcome : Outcome Interpreter RuntimeError Unit}
    (hends : Ends (runProgram · trees host) state outcome) :
    ∃ outcome', Ends (runProgram · trees' host) state outcome' ∧ outcome.Alike leeway outcome' := by
  obtain ⟨outcome', hends', hmatches⟩ :=
    Follows.exists_ends (followsRunProgram hhost halike) ⟨rfl, .same state⟩ hends
  refine ⟨outcome', hends', ?_⟩
  cases hmatches with
  | done _ _ hstates => exact .done hstates.2
  | failed _ hstates => exact .failed hstates.2

theorem Outcome.Alike.map {ε ζ : Type} {outcome outcome' : Outcome Interpreter ε Unit}
    (halike : Alike leeway outcome outcome') (rename : ε → ζ) :
    Alike leeway (outcome.map rename id) (outcome'.map rename id) := by
  cases halike with
  | done hstate => exact .done hstate
  | failed hstate => exact .failed hstate

/-- From every state, running two source texts that can be read with a line feed between them ends
exactly if running the one, and if that is done the other, ends; both are done or have failed with
the same error, with the same output and the same bindings but for the places that function values
keep. If the first one fails, so does the joined text, with the same error and in the same state.
Since the two texts end in one way at most, it is enough to look at the joined one. -/
theorem joined_sources_agree (hhost : host.IgnoresPlaces) {first second : String}
    {before after : Program} (hfirst : Program.ofSource first = .ok before)
    (hsecond : Program.ofSource second = .ok after) (interpreter : Interpreter) :
    let joined : Nat → Step Unit := fun bound ↦ runSource bound (first ++ "\n" ++ second) host
    let apart : Nat → Step Unit := fun bound ↦ do
      runSource bound first host
      runSource bound second host
    (∀ outcome, Ends joined interpreter outcome →
      ∃ outcome', Ends apart interpreter outcome' ∧ outcome.Alike .none outcome') ∧
    (∀ outcome', Ends apart interpreter outcome' →
      ∃ outcome, Ends joined interpreter outcome ∧ outcome.Alike .none outcome') ∧
    (∀ error stopped, Ends (runSource · first host) interpreter (.failed error stopped) →
      ∃ stopped', Ends joined interpreter (.failed error stopped') ∧
        stopped'.Alike .none stopped) := by
  intro joined apart
  obtain ⟨program, hprogram, herase⟩ := exists_ofSource_append_newline hfirst hsecond
  have halike : Stmt.AlikeAll .none program (before ++ after) :=
    Stmt.alikeAll_of_eraseSpansAll_eq _ _ herase
  have halike' : Stmt.AlikeAll .none (before ++ after) program :=
    Stmt.alikeAll_of_eraseSpansAll_eq _ _ herase.symm
  have hone {outcome : Outcome Interpreter SourceError Unit}
      (hends : Ends joined interpreter outcome) :
      ∃ outcome', Ends apart interpreter outcome' ∧ outcome.Alike .none outcome' := by
    obtain ⟨origin, horigin, rfl⟩ := (ends_runSource_iff hprogram).mp hends
    obtain ⟨origin', horigin', hsame⟩ := exists_ends_runProgram hhost halike horigin
    exact ⟨_, (ends_runSource_bind_iff hhost hfirst hsecond).mpr ⟨origin', horigin', rfl⟩,
      hsame.map _⟩
  have hother {outcome' : Outcome Interpreter SourceError Unit}
      (hends : Ends apart interpreter outcome') :
      ∃ outcome, Ends joined interpreter outcome ∧ outcome.Alike .none outcome' := by
    obtain ⟨origin', horigin', -⟩ := (ends_runSource_bind_iff hhost hfirst hsecond).mp hends
    obtain ⟨origin, horigin, -⟩ := exists_ends_runProgram hhost halike' horigin'
    have hjoined := (ends_runSource_iff hprogram).mpr ⟨origin, horigin, rfl⟩
    obtain ⟨last, hlast, hsame⟩ := hone hjoined
    obtain rfl := hlast.unique hends
    exact ⟨_, hjoined, hsame⟩
  refine ⟨fun _ ↦ hone, fun _ ↦ hother, fun error stopped hstopped ↦ ?_⟩
  obtain ⟨outcome, hends, hsame⟩ := hother hstopped.bind_of_failed
  cases hsame with
  | failed hstate => exact ⟨_, hends, hstate⟩

/-- A text that fails is not followed by another one. -/
theorem joined_sources_agree_after_failure :
    ∃ stopped, Ends (runSource · ("print -nil;" ++ "\n" ++ "print true;") .standard) .bare
        (.failed (.runtime (.typeMismatch "-" "a number" "nil")) stopped) ∧
      stopped.Alike .none .bare := by
  have hfirst : Program.ofSource "print -nil;" =
      .ok [.print (.unary .negate (.literal .nil ⟨7, 10⟩) ⟨6, 10⟩)] :=
    Program.ofSource_eq_ok_iff.mpr ⟨[⟨.keyword .print, 0, 5⟩, ⟨.symbol .minus, 6, 7⟩,
      ⟨.keyword .nil, 7, 10⟩, ⟨.symbol .semicolon, 10, 11⟩, ⟨.endOfInput, 11, 11⟩],
      by decide +kernel, rfl⟩
  have hsecond : Program.ofSource "print true;" = .ok [.print (.literal (.boolean true) ⟨6, 10⟩)] :=
    Program.ofSource_eq_ok_iff.mpr ⟨[⟨.keyword .print, 0, 5⟩, ⟨.keyword .true, 6, 10⟩,
      ⟨.symbol .semicolon, 10, 11⟩, ⟨.endOfInput, 11, 11⟩], by decide +kernel, rfl⟩
  obtain ⟨-, -, hstopped⟩ :=
    joined_sources_agree Host.standard_ignoresPlaces hfirst hsecond .bare
  refine hstopped _ _ ((Ends.add_iff 4).mp (.of_forall (by simp) fun bound ↦ ?_))
  rw [runSource_of_ofSource hfirst]
  rfl

end Lox
