import Lox.Proofs.Execution.NormalEnd
import Lox.Proofs.Syntax.CursorInvariance
import Lox.Proofs.Syntax.ProgramEdits
import Lox.Session

/-!
# The return check

A `return` outside of functions is an error of the source text, and this is what keeps programs from
ending early: the statements of a program that has been read are executed one after the other, each
to a normal end, up to the end of the program or to one that fails (`ExecutesEach`).

The check goes by the number of function bodies that are open. It accepts no less than it should:
statements may be moved into the bodies of new functions, and there a `return` may be added wherever
a statement of a list may stand (`Grammar.Edit`). What cannot be done is to make a function of the
body of a conditional as it stands (`function_as_branch_is_rejected`), because no declaration may
stand there; in braces it can.
-/

set_option autoImplicit false
set_option relaxedAutoImplicit false

namespace Lox

/-- Statements are executed one after the other, each to a normal end. -/
inductive ExecutesEach (host : Host) : List Stmt → Interpreter → Interpreter → Prop
  | nil (interpreter : Interpreter) : ExecutesEach host [] interpreter interpreter
  | cons {bound : Nat} {first : Stmt} {others : List Stmt} {before middle after : Interpreter} :
    (execute host bound first).run before = .done .normal middle →
    ExecutesEach host others middle after → ExecutesEach host (first :: others) before after

/-- Statements are executed one after the other up to one that fails. -/
def FailsAt (host : Host) (statements : List Stmt) (before : Interpreter) (error : RuntimeError)
    (after : Interpreter) : Prop :=
  ∃ executed failing others middle bound, statements = executed ++ failing :: others ∧
    ExecutesEach host executed before middle ∧
    (execute host bound failing).run middle = .failed error after

section

variable {host : Host} {bound : Nat} {statements : List Stmt} {before after : Interpreter}

/-- Without a `return` outside of functions, all statements are executed. -/
theorem executesEach_of_done (hreturn : Stmt.anyHasReturn statements = false) {flow : Flow}
    (hrun : (executeAll host bound statements).run before = .done flow after) :
    ExecutesEach host statements before after := by
  induction statements generalizing bound before with
  | nil =>
    cases bound with
    | zero => cases hrun
    | succ bound =>
      cases hrun
      exact .nil _
  | cons first others ih =>
    obtain ⟨hfirst, hothers⟩ := Bool.or_eq_false_iff.mp hreturn
    cases bound with
    | zero => cases hrun
    | succ bound =>
      simp only [executeAll] at hrun
      obtain ⟨ended, middle, hfirstRun, hrest⟩ := Bounded.run_bind_eq_done.mp hrun
      obtain rfl := (yields_normal bound).1 first hfirst _ _ _ hfirstRun
      exact .cons hfirstRun (ih hothers hrest)

/-- Without a `return` outside of functions, an error ends the statement that is its origin. -/
theorem failsAt_of_failed (hreturn : Stmt.anyHasReturn statements = false) {error : RuntimeError}
    (hrun : (executeAll host bound statements).run before = .failed error after) :
    FailsAt host statements before error after := by
  induction statements generalizing bound before with
  | nil =>
    cases bound <;> cases hrun
  | cons first others ih =>
    obtain ⟨hfirst, hothers⟩ := Bool.or_eq_false_iff.mp hreturn
    cases bound with
    | zero => cases hrun
    | succ bound =>
      simp only [executeAll] at hrun
      rw [Bounded.run_bind] at hrun
      cases hfirstRun : (execute host bound first).run before <;> rw [hfirstRun] at hrun
      case done ended middle =>
        obtain rfl := (yields_normal bound).1 first hfirst _ _ _ hfirstRun
        obtain ⟨executed, failing, rest, last, bound, rfl, hexecuted, hfailing⟩ := ih hothers hrun
        exact ⟨first :: executed, failing, rest, last, bound, rfl, .cons hfirstRun hexecuted,
          hfailing⟩
      case failed =>
        cases hrun
        exact ⟨[], first, others, before, bound, rfl, .nil _, hfirstRun⟩
      case exhausted => cases hrun

end

/-! ### Reading edited texts -/

/-- The tokens of a source text are of these kinds. -/
def Spells (source : String) (read : List TokenKind) : Prop :=
  (Token.ofSource source).map (List.map Token.kind) = .ok (read ++ [.endOfInput])

instance (source : String) (read : List TokenKind) : Decidable (Spells source read) :=
  inferInstanceAs (Decidable (_ = _))

theorem Spells.exists_tokens {source : String} {read : List TokenKind}
    (hspells : Spells source read) : ∃ tokens, Token.ofSource source = .ok tokens ∧
      tokens.map Token.kind = read ++ [.endOfInput] := by
  unfold Spells at hspells
  cases htokens : Token.ofSource source with
  | error errors =>
    rw [htokens] at hspells
    cases hspells
  | ok tokens =>
    rw [htokens] at hspells
    exact ⟨tokens, rfl, Except.ok.inj hspells⟩

open Grammar in
/-- A text is accepted if its tokens come from those of an accepted text by edits. -/
theorem exists_ofSource_of_edits {source other : String} {program : Program}
    (hprogram : Program.ofSource source = .ok program) {read edited : List TokenKind}
    (hsource : Spells source read) (hother : Spells other edited)
    (hedits : Relation.ReflTransGen Edit read edited) :
    ∃ program, Program.ofSource other = .ok program := by
  obtain ⟨tokens, htokens, hkinds⟩ := hsource.exists_tokens
  obtain ⟨others, hothers, hkinds'⟩ := hother.exists_tokens
  obtain ⟨lexemes, stop, hlexemes, htrees⟩ := exists_program_of_ofSource hprogram
  rw [htokens] at hlexemes
  obtain rfl := Except.ok.inj hlexemes
  rw [List.map_append, List.map_singleton] at hkinds
  obtain rfl := List.append_cancel_right hkinds
  obtain ⟨trees, hedited⟩ := htrees.exists_edited hedits
  obtain ⟨program, hread, -⟩ := exists_ofTokens_of_program hedited hkinds' (.inr rfl)
  exact ⟨program, Program.ofSource_eq_ok_iff.mpr ⟨others, hothers, hread⟩⟩

open Grammar in
/-- A program that has been read has no `return` outside the bodies of functions, so each of its
statements ends normally or fails, and all of them are executed up to one that fails. However
statements of lists are wrapped in functions, bodies of conditionals and loops are put in braces and
`return`s are added inside of functions, the text is still accepted. Reading a statement or a
function declaration leaves as many function bodies open as before, whether or not it fails. -/
theorem returns_stay_in_functions {source : String} {program : Program}
    (hprogram : Program.ofSource source = .ok program) :
    Stmt.anyHasReturn program = false ∧
    (∀ host bound before,
      (∀ statement ∈ program, ∀ flow after,
        (execute host bound statement).run before = .done flow after → flow = .normal) ∧
      (∀ after, (runProgram bound program host).run before = .done () after →
        ExecutesEach host program before after) ∧
      ∀ error after, (runProgram bound program host).run before = .failed error after →
        FailsAt host program before error after) ∧
    (∀ read edited other, Spells source read → Relation.ReflTransGen Edit read edited →
      Spells other edited → ∃ program, Program.ofSource other = .ok program) ∧
    ∀ bound, (∀ place, (Parse.statement bound place).Keeps Cursor.SameDepth) ∧
      (Parse.functionDeclaration (Parse.statement bound .inList) bound).Keeps Cursor.SameDepth := by
  have hreturn := anyHasReturn_eq_false_of_ofSource hprogram
  have hheld := Cursor.heldByReading_sameDepth
  refine ⟨hreturn, fun host bound before ↦ ⟨fun statement hmem flow after hrun ↦ ?_,
    fun after hrun ↦ ?_, fun error after hrun ↦ ?_⟩,
    fun read edited other hsource hedits hother ↦ ?_,
    fun bound ↦ ⟨hheld.statement bound, hheld.functionDeclaration (hheld.statement bound _) bound⟩⟩
  · rw [Stmt.anyHasReturn_eq_any, List.any_eq_false] at hreturn
    have hstatement := Bool.eq_false_iff.mpr (hreturn statement hmem)
    exact (yields_normal bound).1 statement hstatement before flow after hrun
  · obtain ⟨flow, reached, hall, hdone⟩ := Bounded.run_bind_eq_done.mp hrun
    cases hdone
    exact executesEach_of_done hreturn hall
  · unfold runProgram at hrun
    rw [Bounded.run_bind] at hrun
    cases hall : (executeAll host bound program).run before <;> rw [hall] at hrun <;> cases hrun
    exact failsAt_of_failed hreturn hall
  · exact exists_ofSource_of_edits hprogram hsource hother hedits

open Grammar in
/-- A statement is wrapped in a function, and a `return` is added behind it. -/
theorem wrapped_statement_with_return_is_accepted :
    let read : List TokenKind := [.identifier "b", .symbol .semicolon]
    let edited := functionHead "f" [] ++ braced
      (read ++ [.keyword .return, .symbol .semicolon])
    (Program.ofSource "b;").isOk = true ∧ Spells "b;" read ∧
      Relation.ReflTransGen Edit read edited ∧ Spells "fun f() { b; return; }" edited ∧
      ∃ program, Program.ofSource "fun f() { b; return; }" = .ok program := by
  intro read edited
  have hsource : Spells "b;" read := by decide +kernel
  have hother : Spells "fun f() { b; return; }" edited := by decide +kernel
  have hread : (Slot.list false).Holds read :=
    .single (.expression (.ofPrimary (.name "b")))
  have hempty : (Slot.list true).Holds ([].flatMap Piece.read) := .statements (by simp)
  have hwrap : Edit read (functionHead "f" [] ++ braced read) := by
    simpa using Edit.wrap "f" (.here _) hread (Nat.zero_le _)
  have haround : Around (.list false) (.list true)
      (functionHead "f" [] ++ [.symbol .leftBrace] ++ read) [.symbol .rightBrace] :=
    .within (.function false "f" (Nat.zero_le _)) (.among hread.intoFunction hempty)
  have hreturn : Edit (functionHead "f" [] ++ braced read) edited :=
    .addReturn haround .missing
  have hedits : Relation.ReflTransGen Edit read edited :=
    (Relation.ReflTransGen.single hwrap).tail hreturn
  have haccepted : (Program.ofSource "b;").isOk = true := by decide +kernel
  refine ⟨haccepted, hsource, hedits, hother, ?_⟩
  cases hprogram : Program.ofSource "b;" with
  | error errors =>
    rw [hprogram] at haccepted
    cases haccepted
  | ok program =>
    exact (returns_stay_in_functions hprogram).2.2.1 read edited _ hsource hedits hother

open Grammar in
/-- A function as the branch of a conditional is rejected, although the statement in its body may
stand there. -/
theorem function_as_branch_is_rejected :
    let condition := conditionHead .if [.identifier "a"]
    let branch : List TokenKind := [.identifier "b", .symbol .semicolon]
    Around (.list false) (.body false) condition [] ∧ (Slot.body false).Holds branch ∧
    Spells "if (a) b;" (condition ++ branch) ∧ (Program.ofSource "if (a) b;").isOk = true ∧
    Spells "if (a) fun f() { b; }" (condition ++ (functionHead "f" [] ++ braced branch)) ∧
    (Program.ofSource "if (a) fun f() { b; }").isOk = false := by
  intro condition branch
  refine ⟨.thenBranch (.list false) (.ofPrimary (.name "a")), ?_, ?_, ?_, ?_, ?_⟩
  · exact .statement (.expression (.ofPrimary (.name "b")))
  all_goals decide +kernel

end Lox
