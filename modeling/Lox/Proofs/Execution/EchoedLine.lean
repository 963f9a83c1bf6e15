import Lox.Proofs.Lexical.OpenComment
import Lox.Proofs.Syntax.ProgramEdits
import Lox.Proofs.Syntax.SourcePrograms
import Lox.Session

/-!
# Lines that are echoed

A line is run as the program that its text writes. If there is none, but the tokens of the line are
a single expression, the expression is evaluated and its value is printed, and every other line is
rejected with the errors of its text (`runLine_eq`).

There is one exception. The line is read for an expression by putting a semicolon behind its text,
and behind a line that ends in a comment the semicolon belongs to the comment. So an expression with
a comment behind it is rejected (`rejected_expression_before_comment`).
-/

set_option autoImplicit false
set_option relaxedAutoImplicit false

namespace Lox

/-- The tokens of a source text are a single expression with the given tree. -/
def WritesExpression (source : String) (tree : Expr) : Prop :=
  ∃ lexemes stop, Token.ofSource source = .ok (lexemes ++ [⟨.endOfInput, stop⟩]) ∧
    Grammar.Expression .assignment (lexemes.map Token.kind) tree

/-- Evaluates an expression and prints its value in a line of its own. -/
def echo (bound : Nat) (expression : Expr) (host : Host := .standard) : Step Unit :=
  Bounded.mapError .runtime do
    let value ← evaluate host bound expression
    Bounded.modify fun interpreter ↦
      { interpreter with output := interpreter.output ++ value.display ++ "\n" }

/-- Only an expression and a semicolon are an expression in the form of a statement. -/
theorem Grammar.Statement.expression_of_semicolon {nearest inFunction closed : Bool}
    {place : StatementPlace} {read : List TokenKind} {tree : Expr}
    (hstatement : Statement nearest place inFunction closed (read ++ [.symbol .semicolon])
      (.expression tree)) : Expression .assignment read tree := by
  generalize hread : read ++ [.symbol .semicolon] = kinds at hstatement
  generalize htree : Stmt.expression tree = statement at hstatement
  cases hstatement with
  | expression hexpression =>
    obtain ⟨rfl, -⟩ := List.append_inj' hread rfl
    cases htree
    exact hexpression
  | @forLoop _ _ _ _ _ _ _ initializer =>
    rw [forTree] at htree
    cases initializer <;> cases htree
  | declare hdeclaration => cases hdeclaration <;> cases htree
  | _ => cases htree

/-- A program that is a single expression in the form of a statement is written with the tokens of
the expression and a semicolon. -/
theorem Grammar.Program.expression_iff {nearest : Bool} {read : List TokenKind} {tree : Expr} :
    Grammar.Program nearest (read ++ [.symbol .semicolon]) [.expression tree] ↔
      Grammar.Expression .assignment read tree := by
  constructor
  · rintro ⟨items, hitems, hread, htrees⟩
    obtain ⟨⟨kinds, statement⟩, rfl⟩ : ∃ item, items = [item] := by
      rw [← List.length_eq_one_iff, ← List.length_map Piece.tree, ← htrees, List.length_singleton]
    obtain rfl : Stmt.expression tree = statement := by simpa using htrees
    obtain rfl : read ++ [.symbol .semicolon] = kinds := by simpa using hread
    exact (hitems _ List.mem_cons_self).expression_of_semicolon
  · intro hexpression
    refine ⟨[⟨_, .expression tree⟩], fun item hmem ↦ ?_, (List.append_nil _).symm, rfl⟩
    obtain rfl := List.mem_singleton.mp hmem
    exact .expression hexpression

/-- Statements without places that are a single expression come from a single expression. -/
theorem Stmt.exists_of_eraseSpansAll_eq_expression {program : List Stmt} {tree : Expr}
    (htrees : eraseSpansAll program = [.expression tree]) :
    ∃ value, program = [.expression value] ∧ value.eraseSpans = tree := by
  rw [eraseSpansAll_eq_map] at htrees
  obtain ⟨statement, others, rfl, hstatement, hothers⟩ := List.map_eq_cons_iff.mp htrees
  obtain rfl := List.map_eq_nil_iff.mp hothers
  cases statement <;> cases hstatement
  exact ⟨_, rfl, rfl⟩

/-- An expression that does not end in a comment is read with a semicolon behind it. -/
theorem WritesExpression.exists_ofSource {source : String} {tree : Expr}
    (hwrites : WritesExpression source tree) (hclosed : endsInComment source = false) :
    ∃ value, Program.ofSource (source ++ ";") = .ok [.expression value] ∧
      value.eraseSpans = tree := by
  obtain ⟨lexemes, stop, htokens, hexpression⟩ := hwrites
  obtain ⟨others, last, hline, hkinds⟩ := ofSource_append_semicolon htokens
  rw [hclosed, if_neg (by decide)] at hkinds
  have hprogram : Grammar.Program true _ _ := Grammar.Program.expression_iff.mpr hexpression
  rw [← hkinds] at hprogram
  obtain ⟨program, hpasted, htrees⟩ := exists_ofSource_of_program hline hprogram
  obtain ⟨value, rfl, hvalue⟩ := Stmt.exists_of_eraseSpansAll_eq_expression htrees
  exact ⟨value, hpasted, hvalue⟩

/-- A line that is no program but an expression stands for a statement that prints it. -/
theorem exists_ofLine_of_writesExpression {line : String} {errors : List SyntaxError}
    (hrejected : Program.ofSource line = .error errors) {tree : Expr}
    (hwrites : WritesExpression line tree) (hclosed : endsInComment line = false) :
    ∃ value, Program.ofLine line = .ok [.print value] ∧ value.eraseSpans = tree := by
  obtain ⟨value, hpasted, hvalue⟩ := hwrites.exists_ofSource hclosed
  refine ⟨value, ?_, hvalue⟩
  simp only [Program.ofLine, hrejected, hpasted]

/-- A line that is no program stands for one only if it is an expression and ends outside of
comments. The semicolon adds its own token and changes none of the others. -/
theorem writesExpression_of_pasted {line : String} {errors : List SyntaxError}
    (hrejected : Program.ofSource line = .error errors) {value : Expr}
    (hpasted : Program.ofSource (line ++ ";") = .ok [.expression value]) :
    WritesExpression line value.eraseSpans ∧ endsInComment line = false := by
  obtain ⟨pasted, stop, hpastedTokens, hprogram⟩ := exists_program_of_ofSource hpasted
  obtain ⟨tokens, htokens⟩ := exists_ofSource_of_append_semicolon hpastedTokens
  obtain ⟨lexemes, rfl, -, -⟩ := exists_lexemes_of_ofSource htokens
  obtain ⟨others, last, hline, hkinds⟩ := ofSource_append_semicolon htokens
  obtain ⟨rfl, -⟩ := List.append_inj' (Except.ok.inj (hpastedTokens.symm.trans hline)) rfl
  rw [hkinds] at hprogram
  cases hclosed : endsInComment line with
  | false =>
    rw [hclosed, if_neg (by decide)] at hprogram
    exact ⟨⟨lexemes, _, htokens, Grammar.Program.expression_iff.mp hprogram⟩, rfl⟩
  | true =>
    rw [hclosed, if_pos rfl, List.append_nil] at hprogram
    obtain ⟨program, hread, -⟩ := exists_ofSource_of_program htokens hprogram
    cases hread.symm.trans hrejected

/-- Every other line is rejected with the errors of its text. -/
theorem ofLine_of_rejected {line : String} {errors : List SyntaxError}
    (hrejected : Program.ofSource line = .error errors)
    (hother : endsInComment line = true ∨ ¬ ∃ tree, WritesExpression line tree) :
    Program.ofLine line = .error errors := by
  have hnone (value : Expr) : Program.ofSource (line ++ ";") ≠ .ok [.expression value] := by
    intro hpasted
    obtain ⟨hwrites, hclosed⟩ := writesExpression_of_pasted hrejected hpasted
    rcases hother with hopen | hexpression
    · cases hclosed.symm.trans hopen
    · exact hexpression ⟨_, hwrites⟩
  simp only [Program.ofLine, hrejected]

mutual

/-- An expression has the same value wherever it has been read. -/
theorem evaluate_eraseSpans (host : Host) : ∀ (bound : Nat) (expression : Expr),
    evaluate host bound expression.eraseSpans = evaluate host bound expression
  | 0, _ => rfl
  | bound + 1, expression => by
    cases expression <;>
      simp [Identifier.eraseSpan_eq, evaluate, evaluate_eraseSpans host bound,
        evaluateAll_eraseSpans host bound]

theorem evaluateAll_eraseSpans (host : Host) : ∀ (bound : Nat) (expressions : List Expr),
    evaluateAll host bound (Expr.eraseSpansAll expressions) = evaluateAll host bound expressions
  | 0, _ => rfl
  | bound + 1, expressions => by
    cases expressions <;>
      simp [evaluateAll, evaluate_eraseSpans host bound,
        evaluateAll_eraseSpans host bound]

end

/-- Printing is evaluating and printing the value, and nothing else comes behind it. -/
theorem runProgram_print (bound : Nat) (value : Expr) (host : Host) :
    (runProgram (bound + 2) [.print value] host).mapError .runtime
      = echo bound value.eraseSpans host := by
  rw [echo, evaluate_eraseSpans]
  congr 1
  simp only [runProgram, executeAll, execute, bind_assoc, pure_bind, bind_pure_unit]
  rfl

/-- A line whose text is a program is run as that program. Otherwise, if its tokens are a single
expression and it does not end in a comment, the expression is evaluated and its value is printed.
Every other line is rejected with the errors of its text, and nothing is run. -/
theorem runLine_eq (host : Host) (line : String) :
    (∀ program, Program.ofSource line = .ok program →
      ∀ bound, runLine bound line host = runSource bound line host) ∧
    (∀ errors, Program.ofSource line = .error errors →
      (∀ tree, WritesExpression line tree → endsInComment line = false →
        ∀ bound, runLine (bound + 2) line host = echo bound tree host) ∧
      (endsInComment line = true ∨ (¬ ∃ tree, WritesExpression line tree) →
        ∀ bound, runLine bound line host = Bounded.fail (.unreadable errors))) := by
  refine ⟨fun program hprogram bound ↦ ?_, fun errors hrejected ↦
    ⟨fun tree hwrites hclosed bound ↦ ?_, fun hother bound ↦ ?_⟩⟩
  · rw [runLine, runSource, Program.ofLine, hprogram]
  · obtain ⟨value, hline, rfl⟩ := exists_ofLine_of_writesExpression hrejected hwrites hclosed
    rw [runLine, hline, Step.ofReading, runProgram_print]
  · rw [runLine, ofLine_of_rejected hrejected hother, Step.ofReading]

/-- Tokens that are `nil` alone are an expression, and no program. -/
theorem writesExpression_nil {line : String} {span stop : Span}
    (htokens : Token.ofSource line = .ok [⟨.keyword .nil, span⟩, ⟨.endOfInput, stop⟩]) :
    WritesExpression line (.literal .nil .origin) ∧
      ∃ errors, Program.ofSource line = .error errors := by
  refine ⟨⟨[⟨.keyword .nil, span⟩], stop, htokens, .ofPrimary .nilWord⟩, ?_⟩
  rw [Program.ofSource, htokens]
  exact ⟨_, rfl⟩

/-- An expression with a closed comment before it is echoed. -/
theorem echoed_expression_behind_comment :
    let line := "// none\nnil"
    let tree : Expr := .literal .nil .origin
    WritesExpression line tree ∧ endsInComment line = false ∧
      ∀ bound, runLine (bound + 2) line = echo bound tree := by
  intro line tree
  have hclosed : endsInComment line = false := by decide +kernel
  have htokens : Token.ofSource line = .ok [⟨.keyword .nil, ⟨8, 11⟩⟩, ⟨.endOfInput, ⟨11, 11⟩⟩] := by
    decide +kernel
  obtain ⟨hwrites, errors, hrejected⟩ := writesExpression_nil htokens
  have hline := ((runLine_eq .standard line).2 errors hrejected).1 tree hwrites hclosed
  exact ⟨hwrites, hclosed, hline⟩

/-- An expression with a comment behind it that nothing closes is rejected, and not printed. -/
theorem rejected_expression_before_comment :
    let line := "nil // none"
    let tree : Expr := .literal .nil .origin
    WritesExpression line tree ∧ ∃ errors, Program.ofSource line = .error errors ∧
      ∀ bound, runLine (bound + 3) line = Bounded.fail (.unreadable errors) ∧
        (echo (bound + 1) tree).run .bare
          = .done () { Interpreter.bare with output := "nil\n" } := by
  intro line tree
  have hopen : endsInComment line = true := by decide +kernel
  have htokens : Token.ofSource line = .ok [⟨.keyword .nil, ⟨0, 3⟩⟩, ⟨.endOfInput, ⟨11, 11⟩⟩] := by
    decide +kernel
  obtain ⟨hwrites, errors, hrejected⟩ := writesExpression_nil htokens
  have hline : Program.ofLine line = .error errors := ofLine_of_rejected hrejected (.inl hopen)
  refine ⟨hwrites, errors, hrejected, fun bound ↦ ⟨?_, rfl⟩⟩
  rw [runLine, hline, Step.ofReading]

end Lox
