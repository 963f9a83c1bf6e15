import Lox.Proofs.Execution.EchoedLine
import Lox.Proofs.Lexical.Layout
import Lox.Proofs.Number.ReadBack

/-!
# What is printed reads back

A value is written in a source text as it is printed, and a string in quotes besides
(`Value.source`). A string that contains a quote, a number that is not finite and a function cannot
be written so. For all others, `Value.IsWritable`, the text is a single expression
(`Value.writesExpression_source`), and the value of the expression is the one that it was written
for, whatever the state (`Value.evaluate_tree`).

A negative number and negative zero are not written by a literal, but by an operator before one.

`written_value_reads_back` puts this together for the text as an expression and for a program that
prints it.
-/

set_option autoImplicit false
set_option relaxedAutoImplicit false

namespace Lox

open Lexeme

namespace Value

/-- What writes a value in a source text. -/
def source : Value → String
  | string text => "\"" ++ text ++ "\""
  | value => value.display

/-- The values that can be written in a source text. -/
def IsWritable : Value → Prop
  | number value => value.isFinite = true
  | string text => '"' ∉ text.toList
  | boolean _ | nil => True
  | function _ => False

/-- The expression that writes a value. -/
def tree : Value → Expr
  | number value =>
    let magnitude := .literal (.number (Binary64.toFloat (Binary64.ordinal value))) .origin
    if Binary64.isNegative value then .unary .negate magnitude .origin else magnitude
  | string text => .literal (.string text) .origin
  | boolean value => .literal (.boolean value) .origin
  | _ => .literal .nil .origin

end Value

/-- No lexeme goes on behind a minus. -/
theorem isLongest_minus (rest : List Char) : IsLongest ['-'] (.symbol .minus) ('-' :: rest) :=
  read?_eq_some_iff.mp rfl

/-- A sign is neither blank nor the start of a comment, so no gap goes on with it. -/
theorem endsGap_minus (rest : List Char) : EndsGap ('-' :: rest) := by
  rintro first tail ⟨⟩
  exact ⟨rfl, fun hslash ↦ by cases hslash.1⟩

/-- A text that is a lexeme as a whole ends in no comment. -/
theorem Lexeme.Form.after_eq_code {text : List Char} {kind : TokenKind} (hform : Form text kind) :
    Region.code.after text = .code := by
  have hends : EndsGap (text ++ []) := by
    rw [List.append_nil]
    exact hform.endsGap
  have hafter := Region.after_lexeme hform hends
  rwa [List.append_nil] at hafter

/-- A primary expression that is a single lexeme. -/
theorem writesExpression_of_form {source : String} {kind : TokenKind} {tree : Expr}
    (hform : Form source.toList kind) (hprimary : Grammar.Expression .primary [kind] tree) :
    WritesExpression source tree ∧ endsInComment source = false := by
  refine ⟨⟨[_], _, ofSource_of_form hform, hprimary.ofPrimary⟩, ?_⟩
  rw [endsInComment, hform.after_eq_code]
  rfl

/-- A primary expression that is a single lexeme, negated. -/
theorem writesExpression_of_form_behind_minus {source : String} {text : List Char}
    {kind : TokenKind} {tree : Expr} (hsource : source.toList = '-' :: text)
    (hform : Form text kind) (hprimary : Grammar.Expression .primary [kind] tree) :
    WritesExpression source (.unary .negate tree .origin) ∧ endsInComment source = false := by
  constructor
  · have hone : Token.ofSource (String.ofList text) = .ok _ :=
      ofSource_of_form (by rwa [String.toList_ofList])
    have halone := ofSource_eq_ok_iff_decomposes.mp hone
    rw [String.toList_ofList] at halone
    have hboth : Decomposes true 0 (['-'] ++ text) _ :=
      .next (fun _ ↦ endsGap_minus text) (isLongest_minus text) (halone.shift 1)
    rw [List.singleton_append, ← hsource] at hboth
    have htokens := ofSource_eq_ok_iff_decomposes.mpr hboth
    exact ⟨[_, _], _, htokens, hprimary.unaryOfPrimary.negate.ofUnary⟩
  · have hplain : ∀ character ∈ ['-'], Region.IsPlain character :=
      List.forall_mem_singleton.mpr (by decide)
    have hafter := Region.after_plain hplain text
    rw [endsInComment, hsource]
    exact decide_eq_false (by rw [← List.singleton_append, hafter, hform.after_eq_code]; decide)

/-- The tokens of a source text behind the word `print` and a blank. -/
theorem ofSource_print {source : String} {lexemes : List Token} {stop : Span}
    (htokens : Token.ofSource source = .ok (lexemes ++ [⟨.endOfInput, stop⟩])) :
    Token.ofSource ("print " ++ source) = .ok (⟨.keyword .print, 0, 5⟩ ::
      lexemes.map (Token.shift 6) ++ [Token.shift 6 ⟨.endOfInput, stop⟩]) := by
  rw [ofSource_eq_ok_iff_decomposes] at htokens ⊢
  have hblank : Gap source.toList [' '] := .blank (by decide) .nil
  have hbehind : Decomposes true 5 _ _ := .after_gap hblank (htokens.shift 6)
  have hspaced : ∀ first ∈ (' ' :: source.toList).head?, isBlank first := by
    rintro _ ⟨⟩
    decide
  have hall : Decomposes true 0 _ _ :=
    .lexeme_of_blank (fun _ ↦ .nil) (.keyword .print) hspaced hbehind
  rw [List.map_append] at hall
  rwa [String.toList_append]

/-- Statements without places that are a single `print` come from a single one. -/
theorem Stmt.exists_of_eraseSpansAll_eq_print {program : List Stmt} {tree : Expr}
    (htrees : eraseSpansAll program = [.print tree]) :
    ∃ value, program = [.print value] ∧ value.eraseSpans = tree := by
  rw [eraseSpansAll_eq_map] at htrees
  obtain ⟨statement, others, rfl, hstatement, hothers⟩ := List.map_eq_cons_iff.mp htrees
  obtain rfl := List.map_eq_nil_iff.mp hothers
  cases statement <;> cases hstatement
  exact ⟨_, rfl, rfl⟩

/-- An expression behind the word `print` and a blank, and before a semicolon, is read as a
statement that prints it. -/
theorem WritesExpression.exists_print {source : String} {tree : Expr}
    (hwrites : WritesExpression source tree) (hclosed : endsInComment source = false) :
    ∃ value, Program.ofSource ("print " ++ source ++ ";") = .ok [.print value] ∧
      value.eraseSpans = tree := by
  obtain ⟨lexemes, stop, htokens, hexpression⟩ := hwrites
  have hopen : endsInComment ("print " ++ source) = false := by
    have hplain : ∀ character ∈ "print ".toList, Region.IsPlain character := by
      simp [Region.IsPlain]
    rwa [endsInComment, String.toList_append, Region.after_plain hplain]
  obtain ⟨others, last, hline, hkinds⟩ := ofSource_append_semicolon (ofSource_print htokens)
  rw [hopen, if_neg (by decide)] at hkinds
  have hprogram : Grammar.Program true (.keyword .print :: lexemes.map Token.kind
      ++ [.symbol .semicolon]) [.print tree] :=
    ⟨[⟨_, .print tree⟩], by simpa using .print hexpression, by simp, rfl⟩
  have hsame : others.map Token.kind
      = .keyword .print :: lexemes.map Token.kind ++ [.symbol .semicolon] := by
    rw [hkinds]
    simp [Function.comp_def]
  rw [← hsame] at hprogram
  obtain ⟨program, hread, htrees⟩ := exists_ofSource_of_program hline hprogram
  obtain ⟨value, rfl, hvalue⟩ := Stmt.exists_of_eraseSpansAll_eq_print htrees
  exact ⟨value, hread, hvalue⟩

/-! ### Writing values -/

namespace Value

/-- The text of a value that can be written is an expression with the tree of the value. A negative
number is written with its sign, in front of the digits. -/
theorem writesExpression_source {value : Value} (hwritable : value.IsWritable) :
    WritesExpression value.source value.tree ∧ endsInComment value.source = false := by
  cases value with
  | number value =>
    obtain ⟨magnitude, htext, hform⟩ := Number.exists_magnitude hwritable
    change (source (number value)).toList = _ at htext
    rw [tree]
    cases hsign : Binary64.isNegative value with
    | true =>
      rw [hsign] at htext
      exact writesExpression_of_form_behind_minus htext hform (.number _)
    | false =>
      rw [hsign] at htext
      exact writesExpression_of_form (by rwa [htext]) (.number _)
  | string text =>
    have hform := Form.string hwritable
    rw [String.ofList_toList] at hform
    exact writesExpression_of_form (by simpa [source] using hform) (.string text)
  | boolean value =>
    cases value with
    | true => exact writesExpression_of_form (.keyword .true) .trueWord
    | false => exact writesExpression_of_form (.keyword .false) .falseWord
  | nil => exact writesExpression_of_form (.keyword .nil) .nilWord
  | function => cases hwritable

/-- What writes a value has this value in every state, and nothing happens besides. -/
theorem evaluate_tree (host : Host) {value : Value} (hwritable : value.IsWritable) (bound : Nat) :
    evaluate host (bound + 2) value.tree = pure value := by
  cases value with
  | number value =>
    have hparts := Binary64.toFloat_ordinal hwritable
    rw [tree]
    cases hsign : Binary64.isNegative value with
    | true =>
      rw [hsign, if_pos rfl] at hparts
      rw [← congrArg Value.number hparts]
      rfl
    | false =>
      rw [hsign, if_neg Bool.false_ne_true] at hparts
      rw [← congrArg Value.number hparts]
      rfl
  | string | boolean | nil => rfl
  | function => cases hwritable

end Value

/-- What writes a value is a single expression, and is read as one. Its evaluation yields this very
value, the sign of zero included, and does nothing else, from whatever state. Printing it appends
the text of the value and a line feed to the output, and changes nothing besides. -/
theorem written_value_reads_back (host : Host) {value : Value} (hwritable : value.IsWritable) :
    WritesExpression value.source value.tree ∧
    (∃ expression, Program.ofSource (value.source ++ ";") = .ok [.expression expression] ∧
      ∀ bound interpreter,
        (evaluate host (bound + 2) expression).run interpreter = .done value interpreter) ∧
    ∀ bound interpreter,
      (valueOfSource (bound + 2) value.source host).run interpreter
        = .done (some value) interpreter ∧
      (runSource (bound + 4) ("print " ++ value.source ++ ";") host).run interpreter
        = .done () { interpreter with output := interpreter.output ++ value.display ++ "\n" } := by
  obtain ⟨hwrites, hclosed⟩ := Value.writesExpression_source hwritable
  obtain ⟨expression, hread, herased⟩ := hwrites.exists_ofSource hclosed
  obtain ⟨printed, hprint, hprinted⟩ := hwrites.exists_print hclosed
  have hvalue (bound : Nat) : evaluate host (bound + 2) expression = pure value := by
    rw [← evaluate_eraseSpans, herased, Value.evaluate_tree host hwritable]
  refine ⟨hwrites, ⟨expression, hread, fun bound interpreter ↦ ?_⟩, fun bound interpreter ↦
    ⟨?_, ?_⟩⟩
  · rw [hvalue]
    rfl
  · simp only [valueOfSource, hread, Step.ofReading, hvalue]
    rfl
  · rw [runSource, hprint, Step.ofReading, runProgram_print, hprinted, echo,
      Value.evaluate_tree host hwritable]
    rfl

/-- Negative zero is read back with its sign. -/
theorem negative_zero_reads_back :
    let value : Value := .number (-0)
    value.source = "-0" ∧ ∀ bound interpreter,
      (valueOfSource (bound + 2) "-0").run interpreter = .done (some value) interpreter ∧
      (runSource (bound + 4) "print -0;").run interpreter
        = .done () { interpreter with output := interpreter.output ++ "-0" ++ "\n" } := by
  intro value
  have hwritable : value.IsWritable := show (-0 : Float).isFinite = true by decide +kernel
  have hsource : value.source = "-0" := by decide +kernel
  have hdisplay : value.display = "-0" := hsource
  obtain ⟨-, -, hruns⟩ := written_value_reads_back .standard hwritable
  rw [hsource, hdisplay] at hruns
  exact ⟨hsource, hruns⟩

end Lox
