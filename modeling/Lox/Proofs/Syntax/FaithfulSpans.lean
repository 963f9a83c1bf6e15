import Lox.Proofs.Lexical.Slices
import Lox.Proofs.Syntax.SourcePrograms
import Lox.Proofs.Syntax.StatementPlacing

/-!
# The places in a program are faithful

The place of an expression in a program that has been read is a piece of the source text, on the
boundaries of characters and not empty. The parts of the expression lie in it one after the other,
and the piece with a semicolon behind it is read as this expression alone, as many bytes earlier as
the piece stands in the source. The piece on which a function declaration stands is read as that
declaration (`places_are_faithful`). There is one exception: the condition that is put where a loop
has none stands on the keyword of the loop.
-/

set_option autoImplicit false
set_option relaxedAutoImplicit false

namespace Lox

/-- A source text is read as a program exactly if its tokens before the end write it. -/
theorem ofSource_eq_ok_iff_writtenBy {source : String} {lexemes : List Token} {stop : Span}
    {program : Program} (htokens : Token.ofSource source = .ok (lexemes ++ [⟨.endOfInput, stop⟩])) :
    Program.ofSource source = .ok program ↔ Program.WrittenBy lexemes program := by
  obtain ⟨others, hothers, hstand, -⟩ := exists_lexemes_of_ofSource htokens
  obtain rfl : lexemes = others := (List.append_inj' hothers rfl).1
  rw [Program.ofSource_eq_ok_iff, ← ofTokens_eq_ok_iff_writtenBy
    fun token hmem ↦ (hstand token hmem).kind_ne_endOfInput]
  constructor
  · rintro ⟨tokens, htokens', hread⟩
    rw [htokens] at htokens'
    obtain rfl := Except.ok.inj htokens'
    exact hread
  · exact fun hread ↦ ⟨_, htokens, hread⟩

/-- The tokens of a source text that is read as a program. -/
theorem exists_writtenBy_of_ofSource {source : String} {program : Program}
    (hprogram : Program.ofSource source = .ok program) :
    ∃ lexemes stop, Token.ofSource source = .ok (lexemes ++ [⟨.endOfInput, stop⟩]) ∧
      (∀ token ∈ lexemes, token.StandsIn source) ∧ Token.Ordered lexemes ∧
      Program.WrittenBy lexemes program := by
  obtain ⟨tokens, htokens, -⟩ := Program.ofSource_eq_ok_iff.mp hprogram
  obtain ⟨lexemes, rfl, hstand, hordered⟩ := exists_lexemes_of_ofSource htokens
  exact ⟨lexemes, _, htokens, hstand,
    ⟨fun token hmem ↦ (hstand token hmem).start_lt_stop, hordered⟩,
    (ofSource_eq_ok_iff_writtenBy htokens).mp hprogram⟩

/-- What the tokens of a source text write elsewhere is what is read from it, moved there. -/
theorem exists_ofSource_shiftAll_eq {source : String} {lexemes : List Token} {stop : Span}
    {distance : Nat} {statements : List Stmt}
    (htokens : Token.ofSource source = .ok (lexemes ++ [⟨.endOfInput, stop⟩]))
    (hwritten : Program.WrittenBy (lexemes.map (Token.shift distance)) statements) :
    ∃ program, Program.ofSource source = .ok program ∧
      Stmt.shiftAll distance program = statements := by
  have hkinds : (lexemes ++ [(⟨.endOfInput, stop⟩ : Token)]).map Token.kind
      = (lexemes.map (Token.shift distance)).map Token.kind ++ [.endOfInput] := by
    rw [List.map_append, List.map_map]
    rfl
  obtain ⟨program, hread, htrees⟩ :=
    exists_ofTokens_of_program hwritten.program hkinds (.inr rfl)
  have hprogram := Program.ofSource_eq_ok_iff.mpr ⟨_, htokens, hread⟩
  refine ⟨program, hprogram, ?_⟩
  have hmoved := ((ofSource_eq_ok_iff_writtenBy htokens).mp hprogram).shift distance
  exact hmoved.unique hwritten (by rw [Stmt.eraseSpansAll_shiftAll, htrees])

/-- A condition that has been put where a loop has none: it stands on the keyword of the loop. -/
def Expr.IsInsertedIn (source : String) (node : Expr) : Prop :=
  ∃ before after : String, before ++ Keyword.for.text ++ after = source ∧
    node = .literal (.boolean true)
      ⟨before.utf8ByteSize, before.utf8ByteSize + Keyword.for.text.utf8ByteSize⟩

/-- A keyword is written in one way only. -/
theorem Lexeme.Form.eq_text {text : String} {word : Keyword}
    (hform : Form text.toList (.keyword word)) : text = word.text := by
  generalize htext : text.toList = characters at hform
  cases hform with
  | keyword => exact String.toList_injective htext

theorem Expr.InsertedOn.isInsertedIn {source : String} {lexemes : List Token} {node : Expr}
    (hstand : ∀ token ∈ lexemes, token.StandsIn source) (hinserted : node.InsertedOn lexemes) :
    node.IsInsertedIn source := by
  obtain ⟨span, hmem, rfl⟩ := hinserted
  obtain ⟨before, text, after, hsource, hspan, hform⟩ := hstand _ hmem
  obtain rfl := hform.eq_text
  exact ⟨before, after, hsource, congrArg _ hspan⟩

/-! ### Slices of programs -/

theorem Span.Covers.eq {first second : Span} {tokens : List Token} (hfirst : first.Covers tokens)
    (hsecond : second.Covers tokens) : first = second := by
  have hstart := Option.some.inj (hfirst.start_eq.symm.trans hsecond.start_eq)
  have hstop := Option.some.inj (hfirst.stop_eq.symm.trans hsecond.stop_eq)
  cases first
  cases second
  congr

/-- The piece of a source text on which certain tokens stand is the place that covers them. -/
theorem SourceSlice.span_eq {before own after : List Token} {first piece rest : String}
    {span : Span} (hslice : SourceSlice before own after first piece rest)
    (hcovers : span.Covers own) :
    span = ⟨first.utf8ByteSize, first.utf8ByteSize + piece.utf8ByteSize⟩ :=
  hcovers.eq ⟨hslice.start_eq, hslice.stop_eq⟩

/-- Every expression in a program that has been read stands on a piece of the source text, and with
parentheses around its tokens they are those of the program with the expression in parentheses. -/
theorem exists_sourceSlice_of_mem_nodesAll {source : String} {program : Program} {node : Expr}
    (hprogram : Program.ofSource source = .ok program) (hnode : node ∈ Stmt.nodesAll program)
    (hinserted : ¬ node.IsInsertedIn source) :
    ∃ (first piece rest : String) (before own after : List Token) (stop : Span),
      first ++ piece ++ rest = source ∧
      SourceSlice before own (after ++ [⟨.endOfInput, stop⟩]) first piece rest ∧
      Token.Ordered own ∧ node.WrittenBy own ∧
      ∃ edited, Program.Wraps node program edited ∧
        Grammar.Program true (enclosed before own after) (Stmt.eraseSpansAll edited) := by
  obtain ⟨lexemes, stop, htokens, hstand, hordered, hwritten⟩ :=
    exists_writtenBy_of_ofSource hprogram
  obtain ⟨before, own, after, rfl, hown, hedited⟩ :=
    hwritten.occurs hnode fun h ↦ hinserted (h.isInsertedIn hstand)
  rw [List.append_assoc, List.append_assoc] at htokens
  obtain ⟨first, piece, rest, hsource, hslice⟩ :=
    exists_sourceSlice htokens hown.stands.ne_nil (by simp)
  exact ⟨first, piece, rest, before, own, after, stop, hsource, hslice, hordered.left.right, hown,
    hedited⟩

/-- The piece of a source text on which an expression stands, with a semicolon, is read as that
expression. -/
theorem SourceSlice.exists_expression {before own after : List Token} {first piece rest : String}
    {node : Expr} (hslice : SourceSlice before own after first piece rest)
    (hown : node.WrittenBy own) :
    ∃ moved, Program.ofSource (piece ++ ";") = .ok [.expression moved] ∧
      moved.shift first.utf8ByteSize = node := by
  obtain ⟨moved, _, _, close, rfl, -, htokens⟩ := hslice.exists_alone
  have hstatement : Program.WrittenBy
      ((moved ++ [(⟨.symbol .semicolon, close⟩ : Token)]).map (Token.shift first.utf8ByteSize))
      [.expression node] := by
    refine ⟨[⟨_, .expression node⟩], fun item hmem ↦ ?_, (List.append_nil _).symm, rfl⟩
    obtain rfl := List.mem_singleton.mp hmem
    rw [List.map_append]
    exact .expression (close.shift first.utf8ByteSize) hown
  obtain ⟨program, hread, hshift⟩ := exists_ofSource_shiftAll_eq htokens hstatement
  rw [Stmt.shiftAll_eq_map] at hshift
  obtain ⟨statement, rfl, hexpression⟩ := List.map_eq_singleton_iff.mp hshift
  cases statement with
  | expression tree => exact ⟨tree, hread, Stmt.expression.inj hexpression⟩
  | _ => cases hexpression

/-- The piece of a source text on which a function declaration stands is read as it. -/
theorem SourceSlice.exists_declaration {before own after : List Token} {first piece rest : String}
    {declaration : Stmt} (hslice : SourceSlice before own after first piece rest)
    (hown : Program.WrittenBy own [declaration]) :
    ∃ moved, Program.ofSource piece = .ok [moved] ∧
      moved.shift first.utf8ByteSize = declaration := by
  obtain ⟨moved, _, _, _, rfl, htokens, -⟩ := hslice.exists_alone
  obtain ⟨program, hread, hshift⟩ := exists_ofSource_shiftAll_eq htokens hown
  rw [Stmt.shiftAll_eq_map] at hshift
  obtain ⟨statement, rfl, hdeclaration⟩ := List.map_eq_singleton_iff.mp hshift
  exact ⟨statement, hread, hdeclaration⟩

/-- The places of the expressions and of the function declarations in a program that has been read
are the pieces of the source text that they were read from. -/
theorem places_are_faithful {source : String} {program : Program}
    (hprogram : Program.ofSource source = .ok program) :
    (∀ node ∈ Stmt.nodesAll program, ¬ node.IsInsertedIn source →
      ∃ before text after : String, before ++ text ++ after = source ∧
        node.span = ⟨before.utf8ByteSize, before.utf8ByteSize + text.utf8ByteSize⟩ ∧
        node.span.start < node.span.stop ∧ node.span.stop ≤ source.utf8ByteSize ∧
        (∀ child ∈ node.childSpans, node.span.start ≤ child.start ∧ child.stop ≤ node.span.stop) ∧
        (node.childSpans.Pairwise fun first second ↦ first.stop ≤ second.start) ∧
        ∃ moved, Program.ofSource (text ++ ";") = .ok [.expression moved] ∧
          moved.shift before.utf8ByteSize = node) ∧
    ∀ declaration ∈ Stmt.functionsAll program,
      ∃ (name : Identifier) (parameters : List Identifier) (body : List Stmt) (span : Span)
        (before text after : String), declaration = .function name parameters body span ∧
        before ++ text ++ after = source ∧
        span = ⟨before.utf8ByteSize, before.utf8ByteSize + text.utf8ByteSize⟩ ∧
        ∃ moved, Program.ofSource text = .ok [moved] ∧
          moved.shift before.utf8ByteSize = declaration := by
  refine ⟨fun node hnode hinserted ↦ ?_, fun declaration hdeclaration ↦ ?_⟩
  · obtain ⟨first, piece, rest, before, own, after, stop, rfl, hslice, hordered, hown, -⟩ :=
      exists_sourceSlice_of_mem_nodesAll hprogram hnode hinserted
    have hcovers := hown.stands.covers hordered
    have hspan := hslice.span_eq hcovers
    obtain ⟨hwithin, happart⟩ := hown.stands.childSpans_ordered hordered
    refine ⟨first, piece, rest, rfl, hspan, hcovers.start_lt_stop hordered, ?_, hwithin, happart,
      hslice.exists_expression hown⟩
    rw [hspan, String.utf8ByteSize_append, String.utf8ByteSize_append]
    exact Nat.le_add_right _ _
  · obtain ⟨lexemes, stop, htokens, -, -, hwritten⟩ := exists_writtenBy_of_ofSource hprogram
    obtain ⟨before, own, after, rfl, hown, name, parameters, body, span, rfl, hcovers⟩ :=
      hwritten.functionOn hdeclaration
    rw [List.append_assoc, List.append_assoc] at htokens
    have hne : own ≠ [] := by
      rintro rfl
      cases hcovers.start_eq
    obtain ⟨first, piece, rest, hsource, hslice⟩ := exists_sourceSlice htokens hne (by simp)
    exact ⟨name, parameters, body, span, first, piece, rest, rfl, hsource, hslice.span_eq hcovers,
      hslice.exists_declaration hown⟩

/-- A negation in the body of a loop without a condition, and the function around it. -/
theorem negation_in_loop_is_on_its_place :
    let source := "fun f(a) { for (;;) return !(a); }"
    let node : Expr := .unary .not (.grouping (.name ⟨"a", 29, 30⟩) ⟨28, 31⟩) ⟨27, 31⟩
    let declaration : Stmt := .function ⟨"f", 4, 5⟩ [⟨"a", 6, 7⟩]
      [.loop (.literal (.boolean true) ⟨11, 14⟩) (.return (some node) ⟨20, 32⟩)] ⟨0, 34⟩
    Program.ofSource source = .ok [declaration] ∧ node ∈ Stmt.nodesAll [declaration] ∧
      ¬ node.IsInsertedIn source ∧ declaration ∈ Stmt.functionsAll [declaration] ∧
      (∃ before text after : String, before ++ text ++ after = source ∧
        node.span = ⟨before.utf8ByteSize, before.utf8ByteSize + text.utf8ByteSize⟩ ∧
        ∃ moved, Program.ofSource (text ++ ";") = .ok [.expression moved] ∧
          moved.shift before.utf8ByteSize = node) ∧
      ∃ before text after : String, before ++ text ++ after = source ∧
        ∃ moved, Program.ofSource text = .ok [moved] ∧
          moved.shift before.utf8ByteSize = declaration := by
  intro source node declaration
  have hread : Program.ofSource source = .ok [declaration] :=
    Program.ofSource_eq_ok_iff.mpr ⟨[⟨.keyword .fun, 0, 3⟩, ⟨.identifier "f", 4, 5⟩,
      ⟨.symbol .leftParenthesis, 5, 6⟩, ⟨.identifier "a", 6, 7⟩, ⟨.symbol .rightParenthesis, 7, 8⟩,
      ⟨.symbol .leftBrace, 9, 10⟩, ⟨.keyword .for, 11, 14⟩, ⟨.symbol .leftParenthesis, 15, 16⟩,
      ⟨.symbol .semicolon, 16, 17⟩, ⟨.symbol .semicolon, 17, 18⟩,
      ⟨.symbol .rightParenthesis, 18, 19⟩, ⟨.keyword .return, 20, 26⟩, ⟨.symbol .bang, 27, 28⟩,
      ⟨.symbol .leftParenthesis, 28, 29⟩, ⟨.identifier "a", 29, 30⟩,
      ⟨.symbol .rightParenthesis, 30, 31⟩, ⟨.symbol .semicolon, 31, 32⟩,
      ⟨.symbol .rightBrace, 33, 34⟩, ⟨.endOfInput, 34, 34⟩], by decide +kernel, rfl⟩
  have hnode : node ∈ Stmt.nodesAll [declaration] := .tail _ (.head _)
  have hinserted : ¬ node.IsInsertedIn source := by
    rintro ⟨_, _, -, hliteral⟩
    simp [node] at hliteral
  have hdeclaration : declaration ∈ Stmt.functionsAll [declaration] := .head _
  obtain ⟨hnodes, hdeclarations⟩ := places_are_faithful hread
  refine ⟨hread, hnode, hinserted, hdeclaration, ?_, ?_⟩
  · obtain ⟨before, text, after, hsource, hspan, -, -, -, -, hmoved⟩ := hnodes node hnode hinserted
    exact ⟨before, text, after, hsource, hspan, hmoved⟩
  · obtain ⟨-, -, -, -, before, text, after, -, hsource, -, hmoved⟩ :=
      hdeclarations declaration hdeclaration
    exact ⟨before, text, after, hsource, hmoved⟩

end Lox
