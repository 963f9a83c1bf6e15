import Lox.Proofs.Execution.Alikeness
import Lox.Proofs.Syntax.FaithfulSpans

/-!
# Redundant parentheses

Parentheses can be put around the text of every expression in a program that has been read, and what
is read then is the same program with this one expression in parentheses: wherever the expression
stands, its operators bind as they did without them. Since parentheses do nothing when they are
evaluated, both programs end in the same way, from states that differ at most in such parentheses in
the declarations of functions (`redundant_parentheses_change_nothing`).
-/

set_option autoImplicit false
set_option relaxedAutoImplicit false

namespace Lox

open Interpreter (AlikeIn)

/-- Neither places nor parentheses count. -/
def Leeway.parenthesized : Leeway := ⟨true, false⟩

/-- Parentheses around the piece of a source text on which an expression stands are read. -/
theorem SourceSlice.exists_enclosed_program {before own after : List Token} {stop : Span}
    {first piece rest : String} {edited : Program}
    (hslice : SourceSlice before own (after ++ [⟨.endOfInput, stop⟩]) first piece rest)
    (hedited : Grammar.Program true (enclosed before own after) (Stmt.eraseSpansAll edited)) :
    ∃ program, Program.ofSource (first ++ "(" ++ piece ++ ")" ++ rest) = .ok program ∧
      Stmt.eraseSpansAll program = Stmt.eraseSpansAll edited := by
  obtain ⟨tokens, htokens, hkinds⟩ := hslice.exists_enclosed
  have hwhole : tokens.map Token.kind = enclosed before own after ++ [.endOfInput] := by
    rw [hkinds, enclosed]
    simp
  obtain ⟨program, hread, htrees⟩ := exists_ofTokens_of_program hedited hwhole (.inr rfl)
  exact ⟨program, Program.ofSource_eq_ok_iff.mpr ⟨tokens, htokens, hread⟩, htrees⟩

/-- Statements that say the same end alike, from states that are alike. -/
theorem exists_ends_executeAll {leeway : Leeway} {host : Host}
    (hhost : host.Respects leeway (AlikeIn leeway)) {trees trees' : List Stmt}
    (halike : Stmt.AlikeAll leeway trees trees') {state state' : Interpreter}
    (hstates : state.Alike leeway state') {outcome : Outcome Interpreter RuntimeError Flow}
    (hends : Ends (executeAll host · trees) state outcome) :
    ∃ outcome', Ends (executeAll host · trees') state' outcome' ∧
      outcome.Matches (AlikeIn leeway) (Flow.Matches leeway) .same outcome' :=
  Follows.exists_ends (fun bound ↦ ((AlikeIn.simulation hhost).upTo bound).executeAll halike)
    ⟨rfl, hstates⟩ hends

/-- With parentheses around the text of any expression in it, a source text is read as the same
program with that expression in parentheses. Run in states that are alike but for such parentheses
in stored declarations, one program ends exactly if the other one does: with the same output, the
same flow or the same error, and the same bindings. Since the other run ends in one way at most, it
is enough to follow this one. -/
theorem redundant_parentheses_change_nothing {host : Host}
    (hhost : host.Respects .parenthesized (AlikeIn .parenthesized)) {source : String}
    {program : Program} (hprogram : Program.ofSource source = .ok program) {node : Expr}
    (hnode : node ∈ Stmt.nodesAll program) (hinserted : ¬ node.IsInsertedIn source) :
    ∃ (before text after : String) (edited parenthesized : Program),
      before ++ text ++ after = source ∧
      node.span = ⟨before.utf8ByteSize, before.utf8ByteSize + text.utf8ByteSize⟩ ∧
      Program.ofSource (before ++ "(" ++ text ++ ")" ++ after) = .ok parenthesized ∧
      Program.Wraps node program edited ∧
      Stmt.eraseSpansAll parenthesized = Stmt.eraseSpansAll edited ∧
      ∀ state state' : Interpreter, state.Alike .parenthesized state' →
        (∀ outcome, Ends (executeAll host · program) state outcome →
          ∃ outcome', Ends (executeAll host · parenthesized) state' outcome' ∧
            outcome.Matches (AlikeIn .parenthesized) (Flow.Matches .parenthesized) .same outcome') ∧
        (∀ outcome', Ends (executeAll host · parenthesized) state' outcome' →
          ∃ outcome, Ends (executeAll host · program) state outcome ∧
            outcome.Matches (AlikeIn .parenthesized) (Flow.Matches .parenthesized) .same
              outcome') := by
  obtain ⟨first, piece, rest, before, own, after, stop, hsource, hslice, hordered, hown, edited,
    hwraps, hedited⟩ := exists_sourceSlice_of_mem_nodesAll hprogram hnode hinserted
  obtain ⟨parenthesized, hread, htrees⟩ := hslice.exists_enclosed_program hedited
  have halike : Stmt.AlikeAll .parenthesized program parenthesized :=
    (hwraps.alike rfl).of_eraseSpansAll_eq htrees.symm
  refine ⟨first, piece, rest, edited, parenthesized, hsource,
    hslice.span_eq (hown.stands.covers hordered), hread, hwraps, htrees,
    fun state state' hstates ↦ ⟨fun outcome ↦ exists_ends_executeAll hhost halike hstates,
      fun outcome' hends' ↦ ?_⟩⟩
  obtain ⟨outcome, hends, -⟩ :=
    exists_ends_executeAll hhost halike.symm hstates.symm hends'
  obtain ⟨last, hlast, hmatches⟩ := exists_ends_executeAll hhost halike hstates hends
  obtain rfl := hlast.unique hends'
  exact ⟨outcome, hends, hmatches⟩

/-- Parentheses around the left side of a comparison. -/
theorem parentheses_around_left_side :
    let source := "print !nil == true;"
    let node : Expr := .unary .not (.literal .nil ⟨7, 10⟩) ⟨6, 10⟩
    let program : Program :=
      [.print (.binary .equal node (.literal (.boolean true) ⟨14, 18⟩) ⟨6, 18⟩)]
    Program.ofSource source = .ok program ∧ node ∈ Stmt.nodesAll program ∧
      ¬ node.IsInsertedIn source ∧
      ∃ (before text after : String) (parenthesized : Program),
        before ++ text ++ after = source ∧
        node.span = ⟨before.utf8ByteSize, before.utf8ByteSize + text.utf8ByteSize⟩ ∧
        Program.ofSource (before ++ "(" ++ text ++ ")" ++ after) = .ok parenthesized ∧
        ∃ outcome', Ends (executeAll .standard · parenthesized) .bare outcome' ∧
          Outcome.Matches (AlikeIn .parenthesized) (Flow.Matches .parenthesized) .same
            (.done .normal (Interpreter.bare.printLine "true")) outcome' := by
  intro source node program
  have hread : Program.ofSource source = .ok program :=
    Program.ofSource_eq_ok_iff.mpr ⟨[⟨.keyword .print, 0, 5⟩, ⟨.symbol .bang, 6, 7⟩,
      ⟨.keyword .nil, 7, 10⟩, ⟨.symbol .equalEqual, 11, 13⟩, ⟨.keyword .true, 14, 18⟩,
      ⟨.symbol .semicolon, 18, 19⟩, ⟨.endOfInput, 19, 19⟩], by decide +kernel, rfl⟩
  have hnode : node ∈ Stmt.nodesAll program := .tail _ (.head _)
  have hinserted : ¬ node.IsInsertedIn source := by
    rintro ⟨_, _, -, hliteral⟩
    simp [node] at hliteral
  have hends : Ends (executeAll .standard · program) .bare
      (.done .normal (Interpreter.bare.printLine "true")) :=
    (Ends.add_iff 5).mp (.of_forall (by simp) fun bound ↦ rfl)
  obtain ⟨before, text, after, -, parenthesized, hsource, hspan, hparenthesized, -, -, hruns⟩ :=
    redundant_parentheses_change_nothing Host.standard_respects_alikeIn hread hnode hinserted
  exact ⟨hread, hnode, hinserted, before, text, after, parenthesized, hsource, hspan,
    hparenthesized, (hruns .bare .bare (.same _)).1 _ hends⟩

end Lox
