import Lox.Proofs.Lexical.Deletion
import Lox.Proofs.Syntax.BlockEnd
import Lox.Proofs.Syntax.SourcePrograms

/-!
# The semicolon before a closing brace

If a semicolon before a closing brace is deleted from a program, the first error is found at the
brace (`exists_foundAtBrace`). Resynchronization drops the token at which reading failed, whatever
it is, so the brace is passed and does not close its block any more. What else is found is what
reading finds in the tokens that are left, `givenUp`: the block has an empty one in the place of its
last statement, and is still open behind what is skipped.

So one more error at least is found as a rule, as in `brace_lost_with_semicolon`. The error at the
brace is the only one if just these tokens are a program, for which an opening brace must have been
skipped in turn.
-/

set_option autoImplicit false
set_option relaxedAutoImplicit false

namespace Lox

open Grammar

/-- What is left to read where a block has been given up at its closing brace: an empty block stands
in the place of its last statement, and what is skipped behind the brace lacks. -/
def givenUp (head : List Token) (brace : Token) (after : List Token) : List Token :=
  head ++ ⟨.symbol .leftBrace, brace.span⟩ :: ⟨.symbol .rightBrace, brace.span⟩ ::
    (Cursor.skipStatement (some brace) after).2

/-- A statement that cannot be read at a closing brace is reported there, and what is left to read
is as if there had been an empty block. -/
theorem ofTokens_of_fails {head unfinished after : List Token} {brace : Token}
    {inFunction : Bool} {cause : SyntaxCause}
    (hfails : StatementFails .inList inFunction (unfinished.map Token.kind) cause)
    (hbegins : Begins startsStatement (unfinished.map Token.kind))
    (hbrace : brace.kind = .symbol .rightBrace)
    (hrest : (Cursor.skipStatement (some brace) after).2 ≠ [])
    (hhead : ∀ parting : Parting, PartsInList true inFunction parting [] →
      PartsInList false false parting (head.map Token.kind)) :
    Program.ofTokens (head ++ unfinished ++ brace :: after)
      = .error (⟨cause, brace.span⟩ :: Program.errorsOf (givenUp head brace after)) := by
  let parting : Parting := ⟨unfinished ++ brace :: after,
    ⟨.symbol .leftBrace, brace.span⟩ :: ⟨.symbol .rightBrace, brace.span⟩ ::
      (Cursor.skipStatement (some brace) after).2, [⟨cause, brace.span⟩]⟩
  have hparts : PartsInList true inFunction parting [] := by
    refine ⟨⟨?_, _, _, rfl, rfl⟩, .ofFails hfails hbegins hbrace rfl rfl hrest⟩
    rw [List.nil_append, List.map_append]
    exact hbegins.append _
  have hstands (rest : List Token) :
      (Cursor.start (head ++ rest)).StandsBefore 0 (head.map Token.kind) rest :=
    ⟨⟨head, rfl, rfl⟩, rfl, rfl⟩
  have hwithin : parting.Within (head.map Token.kind).length
      (Program.sufficientBound (head ++ parting.rest).length)
      (Program.sufficientBound (head ++ parting.rest').length) := by
    constructor <;> rw [List.length_map, ← List.length_append] <;> exact Nat.lt_succ_self _
  obtain ⟨program, program', last, last', hrun, hrun', hfollow, -⟩ :=
    (hhead parting hparts).recovers 0 _ _ _ _ _ _ (by simp) hwithin hwithin (hstands _) (hstands _)
  have hreported : last.reported = ⟨cause, brace.span⟩ :: last'.reported :=
    hfollow.cursors.reported_eq
  have herrors : Program.errorsOf (givenUp head brace after) = last'.reported :=
    Program.errorsOf_eq hrun'
  rw [List.append_assoc, herrors, ← hreported]
  exact Program.ofTokens_eq_error hrun (by simp [hreported])

/-- If what is left of a program behind a block that has been given up is a program, then the brace
that is missed there is made up for: one opening brace has been skipped. -/
theorem count_leftBrace_of_givenUp {head unfinished between : List Token}
    {semicolon brace closing : Token} {stop : Span} {trees : List Stmt} {program : Program}
    (htrees : Grammar.Program true
      ((head ++ unfinished ++ semicolon :: brace :: between).map Token.kind) trees)
    (hsemicolon : semicolon.kind = .symbol .semicolon) (hbrace : brace.kind = .symbol .rightBrace)
    (hunfinished : Grammar.Balanced (unfinished.map Token.kind ++ [.symbol .semicolon]))
    (hgivenUp : Program.ofTokens (givenUp head closing (between ++ [⟨.endOfInput, stop⟩]))
      = .ok program) :
    (between.map Token.kind).count (.symbol .leftBrace)
      = ((Cursor.skipStatement (some closing) (between ++ [⟨.endOfInput, stop⟩])).2.map
        Token.kind).count (.symbol .leftBrace) + 1 := by
  have hclosing := Cursor.count_skipStatement (some closing) (between ++ [⟨.endOfInput, stop⟩])
  obtain ⟨skipped, kept, rfl, hkept⟩ := Cursor.exists_skipStatement_eq (some closing) between stop
  have hlexemes : ∀ token ∈ head ++ ⟨.symbol .leftBrace, closing.span⟩ ::
      ⟨.symbol .rightBrace, closing.span⟩ :: kept, token.kind ≠ .endOfInput := by
    intro token hmem hkind
    simp only [List.mem_append, List.mem_cons] at hmem
    rcases hmem with hmem | rfl | rfl | hmem
    · exact htrees.endOfInput_notMem (List.mem_map.mpr ⟨token, by simp [hmem], hkind⟩)
    · cases hkind
    · cases hkind
    · exact htrees.endOfInput_notMem (List.mem_map.mpr ⟨token, by simp [hmem], hkind⟩)
  rw [givenUp, hkept, ← List.cons_append, ← List.cons_append, ← List.append_assoc] at hgivenUp
  have hbefore := htrees.balanced
  have hafter := (program_of_ofTokens hlexemes hgivenUp).balanced
  rw [hkept] at hclosing ⊢
  simp [Grammar.Balanced, hsemicolon, hbrace] at hbefore hafter hclosing hunfinished ⊢
  omega

/-! ### Source texts -/

/-- What is found at a closing brace where the semicolon before it lacks: the statement that it
would end is unfinished there, and the first error says so. The other errors are those of the tokens
that are left to read where the block is given up. There are none only if an opening brace is
skipped. -/
structure FoundAtBrace (before : List Token) (closing : Token) (others : List Token)
    (errors : List SyntaxError) (head unfinished : List Token) : Prop where
  before_eq : before = head ++ unfinished
  exists_statement : ∃ inFunction tree, Statement true .inList inFunction false
    (unfinished.map Token.kind ++ [.symbol .semicolon]) tree
  exists_errors_eq : ∃ cause,
    (cause = Parse.Fails.missingSemicolon ∨ cause = .missingExpression) ∧
      errors = ⟨cause, closing.span⟩ :: Program.errorsOf (givenUp head closing others)
  count_eq : errors.length = 1 → (others.map Token.kind).count (.symbol .leftBrace)
    = ((Cursor.skipStatement (some closing) others).2.map Token.kind).count
      (.symbol .leftBrace) + 1

/-- The tokens of a program end with the end of the input, which is no closing brace. -/
theorem exists_after_eq {source : String} {program : Program} {before after : List Token}
    {semicolon brace : Token} (hprogram : Program.ofSource source = .ok program)
    (htokens : Token.ofSource source = .ok (before ++ semicolon :: brace :: after))
    (hbrace : brace.kind = .symbol .rightBrace) :
    ∃ between stop trees, after = between ++ [⟨.endOfInput, stop⟩] ∧
      Grammar.Program true ((before ++ semicolon :: brace :: between).map Token.kind) trees := by
  obtain ⟨lexemes, stop, hlexemes, htrees⟩ := exists_program_of_ofSource hprogram
  have heq := Except.ok.inj (htokens.symm.trans hlexemes)
  rcases List.eq_nil_or_concat' after with rfl | ⟨between, last, rfl⟩
  · have hconcat : (before ++ [semicolon]) ++ [brace] = lexemes ++ [⟨.endOfInput, stop⟩] := by
      rw [← heq, List.append_assoc]
      rfl
    obtain ⟨-, hlast⟩ := List.append_inj' hconcat rfl
    obtain rfl := (List.cons.inj hlast).1
    cases hbrace
  · have hconcat : (before ++ semicolon :: brace :: between) ++ [last]
        = lexemes ++ [⟨.endOfInput, stop⟩] := by
      rw [← heq, List.append_assoc]
      rfl
    obtain ⟨rfl, hlast⟩ := List.append_inj' hconcat rfl
    obtain rfl := (List.cons.inj hlast).1
    exact ⟨between, stop, _, rfl, htrees⟩

/-- In a source text that is read, a semicolon before a closing brace is deleted. -/
theorem exists_foundAtBrace {source : String} {program : Program} {before after : List Token}
    {semicolon brace : Token} (hprogram : Program.ofSource source = .ok program)
    (htokens : Token.ofSource source = .ok (before ++ semicolon :: brace :: after))
    (hsemicolon : semicolon.kind = .symbol .semicolon)
    (hbrace : brace.kind = .symbol .rightBrace) :
    ∃ (first rest : String) (closing : Token) (others : List Token) (errors : List SyntaxError)
      (head unfinished : List Token), first ++ ";" ++ rest = source ∧
        semicolon.span = ⟨first.utf8ByteSize, first.utf8ByteSize + 1⟩ ∧
        brace :: after = (closing :: others).map (Token.shift 1) ∧
        Program.ofSource (first ++ rest) = .error errors ∧
        FoundAtBrace before closing others errors head unfinished := by
  obtain ⟨between, stop, trees, rfl, htrees⟩ := exists_after_eq hprogram htokens hbrace
  have hpair : (before ++ semicolon :: brace :: between).map Token.kind
      = before.map Token.kind ++ .symbol .semicolon :: .symbol .rightBrace ::
        between.map Token.kind := by
    rw [List.map_append, List.map_cons, List.map_cons, hsemicolon, hbrace]
  obtain ⟨front, read, inFunction, tree, hread, hstatement, hhead⟩ := htrees.leavesUnfinished hpair
  obtain ⟨head, unfinished, rfl, rfl, rfl⟩ := List.map_eq_append_iff.mp hread
  have hunfinished := hstatement.unfinished
  have hslash : ∀ last ∈ (head ++ unfinished).getLast?, last.kind ≠ .symbol .slash := by
    intro last hmem hkind
    rw [List.getLast?_append_of_ne_nil _ (by simpa using hunfinished.begins.ne_nil)] at hmem
    refine hunfinished.allowsComment ?_
    rw [List.getLast?_map, Option.mem_def.mp hmem, Option.map_some, hkind]
  obtain ⟨first, rest, moved, hsource, hspan, hmoved, hedited⟩ :=
    exists_ofSource_without_semicolon htokens hsemicolon hbrace hslash
  obtain ⟨closing, others, rfl, rfl, hothers⟩ := List.map_eq_cons_iff.mp hmoved.symm
  obtain ⟨between, ending, rfl, rfl, hending⟩ := List.map_eq_append_iff.mp hothers
  obtain ⟨⟨kind, stop⟩, rfl, hstop⟩ := List.map_eq_singleton_iff.mp hending
  obtain rfl : kind = .endOfInput := congrArg Token.kind hstop
  obtain ⟨cause, hcause, hfails⟩ := hunfinished.exists_fails
  refine ⟨first, rest, closing, _, _, head, unfinished, hsource, hspan, hmoved, ?_, rfl,
    ⟨inFunction, tree, hstatement⟩, ⟨cause, hcause, rfl⟩, fun hone ↦ ?_⟩
  · rw [Program.ofSource, hedited]
    obtain ⟨skipped, kept, -, hkept⟩ := Cursor.exists_skipStatement_eq (some closing) between stop
    exact ofTokens_of_fails hfails hunfinished.begins hbrace (by simp [hkept]) hhead
  · rw [List.length_cons, Nat.succ_inj, List.length_eq_zero_iff,
      Program.errorsOf_eq_nil_iff] at hone
    obtain ⟨left, hleft⟩ := hone
    have htrees : Grammar.Program true
        ((head ++ unfinished ++ semicolon :: closing :: between).map Token.kind) trees := by
      simpa [Function.comp_def] using htrees
    have hcount := count_leftBrace_of_givenUp htrees hsemicolon hbrace hstatement.balanced hleft
    rw [List.map_append, List.count_append, hcount]
    rfl

/-- The last semicolon of a block, before its closing brace. -/
theorem foundAtBrace_in_block :
    let before : List Token := [⟨.symbol .leftBrace, 0, 1⟩, ⟨.keyword .print, 2, 7⟩,
      ⟨.keyword .nil, 8, 11⟩]
    let brace : Token := ⟨.symbol .rightBrace, 13, 14⟩
    let after : List Token := [⟨.endOfInput, 14, 14⟩]
    ∃ (first rest : String) (closing : Token) (others : List Token) (errors : List SyntaxError)
      (head unfinished : List Token), first ++ ";" ++ rest = "{ print nil; }" ∧
        (⟨11, 12⟩ : Span) = ⟨first.utf8ByteSize, first.utf8ByteSize + 1⟩ ∧
        brace :: after = (closing :: others).map (Token.shift 1) ∧
        Program.ofSource (first ++ rest) = .error errors ∧
        FoundAtBrace before closing others errors head unfinished := by
  intro before brace after
  have htokens : Token.ofSource "{ print nil; }"
      = .ok (before ++ ⟨.symbol .semicolon, 11, 12⟩ :: brace :: after) := by decide +kernel
  have hprogram : Program.ofSource "{ print nil; }"
      = .ok [.block [.print (.literal .nil ⟨8, 11⟩)]] :=
    Program.ofSource_eq_ok_iff.mpr ⟨_, htokens, rfl⟩
  exact exists_foundAtBrace hprogram htokens rfl rfl

/-- The closing brace of a block is passed with its last statement, and the block is not closed by
anything else. -/
theorem brace_lost_with_semicolon :
    (∃ program, Program.ofSource "{ print nil; }" = .ok program) ∧
      Program.ofSource "{ print nil }" = .error
        [⟨.unexpectedToken (.symbol .semicolon) (some (.symbol .rightBrace)), 12, 13⟩,
          ⟨.unexpectedToken (.symbol .rightBrace) (some .endOfInput), 13, 13⟩] ∧
      ¬ ∃ error, Program.ofSource "{ print nil }" = .error [error] := by
  have hrejected : Program.ofSource "{ print nil }" = .error
      [⟨.unexpectedToken (.symbol .semicolon) (some (.symbol .rightBrace)), 12, 13⟩,
        ⟨.unexpectedToken (.symbol .rightBrace) (some .endOfInput), 13, 13⟩] := by
    rw [Program.ofSource, show Token.ofSource "{ print nil }" =
      .ok [⟨.symbol .leftBrace, 0, 1⟩, ⟨.keyword .print, 2, 7⟩, ⟨.keyword .nil, 8, 11⟩,
        ⟨.symbol .rightBrace, 12, 13⟩, ⟨.endOfInput, 13, 13⟩] by decide +kernel]
    rfl
  refine ⟨?_, hrejected, ?_⟩
  · rw [Program.ofSource, show Token.ofSource "{ print nil; }" =
      .ok [⟨.symbol .leftBrace, 0, 1⟩, ⟨.keyword .print, 2, 7⟩, ⟨.keyword .nil, 8, 11⟩,
        ⟨.symbol .semicolon, 11, 12⟩, ⟨.symbol .rightBrace, 13, 14⟩, ⟨.endOfInput, 14, 14⟩]
      by decide +kernel]
    exact ⟨_, rfl⟩
  · rintro ⟨error, herror⟩
    rw [hrejected] at herror
    cases herror

end Lox
