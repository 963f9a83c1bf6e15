import Lox.Proofs.Lexical.JoinedScan
import Lox.Proofs.Syntax.ProgramGrammar

/-!
# The programs of source texts

What is read from a source text is a program of the grammar (`exists_program_of_ofSource`). Two
source texts that can be read can also be read together, with a line feed between them, as the
statements of the one followed by those of the other (`exists_ofSource_append_newline`).
-/

set_option autoImplicit false
set_option relaxedAutoImplicit false

namespace Lox

theorem Program.ofSource_eq_ok_iff {source : String} {program : Program} :
    Program.ofSource source = .ok program ↔
      ∃ tokens, Token.ofSource source = .ok tokens ∧ Program.ofTokens tokens = .ok program := by
  rw [Program.ofSource]
  cases Token.ofSource source <;> simp [bind, Except.bind]

/-- The tokens before the end of a source text are a program of the grammar. -/
theorem exists_program_of_ofSource {source : String} {program : Program}
    (hprogram : Program.ofSource source = .ok program) :
    ∃ lexemes stop, Token.ofSource source = .ok (lexemes ++ [⟨.endOfInput, stop⟩]) ∧
      Grammar.Program true (lexemes.map Token.kind) (Stmt.eraseSpansAll program) := by
  obtain ⟨tokens, htokens, hprogram⟩ := Program.ofSource_eq_ok_iff.mp hprogram
  obtain ⟨lexemes, rfl, hstand, -⟩ := exists_lexemes_of_ofSource htokens
  have hlexemes (token : Token) (hmem : token ∈ lexemes) := (hstand token hmem).kind_ne_endOfInput
  exact ⟨lexemes, _, htokens, program_of_ofTokens hlexemes hprogram⟩

/-- A source text is read if the tokens before its end are a program of the grammar. -/
theorem exists_ofSource_of_program {source : String} {lexemes : List Token} {stop : Span}
    {trees : List Stmt} (htokens : Token.ofSource source = .ok (lexemes ++ [⟨.endOfInput, stop⟩]))
    (hprogram : Grammar.Program true (lexemes.map Token.kind) trees) :
    ∃ program, Program.ofSource source = .ok program ∧ Stmt.eraseSpansAll program = trees := by
  have hkinds : (lexemes ++ [(⟨.endOfInput, stop⟩ : Token)]).map Token.kind
      = lexemes.map Token.kind ++ [.endOfInput] := List.map_append
  obtain ⟨program, hread, htrees⟩ := exists_ofTokens_of_program hprogram hkinds (.inr rfl)
  exact ⟨program, Program.ofSource_eq_ok_iff.mpr ⟨_, htokens, hread⟩, htrees⟩

/-- Two source texts with a line feed between them are read as one after the other. -/
theorem exists_ofSource_append_newline {first second : String} {before after : Program}
    (hfirst : Program.ofSource first = .ok before) (hsecond : Program.ofSource second = .ok after) :
    ∃ joined, Program.ofSource (first ++ "\n" ++ second) = .ok joined ∧
      Stmt.eraseSpansAll joined = Stmt.eraseSpansAll (before ++ after) := by
  obtain ⟨lexemes, stop, htokens, hbefore⟩ := exists_program_of_ofSource hfirst
  obtain ⟨others, last, htokens', hafter⟩ := exists_program_of_ofSource hsecond
  have hjoined := ofSource_append_newline htokens htokens'
  rw [List.dropLast_concat] at hjoined
  have hkinds : (lexemes ++ (others ++ [(⟨.endOfInput, last⟩ : Token)]).map
      (Token.shift (first.utf8ByteSize + 1))).map Token.kind
      = (lexemes.map Token.kind ++ others.map Token.kind) ++ [.endOfInput] := by
    simp [Function.comp_def]
  obtain ⟨joined, hread, htrees⟩ :=
    exists_ofTokens_of_program (hbefore.append hafter) hkinds (.inr rfl)
  refine ⟨joined, Program.ofSource_eq_ok_iff.mpr ⟨_, hjoined, hread⟩, ?_⟩
  rw [htrees, Stmt.eraseSpansAll_eq_map, Stmt.eraseSpansAll_eq_map, Stmt.eraseSpansAll_eq_map,
    List.map_append]

end Lox
