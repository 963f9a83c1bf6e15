import Lox.Parsing.Program
import Lox.Proofs.Syntax.StatementCompleteness

/-!
# The programs of the grammar

A list of tokens that ends with its only token for the end of the input is read as a program exactly
if the tokens before that one are a program of the grammar, and the program that is read is, apart
from places, the one tree of it in which every `else` belongs to the nearest conditional that can
take it (`ofTokens_eq_ok_iff_program`).

`program_of_ofTokens` and `exists_ofTokens_of_program` are the two directions for such trees.
-/

set_option autoImplicit false
set_option relaxedAutoImplicit false

namespace Lox

open Grammar

theorem sound_parse (bound : Nat) :
    Parse.Sound (Program.parse bound) fun depth read rest trees ↦
      ofList depth read rest trees ∧
        (rest.head? = none ∨ rest.head? = some .endOfInput) := by
  refine (Parse.Sound.statements (Parse.Sound.statement bound .inList) false bound).mono ?_
  rintro _ _ _ _ ⟨hlist, hend⟩
  exact ⟨hlist, hend rfl⟩

/-- The end of the input is the first token that is not read. -/
theorem eq_of_append_endOfInput {lexemes read rest : List TokenKind}
    (hlexemes : .endOfInput ∉ lexemes) (hread : .endOfInput ∉ read)
    (hkinds : lexemes ++ [.endOfInput] = read ++ rest)
    (hrest : rest.head? = none ∨ rest.head? = some .endOfInput) : read = lexemes := by
  cases rest with
  | nil =>
    rw [List.append_nil] at hkinds
    exact absurd (by simp [← hkinds]) hread
  | cons first others =>
    obtain rfl : first = .endOfInput := by simpa using hrest
    rcases List.append_eq_append_iff.mp hkinds with ⟨more, rfl, hmore⟩ | ⟨more, rfl, hmore⟩
    · cases more with
      | nil => simp
      | cons kind more =>
        obtain ⟨rfl, -⟩ := List.cons.inj hmore
        simp at hread
    · cases more with
      | nil => simp
      | cons kind more =>
        obtain ⟨rfl, -⟩ := List.cons.inj hmore
        simp at hlexemes

/-- What is read as a program is one of the grammar. -/
theorem program_of_ofTokens {lexemes : List Token} {stop : Span} {program : Program}
    (hlexemes : ∀ token ∈ lexemes, token.kind ≠ .endOfInput)
    (hprogram : Program.ofTokens (lexemes ++ [⟨.endOfInput, stop⟩]) = .ok program) :
    Grammar.Program true (lexemes.map Token.kind) (Stmt.eraseSpansAll program) := by
  rw [Program.ofTokens] at hprogram
  split at hprogram
  · rename_i trees last hrun
    split at hprogram
    · rename_i hreported
      cases hprogram
      obtain ⟨read, hpasses, ⟨items, hitems, rfl, htrees⟩, hend⟩ :=
        sound_parse _ hrun (List.isEmpty_iff.mp hreported)
      have hderives : Grammar.Program true (items.flatMap Piece.read)
          (Stmt.eraseSpansAll program) := ⟨items, hitems, rfl, htrees⟩
      have hkinds := hpasses.kinds_eq
      rw [Cursor.start, Cursor.kinds, List.map_append] at hkinds
      have hnone : TokenKind.endOfInput ∉ lexemes.map Token.kind := by
        simpa using hlexemes
      have hread := eq_of_append_endOfInput hnone hderives.endOfInput_notMem hkinds hend
      rwa [← hread]
    · cases hprogram
  · cases hprogram
  · cases hprogram

/-- A program of the grammar is read. -/
theorem exists_ofTokens_of_program {tokens : List Token} {read rest : List TokenKind}
    {trees : List Stmt} (hprogram : Grammar.Program true read trees)
    (hkinds : tokens.map Token.kind = read ++ rest)
    (hrest : rest.head? = none ∨ rest.head? = some .endOfInput) :
    ∃ program, Program.ofTokens tokens = .ok program ∧ Stmt.eraseSpansAll program = trees := by
  obtain ⟨items, hitems, rfl, rfl⟩ := hprogram
  have hlength : (items.flatMap Piece.read).length ≤ tokens.length := by
    rw [← List.length_map Token.kind, hkinds, List.length_append]
    omega
  have hbegins (item : Piece Stmt) (hmem : item ∈ items) := (hitems item hmem).begins
  have hcount := length_items_le hbegins
  have htakes : Parse.Takes 0 (Program.parse (Program.sufficientBound tokens.length))
      (items.flatMap Piece.read) rest
      fun program ↦ Stmt.eraseSpansAll program = items.map Piece.tree := by
    refine .statements (fun item hmem more hmore ↦ ?_) hbegins ?_ ?_
    · have hle := length_le_length_flatMap hmem
      exact (hitems item hmem).completes 0 _ more (by rw [Program.sufficientBound]; omega)
        (by simp) fun _ ↦ hmore
    · rcases hrest with hrest | hrest
      · exact .inl hrest
      · exact .inr (.inl hrest)
    · rw [Program.sufficientBound]
      omega
  obtain ⟨program, last, hrun, hpasses, htrees⟩ := htakes (.start tokens) hkinds rfl
  have hreported : last.reported = [] := hpasses.reported_eq
  refine ⟨program, ?_, htrees⟩
  rw [Program.ofTokens, hrun]
  simp [hreported]

/-- A list of tokens is read as a program exactly if the grammar has one for them, and what is read
is then the one tree with every `else` at the nearest conditional that can take it. -/
theorem ofTokens_eq_ok_iff_program (lexemes : List Token) (stop : Span)
    (hlexemes : ∀ token ∈ lexemes, token.kind ≠ .endOfInput) :
    ((∃ program, Program.ofTokens (lexemes ++ [⟨.endOfInput, stop⟩]) = .ok program) ↔
      ∃ trees, Grammar.Program false (lexemes.map Token.kind) trees) ∧
    ∀ program, Program.ofTokens (lexemes ++ [⟨.endOfInput, stop⟩]) = .ok program →
      ∀ trees, Grammar.Program true (lexemes.map Token.kind) trees ↔
        trees = Stmt.eraseSpansAll program := by
  have hread {trees : List Stmt}
      (htrees : Grammar.Program true (lexemes.map Token.kind) trees) :
      ∃ program, Program.ofTokens (lexemes ++ [⟨.endOfInput, stop⟩]) = .ok program ∧
        Stmt.eraseSpansAll program = trees :=
    exists_ofTokens_of_program htrees (List.map_append ..) (.inr rfl)
  refine ⟨⟨?_, ?_⟩, fun program hprogram trees ↦ ⟨fun htrees ↦ ?_, ?_⟩⟩
  · rintro ⟨program, hprogram⟩
    exact ⟨_, (program_of_ofTokens hlexemes hprogram).ofNearest⟩
  · rintro ⟨trees, htrees⟩
    obtain ⟨others, hothers⟩ := htrees.exists_nearest
    obtain ⟨program, hprogram, -⟩ := hread hothers
    exact ⟨program, hprogram⟩
  · obtain ⟨other, hother, rfl⟩ := hread htrees
    rw [hprogram] at hother
    cases hother
    rfl
  · rintro rfl
    exact program_of_ofTokens hlexemes hprogram

/-- An `else` behind two conditionals belongs to the second, and not to the first. -/
theorem else_belongs_to_second :
    let lexemes : List Token := [⟨.keyword .if, .origin⟩, ⟨.symbol .leftParenthesis, .origin⟩,
      ⟨.identifier "a", .origin⟩, ⟨.symbol .rightParenthesis, .origin⟩, ⟨.keyword .if, .origin⟩,
      ⟨.symbol .leftParenthesis, .origin⟩, ⟨.identifier "b", .origin⟩,
      ⟨.symbol .rightParenthesis, .origin⟩, ⟨.identifier "c", .origin⟩,
      ⟨.symbol .semicolon, .origin⟩, ⟨.keyword .else, .origin⟩, ⟨.identifier "d", .origin⟩,
      ⟨.symbol .semicolon, .origin⟩]
    let first : Expr := .name ⟨"a", .origin⟩
    let second : Expr := .name ⟨"b", .origin⟩
    let body : Stmt := .expression (.name ⟨"c", .origin⟩)
    let other : Stmt := .expression (.name ⟨"d", .origin⟩)
    Grammar.Program true (lexemes.map Token.kind)
        [.conditional first (.conditional second body (some other)) none] ∧
      ¬ Grammar.Program true (lexemes.map Token.kind)
        [.conditional first (.conditional second body none) (some other)] := by
  intro lexemes first second body other
  have hread : Program.ofTokens (lexemes ++ [⟨.endOfInput, .origin⟩]) = .ok
      [.conditional first (.conditional second body (some other)) none] := by rfl
  have htrees := (ofTokens_eq_ok_iff_program lexemes .origin (by decide)).2 _ hread
  refine ⟨(htrees _).mpr rfl, fun hprogram ↦ ?_⟩
  have htree := (htrees _).mp hprogram
  cases htree

end Lox
