import Lox.Proofs.Lexical.Slices

/-!
# Source texts without one of their tokens

A semicolon between two tokens is deleted from a source text. The gaps before and behind it come to
stand behind one another, which makes one gap of them, and the tokens on both sides are left alone:
those behind it only move by one byte (`exists_ofSource_without_semicolon`). The exception would be
a slash before a comment, which it would make a comment with two slashes and more.
-/

set_option autoImplicit false
set_option relaxedAutoImplicit false

namespace Lox

open Lexeme

namespace Decomposes

variable {offset : Nat} {text : List Char} {tokens : List Token}

/-- The same text with fewer bytes before it. -/
theorem exists_unshift {wholeGaps : Bool} {distance : Nat}
    (hdecomposes : Decomposes wholeGaps (offset + distance) text tokens) :
    ∃ moved, tokens = moved.map (Token.shift distance) ∧
      Decomposes wholeGaps offset text moved := by
  generalize hstart : offset + distance = start at hdecomposes
  induction hdecomposes generalizing offset with
  | @finish _ gap hgap =>
    subst hstart
    refine ⟨_, ?_, .finish hgap⟩
    simp only [List.map_cons, List.map_nil, Token.shift, Nat.add_right_comm _ _ distance]
  | @lexeme _ gap text rest kind tokens hgap hends hlongest _ ih =>
    subst hstart
    have hoffset : offset + byteLength gap + byteLength text + distance
        = offset + distance + byteLength gap + byteLength text := by omega
    obtain ⟨moved, rfl, hmoved⟩ := ih hoffset
    refine ⟨_, ?_, .lexeme hgap hends hlongest hmoved⟩
    simp only [List.map_cons, Token.shift, Nat.add_right_comm _ _ distance]

/-- A text that starts with a closing brace, or with a gap before one, separates lexemes. -/
theorem separates_of_rightBrace {brace : Token}
    (hdecomposes : Decomposes true offset text (brace :: tokens))
    (hbrace : brace.kind = .symbol .rightBrace) : ∀ next ∈ text.head?, Separates next := by
  generalize hall : brace :: tokens = all at hdecomposes
  cases hdecomposes with
  | finish =>
    obtain ⟨rfl, -⟩ := List.cons.inj hall
    cases hbrace
  | @lexeme _ gap _ rest _ _ hgap _ hlongest =>
    obtain ⟨rfl, -⟩ := List.cons.inj hall
    obtain rfl : _ = TokenKind.symbol .rightBrace := hbrace
    have hseparates := hgap.separates
    have hform := hlongest.form
    cases hform with
    | symbol =>
      cases gap with
      | nil =>
        rintro next ⟨⟩
        decide
      | cons first others => exact hseparates

end Decomposes

/-- A semicolon before a closing brace, deleted from a source text. -/
theorem exists_ofSource_without_semicolon {source : String} {before after : List Token}
    {semicolon brace : Token}
    (htokens : Token.ofSource source = .ok (before ++ semicolon :: brace :: after))
    (hsemicolon : semicolon.kind = .symbol .semicolon) (hbrace : brace.kind = .symbol .rightBrace)
    (hbefore : ∀ last ∈ before.getLast?, last.kind ≠ .symbol .slash) :
    ∃ (first rest : String) (moved : List Token), first ++ ";" ++ rest = source ∧
      semicolon.span = ⟨first.utf8ByteSize, first.utf8ByteSize + 1⟩ ∧
      brace :: after = moved.map (Token.shift 1) ∧
      Token.ofSource (first ++ rest) = .ok (before ++ moved) := by
  obtain ⟨start, behind, hsource, hstart, hbehind⟩ :=
    (ofSource_eq_ok_iff_decomposes.mp htokens).split (by simp)
  generalize hall : semicolon :: brace :: after = all at hbehind
  cases hbehind with
  | finish => simp at hall
  | @lexeme _ gap _ rest _ _ hgap hends hlongest hrest =>
    obtain ⟨rfl, rfl⟩ := List.cons.inj hall
    obtain rfl : _ = TokenKind.symbol .semicolon := hsemicolon
    have hform := hlongest.form
    cases hform with
    | symbol =>
      have hbyte : byteLength Symbol.semicolon.spelling = 1 := rfl
      obtain ⟨moved, hmoved, hafter⟩ := hrest.exists_unshift
      have hseparates := hrest.separates_of_rightBrace hbrace
      have hfollows : ∀ next ∈ (gap ++ rest).head?, Separates next ∧ (next = '/' →
          (gap ++ (Symbol.semicolon.spelling ++ rest)).head? = some '/' ∨
            ∀ last ∈ before.getLast?, last.kind ≠ .symbol .slash) := by
        intro next hnext
        refine ⟨?_, fun _ ↦ .inr hbefore⟩
        cases gap with
        | nil => exact hseparates next hnext
        | cons first others => exact hgap.separates next hnext
      have hgap' := hgap.before (hends rfl) (List.cons_ne_nil _ _) rest
      have hwhole := (hstart.exchange hfollows).append (.after_gap hgap' hafter)
      refine ⟨String.ofList (start ++ gap), String.ofList rest, moved, ?_, ?_, hmoved, ?_⟩
      · rw [← String.toList_inj, hsource]
        simp [Symbol.spelling]
      · rw [utf8ByteSize_ofList, byteLength_append, hbyte, Nat.zero_add]
      · rw [ofSource_eq_ok_iff_decomposes]
        simpa using hwhole

end Lox
