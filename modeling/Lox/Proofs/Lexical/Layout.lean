import Lox.Proofs.Lexical.Slices
import Mathlib.Data.List.Forall2

/-!
# Source texts with other gaps

The texts of the tokens of a source text can be put behind one another again with other gaps
between them. `Laid texts source` says that a source is made in this way. A gap before a text has
each of its comments ended by a line feed (`Gap.Closed`), so that it is a gap whatever follows it,
and behind a text comes either nothing or a gap that starts with a blank (`Spaced`). Only the gap
at the end may stop inside a comment.

Such a source is scanned as the same kinds of tokens (`Laid.exists_decomposes`). What a text stands
for does not depend on what it was found in: it is a lexeme as a whole, and a blank behind it
belongs to no longer one.
-/

set_option autoImplicit false
set_option relaxedAutoImplicit false

namespace Lox

open Lexeme

/-- A gap whatever stands behind it: each comment in it is ended by a line feed. -/
def Gap.Closed (gap : List Char) : Prop := ∀ rest, Gap rest gap

/-- It is enough that the gap is whole before a semicolon. -/
theorem Gap.closed_iff {gap : List Char} :
    Closed gap ↔ splitGap false (gap ++ [';']) = (gap, [';']) := by
  have hends : EndsGap [';'] := by
    rintro first tail ⟨⟩
    decide
  constructor
  · intro hclosed
    exact splitGap_eq_iff.mpr ⟨hclosed _, hends⟩
  · intro hsplit other
    exact (splitGap_eq_iff.mp hsplit).1.before hends (List.cons_ne_nil _ _) other

instance : DecidablePred Gap.Closed := fun _ ↦ decidable_of_iff _ Gap.closed_iff.symm

/-- What stands behind a text: other texts, each of them behind a closed gap that starts with a
blank, and at the end nothing or a gap that starts with one. -/
inductive Spaced : List (List Char) → List Char → Prop
  | finish {gap : List Char} : Gap [] gap → (∀ first ∈ gap.head?, isBlank first) → Spaced [] gap
  | text {blank : Char} {gap text rest : List Char} {texts : List (List Char)} :
    isBlank blank → Gap.Closed gap → Spaced texts rest →
    Spaced (text :: texts) (blank :: gap ++ (text ++ rest))

/-- A source made of texts with gaps: before the first one, between them and behind the last one. If
there are no texts, it is a gap. -/
inductive Laid : List (List Char) → List Char → Prop
  | nil {gap : List Char} : Gap [] gap → Laid [] gap
  | cons {gap text rest : List Char} {texts : List (List Char)} :
    Gap.Closed gap → Spaced texts rest → Laid (text :: texts) (gap ++ (text ++ rest))

/-- What a token stands on in a source text. -/
def Token.HasText (source : String) (token : Token) (text : String) : Prop :=
  ∃ before after : String, before ++ text ++ after = source ∧
    token.span = ⟨before.utf8ByteSize, before.utf8ByteSize + text.utf8ByteSize⟩

/-- A text is cut behind a number of bytes in one way at most. -/
theorem append_inj_of_byteLength_eq {before before' after after' : List Char}
    (happend : before ++ after = before' ++ after')
    (hbytes : byteLength before = byteLength before') : before = before' ∧ after = after' := by
  rcases List.append_eq_append_iff.mp happend with ⟨more, rfl, rfl⟩ | ⟨more, rfl, rfl⟩
  all_goals
    have hmore : more = [] := by
      by_contra hne
      have hpos := byteLength_pos hne
      rw [byteLength_append] at hbytes
      omega
    simp [hmore]

/-- The text of a token that stands on a lexeme is that lexeme. -/
theorem Token.HasText.form {source text : String} {token : Token}
    (htext : token.HasText source text) (hstands : token.StandsIn source) :
    Form text.toList token.kind := by
  obtain ⟨before, after, hsource, hspan⟩ := htext
  obtain ⟨before', text', after', hsource', hspan', hform⟩ := hstands
  obtain ⟨hstart, hstop⟩ := Span.mk.inj (hspan.symm.trans hspan')
  rw [← hsource', ← String.toList_inj] at hsource
  simp only [String.toList_append, List.append_assoc] at hsource
  obtain ⟨-, hrest⟩ := append_inj_of_byteLength_eq hsource
    (by rw [byteLength_toList, byteLength_toList, hstart])
  obtain ⟨htexts, -⟩ := append_inj_of_byteLength_eq hrest
    (by rw [byteLength_toList, byteLength_toList]; omega)
  rwa [htexts]

theorem Spaced.isBlank_of_head? {texts : List (List Char)} {rest : List Char}
    (hspaced : Spaced texts rest) : ∀ first ∈ rest.head?, isBlank first := by
  cases hspaced with
  | finish _ hblank => exact hblank
  | text hblank =>
    rintro _ ⟨⟩
    exact hblank

/-- A lexeme before a blank is the longest one there. -/
theorem Lexeme.Form.isLongest_of_blank {text rest : List Char} {kind : TokenKind}
    (hform : Form text kind) (hblank : ∀ first ∈ rest.head?, isBlank first) :
    IsLongest text kind (text ++ rest) := by
  have halone : IsLongest text kind (text ++ []) :=
    ⟨hform, List.prefix_append _ _, fun other _ _ hother ↦ by
      rw [List.append_nil] at hother
      exact hother.length_le⟩
  have hseparates (next : Char) (hnext : next ∈ rest.head?) : Separates next := by
    have hgap : Gap [] [next] := .blank (hblank next hnext) .nil
    exact hgap.separates next rfl
  exact halone.append hseparates

/-- A lexeme behind a gap, and behind it what starts with a blank. -/
theorem Decomposes.lexeme_of_blank {offset : Nat} {gap text rest : List Char} {kind : TokenKind}
    {tokens : List Token} (hgap : Gap.Closed gap) (hform : Form text kind)
    (hblank : ∀ first ∈ rest.head?, isBlank first)
    (hrest : Decomposes true (offset + byteLength gap + byteLength text) rest tokens) :
    Decomposes true offset (gap ++ (text ++ rest))
      (⟨kind, offset + byteLength gap, offset + byteLength gap + byteLength text⟩ :: tokens) := by
  have hslash : rest.head? ≠ some '/' := fun hhead ↦ by cases hblank '/' hhead
  exact .lexeme (hgap _) (fun _ ↦ hform.endsGap.append hform.ne_nil hslash)
    (hform.isLongest_of_blank hblank) hrest

theorem Spaced.exists_decomposes {texts : List (List Char)} {rest : List Char}
    (hspaced : Spaced texts rest) : ∀ {kinds : List TokenKind} (offset : Nat),
      List.Forall₂ (fun kind text ↦ Form text kind) kinds texts →
        ∃ tokens, Decomposes true offset rest tokens ∧
          tokens.map Token.kind = kinds ++ [.endOfInput] := by
  induction hspaced with
  | finish hgap =>
    rintro _ offset ⟨⟩
    exact ⟨_, .finish hgap, rfl⟩
  | text hblank hgap hrest ih =>
    rintro _ offset (_ | ⟨hform, hforms⟩)
    have hclosed : Gap.Closed (_ :: _) := fun rest ↦ .blank hblank (hgap rest)
    obtain ⟨tokens, htokens, hkinds⟩ := ih _ hforms
    refine ⟨_, .lexeme_of_blank hclosed hform hrest.isBlank_of_head? htokens, ?_⟩
    rw [List.map_cons, hkinds, List.cons_append]

/-- Lexemes with gaps are scanned as the tokens that they stand for. -/
theorem Laid.exists_decomposes {texts : List (List Char)} {source : List Char}
    {kinds : List TokenKind} (hlaid : Laid texts source) (offset : Nat)
    (hforms : List.Forall₂ (fun kind text ↦ Form text kind) kinds texts) :
    ∃ tokens, Decomposes true offset source tokens ∧
      tokens.map Token.kind = kinds ++ [.endOfInput] := by
  cases hlaid with
  | nil hgap =>
    cases hforms
    exact ⟨_, .finish hgap, rfl⟩
  | cons hgap hspaced =>
    obtain _ | ⟨hform, hforms⟩ := hforms
    obtain ⟨tokens, htokens, hkinds⟩ := hspaced.exists_decomposes _ hforms
    refine ⟨_, .lexeme_of_blank hgap hform hspaced.isBlank_of_head? htokens, ?_⟩
    rw [List.map_cons, hkinds, List.cons_append]

/-- A source text that can be read, with other gaps, has the same kinds of tokens. -/
theorem exists_ofSource_of_laid {source other : String} {lexemes : List Token} {stop : Span}
    {texts : List String} (htokens : Token.ofSource source = .ok (lexemes ++ [⟨.endOfInput, stop⟩]))
    (htexts : List.Forall₂ (Token.HasText source) lexemes texts)
    (hlaid : Laid (texts.map String.toList) other.toList) :
    ∃ tokens, Token.ofSource other = .ok tokens ∧
      tokens.map Token.kind = lexemes.map Token.kind ++ [.endOfInput] := by
  obtain ⟨standing, hall, hstand, -⟩ := exists_lexemes_of_ofSource htokens
  obtain ⟨rfl, -⟩ := List.append_inj' hall rfl
  have hforms : List.Forall₂ (fun kind text ↦ Form text kind) (lexemes.map Token.kind)
      (texts.map String.toList) := by
    rw [List.forall₂_map_left_iff, List.forall₂_map_right_iff]
    have hboth := (List.forall₂_and_left _ _).mpr ⟨hstand, htexts⟩
    exact hboth.imp fun token text htoken ↦ htoken.2.form htoken.1
  obtain ⟨tokens, hdecomposes, hkinds⟩ := hlaid.exists_decomposes 0 hforms
  exact ⟨tokens, ofSource_eq_ok_iff_decomposes.mpr hdecomposes, hkinds⟩

end Lox
