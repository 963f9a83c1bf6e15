import Lox.Proofs.Lexical.Slices
import Mathlib.Data.List.Basic

/-!
# A semicolon behind a source text

A semicolon that is put behind a source text becomes a token of its own, unless the text ends inside
a comment: then it is a part of the comment and the tokens stay as they are
(`ofSource_append_semicolon`). A text that cannot be read cannot be read with the semicolon either
(`exists_ofSource_of_append_semicolon`).

Where a text ends is found character by character, without taking it apart into lexemes:
`Region.after` goes through a text outside of strings and comments, in a string or in a comment.
-/

set_option autoImplicit false
set_option relaxedAutoImplicit false

namespace Lox

open Lexeme

/-- Where in a source text a character stands: outside of strings and comments, in a string, or in a
comment. -/
inductive Region where
  | code
  | string
  | comment
deriving DecidableEq

/-- Where a text ends that starts in a given region. A quote opens and closes a string, two slashes
open a comment, and a line feed closes it. -/
def Region.after : Region → List Char → Region
  | region, [] => region
  | code, first :: tail =>
    if first = '"' then string.after tail
    else if first = '/' ∧ tail.head? = some '/' then comment.after tail
    else code.after tail
  | string, first :: tail => if first = '"' then code.after tail else string.after tail
  | comment, first :: tail => if first = '\n' then code.after tail else comment.after tail

/-- Whether a source text ends inside a comment. -/
def endsInComment (source : String) : Bool := Region.code.after source.toList = .comment

namespace Region

/-- A character that leaves a text outside of strings and comments. -/
def IsPlain (character : Char) : Prop := character ≠ '"' ∧ character ≠ '/'

instance : DecidablePred IsPlain := fun _ ↦ inferInstanceAs (Decidable (_ ∧ _))

theorem after_plain {text : List Char} (htext : ∀ character ∈ text, IsPlain character)
    (rest : List Char) : code.after (text ++ rest) = code.after rest := by
  induction text with
  | nil => rfl
  | cons first text ih =>
    obtain ⟨⟨hquote, hslash⟩, htext⟩ := List.forall_mem_cons.mp htext
    rw [List.cons_append, after, if_neg hquote, if_neg fun hboth ↦ hslash hboth.1, ih htext]

theorem after_body {body : List Char} (hbody : '"' ∉ body) (rest : List Char) :
    string.after (body ++ '"' :: rest) = code.after rest := by
  induction body with
  | nil => rw [List.nil_append, after, if_pos rfl]
  | cons first body ih =>
    rw [List.mem_cons, not_or] at hbody
    rw [List.cons_append, after, if_neg (Ne.symm hbody.1), ih hbody.2]

theorem after_comment {body : List Char} (hbody : '\n' ∉ body) (rest : List Char) :
    comment.after (body ++ rest) = comment.after rest := by
  induction body with
  | nil => rfl
  | cons first body ih =>
    rw [List.mem_cons, not_or] at hbody
    rw [List.cons_append, after, if_neg (Ne.symm hbody.1), ih hbody.2]

theorem isPlain_of_isDigit {character : Char} (hdigit : character.isDigit) :
    IsPlain character := by
  constructor <;> rintro rfl <;> exact absurd hdigit (by decide)

theorem isPlain_of_isWordPart {character : Char} (hpart : isWordPart character) :
    IsPlain character := by
  constructor <;> rintro rfl <;> exact absurd hpart (by decide)

theorem isPlain_of_isBlank {character : Char} (hblank : isBlank character) :
    IsPlain character := by
  constructor <;> rintro rfl <;> exact absurd hblank (by decide)

theorem isPlain_of_isWord {first : Char} {tail : List Char} (hfirst : isWordStart first)
    (htail : ∀ character ∈ tail, isWordPart character) :
    ∀ character ∈ first :: tail, IsPlain character := by
  refine List.forall_mem_cons.mpr ⟨?_, fun character hmem ↦ isPlain_of_isWordPart (htail _ hmem)⟩
  constructor <;> rintro rfl <;> exact absurd hfirst (by decide)

/-- A lexeme that starts where a gap has ended leads outside of strings and comments. -/
theorem after_lexeme {text rest : List Char} {kind : TokenKind} (hform : Form text kind)
    (hends : EndsGap (text ++ rest)) : code.after (text ++ rest) = code.after rest := by
  have hdigits {digits : List Char} (hall : ∀ digit ∈ digits, digit.isDigit) :
      ∀ digit ∈ digits, IsPlain digit := fun digit hmem ↦ isPlain_of_isDigit (hall digit hmem)
  cases hform with
  | whole _ hall => exact after_plain (hdigits hall) rest
  | fractional _ hall _ hfraction =>
    have hpoint : IsPlain '.' := by constructor <;> decide
    refine after_plain (List.forall_mem_append.mpr ⟨hdigits hall, ?_⟩) rest
    exact List.forall_mem_cons.mpr ⟨hpoint, hdigits hfraction⟩
  | string hbody =>
    rw [List.cons_append, List.cons_append, after, if_pos rfl, List.append_assoc]
    exact after_body hbody rest
  | keyword word =>
    obtain ⟨first, tail, htext, hfirst, htail⟩ := isWord_of_keyword word
    rw [htext]
    exact after_plain (isPlain_of_isWord hfirst htail) rest
  | identifier hfirst htail => exact after_plain (isPlain_of_isWord hfirst htail) rest
  | symbol mark =>
    by_cases hslash : mark = .slash
    · subst hslash
      have hcomment := (hends '/' rest rfl).2
      change code.after ('/' :: rest) = _
      rw [after, if_neg (by decide), if_neg hcomment]
    · have hplain : ∀ character ∈ mark.spelling, IsPlain character := by
        cases mark <;> first | exact absurd rfl hslash | simp [Symbol.spelling, IsPlain]
      exact after_plain hplain rest

theorem after_blank {character : Char} (hblank : isBlank character) (rest : List Char) :
    code.after (character :: rest) = code.after rest := by
  have hplain : ∀ other ∈ [character], IsPlain other := by
    simpa using isPlain_of_isBlank hblank
  exact after_plain hplain rest

theorem after_slashes {body : List Char} (hbody : '\n' ∉ body) (rest : List Char) :
    code.after ('/' :: '/' :: body ++ rest) = comment.after rest := by
  rw [List.cons_append, List.cons_append, after, if_neg (by decide), if_pos ⟨rfl, rfl⟩]
  exact after_comment (List.not_mem_cons_of_ne_of_not_mem (by decide) hbody) rest

/-- A line feed closes a comment, and it is a blank outside of comments. -/
theorem after_newline {text : List Char} (hnext : ∀ next ∈ text.head?, next = '\n')
    (hne : text ≠ []) : comment.after text = code.after text := by
  obtain ⟨first, tail, rfl⟩ := List.exists_cons_of_ne_nil hne
  obtain rfl := hnext first rfl
  rw [after_blank (by decide), after, if_pos rfl]

/-- So does a gap, unless it is the end of the text. -/
theorem after_gap {gap rest : List Char} (hgap : Gap rest gap) (hne : rest ≠ []) :
    code.after (gap ++ rest) = code.after rest := by
  induction hgap with
  | nil => rfl
  | blank hblank _ ih => rw [List.cons_append, after_blank hblank, ih]
  | comment hbody hnext _ ih =>
    rw [List.append_assoc, after_slashes hbody, after_newline hnext (by simp [hne]), ih]

end Region

/-! ### The end of a text -/

/-- Anything may follow a gap at the end of a text if it does not end in a comment. -/
theorem Gap.before_of_after_ne {gap : List Char} (hgap : Gap [] gap)
    (hafter : Region.code.after gap ≠ .comment) (later : List Char) : Gap later gap := by
  induction hgap with
  | nil => exact .nil
  | blank hblank _ ih =>
    rw [Region.after_blank hblank] at hafter
    exact .blank hblank (ih hafter)
  | @comment body gap hbody hnext _ ih =>
    rw [Region.after_slashes hbody] at hafter
    rw [List.append_nil] at hnext
    have hne : gap ≠ [] := by
      rintro rfl
      exact hafter rfl
    rw [Region.after_newline hnext hne] at hafter
    refine .comment hbody ?_ (ih hafter)
    obtain ⟨first, others, rfl⟩ := List.exists_cons_of_ne_nil hne
    exact hnext

/-- A comment at the end of a text goes on with what follows it in the line. -/
theorem Gap.append_of_after_eq {gap : List Char} (hgap : Gap [] gap)
    (hafter : Region.code.after gap = .comment) {later : List Char} (hlater : '\n' ∉ later) :
    Gap [] (gap ++ later) := by
  induction hgap with
  | nil => cases hafter
  | blank hblank _ ih =>
    rw [Region.after_blank hblank] at hafter
    exact .blank hblank (ih hafter)
  | @comment body gap hbody hnext _ ih =>
    rw [Region.after_slashes hbody] at hafter
    rw [List.append_nil] at hnext
    rw [List.append_assoc]
    cases gap with
    | nil =>
      have hcomment : Gap [] ('/' :: '/' :: (body ++ later) ++ []) :=
        .comment (by simp [hbody, hlater]) (by simp) .nil
      rwa [List.append_nil] at hcomment
    | cons first others =>
      rw [Region.after_newline hnext (by simp)] at hafter
      exact .comment hbody (by simpa using hnext) (ih hafter)

/-- A gap at the end of a text is one without its last character. -/
theorem Gap.of_append_semicolon {gap : List Char} (hgap : Gap [] (gap ++ [';'])) : Gap [] gap := by
  generalize hwhole : gap ++ [';'] = whole at hgap
  induction hgap generalizing gap with
  | nil => simp at hwhole
  | blank hblank _ ih =>
    cases gap with
    | nil => exact .nil
    | cons first gap =>
      rw [List.cons_append, List.cons.injEq] at hwhole
      obtain ⟨rfl, hrest⟩ := hwhole
      exact .blank hblank (ih hrest)
  | @comment body more hbody hnext hmore ih =>
    rcases more.eq_nil_or_concat' with rfl | ⟨inner, last, rfl⟩
    · rcases body.eq_nil_or_concat' with rfl | ⟨inner, last, rfl⟩
      · have hlast := congrArg List.getLast? hwhole
        simp at hlast
      · rw [List.append_nil, ← List.cons_append, ← List.cons_append] at hwhole
        obtain ⟨rfl, -⟩ := List.append_inj' hwhole rfl
        have hcomment : Gap [] ('/' :: '/' :: inner ++ []) :=
          .comment (fun hmem ↦ hbody (List.mem_append_left _ hmem)) (by simp) .nil
        rwa [List.append_nil] at hcomment
    · rw [← List.append_assoc] at hwhole
      obtain ⟨rfl, hlast⟩ := List.append_inj' hwhole rfl
      refine .comment hbody (fun next hhead ↦ hnext next ?_) (ih (by rw [hlast]))
      rw [List.append_nil] at hhead ⊢
      exact List.mem_head?_append_of_mem_head? hhead

/-! ### A semicolon behind the end -/

/-- The tokens of a text with a semicolon behind it: the semicolon is one of them unless the text
ends in a comment. -/
theorem Decomposes.append_semicolon {offset : Nat} {text : List Char} {tokens : List Token}
    (hdecomposes : Decomposes true offset text tokens) :
    ∃ mark stop, Decomposes true offset (text ++ [';'])
        (tokens.dropLast ++ (mark ++ [⟨.endOfInput, stop⟩])) ∧
      mark.map Token.kind =
        if Region.code.after text = .comment then [] else [.symbol .semicolon] := by
  induction hdecomposes with
  | @finish offset gap hgap =>
    by_cases hafter : Region.code.after gap = .comment
    · rw [if_pos hafter]
      exact ⟨[], _, .finish (hgap.append_of_after_eq hafter (by decide)), rfl⟩
    · rw [if_neg hafter]
      have hmark : Decomposes true (offset + byteLength gap) [';'] _ :=
        .after_symbol rfl (by decide) (.finish .nil)
      exact ⟨[_], _, .after_gap (hgap.before_of_after_ne hafter [';']) hmark, rfl⟩
  | @lexeme offset gap text rest kind tokens hgap hends hlongest hrest ih =>
    have hne : text ++ rest ≠ [] := by simp [hlongest.form.ne_nil]
    rw [Region.after_gap hgap hne, Region.after_lexeme hlongest.form (hends rfl)]
    obtain ⟨mark, stop, hmore, hkinds⟩ := ih
    rw [List.dropLast_cons_of_ne_nil hrest.tokens_ne_nil]
    exact ⟨mark, stop, .lexeme_append hgap (hends rfl) hlongest (by simp; decide) hmore, hkinds⟩

/-- No lexeme but the semicolon itself ends with a semicolon. -/
theorem Lexeme.Form.eq_nil_of_semicolon {text : List Char} {kind : TokenKind}
    (hform : Form (text ++ [';']) kind) : text = [] := by
  rcases hform.string_or (show Separates ';' by decide) with ⟨body, hbody, htext⟩ | ⟨htail, -⟩
  · obtain ⟨-, hlast⟩ := List.append_inj' htext rfl
    simp at hlast
  · cases text with
    | nil => rfl
    | cons first text => simp at htail

theorem Gap.at_end {rest gap : List Char} (hgap : Gap rest gap) : Gap [] gap := by
  induction hgap with
  | nil => exact .nil
  | blank hblank _ ih => exact .blank hblank ih
  | @comment body more hbody hnext _ ih =>
    refine .comment hbody (fun next hhead ↦ hnext next ?_) ih
    rw [List.append_nil] at hhead
    exact List.mem_head?_append_of_mem_head? hhead

/-- A text that can be read with a semicolon behind it can be read without. A last lexeme that ends
with the semicolon is the semicolon. -/
theorem Decomposes.of_append_semicolon {offset : Nat} {text : List Char} {tokens : List Token}
    (hdecomposes : Decomposes true offset (text ++ [';']) tokens) :
    ∃ others, Decomposes true offset text others := by
  generalize hwhole : text ++ [';'] = whole at hdecomposes
  induction hdecomposes generalizing text with
  | finish hgap =>
    subst hwhole
    exact ⟨_, .finish hgap.of_append_semicolon⟩
  | @lexeme offset gap lexeme rest kind tokens hgap hends hlongest hrest ih =>
    rcases rest.eq_nil_or_concat' with rfl | ⟨more, last, rfl⟩
    · obtain ⟨inner, last, rfl⟩ :=
        (lexeme.eq_nil_or_concat').resolve_left hlongest.form.ne_nil
      rw [List.append_nil, ← List.append_assoc] at hwhole
      obtain ⟨rfl, hlast⟩ := List.append_inj' hwhole rfl
      obtain rfl : ';' = last := by simpa using hlast
      obtain rfl := hlongest.form.eq_nil_of_semicolon
      rw [List.append_nil]
      exact ⟨_, .finish hgap.at_end⟩
    · rw [← List.append_assoc, ← List.append_assoc] at hwhole
      obtain ⟨rfl, hlast⟩ := List.append_inj' hwhole rfl
      obtain ⟨others, hothers⟩ := ih (by rw [hlast])
      have hne : lexeme ++ more ≠ [] := by simp [hlongest.form.ne_nil]
      rw [← List.append_assoc] at hgap hends
      have hbefore : Gap (lexeme ++ more) gap := by
        obtain ⟨first, tail, hstart⟩ := List.exists_cons_of_ne_nil hne
        rw [hstart] at hgap ⊢
        have hhead : (first :: tail).head? = (first :: tail ++ [last]).head? := rfl
        exact Gap.of_head?_eq hhead hgap
      have hwhole : EndsGap (lexeme ++ more ++ []) := (hends rfl).exchange hne (by simp)
      rw [List.append_nil] at hwhole
      rw [List.append_assoc]
      exact ⟨_, .lexeme hbefore (fun _ ↦ hwhole) hlongest.initial hothers⟩

/-- The tokens of a source text with a semicolon behind it. -/
theorem ofSource_append_semicolon {source : String} {lexemes : List Token} {stop : Span}
    (htokens : Token.ofSource source = .ok (lexemes ++ [⟨.endOfInput, stop⟩])) :
    ∃ others last, Token.ofSource (source ++ ";") = .ok (others ++ [⟨.endOfInput, last⟩]) ∧
      others.map Token.kind = lexemes.map Token.kind ++
        if endsInComment source then [] else [.symbol .semicolon] := by
  obtain ⟨mark, last, hdecomposes, hkinds⟩ :=
    (ofSource_eq_ok_iff_decomposes.mp htokens).append_semicolon
  rw [List.dropLast_concat, ← List.append_assoc] at hdecomposes
  refine ⟨lexemes ++ mark, last,
    ofSource_eq_ok_iff_decomposes.mpr (by simpa using hdecomposes), ?_⟩
  rw [List.map_append, hkinds]
  simp only [endsInComment, decide_eq_true_eq]

/-- A source text that cannot be read cannot be read with a semicolon behind it. -/
theorem exists_ofSource_of_append_semicolon {source : String} {tokens : List Token}
    (htokens : Token.ofSource (source ++ ";") = .ok tokens) :
    ∃ others, Token.ofSource source = .ok others := by
  have hdecomposes : Decomposes true 0 (source.toList ++ [';']) tokens := by
    simpa using ofSource_eq_ok_iff_decomposes.mp htokens
  obtain ⟨others, hothers⟩ := hdecomposes.of_append_semicolon
  exact ⟨others, ofSource_eq_ok_iff_decomposes.mpr hothers⟩

end Lox
