import Lox.Proofs.Lexical.Decomposition

/-!
# Where the tokens of a source text stand

The tokens of a text that can be read stand behind one another, each on the bytes of a piece of the
text that is a lexeme as a whole, and the last one stands empty at the end
(`Decomposes.placement`). Scanned alone, such a piece is again the one token that it is
(`ofSource_of_form`).

`tokens_of_decomposition` puts this together with the decomposition of the text into gaps and
lexemes.
-/

set_option autoImplicit false
set_option relaxedAutoImplicit false

namespace Lox

open Lexeme

/-- A text takes as many bytes as its characters do. -/
theorem utf8ByteSize_ofList (text : List Char) :
    (String.ofList text).utf8ByteSize = byteLength text := by
  induction text with
  | nil => rfl
  | cons first tail ih =>
    rw [← List.singleton_append, String.ofList_append, String.utf8ByteSize_append, ih,
      byteLength_append, ← String.singleton_eq_ofList, String.utf8ByteSize_singleton]
    simp

theorem byteLength_toList (text : String) : byteLength text.toList = text.utf8ByteSize := by
  rw [← utf8ByteSize_ofList, String.ofList_toList]

/-- Every character takes a byte at least. -/
theorem byteLength_pos {text : List Char} (hne : text ≠ []) : 0 < byteLength text := by
  cases text with
  | nil => exact absurd rfl hne
  | cons first tail =>
    have := first.utf8Size_pos
    simp only [byteLength_cons]
    omega

/-- A token that stands on the bytes of a piece of the source that is a lexeme as a whole. -/
def Token.StandsIn (source : String) (token : Token) : Prop :=
  ∃ before text after : String, before ++ text ++ after = source ∧
    token.span = ⟨before.utf8ByteSize, before.utf8ByteSize + text.utf8ByteSize⟩ ∧
    Form text.toList token.kind

/-- A symbol starts with neither a digit, nor a quote, nor a character of a word. -/
theorem Lexeme.Form.first_cases {first : Char} {tail : List Char} {kind : TokenKind}
    (hform : Form (first :: tail) kind) :
    first.isDigit ∨ isWordStart first ∨ first = '"' ∨
      ∃ mark : Symbol, first :: tail = mark.spelling := by
  generalize htext : first :: tail = text at hform
  cases hform with
  | whole _ hdigits => exact .inl (hdigits first (by rw [← htext]; exact List.mem_cons_self))
  | @fractional digits _ hne hdigits =>
    cases digits with
    | nil => exact absurd rfl hne
    | cons digit others =>
      obtain ⟨rfl, -⟩ := List.cons.inj htext
      exact .inl (hdigits first List.mem_cons_self)
  | string =>
    obtain ⟨rfl, -⟩ := List.cons.inj htext
    exact .inr (.inr (.inl rfl))
  | keyword word =>
    obtain ⟨start, _, hword, hstart, -⟩ := isWord_of_keyword word
    obtain ⟨rfl, -⟩ := List.cons.inj (htext.trans hword)
    exact .inr (.inl hstart)
  | identifier hstart =>
    obtain ⟨rfl, -⟩ := List.cons.inj htext
    exact .inr (.inl hstart)
  | symbol mark => exact .inr (.inr (.inr ⟨mark, rfl⟩))

/-- No lexeme starts with a blank, and the only one that starts with a slash is the slash alone. -/
theorem Lexeme.Form.endsGap {text : List Char} {kind : TokenKind} (hform : Form text kind) :
    EndsGap text := by
  rintro first tail rfl
  constructor
  · by_contra hblank
    simp only [isBlank, Bool.not_eq_false, Bool.or_eq_true, decide_eq_true_eq] at hblank
    rcases hform.first_cases with hdigit | hword | rfl | ⟨mark, hmark⟩
    · rcases hblank with ((rfl | rfl) | rfl) | rfl <;> cases hdigit
    · rcases hblank with ((rfl | rfl) | rfl) | rfl <;> cases hword
    · simp at hblank
    · rcases hblank with ((rfl | rfl) | rfl) | rfl <;> cases mark <;> cases hmark
  · rintro ⟨rfl, hslash⟩
    rcases hform.first_cases with hdigit | hword | hquote | ⟨mark, hmark⟩
    · cases hdigit
    · cases hword
    · cases hquote
    · cases mark <;> cases hmark
      cases hslash

/-- A lexeme without a gap before it. -/
theorem Decomposes.next {wholeGaps : Bool} {offset : Nat} {text rest : List Char}
    {kind : TokenKind} {tokens : List Token} (hends : wholeGaps → EndsGap (text ++ rest))
    (hlongest : IsLongest text kind (text ++ rest))
    (hrest : Decomposes wholeGaps (offset + byteLength text) rest tokens) :
    Decomposes wholeGaps offset (text ++ rest)
      (⟨kind, offset, offset + byteLength text⟩ :: tokens) :=
  .lexeme .nil hends hlongest hrest

/-- The source text that consists of a lexeme alone has it as its one token. -/
theorem ofSource_of_form {text : String} {kind : TokenKind} (hform : Form text.toList kind) :
    Token.ofSource text = .ok [⟨kind, 0, text.utf8ByteSize⟩,
      ⟨.endOfInput, text.utf8ByteSize, text.utf8ByteSize⟩] := by
  rw [ofSource_eq_ok_iff_decomposes, ← byteLength_toList]
  have hlongest : IsLongest text.toList kind (text.toList ++ []) := by
    rw [List.append_nil]
    exact ⟨hform, List.prefix_refl _, fun _ _ _ hother ↦ hother.length_le⟩
  have hends : EndsGap (text.toList ++ []) := by
    rw [List.append_nil]
    exact hform.endsGap
  have hrest : Decomposes true (0 + byteLength text.toList) [] _ := .finish .nil
  simpa using Decomposes.next (fun _ ↦ hends) hlongest hrest

/-! ### The places of the tokens -/

/-- The tokens of a text that starts behind `passed` in a source: each stands on a lexeme, behind
what has been passed and behind the token before it, and the last one is at the end. -/
theorem Decomposes.placement {wholeGaps : Bool} {offset : Nat} {rest : List Char}
    {tokens : List Token} (hdecomposes : Decomposes wholeGaps offset rest tokens) :
    ∀ passed : List Char, byteLength passed = offset →
      ∃ lexemes, tokens = lexemes ++ [⟨.endOfInput, offset + byteLength rest,
          offset + byteLength rest⟩] ∧
        (∀ token ∈ lexemes, token.StandsIn (String.ofList (passed ++ rest)) ∧
          offset ≤ token.span.start) ∧
        lexemes.Pairwise fun first second ↦ first.span.stop ≤ second.span.start := by
  induction hdecomposes with
  | finish hgap => exact fun _ _ ↦ ⟨[], rfl, by simp, .nil⟩
  | @lexeme offset gap text rest kind tokens hgap hends hlongest _ ih =>
    rintro passed rfl
    obtain ⟨lexemes, rfl, hlexemes, hordered⟩ :=
      ih (passed ++ gap ++ text) (by simp [Nat.add_assoc])
    refine ⟨⟨kind, byteLength passed + byteLength gap,
      byteLength passed + byteLength gap + byteLength text⟩ :: lexemes, ?_, ?_,
      List.pairwise_cons.mpr ⟨?_, hordered⟩⟩
    · simp [Nat.add_assoc]
    · rintro token hmem
      rcases List.mem_cons.mp hmem with rfl | hmem
      · refine ⟨⟨String.ofList (passed ++ gap), String.ofList text, String.ofList rest, ?_, ?_, ?_⟩,
          Nat.le_add_right _ _⟩
        · rw [← String.ofList_append, ← String.ofList_append]
          simp
        · simp [utf8ByteSize_ofList]
        · rw [String.toList_ofList]
          exact hlongest.form
      · obtain ⟨hstands, hle⟩ := hlexemes token hmem
        refine ⟨?_, by omega⟩
        simpa only [List.append_assoc] using hstands
    · intro token hmem
      exact (hlexemes token hmem).2

/-- A token that stands in a text has a place that is not empty. -/
theorem Token.StandsIn.start_lt_stop {source : String} {token : Token}
    (hstands : token.StandsIn source) : token.span.start < token.span.stop := by
  obtain ⟨before, text, after, -, hspan, hform⟩ := hstands
  have hpos := byteLength_pos hform.ne_nil
  rw [byteLength_toList] at hpos
  rw [hspan]
  simp only
  omega

/-- The tokens of a source text that can be read. -/
theorem exists_lexemes_of_ofSource {source : String} {tokens : List Token}
    (htokens : Token.ofSource source = .ok tokens) :
    ∃ lexemes, tokens = lexemes ++ [⟨.endOfInput, source.utf8ByteSize, source.utf8ByteSize⟩] ∧
      (∀ token ∈ lexemes, token.StandsIn source) ∧
      lexemes.Pairwise fun first second ↦ first.span.stop ≤ second.span.start := by
  obtain ⟨lexemes, htokens, hlexemes, hordered⟩ :=
    (ofSource_eq_ok_iff_decomposes.mp htokens).placement [] rfl
  refine ⟨lexemes, ?_, fun token hmem ↦ ?_, hordered⟩
  · rw [htokens, byteLength_toList, Nat.zero_add]
  · have := (hlexemes token hmem).1
    rwa [List.nil_append, String.ofList_toList] at this

/-- The end of the input does not stand in a text, as it has no characters. -/
theorem Token.StandsIn.kind_ne_endOfInput {source : String} {token : Token}
    (hstands : token.StandsIn source) : token.kind ≠ .endOfInput := by
  obtain ⟨_, text, _, -, -, hform⟩ := hstands
  intro hkind
  rw [hkind] at hform
  generalize text.toList = characters at hform
  cases hform

/-- The tokens of a source text are those of its decomposition into lexemes and whole gaps, and it
can be read if there is one. One token after the other stands on a piece of the text that is not
empty, is a lexeme as a whole and alone is scanned as that one token, and the only token for the end
is the last one. -/
theorem tokens_of_decomposition (source : String) (tokens : List Token) :
    (Token.ofSource source = .ok tokens ↔ Decomposes true 0 source.toList tokens) ∧
    (Token.ofSource source = .ok tokens →
      ∃ lexemes, tokens = lexemes ++ [⟨.endOfInput, source.utf8ByteSize, source.utf8ByteSize⟩] ∧
        (lexemes.Pairwise fun first second ↦ first.span.stop ≤ second.span.start) ∧
        ∀ token ∈ lexemes, token.kind ≠ .endOfInput ∧ token.span.start < token.span.stop ∧
          ∃ before text after : String, before ++ text ++ after = source ∧
            token.span = ⟨before.utf8ByteSize, before.utf8ByteSize + text.utf8ByteSize⟩ ∧
            Form text.toList token.kind ∧
            Token.ofSource text = .ok [⟨token.kind, 0, text.utf8ByteSize⟩,
              ⟨.endOfInput, text.utf8ByteSize, text.utf8ByteSize⟩]) := by
  refine ⟨ofSource_eq_ok_iff_decomposes, fun htokens ↦ ?_⟩
  obtain ⟨lexemes, htokens, hstands, hordered⟩ := exists_lexemes_of_ofSource htokens
  refine ⟨lexemes, htokens, hordered, fun token hmem ↦ ?_⟩
  have htoken := hstands token hmem
  refine ⟨htoken.kind_ne_endOfInput, htoken.start_lt_stop, ?_⟩
  obtain ⟨before, text, after, hsource, hspan, hform⟩ := htoken
  exact ⟨before, text, after, hsource, hspan, hform, ofSource_of_form hform⟩

/-- Two slashes and a string are lexemes without gaps between them, but the slashes start a comment:
behind it stand a word and a quote that is never closed. -/
theorem slashes_before_string_decompose :
    Decomposes false 0 "//\"a\nb\"".toList
      [⟨.symbol .slash, 0, 1⟩, ⟨.symbol .slash, 1, 2⟩, ⟨.string "a\nb", 2, 7⟩,
        ⟨.endOfInput, 7, 7⟩] ∧
    Token.ofSource "//\"a\nb\"" = .error [⟨.unterminatedString, 6, 7⟩] := by
  constructor
  · have hslash (rest : List Char)
        (hread : read? ('/' :: rest) = some ⟨.symbol .slash, ['/'], rest⟩) :
        IsLongest ['/'] (.symbol .slash) (['/'] ++ rest) := read?_eq_some_iff.mp hread
    have hstring : IsLongest ['"', 'a', '\n', 'b', '"'] (.string "a\nb")
        (['"', 'a', '\n', 'b', '"'] ++ []) := read?_eq_some_iff.mp rfl
    have hfree (rest : List Char) : false = true → EndsGap rest :=
      fun h ↦ absurd h Bool.false_ne_true
    have hend : Decomposes false 7 [] [⟨.endOfInput, 7, 7⟩] := .finish .nil
    have hthird := Decomposes.next (hfree _) hstring hend
    exact Decomposes.next (hfree _) (hslash _ rfl) (Decomposes.next (hfree _) (hslash _ rfl) hthird)
  · decide +kernel

end Lox
