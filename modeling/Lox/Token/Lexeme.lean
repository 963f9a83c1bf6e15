import Lox.Token

/-!
# Lexemes

A lexeme is a token kind together with the characters it is read from and the text that follows
them. There are four forms: a numeral, a string, a word and a symbol, told apart by their first
character. Each reader takes the longest text of its form, and `Lexeme.read?` is the lexeme that a
text starts with.

`Lexeme.text_append_rest` says that reading a lexeme cuts the text in two and loses nothing, and
`Lexeme.length_rest_lt` that something was read.
-/

set_option autoImplicit false
set_option relaxedAutoImplicit false

namespace Lox

/-- A token kind, the text that it was read from, and the text after it. -/
structure Lexeme where
  kind : TokenKind
  text : List Char
  rest : List Char

namespace Lexeme

/-! ### The four forms -/

/-- Digits, with a fraction if a point and at least one more digit follow. A point without a digit
behind it is left for the next lexeme. -/
def numeral? (source : List Char) : Option Lexeme :=
  let whole := source.takeWhile Char.isDigit
  let rest := source.dropWhile Char.isDigit
  if whole.isEmpty then none
  else
    match rest with
    | '.' :: tail =>
      let fraction := tail.takeWhile Char.isDigit
      if fraction.isEmpty then some ⟨.number (Number.ofNumeral whole []), whole, rest⟩
      else
        some ⟨.number (Number.ofNumeral whole fraction), whole ++ '.' :: fraction,
          tail.dropWhile Char.isDigit⟩
    | _ => some ⟨.number (Number.ofNumeral whole []), whole, rest⟩

/-- Whether a character stands between the quotes of a string: every one but the quote does. -/
def isStringPart (character : Char) : Bool := character ≠ '"'

/-- A quote, the characters up to the next quote, and that quote. Nothing is escaped, and lines may
end inside. -/
def string? : List Char → Option Lexeme
  | '"' :: tail =>
    let body := tail.takeWhile isStringPart
    match tail.dropWhile isStringPart with
    | [] => none
    | quote :: rest => some ⟨.string (String.ofList body), '"' :: body ++ [quote], rest⟩
  | _ => none

/-- Whether a word may start with a character: an ASCII letter or an underscore. -/
def isWordStart (character : Char) : Bool := character.isAlpha || character = '_'

/-- Whether a word may go on with a character: an ASCII letter, a digit or an underscore. -/
def isWordPart (character : Char) : Bool := character.isAlphanum || character = '_'

/-- The kind of a word: a keyword if the whole word is one, an identifier otherwise. -/
def wordKind (word : List Char) : TokenKind :=
  match Keyword.ofText? (String.ofList word) with
  | some keyword => .keyword keyword
  | none => .identifier (String.ofList word)

/-- A word of letters, digits and underscores that does not start with a digit. -/
def word? : List Char → Option Lexeme
  | [] => none
  | first :: tail =>
    if isWordStart first then
      let word := first :: tail.takeWhile isWordPart
      some ⟨wordKind word, word, tail.dropWhile isWordPart⟩
    else none

/-- The longest symbol at the start of a text. -/
def symbol? (source : List Char) : Option Lexeme :=
  (Symbol.atStart? source).map fun symbol ↦
    ⟨.symbol symbol, symbol.spelling, source.drop symbol.spelling.length⟩

/-- The lexeme at the start of a text, if there is one. -/
def read? (source : List Char) : Option Lexeme :=
  numeral? source <|> string? source <|> word? source <|> symbol? source

/-! ### A lexeme and what follows it make up the text -/

/-- A lexeme cuts its source when its text, which is not empty, and its rest make up the source. -/
def Cuts (lexeme : Lexeme) (source : List Char) : Prop :=
  lexeme.text ≠ [] ∧ lexeme.text ++ lexeme.rest = source

theorem cuts_of_numeral? {source : List Char} {lexeme : Lexeme}
    (hread : numeral? source = some lexeme) : lexeme.Cuts source := by
  have hsource : source.takeWhile Char.isDigit ++ source.dropWhile Char.isDigit = source :=
    List.takeWhile_append_dropWhile
  simp only [numeral?] at hread
  split at hread
  · simp at hread
  · rename_i hwhole
    have hwhole' : source.takeWhile Char.isDigit ≠ [] := by simpa using hwhole
    split at hread
    · rename_i tail hrest
      split at hread
      · cases hread
        exact ⟨hwhole', hsource⟩
      · cases hread
        refine ⟨by simp, ?_⟩
        simp only [List.append_assoc, List.cons_append, List.takeWhile_append_dropWhile]
        rw [← hrest, hsource]
    · cases hread
      exact ⟨hwhole', hsource⟩

theorem cuts_of_string? {source : List Char} {lexeme : Lexeme}
    (hread : string? source = some lexeme) : lexeme.Cuts source := by
  cases source with
  | nil => simp [string?] at hread
  | cons first tail =>
    by_cases hfirst : first = '"'
    · subst hfirst
      simp only [string?] at hread
      split at hread
      · simp at hread
      · rename_i quote rest hrest
        cases hread
        refine ⟨by simp, ?_⟩
        simp only [List.cons_append, List.append_assoc, List.nil_append, ← hrest,
          List.takeWhile_append_dropWhile]
    · simp [string?, hfirst] at hread

theorem cuts_of_word? {source : List Char} {lexeme : Lexeme}
    (hread : word? source = some lexeme) : lexeme.Cuts source := by
  cases source with
  | nil => simp [word?] at hread
  | cons first tail =>
    simp only [word?] at hread
    split at hread
    · cases hread
      exact ⟨by simp, by simp⟩
    · simp at hread

theorem cuts_of_symbol? {source : List Char} {lexeme : Lexeme}
    (hread : symbol? source = some lexeme) : lexeme.Cuts source := by
  simp only [symbol?, Option.map_eq_some_iff] at hread
  obtain ⟨symbol, hsymbol, rfl⟩ := hread
  have hstart := List.find?_some hsymbol
  refine ⟨by cases symbol <;> simp [Symbol.spelling], ?_⟩
  obtain ⟨tail, rfl⟩ := List.isPrefixOf_iff_prefix.mp hstart
  simp

theorem cuts_of_read? {source : List Char} {lexeme : Lexeme}
    (hread : read? source = some lexeme) : lexeme.Cuts source := by
  simp only [read?, Option.orElse_eq_orElse, Option.orElse_eq_or, Option.or_eq_some_iff] at hread
  rcases hread with hread | ⟨-, hread | ⟨-, hread | ⟨-, hread⟩⟩⟩
  · exact cuts_of_numeral? hread
  · exact cuts_of_string? hread
  · exact cuts_of_word? hread
  · exact cuts_of_symbol? hread

/-- The text of a lexeme and its rest are the source it was read from. -/
theorem text_append_rest {source : List Char} {lexeme : Lexeme}
    (hread : read? source = some lexeme) : lexeme.text ++ lexeme.rest = source :=
  (cuts_of_read? hread).2

/-- Reading a lexeme shortens the source. -/
theorem length_rest_lt {source : List Char} {lexeme : Lexeme}
    (hread : read? source = some lexeme) : lexeme.rest.length < source.length := by
  obtain ⟨htext, rfl⟩ := cuts_of_read? hread
  have := List.length_pos_iff.mpr htext
  simp only [List.length_append]
  omega

end Lexeme

end Lox
