import Lox.Token.Lexeme
import Mathlib.Data.List.TakeWhile

/-!
# The forms of lexemes

What counts as a lexeme is said here without reading anything: `Lexeme.Form text kind` holds if a
text as a whole is a numeral, a string between quotes, a word or a symbol, and the kind is the one
that it stands for. A word stands for a keyword exactly if the whole of it is one.

Reading is related to this in two steps. What `Lexeme.read?` takes off a text has a form
(`Lexeme.form_of_read?`), and from a text that starts with something of a form it takes off just
that or something longer (`Lexeme.readFrom_of_form`). Together they say that reading takes the
longest start of a text that has a form, and the kind of that form (`Lexeme.read?_eq_some_iff`).
-/

set_option autoImplicit false
set_option relaxedAutoImplicit false

namespace Lox

namespace Lexeme

/-- A text that is a lexeme as a whole, and the kind of token that it stands for. -/
inductive Form : List Char → TokenKind → Prop
  | whole {digits : List Char} : digits ≠ [] → (∀ digit ∈ digits, digit.isDigit) →
    Form digits (.number (Number.ofNumeral digits []))
  | fractional {digits fraction : List Char} : digits ≠ [] → (∀ digit ∈ digits, digit.isDigit) →
    fraction ≠ [] → (∀ digit ∈ fraction, digit.isDigit) →
    Form (digits ++ '.' :: fraction) (.number (Number.ofNumeral digits fraction))
  | string {body : List Char} : '"' ∉ body →
    Form ('"' :: body ++ ['"']) (.string (String.ofList body))
  | keyword (word : Keyword) : Form word.text.toList (.keyword word)
  | identifier {first : Char} {tail : List Char} : isWordStart first →
    (∀ character ∈ tail, isWordPart character) →
    (∀ word : Keyword, word.text.toList ≠ first :: tail) →
    Form (first :: tail) (.identifier (String.ofList (first :: tail)))
  | symbol (mark : Symbol) : Form mark.spelling (.symbol mark)

/-- The digits that are taken off are a numeral. A dot is among them only if a digit is behind it.
-/
theorem form_of_numeral? {source : List Char} {lexeme : Lexeme}
    (hread : numeral? source = some lexeme) : Form lexeme.text lexeme.kind := by
  have hdigits : ∀ digit ∈ source.takeWhile Char.isDigit, digit.isDigit :=
    fun _ ↦ List.mem_takeWhile_imp
  simp only [numeral?] at hread
  split at hread
  · simp at hread
  · rename_i hwhole
    have hwhole' : source.takeWhile Char.isDigit ≠ [] := by simpa using hwhole
    split at hread
    · rename_i tail hrest
      split at hread
      · cases hread
        exact .whole hwhole' hdigits
      · rename_i hfraction
        cases hread
        exact .fractional hwhole' hdigits (by simpa using hfraction)
          fun _ ↦ List.mem_takeWhile_imp
    · cases hread
      exact .whole hwhole' hdigits

/-- What is taken off as a string ends with the first quote behind the one that opens it. -/
theorem form_of_string? {source : List Char} {lexeme : Lexeme}
    (hread : string? source = some lexeme) : Form lexeme.text lexeme.kind := by
  cases source with
  | nil => simp [string?] at hread
  | cons first tail =>
    by_cases hfirst : first = '"'
    · subst hfirst
      simp only [string?] at hread
      split at hread
      · simp at hread
      · rename_i quote rest hrest
        have hquote : quote = '"' := by
          have := List.head_dropWhile_not isStringPart (l := tail) (by rw [hrest]; simp)
          simpa [hrest, isStringPart] using this
        subst hquote
        cases hread
        refine .string fun hmem ↦ ?_
        have := List.mem_takeWhile_imp hmem
        simp [isStringPart] at this
    · simp [string?, hfirst] at hread

/-- A word stands for the keyword that it spells, or for itself as an identifier. -/
theorem form_wordKind {first : Char} {tail : List Char} (hfirst : isWordStart first)
    (htail : ∀ character ∈ tail, isWordPart character) :
    Form (first :: tail) (wordKind (first :: tail)) := by
  unfold wordKind
  split
  · rename_i word hword
    have htext := List.find?_some hword
    simp only [decide_eq_true_eq] at htext
    have hlist : word.text.toList = first :: tail := by rw [htext, String.toList_ofList]
    rw [← hlist]
    exact .keyword word
  · rename_i hnone
    refine .identifier hfirst htail fun word hword ↦ ?_
    have hmem : word ∈ Keyword.all := by cases word <;> decide
    have := List.find?_eq_none.mp hnone word hmem
    rw [← hword, String.ofList_toList] at this
    simp at this

/-- What is taken off as a word starts like one, and has only parts of words behind that. -/
theorem form_of_word? {source : List Char} {lexeme : Lexeme}
    (hread : word? source = some lexeme) : Form lexeme.text lexeme.kind := by
  cases source with
  | nil => simp [word?] at hread
  | cons first tail =>
    simp only [word?] at hread
    split at hread
    · rename_i hfirst
      cases hread
      exact form_wordKind hfirst fun _ ↦ List.mem_takeWhile_imp
    · simp at hread

/-- What is taken off as a symbol is its spelling. -/
theorem form_of_symbol? {source : List Char} {lexeme : Lexeme}
    (hread : symbol? source = some lexeme) : Form lexeme.text lexeme.kind := by
  simp only [symbol?, Option.map_eq_some_iff] at hread
  obtain ⟨mark, -, rfl⟩ := hread
  exact .symbol mark

/-- What is taken off a text is a lexeme, and its kind is the one that it stands for. -/
theorem form_of_read? {source : List Char} {lexeme : Lexeme}
    (hread : read? source = some lexeme) : Form lexeme.text lexeme.kind := by
  simp only [read?, Option.orElse_eq_orElse, Option.orElse_eq_or, Option.or_eq_some_iff] at hread
  rcases hread with hread | ⟨-, hread | ⟨-, hread | ⟨-, hread⟩⟩⟩
  · exact form_of_numeral? hread
  · exact form_of_string? hread
  · exact form_of_word? hread
  · exact form_of_symbol? hread

/-! ### What starts a text is read, or something longer -/

/-- No digit starts a word, so numerals and words are told apart by their first character. -/
theorem isDigit_eq_false_of_isWordStart {character : Char} (hstart : isWordStart character) :
    character.isDigit = false := by
  simp only [Char.isDigit, ge_iff_le, UInt32.le_iff_toNat_le, Bool.and_eq_false_iff,
    decide_eq_false_iff_not]
  rcases Bool.or_eq_true_iff.mp hstart with hletter | hunderscore
  · rcases Bool.or_eq_true_iff.mp hletter with hupper | hlower
    · have hbounds : 'A'.val ≤ character.val ∧ character.val ≤ 'Z'.val := of_decide_eq_true hupper
      simp only [UInt32.le_iff_toNat_le] at hbounds
      simp at *
      omega
    · obtain ⟨hfrom, hto⟩ := Bool.and_eq_true_iff.mp hlower
      simp only [decide_eq_true_eq, ge_iff_le, UInt32.le_iff_toNat_le] at hfrom hto
      simp at *
      omega
  · obtain rfl := of_decide_eq_true hunderscore
    simp

/-- A numeral is looked for first, so it is taken off wherever there is one. -/
theorem read?_eq_numeral? {source : List Char} {lexeme : Lexeme}
    (hnumeral : numeral? source = some lexeme) : read? source = some lexeme := by
  simp [read?, hnumeral]

/-- Behind a quote there is no choice but a string, if it is closed at all. -/
theorem read?_eq_string? (tail : List Char) (hstring : (string? ('"' :: tail)).isSome) :
    read? ('"' :: tail) = string? ('"' :: tail) := by
  obtain ⟨lexeme, hlexeme⟩ := Option.isSome_iff_exists.mp hstring
  simp [read?, numeral?, hlexeme]

/-- Where a word starts, nothing else does. -/
theorem read?_eq_word? {first : Char} {tail : List Char} (hfirst : isWordStart first) :
    read? (first :: tail) = word? (first :: tail) := by
  have hquote : first ≠ '"' := by
    rintro rfl
    simp [isWordStart] at hfirst
  simp [read?, numeral?, string?, word?, isDigit_eq_false_of_isWordStart hfirst, hquote, hfirst]

/-- Symbols are what is left. -/
theorem read?_eq_symbol? {first : Char} {tail : List Char} (hdigit : first.isDigit = false)
    (hquote : first ≠ '"') (hword : isWordStart first = false) :
    read? (first :: tail) = symbol? (first :: tail) := by
  simp [read?, numeral?, string?, word?, hdigit, hquote, hword]

/-- What a text starts with is taken off, or something longer that the text starts with too. -/
def ReadFrom (text : List Char) (kind : TokenKind) (rest : List Char) : Prop :=
  ∃ lexeme, read? (text ++ rest) = some lexeme ∧
    (lexeme = ⟨kind, text, rest⟩ ∨ text.length < lexeme.text.length)

/-- A text either goes on with something of a class or is all left when that is taken off. -/
theorem takeWhile_nonempty_or (p : Char → Bool) (rest : List Char) :
    (rest.takeWhile p = [] ∧ rest.dropWhile p = rest) ∨ 0 < (rest.takeWhile p).length := by
  have hsplit := List.takeWhile_append_dropWhile (p := p) (l := rest)
  cases hmore : rest.takeWhile p with
  | nil =>
    rw [hmore, List.nil_append] at hsplit
    exact .inl ⟨rfl, hsplit⟩
  | cons character characters => exact .inr (by simp)

/-- From a whole numeral all digits are taken, and perhaps more of them or a fraction if the text
goes on with these. -/
theorem readFrom_whole {digits : List Char} (hne : digits ≠ [])
    (hdigits : ∀ digit ∈ digits, digit.isDigit) (rest : List Char) :
    ReadFrom digits (.number (Number.ofNumeral digits [])) rest := by
  have htake : (digits ++ rest).takeWhile Char.isDigit = digits ++ rest.takeWhile Char.isDigit :=
    List.takeWhile_append_of_pos hdigits
  have hdrop : (digits ++ rest).dropWhile Char.isDigit = rest.dropWhile Char.isDigit :=
    List.dropWhile_append_of_pos hdigits
  have hsome : ∃ lexeme, numeral? (digits ++ rest) = some lexeme ∧
      (lexeme = ⟨.number (Number.ofNumeral (digits ++ rest.takeWhile Char.isDigit) []),
        digits ++ rest.takeWhile Char.isDigit, rest.dropWhile Char.isDigit⟩ ∨
        digits.length < lexeme.text.length) := by
    simp only [numeral?, htake, hdrop]
    rw [if_neg (by simp [hne])]
    split
    · rename_i tail htail
      split
      · exact ⟨_, rfl, .inl (by rw [htail])⟩
      · refine ⟨_, rfl, .inr ?_⟩
        simp only [List.length_append, List.length_cons]
        omega
    · exact ⟨_, rfl, .inl rfl⟩
  obtain ⟨lexeme, hlexeme, hlonger⟩ := hsome
  refine ⟨lexeme, read?_eq_numeral? hlexeme, ?_⟩
  rcases hlonger with rfl | hlt
  · rcases takeWhile_nonempty_or Char.isDigit rest with ⟨hnil, hall⟩ | hmore
    · left
      rw [hnil, hall, List.append_nil]
    · right
      simp only [List.length_append]
      omega
  · exact .inr hlt

/-- The same for a numeral with a fraction, which can only go on with further digits. -/
theorem readFrom_fractional {digits fraction : List Char} (hne : digits ≠ [])
    (hdigits : ∀ digit ∈ digits, digit.isDigit) (hfraction : fraction ≠ [])
    (hfractionDigits : ∀ digit ∈ fraction, digit.isDigit) (rest : List Char) :
    ReadFrom (digits ++ '.' :: fraction) (.number (Number.ofNumeral digits fraction)) rest := by
  have htake : (digits ++ '.' :: fraction ++ rest).takeWhile Char.isDigit = digits := by
    rw [List.append_assoc, List.takeWhile_append_of_pos hdigits]
    simp
  have hdrop : (digits ++ '.' :: fraction ++ rest).dropWhile Char.isDigit
      = '.' :: (fraction ++ rest) := by
    rw [List.append_assoc, List.dropWhile_append_of_pos hdigits]
    simp
  have hlonger : (fraction ++ rest).takeWhile Char.isDigit
      = fraction ++ rest.takeWhile Char.isDigit := List.takeWhile_append_of_pos hfractionDigits
  have hrest : (fraction ++ rest).dropWhile Char.isDigit = rest.dropWhile Char.isDigit :=
    List.dropWhile_append_of_pos hfractionDigits
  refine ⟨⟨.number (Number.ofNumeral digits (fraction ++ rest.takeWhile Char.isDigit)),
    digits ++ '.' :: (fraction ++ rest.takeWhile Char.isDigit), rest.dropWhile Char.isDigit⟩,
    read?_eq_numeral? ?_, ?_⟩
  · simp only [numeral?, htake, hdrop, hlonger, hrest]
    simp [hne, hfraction]
  · rcases takeWhile_nonempty_or Char.isDigit rest with ⟨hnil, hall⟩ | hmore
    · left
      rw [hnil, hall, List.append_nil]
    · right
      simp only [List.length_append, List.length_cons]
      omega

/-- A string is taken off up to its closing quote, whatever comes behind that. -/
theorem readFrom_string {body : List Char} (hbody : '"' ∉ body) (rest : List Char) :
    ReadFrom ('"' :: body ++ ['"']) (.string (String.ofList body)) rest := by
  have hparts : ∀ character ∈ body, isStringPart character := by
    rintro character hmem
    have : character ≠ '"' := fun h ↦ hbody (h ▸ hmem)
    simp [isStringPart, this]
  have hstring : string? ('"' :: (body ++ '"' :: rest))
      = some ⟨.string (String.ofList body), '"' :: body ++ ['"'], rest⟩ := by
    simp only [string?, List.takeWhile_append_of_pos hparts, List.dropWhile_append_of_pos hparts]
    simp [isStringPart]
  refine ⟨⟨.string (String.ofList body), '"' :: body ++ ['"'], rest⟩, ?_, .inl rfl⟩
  simp only [List.cons_append, List.append_assoc, List.nil_append]
  rw [read?_eq_string? _ (by rw [hstring]; rfl), hstring]
  rfl

/-- From a word all of its characters are taken, and perhaps more. -/
theorem readFrom_word {first : Char} {tail : List Char} (hfirst : isWordStart first)
    (htail : ∀ character ∈ tail, isWordPart character) (rest : List Char) :
    ReadFrom (first :: tail) (wordKind (first :: tail)) rest := by
  refine ⟨_, by rw [List.cons_append, read?_eq_word? hfirst, word?, if_pos hfirst], ?_⟩
  rw [List.takeWhile_append_of_pos htail, List.dropWhile_append_of_pos htail]
  rcases takeWhile_nonempty_or isWordPart rest with ⟨hnil, hall⟩ | hmore
  · left
    rw [hnil, hall, List.append_nil]
  · right
    simp only [List.length_append, List.length_cons]
    omega

/-- All keywords are words. -/
theorem isWord_of_keyword (word : Keyword) :
    ∃ first tail, word.text.toList = first :: tail ∧ isWordStart first ∧
      ∀ character ∈ tail, isWordPart character := by
  cases word <;> exact ⟨_, _, rfl, by decide, List.all_eq_true.mp (by decide)⟩

/-- The text of a keyword stands for it. -/
theorem wordKind_text (word : Keyword) : wordKind word.text.toList = .keyword word := by
  cases word <;> decide

/-- A word that is the text of no keyword stands for itself. -/
theorem wordKind_of_forall_ne {word : List Char}
    (hword : ∀ keyword : Keyword, keyword.text.toList ≠ word) :
    wordKind word = .identifier (String.ofList word) := by
  have hnone : Keyword.ofText? (String.ofList word) = none := by
    refine List.find?_eq_none.mpr fun keyword _ htext ↦ hword keyword ?_
    rw [of_decide_eq_true htext, String.toList_ofList]
  rw [wordKind, hnone]

end Lexeme

namespace Symbol

theorem mem_all (mark : Symbol) : mark ∈ all := by
  cases mark <;> decide

/-- Different symbols are spelled differently. -/
theorem spelling_injective {first second : Symbol} (hspelling : first.spelling = second.spelling) :
    first = second := by
  have hfind : ∀ mark ∈ all, all.find? (·.spelling = mark.spelling) = some mark := by decide
  have hfirst := hfind first (mem_all first)
  rw [hspelling, hfind second (mem_all second)] at hfirst
  exact (Option.some.inj hfirst).symm

/-- The symbol found at the start of a text that starts with a given symbol is that one or a longer
one, because none in the table is followed by a longer one. -/
theorem atStart?_append (mark : Symbol) (rest : List Char) :
    ∃ found, atStart? (mark.spelling ++ rest) = some found ∧
      (found = mark ∨ mark.spelling.length < found.spelling.length) := by
  have hmark : mark.spelling.isPrefixOf (mark.spelling ++ rest) := by simp
  have hsorted : all.Pairwise fun first second ↦
      second.spelling.length ≤ first.spelling.length := by decide
  cases hfound : atStart? (mark.spelling ++ rest) with
  | none => exact absurd hmark (List.find?_eq_none.mp hfound mark (mem_all mark))
  | some found =>
    obtain ⟨hinitial, before, after, hall, hbefore⟩ := List.find?_eq_some_iff_append.mp hfound
    refine ⟨found, rfl, ?_⟩
    have hle : mark.spelling.length ≤ found.spelling.length := by
      have hmem := mem_all mark
      rw [hall, List.mem_append, List.mem_cons] at hmem
      rcases hmem with hmem | rfl | hmem
      · simpa [hmark] using hbefore mark hmem
      · exact Nat.le_refl _
      · rw [hall] at hsorted
        exact (List.pairwise_cons.mp (List.pairwise_append.mp hsorted).2.1).1 mark hmem
    rcases Nat.lt_or_eq_of_le hle with hlt | heq
    · exact .inr hlt
    · have hspelling := List.prefix_of_prefix_length_le (List.isPrefixOf_iff_prefix.mp hmark)
        (List.isPrefixOf_iff_prefix.mp hinitial) hle
      exact .inl (spelling_injective (hspelling.eq_of_length heq)).symm

end Symbol

namespace Lexeme

/-- A symbol of one character may be the start of one with two, which is then taken in its place. -/
theorem readFrom_symbol (mark : Symbol) (rest : List Char) :
    ReadFrom mark.spelling (.symbol mark) rest := by
  obtain ⟨first, tail, hspelling, hdigit, hquote, hword⟩ : ∃ first tail,
      mark.spelling = first :: tail ∧ first.isDigit = false ∧ first ≠ '"' ∧
        isWordStart first = false := by
    cases mark <;> exact ⟨_, _, rfl, by decide, by decide, by decide⟩
  obtain ⟨found, hfound, hlonger⟩ := mark.atStart?_append rest
  refine ⟨⟨.symbol found, found.spelling, (mark.spelling ++ rest).drop found.spelling.length⟩,
    ?_, ?_⟩
  · rw [hspelling, List.cons_append, read?_eq_symbol? hdigit hquote hword, ← List.cons_append,
      ← hspelling, symbol?, hfound, Option.map_some]
  · rcases hlonger with rfl | hlt
    · exact .inl (by simp)
    · exact .inr hlt

/-- From a text that starts with something of a form, that is taken off, or something longer. -/
theorem readFrom_of_form {text : List Char} {kind : TokenKind} (hform : Form text kind)
    (rest : List Char) : ReadFrom text kind rest := by
  cases hform with
  | whole hne hdigits => exact readFrom_whole hne hdigits rest
  | fractional hne hdigits hfraction hfractionDigits =>
    exact readFrom_fractional hne hdigits hfraction hfractionDigits rest
  | string hbody => exact readFrom_string hbody rest
  | keyword word =>
    obtain ⟨first, tail, htext, hfirst, htail⟩ := isWord_of_keyword word
    rw [← wordKind_text, htext]
    exact readFrom_word hfirst htail rest
  | identifier hfirst htail hword =>
    rw [← wordKind_of_forall_ne hword]
    exact readFrom_word hfirst htail rest
  | symbol mark => exact readFrom_symbol mark rest

/-! ### The longest lexeme -/

/-- A text that a source starts with and that has a form, of which the source does not start with
anything longer that has one. -/
structure IsLongest (text : List Char) (kind : TokenKind) (source : List Char) : Prop where
  form : Form text kind
  isPrefix : text <+: source
  length_le : ∀ other otherKind, Form other otherKind → other <+: source →
    other.length ≤ text.length

/-- Reading takes off the longest start of a text that has a form, and yields the kind of it. -/
theorem read?_eq_some_iff {kind : TokenKind} {text rest : List Char} :
    read? (text ++ rest) = some ⟨kind, text, rest⟩ ↔ IsLongest text kind (text ++ rest) := by
  constructor
  · intro hread
    refine ⟨form_of_read? hread, List.prefix_append text rest, ?_⟩
    intro other otherKind hform hother
    obtain ⟨otherRest, hsource⟩ := hother
    obtain ⟨lexeme, hlexeme, hlonger⟩ := readFrom_of_form hform otherRest
    rw [hsource, hread] at hlexeme
    obtain rfl := Option.some.inj hlexeme
    rcases hlonger with heq | hlt
    · exact Nat.le_of_eq (congrArg (·.text.length) heq).symm
    · exact Nat.le_of_lt hlt
  · intro hlongest
    obtain ⟨lexeme, hlexeme, rfl | hlt⟩ := readFrom_of_form hlongest.form rest
    · exact hlexeme
    · have hinitial : lexeme.text <+: text ++ rest := ⟨lexeme.rest, text_append_rest hlexeme⟩
      have hle := hlongest.length_le _ _ (form_of_read? hlexeme) hinitial
      omega

end Lexeme

end Lox
