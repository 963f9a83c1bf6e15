import Lox.Proofs.Lexical.OpenComment

/-!
# The errors among the characters of a source text

What is wrong among the characters of a source text is found by a walk that knows nothing of
lexemes. `Region.faults` goes from character to character, outside of strings and comments, in a
string or in a comment, and looks at single characters only: outside, one that is neither blank nor
the first of any lexeme is an error, and so is a quote that no other one follows. The errors of a
scan are those of this walk (`Scan.errors_eq_faults`).

So the errors are known exactly. There is one at each place that is wrong and at no other
(`Region.mem_faults_iff`), they are in order (`Region.pairwise_faults`), and an open string comes
last (`Region.cause_ne_of_mem_dropLast`).
-/

set_option autoImplicit false
set_option relaxedAutoImplicit false

namespace Lox

open Lexeme

/-- Whether some lexeme starts with a character. -/
def startsLexeme (character : Char) : Bool :=
  character = '"' || character.isDigit || isWordStart character ||
    Symbol.all.any (·.spelling.head? = some character)

/-- A character that starts a lexeme is one by itself, but for the quote. -/
theorem exists_form_of_startsLexeme {character : Char} (hstarts : startsLexeme character)
    (hquote : character ≠ '"') : ∃ kind, Form [character] kind := by
  simp only [startsLexeme, Bool.or_eq_true, decide_eq_true_eq, List.any_eq_true] at hstarts
  rcases hstarts with ((hstart | hdigit) | hword) | ⟨mark, -, hmark⟩
  · exact absurd hstart hquote
  · exact ⟨_, .whole (by simp) (by simpa using hdigit)⟩
  · exact ⟨_, form_wordKind hword (by simp)⟩
  · have hsingle : ∀ mark ∈ Symbol.all, ∃ other ∈ Symbol.all,
        other.spelling = mark.spelling.head?.toList := by decide
    obtain ⟨other, -, hother⟩ := hsingle mark mark.mem_all
    rw [hmark, Option.toList_some] at hother
    exact ⟨_, hother ▸ Form.symbol other⟩

theorem startsLexeme_iff {character : Char} :
    startsLexeme character ↔ ∃ text kind, Form (character :: text) kind := by
  constructor
  · intro hstarts
    by_cases hquote : character = '"'
    · subst hquote
      exact ⟨_, _, .string List.not_mem_nil⟩
    · exact ⟨[], exists_form_of_startsLexeme hstarts hquote⟩
  · rintro ⟨text, kind, hform⟩
    simp only [startsLexeme, Bool.or_eq_true, decide_eq_true_eq, List.any_eq_true]
    rcases hform.first_cases with hdigit | hword | hquote | ⟨mark, hmark⟩
    · exact .inl (.inl (.inr hdigit))
    · exact .inl (.inr hword)
    · exact .inl (.inl (.inl hquote))
    · exact .inr ⟨mark, mark.mem_all, by rw [← hmark, List.head?_cons]⟩

theorem startsLexeme_of_isWordPart {character : Char} (hpart : isWordPart character) :
    startsLexeme character := by
  simp only [isWordPart, Char.isAlphanum, Bool.or_eq_true] at hpart
  simp only [startsLexeme, isWordStart, Bool.or_eq_true]
  rcases hpart with (hletter | hdigit) | hunderscore
  · exact .inl (.inr (.inl hletter))
  · exact .inl (.inl (.inr hdigit))
  · exact .inl (.inr (.inr hunderscore))

/-- From what starts with a character that starts a lexeme something can be read, unless that is a
string. -/
theorem startsLexeme_of_read?_eq_none {first : Char} {tail : List Char}
    (hread : read? (first :: tail) = none) (hquote : first ≠ '"') :
    startsLexeme first = false := by
  by_contra hstarts
  obtain ⟨kind, hform⟩ := exists_form_of_startsLexeme (by simpa using hstarts) hquote
  obtain ⟨lexeme, hlexeme, -⟩ := readFrom_of_form hform tail
  cases hread.symm.trans hlexeme

/-- A quote from which no string can be read is the last one. -/
theorem quote_not_mem_of_read?_eq_none {tail : List Char} (hread : read? ('"' :: tail) = none) :
    '"' ∉ tail := by
  intro hmem
  obtain ⟨body, rest, rfl, hbody⟩ := List.eq_append_cons_of_mem hmem
  obtain ⟨lexeme, hlexeme, -⟩ := readFrom_of_form (.string hbody) rest
  rw [List.cons_append, List.cons_append, List.append_assoc, List.singleton_append,
    hread] at hlexeme
  cases hlexeme

namespace Region

/-- The region behind a character that stands in a given region before `tail`. -/
def next : Region → Char → List Char → Region
  | code, first, tail =>
    if first = '"' then string
    else if first = '/' ∧ tail.head? = some '/' then comment
    else code
  | string, first, _ => if first = '"' then code else string
  | comment, first, _ => if first = '\n' then code else comment

/-- What is wrong with a character that stands outside of strings and comments before `tail`,
`offset` bytes into its source. -/
def faultsAt (offset : Nat) (first : Char) (tail : List Char) : List SyntaxError :=
  if first = '"' then
    if '"' ∈ tail then []
    else [⟨.unterminatedString, offset, offset + byteLength (first :: tail)⟩]
  else if isBlank first || startsLexeme first then []
  else [⟨.unexpectedCharacter first, offset, offset + first.utf8Size⟩]

/-- What is wrong with a text that starts in a given region, `offset` bytes into its source. -/
def faults : Region → Nat → List Char → List SyntaxError
  | _, _, [] => []
  | region, offset, first :: tail =>
    (if region = code then faultsAt offset first tail else []) ++
      (region.next first tail).faults (offset + first.utf8Size) tail

theorem after_cons (region : Region) (first : Char) (tail : List Char) :
    region.after (first :: tail) = (region.next first tail).after tail := by
  cases region <;> simp only [after, next] <;> split_ifs <;> rfl

/-! ### Passing gaps and lexemes -/

/-- A character that nothing is wrong with outside of strings and comments, and that leaves a text
there. -/
def IsQuiet (character : Char) : Prop :=
  IsPlain character ∧ (isBlank character || startsLexeme character)

instance : DecidablePred IsQuiet := fun _ ↦ inferInstanceAs (Decidable (_ ∧ _))

theorem faults_quiet {text : List Char} (htext : ∀ character ∈ text, IsQuiet character)
    (offset : Nat) (rest : List Char) :
    code.faults offset (text ++ rest) = code.faults (offset + byteLength text) rest := by
  induction text generalizing offset with
  | nil => rfl
  | cons first text ih =>
    obtain ⟨⟨⟨hquote, hslash⟩, hquiet⟩, htext⟩ := List.forall_mem_cons.mp htext
    rw [List.cons_append, faults, if_pos rfl, faultsAt, if_neg hquote, if_pos hquiet, next,
      if_neg hquote, if_neg fun hboth ↦ hslash hboth.1, List.nil_append, ih htext,
      byteLength_cons, Nat.add_assoc]

theorem faults_body {body : List Char} (hbody : '"' ∉ body) (offset : Nat) (rest : List Char) :
    string.faults offset (body ++ rest) = string.faults (offset + byteLength body) rest := by
  induction body generalizing offset with
  | nil => rfl
  | cons first body ih =>
    rw [List.mem_cons, not_or] at hbody
    rw [List.cons_append, faults, if_neg nofun, next, if_neg (Ne.symm hbody.1), List.nil_append,
      ih hbody.2, byteLength_cons, Nat.add_assoc]

theorem faults_comment {body : List Char} (hbody : '\n' ∉ body) (offset : Nat)
    (rest : List Char) :
    comment.faults offset (body ++ rest) = comment.faults (offset + byteLength body) rest := by
  induction body generalizing offset with
  | nil => rfl
  | cons first body ih =>
    rw [List.mem_cons, not_or] at hbody
    rw [List.cons_append, faults, if_neg nofun, next, if_neg (Ne.symm hbody.1), List.nil_append,
      ih hbody.2, byteLength_cons, Nat.add_assoc]

/-- Nothing is wrong with a gap. Behind a comment in it comes a line feed, which is blank, or
nothing. -/
theorem faults_gap {gap rest : List Char} (hgap : Gap rest gap) (offset : Nat) :
    code.faults offset (gap ++ rest) = code.faults (offset + byteLength gap) rest := by
  induction hgap generalizing offset with
  | nil => rfl
  | @blank character gap hblank _ ih =>
    have hquiet : ∀ other ∈ [character], IsQuiet other := by
      simpa using ⟨isPlain_of_isBlank hblank, by simp [hblank]⟩
    rw [← List.singleton_append, List.append_assoc, faults_quiet hquiet, ih, byteLength_append,
      Nat.add_assoc]
  | @comment body gap hbody hnext _ ih =>
    have hend (start : Nat) : comment.faults start (gap ++ rest)
        = code.faults start (gap ++ rest) := by
      cases hmore : gap ++ rest with
      | nil => rfl
      | cons first tail =>
        obtain rfl := hnext first (by rw [hmore]; rfl)
        rfl
    have hslash : '\n' ∉ '/' :: body := List.not_mem_cons_of_ne_of_not_mem (by decide) hbody
    have hopen : code.faults offset ('/' :: '/' :: body ++ (gap ++ rest))
        = comment.faults (offset + '/'.utf8Size) ('/' :: body ++ (gap ++ rest)) := rfl
    rw [List.append_assoc, hopen, faults_comment hslash, hend, ih]
    simp only [byteLength_cons, byteLength_append, Nat.add_assoc]

/-- Nothing is wrong with a lexeme where a gap has ended. -/
theorem faults_lexeme {text rest : List Char} {kind : TokenKind} (hform : Form text kind)
    (hends : EndsGap (text ++ rest)) (offset : Nat) :
    code.faults offset (text ++ rest) = code.faults (offset + byteLength text) rest := by
  have hdigits {digits : List Char} (hall : ∀ digit ∈ digits, digit.isDigit) :
      ∀ digit ∈ digits, IsQuiet digit := fun digit hmem ↦
    ⟨isPlain_of_isDigit (hall digit hmem), by simp [startsLexeme, hall digit hmem]⟩
  have hword {first : Char} {tail : List Char} (hfirst : isWordStart first)
      (htail : ∀ character ∈ tail, isWordPart character) :
      ∀ character ∈ first :: tail, IsQuiet character := by
    intro character hmem
    refine ⟨isPlain_of_isWord hfirst htail character hmem, ?_⟩
    rcases List.mem_cons.mp hmem with rfl | hmem
    · simp [startsLexeme, hfirst]
    · simp [startsLexeme_of_isWordPart (htail character hmem)]
  cases hform with
  | whole _ hall => exact faults_quiet (hdigits hall) offset rest
  | fractional _ hall _ hfraction =>
    have hpoint : IsQuiet '.' := by decide
    refine faults_quiet (List.forall_mem_append.mpr ⟨hdigits hall, ?_⟩) offset rest
    exact List.forall_mem_cons.mpr ⟨hpoint, hdigits hfraction⟩
  | @string body hbody =>
    have hclosed : faultsAt offset '"' (body ++ ['"'] ++ rest) = [] := by simp [faultsAt]
    have hopen : code.faults offset ('"' :: body ++ ['"'] ++ rest)
        = string.faults (offset + '"'.utf8Size) (body ++ ['"'] ++ rest) := by
      rw [List.cons_append, List.cons_append, faults, if_pos rfl, hclosed]
      rfl
    rw [hopen, List.append_assoc, faults_body hbody]
    simp only [byteLength_cons, byteLength_append, byteLength_nil, Nat.add_assoc, Nat.add_zero]
    rfl
  | keyword word =>
    obtain ⟨first, tail, htext, hfirst, htail⟩ := isWord_of_keyword word
    rw [htext]
    exact faults_quiet (hword hfirst htail) offset rest
  | identifier hfirst htail => exact faults_quiet (hword hfirst htail) offset rest
  | symbol mark =>
    by_cases hslash : mark = .slash
    · subst hslash
      have hcomment := (hends '/' rest rfl).2
      change code.faults offset ('/' :: rest) = _
      rw [faults, if_pos rfl, next, if_neg (by decide), if_neg hcomment]
      rfl
    · have hall : mark.spelling.all (IsQuiet ·) = true := by
        cases mark <;> first | exact absurd rfl hslash | decide
      have hquiet : ∀ character ∈ mark.spelling, IsQuiet character := by
        simpa only [List.all_eq_true, decide_eq_true_eq] using hall
      exact faults_quiet hquiet offset rest

/-- A quote that no other one follows is wrong, and takes the rest of the text with it. -/
theorem faults_openString {body : List Char} (hbody : '"' ∉ body) (offset : Nat) :
    code.faults offset ('"' :: body)
      = [⟨.unterminatedString, offset, offset + byteLength ('"' :: body)⟩] := by
  have hnone := faults_body hbody (offset + '"'.utf8Size) []
  rw [List.append_nil] at hnone
  rw [faults, if_pos rfl, faultsAt, if_pos rfl, if_neg hbody]
  exact congrArg (List.cons _) hnone

/-- A character that is not blank and starts no lexeme is wrong. -/
theorem faults_stray {first : Char} {tail : List Char} (hquote : first ≠ '"')
    (hcomment : ¬(first = '/' ∧ tail.head? = some '/')) (hblank : isBlank first = false)
    (hstarts : startsLexeme first = false) (offset : Nat) :
    code.faults offset (first :: tail)
      = ⟨.unexpectedCharacter first, offset, offset + first.utf8Size⟩ ::
        code.faults (offset + first.utf8Size) tail := by
  rw [faults, if_pos rfl, faultsAt, if_neg hquote, hblank, hstarts, next, if_neg hquote,
    if_neg hcomment]
  rfl

end Region

theorem Scan.GoesThrough.errors_eq_faults {offset : Nat} {text : List Char} {scan : Scan}
    (hscan : GoesThrough offset text scan) : scan.errors = Region.code.faults offset text := by
  induction hscan with
  | @finish offset gap hgap =>
    have hnone := Region.faults_gap hgap offset
    rw [List.append_nil] at hnone
    rw [hnone]
    rfl
  | lexeme hgap hends hlongest _ ih =>
    rw [Region.faults_gap hgap, Region.faults_lexeme hlongest.form hends]
    exact ih
  | openString hgap _ hread =>
    rw [Region.faults_gap hgap, Region.faults_openString (quote_not_mem_of_read?_eq_none hread)]
    rfl
  | stray hgap hends hread hquote _ ih =>
    obtain ⟨hblank, hcomment⟩ := hends _ _ rfl
    rw [Region.faults_gap hgap, Region.faults_stray hquote hcomment hblank
      (startsLexeme_of_read?_eq_none hread hquote)]
    exact congrArg (List.cons _) ih

/-- A scan finds the errors that the walk finds. -/
theorem Scan.errors_eq_faults (offset : Nat) (text : List Char) :
    (ofText offset text).errors = Region.code.faults offset text :=
  (goesThrough_ofText offset text).errors_eq_faults

namespace Region

/-! ### Which errors there are -/

/-- An error of a text that starts in a given region, `offset` bytes into its source: at a character
outside of strings and comments that is not blank and starts no lexeme, or from a quote there that
no other one follows up to the end of the text. -/
inductive Fault (region : Region) (offset : Nat) (text : List Char) : SyntaxError → Prop
  | stray {before after : List Char} {character : Char} : text = before ++ character :: after →
    region.after before = code → isBlank character = false →
    (∀ lexeme kind, ¬Form (character :: lexeme) kind) →
    Fault region offset text ⟨.unexpectedCharacter character, offset + byteLength before,
      offset + byteLength before + character.utf8Size⟩
  | openString {before body : List Char} : text = before ++ '"' :: body →
    region.after before = code → '"' ∉ body →
    Fault region offset text
      ⟨.unterminatedString, offset + byteLength before, offset + byteLength text⟩

/-- Only a slash behind a character makes a difference to the region behind it. -/
theorem next_append (region : Region) (first : Char) (before : List Char) {other : Char}
    (hother : other ≠ '/') (after : List Char) :
    region.next first (before ++ other :: after) = region.next first before := by
  cases before with
  | nil => cases region <;> simp [next, hother]
  | cons second before => cases region <;> rfl

theorem ne_slash_of_forall_not_form {character : Char}
    (hnone : ∀ lexeme kind, ¬Form (character :: lexeme) kind) : character ≠ '/' := by
  rintro rfl
  exact hnone [] _ (.symbol .slash)

namespace Fault

variable {region : Region} {offset : Nat} {first : Char} {tail : List Char} {error : SyntaxError}

/-- An error behind a character. -/
theorem cons (hfault : Fault (region.next first tail) (offset + first.utf8Size) tail error) :
    Fault region offset (first :: tail) error := by
  cases hfault with
  | @stray before after character htail hregion hblank hnone =>
    subst htail
    rw [next_append _ _ _ (ne_slash_of_forall_not_form hnone), ← after_cons] at hregion
    have hstray : Fault region offset (first :: (before ++ character :: after)) _ :=
      .stray List.cons_append.symm hregion hblank hnone
    rwa [byteLength_cons, ← Nat.add_assoc] at hstray
  | @openString before body htail hregion hbody =>
    subst htail
    rw [next_append _ _ _ (by decide), ← after_cons] at hregion
    have hopen : Fault region offset (first :: (before ++ '"' :: body)) _ :=
      .openString List.cons_append.symm hregion hbody
    rwa [byteLength_cons, byteLength_cons, ← Nat.add_assoc, ← Nat.add_assoc] at hopen

/-- An error is at the first character or behind it. -/
theorem of_cons (hfault : Fault region offset (first :: tail) error) :
    (region = code ∧ error ∈ faultsAt offset first tail) ∨
      Fault (region.next first tail) (offset + first.utf8Size) tail error := by
  cases hfault with
  | @stray before after character htext hregion hblank hnone =>
    cases before with
    | nil =>
      obtain ⟨rfl, rfl⟩ := List.cons.inj htext
      have hquote : first ≠ '"' := by
        rintro rfl
        exact hnone _ _ (.string List.not_mem_nil)
      have hstarts : startsLexeme first = false := by
        rw [← Bool.not_eq_true, startsLexeme_iff]
        exact fun ⟨lexeme, kind, hform⟩ ↦ hnone lexeme kind hform
      exact .inl ⟨hregion, by simp [faultsAt, hquote, hblank, hstarts]⟩
    | cons other before =>
      obtain ⟨rfl, rfl⟩ := List.cons.inj htext
      rw [after_cons, ← next_append _ _ _ (ne_slash_of_forall_not_form hnone) after] at hregion
      have hstray : Fault _ (offset + first.utf8Size) (before ++ character :: after) _ :=
        .stray rfl hregion hblank hnone
      rw [byteLength_cons, ← Nat.add_assoc]
      exact .inr hstray
  | @openString before body htext hregion hbody =>
    cases before with
    | nil =>
      obtain ⟨rfl, rfl⟩ := List.cons.inj htext
      exact .inl ⟨hregion, by simp [faultsAt, hbody]⟩
    | cons other before =>
      obtain ⟨rfl, rfl⟩ := List.cons.inj htext
      rw [after_cons, ← next_append _ _ _ (show '"' ≠ '/' by decide) body] at hregion
      have hopen : Fault _ (offset + first.utf8Size) (before ++ '"' :: body) _ :=
        .openString rfl hregion hbody
      rw [byteLength_cons, byteLength_cons, ← Nat.add_assoc, ← Nat.add_assoc]
      exact .inr hopen

end Fault

/-- What the walk finds at a character is wrong. -/
theorem fault_of_mem_faultsAt {offset : Nat} {first : Char} {tail : List Char}
    {error : SyntaxError} (herror : error ∈ faultsAt offset first tail) :
    Fault code offset (first :: tail) error := by
  unfold faultsAt at herror
  split_ifs at herror with hquote hclosed hquiet
  · cases herror
  · obtain rfl := List.mem_singleton.mp herror
    subst hquote
    have hopen : Fault code offset ([] ++ '"' :: tail) _ := .openString rfl rfl hclosed
    exact hopen
  · cases herror
  · obtain rfl := List.mem_singleton.mp herror
    simp only [Bool.or_eq_true, not_or, Bool.not_eq_true] at hquiet
    have hnone (lexeme : List Char) (kind : TokenKind) : ¬Form (first :: lexeme) kind := by
      intro hform
      rw [startsLexeme_iff.mpr ⟨lexeme, kind, hform⟩] at hquiet
      cases hquiet.2
    have hstray : Fault code offset ([] ++ first :: tail) _ := .stray rfl rfl hquiet.1 hnone
    exact hstray

/-- The walk finds an error wherever something is wrong, and nowhere else. -/
theorem mem_faults_iff {region : Region} {offset : Nat} {text : List Char} {error : SyntaxError} :
    error ∈ region.faults offset text ↔ Fault region offset text error := by
  induction text generalizing region offset with
  | nil =>
    constructor
    · rintro ⟨⟩
    · rintro (⟨htext, _⟩ | ⟨htext, _⟩)
      · simp at htext
      · simp at htext
  | cons first tail ih =>
    rw [faults, List.mem_append, ih]
    constructor
    · rintro (hhead | htail)
      · split_ifs at hhead with hregion
        · subst hregion
          exact fault_of_mem_faultsAt hhead
        · cases hhead
      · exact htail.cons
    · intro hfault
      rcases hfault.of_cons with ⟨rfl, hhead⟩ | htail
      · exact .inl (by rwa [if_pos rfl])
      · exact .inr htail

/-! ### The order of the errors -/

theorem Fault.le_start {region : Region} {offset : Nat} {text : List Char} {error : SyntaxError}
    (hfault : Fault region offset text error) : offset ≤ error.span.start := by
  cases hfault <;> exact Nat.le_add_right _ _

/-- An error is somewhere in the text. -/
theorem Fault.start_lt_stop {region : Region} {offset : Nat} {text : List Char}
    {error : SyntaxError} (hfault : Fault region offset text error) :
    error.span.start < error.span.stop ∧ error.span.stop ≤ offset + byteLength text := by
  cases hfault with
  | @stray before after character htext =>
    have hpos := character.utf8Size_pos
    rw [htext, byteLength_append, byteLength_cons]
    constructor <;> simp only <;> omega
  | @openString before body htext =>
    have hpos := ('"').utf8Size_pos
    rw [htext, byteLength_append, byteLength_cons]
    constructor <;> simp only <;> omega

/-- An open string reaches up to the end of the text. -/
theorem Fault.stop_eq {region : Region} {offset : Nat} {text : List Char} {error : SyntaxError}
    (hfault : Fault region offset text error) (hcause : error.cause = .unterminatedString) :
    error.span.stop = offset + byteLength text := by
  cases hfault with
  | stray => cases hcause
  | openString => rfl

/-- Errors come one behind another. Where an open string is found, no quote follows, and nothing
else is wrong in a string. -/
theorem pairwise_faults (region : Region) (offset : Nat) (text : List Char) :
    (region.faults offset text).Pairwise fun first second ↦
      first.span.stop ≤ second.span.start := by
  induction text generalizing region offset with
  | nil => exact .nil
  | cons first tail ih =>
    rw [faults, List.pairwise_append]
    refine ⟨?_, ih _ _, ?_⟩
    · split_ifs
      · unfold faultsAt
        split_ifs <;> simp
      · exact .nil
    · intro error herror later hlater
      have hle := (mem_faults_iff.mp hlater).le_start
      split_ifs at herror with hregion
      · subst hregion
        unfold faultsAt at herror
        split_ifs at herror with hquote hclosed hquiet
        · cases herror
        · subst hquote
          have hnone := faults_body hclosed (offset + '"'.utf8Size) []
          rw [List.append_nil] at hnone
          rw [next, if_pos rfl, hnone] at hlater
          cases hlater
        · cases herror
        · obtain rfl := List.mem_singleton.mp herror
          exact hle
      · cases herror

/-- An open string is the last error. -/
theorem cause_ne_of_mem_dropLast {region : Region} {offset : Nat} {text : List Char}
    {error : SyntaxError} (herror : error ∈ (region.faults offset text).dropLast) :
    error.cause ≠ .unterminatedString := by
  intro hcause
  rcases (region.faults offset text).eq_nil_or_concat' with hnil | ⟨before, last, hconcat⟩
  · rw [hnil] at herror
    cases herror
  · have horder := pairwise_faults region offset text
    have hlast : last ∈ region.faults offset text := by simp [hconcat]
    have hopen := mem_faults_iff.mp (List.dropLast_subset _ herror)
    rw [hconcat, List.dropLast_concat] at herror
    rw [hconcat, List.pairwise_append] at horder
    have hle := horder.2.2 error herror last (List.mem_singleton.mpr rfl)
    have hlt := (mem_faults_iff.mp hlast).start_lt_stop
    rw [hopen.stop_eq hcause] at hle
    omega

end Region

/-- The errors of a scan do not start before its text does. -/
theorem Scan.GoesThrough.le_start {offset : Nat} {text : List Char} {scan : Scan}
    (hscan : GoesThrough offset text scan) :
    ∀ error ∈ scan.errors, offset ≤ error.span.start := by
  rw [hscan.errors_eq_faults]
  exact fun error herror ↦ (Region.mem_faults_iff.mp herror).le_start

/-- A source text is rejected with all that the walk finds in it, if that is anything. -/
theorem ofSource_eq_error_iff {source : String} {errors : List SyntaxError} :
    Token.ofSource source = .error errors ↔
      errors = Region.code.faults 0 source.toList ∧ errors ≠ [] := by
  rw [Token.ofSource, ← Scan.errors_eq_faults]
  cases hscan : (Scan.ofText 0 source.toList).errors with
  | nil =>
    constructor
    · rintro ⟨⟩
    · rintro ⟨rfl, hne⟩
      exact absurd rfl hne
  | cons error others =>
    constructor
    · rintro ⟨⟩
      exact ⟨rfl, List.cons_ne_nil _ _⟩
    · rintro ⟨rfl, -⟩
      rfl

end Lox
