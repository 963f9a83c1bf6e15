import Lox.Proofs.Lexical.Faults
import Lox.Proofs.Lexical.Layout
import Mathlib.Data.List.Forall2

/-!
# Repairing a source text

A source text with errors among its characters is repaired from its errors alone: spaces are put in
place of the characters that are reported, as many as each has bytes, and a quote behind the end if
a string is still open there (`mend`). Then it can be scanned, and its tokens are those that have
been found in the text as it was, on the same bytes, and the string that is closed now
(`Scan.GoesThrough.exists_repair`).

A lexeme stays the longest one at its place. The first difference behind it is a space or a quote,
with which no lexeme goes on. The gap before a character that is replaced is whole, so that the
spaces only make it longer.
-/

set_option autoImplicit false
set_option relaxedAutoImplicit false

namespace Lox

open Lexeme

/-- A text that starts `offset` bytes into its source, with spaces in place of the characters that
errors are reported at. -/
def blankOut (errors : List SyntaxError) : Nat → List Char → List Char
  | _, [] => []
  | offset, first :: tail =>
    let next := offset + first.utf8Size
    (if ⟨.unexpectedCharacter first, offset, next⟩ ∈ errors then
      List.replicate first.utf8Size ' ' else [first]) ++ blankOut errors next tail

/-- The quote that an open string lacks. -/
def closing (errors : List SyntaxError) : List Char :=
  if ∃ error ∈ errors, error.cause = .unterminatedString then ['"'] else []

/-- A text without what is wrong with it according to some errors. -/
def mend (errors : List SyntaxError) (offset : Nat) (text : List Char) : List Char :=
  blankOut errors offset text ++ closing errors

theorem byteLength_spaces (count : Nat) : byteLength (List.replicate count ' ') = count := by
  induction count with
  | zero => rfl
  | succ count ih =>
    rw [List.replicate_succ, byteLength_cons, ih, Nat.add_comm]
    rfl

/-- What stands before all errors stays as it is. -/
theorem blankOut_append {errors : List SyntaxError} {offset : Nat} {first : List Char}
    (herrors : ∀ error ∈ errors, offset + byteLength first ≤ error.span.start)
    (second : List Char) :
    blankOut errors offset (first ++ second)
      = first ++ blankOut errors (offset + byteLength first) second := by
  induction first generalizing offset with
  | nil => rfl
  | cons character first ih =>
    have hnot : ⟨.unexpectedCharacter character, offset, offset + character.utf8Size⟩ ∉ errors := by
      intro hmem
      have hle := herrors _ hmem
      have hpos := character.utf8Size_pos
      simp only [byteLength_cons] at hle
      omega
    rw [byteLength_cons, ← Nat.add_assoc] at herrors ⊢
    rw [List.cons_append, blankOut, if_neg hnot, ih herrors]
    rfl

/-- An error before a text makes no difference to it. -/
theorem blankOut_cons {error : SyntaxError} {offset : Nat} (herror : error.span.start < offset)
    (errors : List SyntaxError) (text : List Char) :
    blankOut (error :: errors) offset text = blankOut errors offset text := by
  induction text generalizing offset with
  | nil => rfl
  | cons first tail ih =>
    have hne : ⟨.unexpectedCharacter first, offset, offset + first.utf8Size⟩ ≠ error := by
      rintro rfl
      exact Nat.lt_irrefl _ herror
    rw [blankOut, blankOut, ih (Nat.lt_add_right _ herror)]
    simp only [List.mem_cons, hne, false_or]

/-- Without an error at a character nothing is replaced. -/
theorem blankOut_eq_self {errors : List SyntaxError}
    (herrors : ∀ character span, ⟨.unexpectedCharacter character, span⟩ ∉ errors) (offset : Nat)
    (text : List Char) : blankOut errors offset text = text := by
  induction text generalizing offset with
  | nil => rfl
  | cons first tail ih =>
    rw [blankOut, if_neg (herrors _ _), ih]
    rfl

/-- A text is mended behind some part of it, and the first difference is a space or a quote. -/
theorem exists_mend_eq_append (errors : List SyntaxError) (offset : Nat) (text : List Char) :
    ∃ same rest other, text = same ++ rest ∧ mend errors offset text = same ++ other ∧
      ∀ next ∈ other.head?, Separates next ∧ next ≠ '/' := by
  induction text generalizing offset with
  | nil =>
    refine ⟨[], [], closing errors, rfl, rfl, ?_⟩
    rw [closing]
    split
    · rintro _ ⟨⟩
      decide
    · rintro _ ⟨⟩
  | cons first tail ih =>
    rw [mend, blankOut]
    split
    · refine ⟨[], first :: tail, _, rfl, rfl, ?_⟩
      obtain ⟨count, hcount⟩ : ∃ count, first.utf8Size = count + 1 :=
        ⟨first.utf8Size - 1, by have := first.utf8Size_pos; omega⟩
      rw [hcount, List.replicate_succ]
      rintro _ ⟨⟩
      decide
    · obtain ⟨same, rest, other, rfl, hmend, hother⟩ := ih (offset + first.utf8Size)
      refine ⟨first :: same, rest, other, rfl, ?_, hother⟩
      rw [List.append_assoc, ← mend, hmend]
      rfl

/-! ### Scanning the mended text -/

/-- A lexeme before a text that is mended. -/
theorem Decomposes.lexeme_mend {offset start : Nat} {gap text rest : List Char} {kind : TokenKind}
    {tokens : List Token} (hgap : Gap (text ++ rest) gap) (hends : EndsGap (text ++ rest))
    (hlongest : IsLongest text kind (text ++ rest)) (errors : List SyntaxError)
    (hmore : Decomposes true (offset + byteLength gap + byteLength text) (mend errors start rest)
      tokens) :
    Decomposes true offset (gap ++ (text ++ mend errors start rest))
      (⟨kind, offset + byteLength gap, offset + byteLength gap + byteLength text⟩ :: tokens) := by
  obtain ⟨same, later, other, rfl, hmend, hother⟩ := exists_mend_eq_append errors start rest
  obtain ⟨first, tail, hstart⟩ := List.exists_cons_of_ne_nil hlongest.form.ne_nil
  have hsame : EndsGap (text ++ same) := hends.exchange hlongest.form.ne_nil fun hslash ↦
    .inl (by rw [List.head?_append, hslash]; rfl)
  have hbefore : Gap (text ++ same) gap := by
    rw [hstart] at hgap ⊢
    have hhead : (first :: tail ++ same).head? = (first :: tail ++ (same ++ later)).head? := rfl
    exact Gap.of_head?_eq hhead hgap
  rw [hmend] at hmore ⊢
  have hlexeme := Decomposes.lexeme_append hbefore hsame hlongest.initial hother hmore
  simpa only [List.append_assoc] using hlexeme

/-- The string that a quote behind the end closes, from the quote that opens it. -/
def ClosesString (offset : Nat) (text : List Char) (error : SyntaxError) (token : Token) : Prop :=
  ∃ before body, text = before ++ '"' :: body ∧ error.span.start = offset + byteLength before ∧
    token = ⟨.string (String.ofList body), error.span.start, error.span.stop + 1⟩

theorem ClosesString.append {offset : Nat} {text : List Char} {error : SyntaxError} {token : Token}
    (start : List Char) (hcloses : ClosesString (offset + byteLength start) text error token) :
    ClosesString offset (start ++ text) error token := by
  obtain ⟨before, body, rfl, hstart, htoken⟩ := hcloses
  refine ⟨start ++ before, body, by rw [List.append_assoc], ?_, htoken⟩
  rw [hstart, byteLength_append, Nat.add_assoc]

/-- The errors of open strings. -/
def openStrings (errors : List SyntaxError) : List SyntaxError :=
  errors.filter (·.cause = .unterminatedString)

/-- The token for the end of a source text of so many bytes. -/
def Token.endAt (place : Nat) : Token := ⟨.endOfInput, place, place⟩

theorem Gap.spaces (rest : List Char) (count : Nat) : Gap rest (List.replicate count ' ') := by
  induction count with
  | zero => exact .nil
  | succ count ih => exact .blank (by decide) ih

/-- Spaces make a gap longer. -/
theorem Decomposes.after_spaces {offset count : Nat} {gap text : List Char} {tokens : List Token}
    (hgap : Gap.Closed gap)
    (hdecomposes : Decomposes true (offset + byteLength gap + count) text tokens) :
    Decomposes true offset (gap ++ (List.replicate count ' ' ++ text)) tokens := by
  exact .after_gap (hgap _) (.after_gap (.spaces _ _) (by rwa [byteLength_spaces]))

namespace Scan

/-- The mended text can be scanned, and it has the tokens that a scan has recognised in the text as
it was and those of the strings that are closed now. -/
structure Repair (offset : Nat) (text : List Char) (scan : Scan)
    (recognised strings : List Token) : Prop where
  tokens_eq : scan.tokens = recognised ++ [.endAt (offset + byteLength text)]
  decomposes : Decomposes true offset (mend scan.errors offset text)
    (recognised ++ strings ++ [.endAt (offset + byteLength (mend scan.errors offset text))])
  closes : List.Forall₂ (ClosesString offset text) (openStrings scan.errors) strings

namespace Repair

variable {offset : Nat} {gap rest : List Char} {scan : Scan} {recognised strings : List Token}

/-- Nothing but a gap. -/
theorem finish (hgap : Gap [] gap) :
    Repair offset gap (finished (offset + byteLength gap)) [] [] where
  tokens_eq := rfl
  decomposes := by
    have hmend : mend (finished (offset + byteLength gap)).errors offset gap = gap := by
      rw [mend, finished, blankOut_eq_self (by simp)]
      simp [closing]
    rw [hmend]
    exact .finish hgap
  closes := .nil

/-- A lexeme before what is repaired. -/
theorem lexeme {text : List Char} {kind : TokenKind} (hgap : Gap (text ++ rest) gap)
    (hends : EndsGap (text ++ rest)) (hlongest : IsLongest text kind (text ++ rest))
    (herrors : ∀ error ∈ scan.errors,
      offset + byteLength gap + byteLength text ≤ error.span.start)
    (hrest : Repair (offset + byteLength gap + byteLength text) rest scan recognised strings) :
    let token : Token :=
      ⟨kind, offset + byteLength gap, offset + byteLength gap + byteLength text⟩
    Repair offset (gap ++ (text ++ rest)) (scan.withToken token) (token :: recognised) strings := by
  have hlength : offset + byteLength (gap ++ text)
      = offset + byteLength gap + byteLength text := by rw [byteLength_append, Nat.add_assoc]
  have hmend : mend scan.errors offset (gap ++ (text ++ rest)) = gap ++ (text ++
      mend scan.errors (offset + byteLength gap + byteLength text) rest) := by
    rw [mend, ← List.append_assoc, blankOut_append (by rwa [hlength]), hlength, mend]
    simp only [List.append_assoc]
  refine ⟨?_, ?_, ?_⟩
  · simp only [withToken, hrest.tokens_eq, byteLength_append, Nat.add_assoc, List.cons_append]
  · have hdecomposes := Decomposes.lexeme_mend hgap hends hlongest scan.errors hrest.decomposes
    simp only [withToken, hmend, byteLength_append, List.cons_append]
    simpa only [Nat.add_assoc] using hdecomposes
  · refine hrest.closes.imp fun error token hcloses ↦ ?_
    rw [← List.append_assoc]
    exact .append _ (by rwa [hlength])

/-- A character that is replaced before what is repaired. -/
theorem stray {first : Char} (hgap : Gap (first :: rest) gap) (hends : EndsGap (first :: rest))
    (herrors : ∀ error ∈ scan.errors,
      offset + byteLength gap + first.utf8Size ≤ error.span.start)
    (hrest : Repair (offset + byteLength gap + first.utf8Size) rest scan recognised strings) :
    Repair offset (gap ++ first :: rest) (scan.withError ⟨.unexpectedCharacter first,
      offset + byteLength gap, offset + byteLength gap + first.utf8Size⟩) recognised strings := by
  have hlength : offset + byteLength (gap ++ [first])
      = offset + byteLength gap + first.utf8Size := by
    rw [byteLength_append, byteLength_cons, byteLength_nil, Nat.add_zero, Nat.add_assoc]
  have hpos := first.utf8Size_pos
  generalize herror : (⟨.unexpectedCharacter first, offset + byteLength gap,
    offset + byteLength gap + first.utf8Size⟩ : SyntaxError) = error
  have hall : ∀ other ∈ error :: scan.errors, offset + byteLength gap ≤ other.span.start := by
    refine List.forall_mem_cons.mpr ⟨by rw [← herror], fun other hother ↦ ?_⟩
    have hle := herrors other hother
    omega
  have hstart : error.span.start < offset + byteLength gap + first.utf8Size := by
    rw [← herror]
    exact Nat.lt_add_of_pos_right hpos
  have hclosing : closing (error :: scan.errors) = closing scan.errors := by
    simp [closing, ← herror]
  have hmend : mend (error :: scan.errors) offset (gap ++ first :: rest)
      = gap ++ (List.replicate first.utf8Size ' ' ++
        mend scan.errors (offset + byteLength gap + first.utf8Size) rest) := by
    rw [mend, blankOut_append hall, blankOut, herror, if_pos List.mem_cons_self,
      blankOut_cons hstart, hclosing, mend]
    simp only [List.append_assoc]
  refine ⟨?_, ?_, ?_⟩
  · simp only [withError, hrest.tokens_eq, byteLength_append, byteLength_cons, Nat.add_assoc]
  · have hbehind := Decomposes.after_spaces (hgap.before hends (List.cons_ne_nil _ _))
      hrest.decomposes
    simp only [withError, hmend, byteLength_append, byteLength_spaces]
    simpa only [Nat.add_assoc] using hbehind
  · have hopen : openStrings (error :: scan.errors) = openStrings scan.errors := by
      simp [openStrings, ← herror]
    rw [withError, hopen]
    refine hrest.closes.imp fun other token hcloses ↦ ?_
    rw [← List.singleton_append, ← List.append_assoc]
    exact .append _ (by rwa [hlength])

/-- A string that is closed behind the end. -/
theorem openString {body : List Char} (hgap : Gap ('"' :: body) gap)
    (hends : EndsGap ('"' :: body)) (hbody : '"' ∉ body) :
    let start := offset + byteLength gap
    let stop := start + byteLength ('"' :: body)
    Repair offset (gap ++ '"' :: body)
      ((finished stop).withError ⟨.unterminatedString, start, stop⟩) []
      [⟨.string (String.ofList body), start, stop + 1⟩] := by
  intro start stop
  have hmend : mend ((finished stop).withError ⟨.unterminatedString, start, stop⟩).errors offset
      (gap ++ '"' :: body) = gap ++ (('"' :: body ++ ['"']) ++ []) := by
    rw [mend, withError, finished, blankOut_eq_self (by simp)]
    simp [closing]
  refine ⟨?_, ?_, ?_⟩
  · simp [withError, finished, Token.endAt, stop, start, Nat.add_assoc]
  · have hform : Form ('"' :: body ++ ['"']) (.string (String.ofList body)) := .string hbody
    have halone : IsLongest _ _ ('"' :: body ++ ['"'] ++ []) :=
      hform.isLongest_of_blank (by simp)
    have hwhole : EndsGap ('"' :: body ++ ['"'] ++ []) :=
      hform.endsGap.append hform.ne_nil (by simp)
    have hend : Decomposes true (start + byteLength ('"' :: body ++ ['"'])) [] _ := .finish .nil
    have hdecomposes : Decomposes true offset _ _ :=
      .lexeme (hgap.before hends (List.cons_ne_nil _ _) _) (fun _ ↦ hwhole) halone hend
    have hquote : byteLength ['"'] = 1 := rfl
    rw [byteLength_append, hquote, byteLength_nil, Nat.add_zero] at hdecomposes
    rw [hmend, List.append_nil, byteLength_append, byteLength_append, hquote]
    simp only [Nat.add_assoc, List.append_nil, start, stop] at hdecomposes ⊢
    exact hdecomposes
  · exact .cons ⟨gap, body, rfl, rfl, rfl⟩ .nil

end Repair

/-- Whatever a scan goes through, the text can be repaired. -/
theorem GoesThrough.exists_repair {offset : Nat} {text : List Char} {scan : Scan}
    (hscan : GoesThrough offset text scan) :
    ∃ recognised strings, Repair offset text scan recognised strings := by
  induction hscan with
  | finish hgap => exact ⟨[], [], .finish hgap⟩
  | lexeme hgap hends hlongest hrest ih =>
    obtain ⟨recognised, strings, hrepair⟩ := ih
    exact ⟨_, strings, .lexeme hgap hends hlongest hrest.le_start hrepair⟩
  | openString hgap hends hread =>
    exact ⟨_, _, .openString hgap hends (quote_not_mem_of_read?_eq_none hread)⟩
  | stray hgap hends _ _ hrest ih =>
    obtain ⟨recognised, strings, hrepair⟩ := ih
    exact ⟨recognised, strings, .stray hgap hends hrest.le_start hrepair⟩

end Scan

/-! ### Source texts that are rejected -/

/-- What the errors say that a source text is rejected with. They stand on pieces of it that are not
empty, one behind another. There is one for each character outside of strings and comments that is
not blank and starts no lexeme, on just this character, which it names, and one for a quote outside
of them that is never followed by another one, up to the end of the text and behind all other
errors. The text that is mended accordingly has the tokens that have been recognised in it as it
was, on the same bytes, and the string that is closed. -/
structure ExactErrors (source : String) (errors : List SyntaxError) : Prop where
  inOrder : errors.Pairwise fun first second ↦ first.span.stop ≤ second.span.start
  start_lt_stop : ∀ error ∈ errors, error.span.start < error.span.stop
  mem_iff : ∀ error, error ∈ errors ↔ Region.code.Fault 0 source.toList error
  open_last : ∀ error ∈ errors.dropLast, error.cause ≠ .unterminatedString
  exists_repair : ∃ recognised strings,
    (Scan.ofText 0 source.toList).tokens = recognised ++ [.endAt source.utf8ByteSize] ∧
    List.Forall₂ (ClosesString 0 source.toList) (openStrings errors) strings ∧
    Token.ofSource (String.ofList (mend errors 0 source.toList)) = .ok (recognised ++ strings ++
      [.endAt (String.ofList (mend errors 0 source.toList)).utf8ByteSize])

/-- A source text is rejected exactly if something is wrong with one of its characters or a string
is left open, and then its errors are exact and it can be repaired from them. -/
theorem ofSource_rejected (source : String) :
    ((∃ errors, Token.ofSource source = .error errors) ↔
      ∃ error, Region.code.Fault 0 source.toList error) ∧
    ∀ errors, Token.ofSource source = .error errors → ExactErrors source errors := by
  constructor
  · constructor
    · rintro ⟨errors, herrors⟩
      obtain ⟨rfl, hne⟩ := ofSource_eq_error_iff.mp herrors
      obtain ⟨error, herror⟩ := List.exists_mem_of_ne_nil _ hne
      exact ⟨error, Region.mem_faults_iff.mp herror⟩
    · rintro ⟨error, hfault⟩
      exact ⟨_, ofSource_eq_error_iff.mpr
        ⟨rfl, List.ne_nil_of_mem (Region.mem_faults_iff.mpr hfault)⟩⟩
  · intro errors herrors
    obtain ⟨rfl, -⟩ := ofSource_eq_error_iff.mp herrors
    refine ⟨Region.pairwise_faults _ _ _, fun error herror ↦ ?_, fun error ↦ Region.mem_faults_iff,
      fun error herror ↦ Region.cause_ne_of_mem_dropLast herror, ?_⟩
    · exact (Region.mem_faults_iff.mp herror).start_lt_stop.1
    · obtain ⟨recognised, strings, htokens, hdecomposes, hcloses⟩ :=
        (Scan.goesThrough_ofText 0 source.toList).exists_repair
      rw [Scan.errors_eq_faults, Nat.zero_add] at hdecomposes
      rw [Scan.errors_eq_faults] at hcloses
      rw [byteLength_toList, Nat.zero_add] at htokens
      refine ⟨recognised, strings, htokens, hcloses, ?_⟩
      rw [ofSource_eq_ok_iff_decomposes, String.toList_ofList, utf8ByteSize_ofList]
      exact hdecomposes

/-- A character of two bytes, and a string that is left open with another one in it. -/
theorem ofSource_rejected_open_string :
    let source := "a§b \"c§"
    let errors : List SyntaxError :=
      [⟨.unexpectedCharacter '§', 1, 3⟩, ⟨.unterminatedString, 5, 9⟩]
    Token.ofSource source = .error errors ∧
      String.ofList (mend errors 0 source.toList) = "a  b \"c§\"" ∧
      ExactErrors source errors := by
  intro source errors
  have herrors : Token.ofSource source = .error errors := by decide +kernel
  exact ⟨herrors, by decide +kernel, (ofSource_rejected source).2 errors herrors⟩

end Lox
