import Lox.Proofs.Lexical.Form
import Lox.Proofs.Lexical.Gap

/-!
# Source texts as gaps and lexemes

A source text that can be read is a gap, a lexeme, a gap and so on, and a gap at its end.
`Decomposes` says so, and which tokens such a text has: one for each lexeme, with the bytes it
stands on, and one for the end. Each lexeme is the longest that the text behind its gap starts with.

It matters that the gaps are whole. If a comment may be taken for two slashes and what follows them,
the text `//` `"a`, line feed, `b"` is two slashes and a string, while a scan finds a comment, a
word and a string that is not closed (`slashes_before_string_decompose`). With whole gaps the tokens
of a scan without errors are those of the one decomposition that there is
(`ofSource_eq_ok_iff_decomposes`).

A scan is taken apart where its first gap ends (`Scan.ofText_eq_behindGap`), and so as a whole
(`Scan.GoesThrough`): what is proved of scans without errors and of their errors is proved by
induction on the pieces that a scan goes through.
-/

set_option autoImplicit false
set_option relaxedAutoImplicit false

namespace Lox

open Lexeme

/-- A text that starts `offset` bytes into its source is made of gaps and lexemes, and these are its
tokens. The gaps may be asked to be whole. -/
inductive Decomposes (wholeGaps : Bool) : Nat → List Char → List Token → Prop
  | finish {offset : Nat} {gap : List Char} : Gap [] gap →
    Decomposes wholeGaps offset gap
      [⟨.endOfInput, ⟨offset + byteLength gap, offset + byteLength gap⟩⟩]
  | lexeme {offset : Nat} {gap text rest : List Char} {kind : TokenKind} {tokens : List Token} :
    Gap (text ++ rest) gap → (wholeGaps → EndsGap (text ++ rest)) →
    IsLongest text kind (text ++ rest) →
    Decomposes wholeGaps (offset + byteLength gap + byteLength text) rest tokens →
    Decomposes wholeGaps offset (gap ++ (text ++ rest))
      (⟨kind, offset + byteLength gap, offset + byteLength gap + byteLength text⟩ :: tokens)

theorem EndsGap.nil : EndsGap [] := by
  intro first tail hnil
  cases hnil

/-- A text that starts with a lexeme and is not empty. -/
theorem Lexeme.Form.ne_nil {text : List Char} {kind : TokenKind} (hform : Form text kind) :
    text ≠ [] := by
  cases hform with
  | whole hne => exact hne
  | keyword word => cases word <;> decide
  | symbol mark => cases mark <;> decide
  | _ => simp

namespace Scan

/-- What is scanned behind a gap that is whole. -/
def behindGap (start : Nat) : List Char → Scan
  | [] => finished start
  | first :: tail =>
    match Lexeme.read? (first :: tail) with
    | some lexeme =>
      let stop := start + byteLength lexeme.text
      (ofText stop lexeme.rest).withToken ⟨lexeme.kind, start, stop⟩
    | none =>
      if first = '"' then
        let stop := start + byteLength (first :: tail)
        (finished stop).withError ⟨.unterminatedString, start, stop⟩
      else
        let stop := start + first.utf8Size
        (ofText stop tail).withError ⟨.unexpectedCharacter first, start, stop⟩

theorem ofText_eq_behindGap (offset : Nat) (text : List Char) :
    ofText offset text
      = behindGap (offset + byteLength (splitGap false text).1) (splitGap false text).2 := by
  rw [ofText]
  split
  · next hrest => rw [hrest, behindGap]
  · next first tail hrest =>
    rw [hrest, behindGap]
    split
    · next lexeme hread => rw [hread]
    · next hread => rw [hread]

/-- A lexeme behind a whole gap is found first. -/
theorem ofText_lexeme {gap text rest : List Char} {kind : TokenKind}
    (hgap : Gap (text ++ rest) gap) (hends : EndsGap (text ++ rest))
    (hlongest : IsLongest text kind (text ++ rest)) (offset : Nat) :
    let start := offset + byteLength gap
    let stop := start + byteLength text
    ofText offset (gap ++ (text ++ rest)) = (ofText stop rest).withToken ⟨kind, start, stop⟩ := by
  obtain ⟨first, tail, htext⟩ := List.exists_cons_of_ne_nil hlongest.form.ne_nil
  have hread := read?_eq_some_iff.mpr hlongest
  rw [ofText_eq_behindGap, splitGap_eq_iff.mpr ⟨hgap, hends⟩]
  rw [htext, List.cons_append] at hread ⊢
  rw [behindGap, hread]

/-- What a text that starts `offset` bytes into its source is made of, and what a scan of it finds:
gaps, and behind each whole one a lexeme, a string that is never closed or a character that starts
no lexeme. -/
inductive GoesThrough : Nat → List Char → Scan → Prop
  | finish {offset : Nat} {gap : List Char} : Gap [] gap →
    GoesThrough offset gap (finished (offset + byteLength gap))
  | lexeme {offset : Nat} {gap text rest : List Char} {kind : TokenKind} {scan : Scan} :
    Gap (text ++ rest) gap → EndsGap (text ++ rest) → IsLongest text kind (text ++ rest) →
    GoesThrough (offset + byteLength gap + byteLength text) rest scan →
    GoesThrough offset (gap ++ (text ++ rest)) (scan.withToken
      ⟨kind, offset + byteLength gap, offset + byteLength gap + byteLength text⟩)
  | openString {offset : Nat} {gap tail : List Char} : Gap ('"' :: tail) gap →
    EndsGap ('"' :: tail) → read? ('"' :: tail) = none →
    GoesThrough offset (gap ++ '"' :: tail)
      ((finished (offset + byteLength gap + byteLength ('"' :: tail))).withError
        ⟨.unterminatedString, offset + byteLength gap,
          offset + byteLength gap + byteLength ('"' :: tail)⟩)
  | stray {offset : Nat} {gap tail : List Char} {first : Char} {scan : Scan} :
    Gap (first :: tail) gap → EndsGap (first :: tail) → read? (first :: tail) = none →
    first ≠ '"' → GoesThrough (offset + byteLength gap + first.utf8Size) tail scan →
    GoesThrough offset (gap ++ first :: tail) (scan.withError ⟨.unexpectedCharacter first,
      offset + byteLength gap, offset + byteLength gap + first.utf8Size⟩)

theorem goesThrough_ofText (offset : Nat) (text : List Char) :
    GoesThrough offset text (ofText offset text) := by
  fun_induction ofText offset text with
  | case1 offset text start hrest =>
    have hgap := (Gap.from_splitGap false text).1
    have hall := splitGap_append false text
    rw [hrest, List.append_nil] at hall
    rw [hrest, hall] at hgap
    rw [show start = offset + byteLength text by rw [← hall]]
    exact .finish hgap
  | case2 offset text start first tail hrest lexeme hread stop ih =>
    obtain ⟨hgap, hends⟩ := Gap.from_splitGap false text
    have hall := splitGap_append false text
    have hcut := text_append_rest hread
    rw [hrest, ← hcut] at hgap hends hall
    rw [← hcut] at hread
    rw [← hall]
    exact .lexeme hgap hends (read?_eq_some_iff.mp hread) ih
  | case3 offset text start tail hrest hread stop =>
    obtain ⟨hgap, hends⟩ := Gap.from_splitGap false text
    have hall := splitGap_append false text
    rw [hrest] at hgap hends hall
    rw [← hall]
    exact .openString hgap hends hread
  | case4 offset text start first tail hrest hread hquote stop ih =>
    obtain ⟨hgap, hends⟩ := Gap.from_splitGap false text
    have hall := splitGap_append false text
    rw [hrest] at hgap hends hall
    rw [← hall]
    exact .stray hgap hends hread hquote ih

end Scan

/-! ### Scanning a text -/

/-- A scan without errors goes by the decomposition of the text. -/
theorem Scan.GoesThrough.decomposes {offset : Nat} {text : List Char} {scan : Scan}
    (hscan : GoesThrough offset text scan) (herrors : scan.errors = []) :
    Decomposes true offset text scan.tokens := by
  induction hscan with
  | finish hgap => exact .finish hgap
  | lexeme hgap hends hlongest _ ih => exact .lexeme hgap (fun _ ↦ hends) hlongest (ih herrors)
  | openString => cases herrors
  | stray => cases herrors

/-- The decomposition of a text into lexemes and whole gaps is what a scan finds. -/
theorem ofText_eq_of_decomposes {offset : Nat} {text : List Char} {tokens : List Token}
    (hdecomposes : Decomposes true offset text tokens) :
    Scan.ofText offset text = ⟨tokens, []⟩ := by
  induction hdecomposes with
  | @finish offset gap hgap =>
    have hsplit := splitGap_eq_iff.mpr ⟨hgap, EndsGap.nil⟩
    rw [List.append_nil] at hsplit
    rw [Scan.ofText_eq_behindGap, hsplit, Scan.behindGap, Scan.finished]
  | lexeme hgap hends hlongest _ ih =>
    rw [Scan.ofText_lexeme hgap (hends rfl) hlongest, ih, Scan.withToken]

/-- Exactly the texts that decompose into lexemes and whole gaps are scanned without errors, and
their tokens are those of the decomposition. -/
theorem ofText_eq_iff_decomposes {offset : Nat} {text : List Char} {tokens : List Token} :
    Scan.ofText offset text = ⟨tokens, []⟩ ↔ Decomposes true offset text tokens := by
  constructor
  · intro hscan
    have hthrough := Scan.goesThrough_ofText offset text
    rw [hscan] at hthrough
    exact hthrough.decomposes rfl
  · exact ofText_eq_of_decomposes

theorem ofSource_eq_ok_iff_decomposes {source : String} {tokens : List Token} :
    Token.ofSource source = .ok tokens ↔ Decomposes true 0 source.toList tokens := by
  rw [← ofText_eq_iff_decomposes, Token.ofSource]
  generalize Scan.ofText 0 source.toList = scan
  obtain ⟨found, errors⟩ := scan
  cases errors <;> simp

end Lox
