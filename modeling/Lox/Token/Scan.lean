import Lox.SyntaxError
import Lox.Text
import Lox.Token.Lexeme

/-!
# Scanning a source text

Between two lexemes stands a gap of blanks and comments, which `splitGap` takes off. `Scan.ofText`
goes through a text lexeme by lexeme and keeps both the tokens and the errors it meets: a character
that starts no lexeme is an error of its own and the scan goes on behind it, while a string that is
never closed takes the rest of the text with it. `Token.ofSource` is the whole scan of a source
text, which yields the tokens only if there is no error.

`splitGap_append` says that nothing is lost in taking a gap off.
-/

set_option autoImplicit false
set_option relaxedAutoImplicit false

namespace Lox

/-- Whether a character separates lexemes: a space, a tab, or one of the two line characters. -/
def isBlank (character : Char) : Bool :=
  character = ' ' || character = '\t' || character = '\r' || character = '\n'

/-- Splits a text into the blanks and comments it starts with and the rest. A comment goes from two
slashes to the next line feed; the flag says whether the text starts inside one. -/
def splitGap : Bool → List Char → List Char × List Char
  | _, [] => ([], [])
  | true, first :: tail =>
    let (gap, rest) := splitGap (first ≠ '\n') tail
    (first :: gap, rest)
  | false, first :: tail =>
    if isBlank first then
      let (gap, rest) := splitGap false tail
      (first :: gap, rest)
    else if first = '/' ∧ tail.head? = some '/' then
      let (gap, rest) := splitGap true tail
      (first :: gap, rest)
    else ([], first :: tail)

/-- A gap and what follows it make up the text. -/
theorem splitGap_append (inComment : Bool) (text : List Char) :
    (splitGap inComment text).1 ++ (splitGap inComment text).2 = text := by
  fun_induction splitGap inComment text <;> simp_all

theorem length_splitGap_le (inComment : Bool) (text : List Char) :
    (splitGap inComment text).2.length ≤ text.length := by
  have happend := congrArg List.length (splitGap_append inComment text)
  rw [List.length_append] at happend
  omega

/-! ### The scan -/

/-- What a scan finds: tokens and errors, each in the order of the text. -/
structure Scan where
  tokens : List Token
  errors : List SyntaxError

namespace Scan

/-- A scan that meets a token first. -/
def withToken (token : Token) (scan : Scan) : Scan :=
  { scan with tokens := token :: scan.tokens }

/-- A scan that meets an error first. -/
def withError (error : SyntaxError) (scan : Scan) : Scan :=
  { scan with errors := error :: scan.errors }

/-- The scan of nothing: the end of the input, at a given place. -/
def finished (offset : Nat) : Scan := ⟨[⟨.endOfInput, ⟨offset, offset⟩⟩], []⟩

/-- Scans a text that starts `offset` bytes into its source. -/
def ofText (offset : Nat) (text : List Char) : Scan :=
  let start := offset + byteLength (splitGap false text).1
  match _hrest : (splitGap false text).2 with
  | [] => finished start
  | first :: tail =>
    match _hread : Lexeme.read? (first :: tail) with
    | some lexeme =>
      let stop := start + byteLength lexeme.text
      (ofText stop lexeme.rest).withToken ⟨lexeme.kind, ⟨start, stop⟩⟩
    | none =>
      if first = '"' then
        let stop := start + byteLength (first :: tail)
        (finished stop).withError ⟨.unterminatedString, ⟨start, stop⟩⟩
      else
        let stop := start + first.utf8Size
        (ofText stop tail).withError ⟨.unexpectedCharacter first, ⟨start, stop⟩⟩
termination_by text.length
decreasing_by
  · have hgap := length_splitGap_le false text
    have hlexeme := Lexeme.length_rest_lt _hread
    rw [_hrest] at hgap
    omega
  · have hgap := length_splitGap_le false text
    rw [_hrest, List.length_cons] at hgap
    omega

end Scan

/-- The tokens of a source text, or every error among its characters. -/
def Token.ofSource (source : String) : Except (List SyntaxError) (List Token) :=
  let scan := Scan.ofText 0 source.toList
  if scan.errors.isEmpty then .ok scan.tokens else .error scan.errors

end Lox
