import Lox.Bounded
import Lox.SyntaxError

/-!
# The cursor

Tokens are read from left to right through a `Cursor`: the tokens still to come, the one passed
last, the errors reported so far and the number of function bodies that are open. A `Parse` is a
bounded computation on cursors. It may fail with one error, which stops what is being read, and it
may report errors along the way, which does not.

A list of tokens may end with a token for the end of the input, lack one, or have one in its middle;
`Cursor.isAtEnd` holds at such a token and behind the last one. The place of an error behind the
last token is that of the last token.

`Cursor.resynchronize` is how reading goes on after a failure: one token is dropped, and then all
up to a place where a statement may begin or a block may end.
-/

set_option autoImplicit false
set_option relaxedAutoImplicit false

namespace Lox

/-- A place in a list of tokens, and what has been found before it. -/
structure Cursor where
  passed : Option Token
  rest : List Token
  reported : List SyntaxError
  depth : Nat

namespace Cursor

/-- The cursor before the first token. -/
def start (tokens : List Token) : Cursor := ⟨none, tokens, [], 0⟩

/-- The kind of the next token. -/
def next? (cursor : Cursor) : Option TokenKind := cursor.rest.head?.map Token.kind

/-- Whether the next token is of a given kind. -/
def isAt (cursor : Cursor) (kind : TokenKind) : Bool := cursor.next? = some kind

/-- Whether nothing is left to read. -/
def isAtEnd (cursor : Cursor) : Bool :=
  cursor.next? = none || cursor.next? = some .endOfInput

/-- The place of the token passed last, or the start of the text if there is none. -/
def passedSpan (cursor : Cursor) : Span := (cursor.passed.map Token.span).getD .origin

/-- The place of the next token, or of the last one if none is left. -/
def place (cursor : Cursor) : Span :=
  match cursor.rest with
  | token :: _ => token.span
  | [] => cursor.passedSpan

/-- Passes the next token, if there is one. -/
def advance (cursor : Cursor) : Cursor :=
  match cursor.rest with
  | token :: rest => { cursor with passed := some token, rest }
  | [] => cursor

/-- Adds an error to those reported. -/
def report (error : SyntaxError) (cursor : Cursor) : Cursor :=
  { cursor with reported := cursor.reported ++ [error] }

/-- Whether a statement may begin or a block may end with a token of this kind. -/
def isBoundary : TokenKind → Bool
  | .keyword .class | .keyword .fun | .keyword .var | .keyword .for | .keyword .if
  | .keyword .while | .keyword .print | .keyword .return => true
  | .symbol .rightBrace => true
  | _ => false

/-- Passes tokens up to the end of the input, up to a boundary, or until a semicolon has been
passed. -/
def skipStatement (passed : Option Token) : List Token → Option Token × List Token
  | [] => (passed, [])
  | token :: rest =>
    if token.kind = .endOfInput || passed.map Token.kind = some (.symbol .semicolon)
        || isBoundary token.kind then
      (passed, token :: rest)
    else skipStatement (some token) rest

/-- Drops one token, whatever it is, and then the remains of a statement that could not be read. -/
def resynchronize (cursor : Cursor) : Cursor :=
  let cursor := cursor.advance
  let (passed, rest) := skipStatement cursor.passed cursor.rest
  { cursor with passed, rest }

end Cursor

/-! ### Elementary steps -/

/-- A reading of tokens that yields a value or fails with one error. -/
abbrev Parse := Bounded Cursor SyntaxError

namespace Parse

variable {α : Type}

/-- Passes the next token. -/
def advance : Parse Unit := .modify Cursor.advance

/-- Whether the next token is of a given kind. -/
def isAt (kind : TokenKind) : Parse Bool := .gets (·.isAt kind)

/-- Passes the next token if it is of a given kind, and tells whether it was. -/
def accept (kind : TokenKind) : Parse Bool :=
  .update fun cursor ↦ if cursor.isAt kind then (true, cursor.advance) else (false, cursor)

/-- Reports an error and goes on. -/
def report (error : SyntaxError) : Parse Unit := .modify (·.report error)

/-- Reports an error at the next token and goes on. -/
def reportHere (cause : SyntaxCause) : Parse Unit :=
  .modify fun cursor ↦ cursor.report ⟨cause, cursor.place⟩

/-- Fails at the next token. -/
def failHere (cause : SyntaxCause) : Parse α := fun cursor ↦
  .failed ⟨cause, cursor.place⟩ cursor

/-- Passes the next token, which has to be of a given kind, and yields its place. -/
def expect (kind : TokenKind) : Parse Span := do
  let found ← .gets Cursor.next?
  if ← accept kind then .gets Cursor.passedSpan
  else failHere (.unexpectedToken kind found)

/-- Passes an identifier, which has to stand at a given kind of place. -/
def identifier (place : NamePlace) : Parse Identifier := do
  match ← .gets Cursor.next? with
  | some (.identifier name) =>
    advance
    let span ← .gets Cursor.passedSpan
    pure ⟨name, span⟩
  | _ => failHere (.missingName place)

/-- One or more items with commas between them. The `count` is the number of items before the first
one; an item beyond the largest number allowed is reported, and reading goes on. -/
def separated (item : Parse α) (tooMany : SyntaxCause) : Nat → Nat → Parse (List α)
  | 0, _ => .exhausted
  | bound + 1, count => do
    if maximumArguments ≤ count then reportHere tooMany
    let first ← item
    if ← accept (.symbol .comma) then
      let others ← separated item tooMany bound (count + 1)
      pure (first :: others)
    else pure [first]

/-- A list of items in parentheses, of which the first has been passed, and the place of the last.
-/
def parenthesized (item : Parse α) (tooMany : SyntaxCause) (bound : Nat) :
    Parse (List α × Span) := do
  let items ←
    if ← isAt (.symbol .rightParenthesis) then pure []
    else separated item tooMany bound 0
  let close ← expect (.symbol .rightParenthesis)
  pure (items, close)

/-- Reads something inside one more function body. -/
def insideFunction (body : Parse α) : Parse α :=
  .within (fun cursor ↦ ((), { cursor with depth := cursor.depth + 1 }))
    (fun _ cursor ↦ { cursor with depth := cursor.depth - 1 }) body

end Parse

end Lox
