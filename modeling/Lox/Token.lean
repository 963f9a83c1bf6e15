import Lox.Number
import Lox.Span

/-!
# Tokens

A token has a kind and the range of bytes it was read from. The kinds with a fixed text are the
keywords and the symbols; `Keyword.all` and `Symbol.all` are their tables, and the texts are read
off `Keyword.text` and `Symbol.spelling` alone. Identifiers, numbers and strings carry what was
read, and `endOfInput` closes a scanned source text.

`TokenKind.describe` is how an error message names a token.
-/

set_option autoImplicit false
set_option relaxedAutoImplicit false

namespace Lox

/-! ### Keywords -/

/-- A word that is not an identifier. -/
inductive Keyword where
  | and
  | «class»
  | «else»
  | «false»
  | «fun»
  | «for»
  | «if»
  | nil
  | or
  | print
  | «return»
  | super
  | this
  | «true»
  | var
  | «while»
deriving DecidableEq, Repr

namespace Keyword

/-- The word itself. -/
def text : Keyword → String
  | and => "and"
  | «class» => "class"
  | «else» => "else"
  | «false» => "false"
  | «fun» => "fun"
  | «for» => "for"
  | «if» => "if"
  | nil => "nil"
  | or => "or"
  | print => "print"
  | «return» => "return"
  | super => "super"
  | this => "this"
  | «true» => "true"
  | var => "var"
  | «while» => "while"

/-- Every keyword. -/
def all : List Keyword :=
  [and, «class», «else», «false», «fun», «for», «if», nil, or, print, «return», super, this, «true»,
    var, «while»]

/-- The keyword with a given text, if there is one. -/
def ofText? (word : String) : Option Keyword := all.find? (·.text = word)

end Keyword

/-! ### Symbols -/

/-- An operator or a punctuation mark. -/
inductive Symbol where
  | bangEqual
  | equalEqual
  | lessEqual
  | greaterEqual
  | bang
  | equal
  | less
  | greater
  | leftParenthesis
  | rightParenthesis
  | leftBrace
  | rightBrace
  | comma
  | dot
  | minus
  | plus
  | semicolon
  | slash
  | star
deriving DecidableEq, Repr

namespace Symbol

/-- The characters of a symbol. -/
def spelling : Symbol → List Char
  | bangEqual => ['!', '=']
  | equalEqual => ['=', '=']
  | lessEqual => ['<', '=']
  | greaterEqual => ['>', '=']
  | bang => ['!']
  | equal => ['=']
  | less => ['<']
  | greater => ['>']
  | leftParenthesis => ['(']
  | rightParenthesis => [')']
  | leftBrace => ['{']
  | rightBrace => ['}']
  | comma => [',']
  | dot => ['.']
  | minus => ['-']
  | plus => ['+']
  | semicolon => [';']
  | slash => ['/']
  | star => ['*']

/-- The text of a symbol. -/
def text (symbol : Symbol) : String := String.ofList symbol.spelling

/-- Every symbol, those of two characters first, so that the first one that starts a text is also
the longest one. -/
def all : List Symbol :=
  [bangEqual, equalEqual, lessEqual, greaterEqual, bang, equal, less, greater, leftParenthesis,
    rightParenthesis, leftBrace, rightBrace, comma, dot, minus, plus, semicolon, slash, star]

/-- The longest symbol that a text starts with, if it starts with one. -/
def atStart? (text : List Char) : Option Symbol := all.find? (·.spelling.isPrefixOf text)

end Symbol

/-! ### Tokens -/

/-- What a token is, apart from where it stands. -/
inductive TokenKind where
  | identifier (name : String)
  | number (value : Float)
  | string (text : String)
  | keyword (word : Keyword)
  | symbol (mark : Symbol)
  | endOfInput
deriving DecidableEq

namespace TokenKind

instance : Inhabited TokenKind := ⟨endOfInput⟩

/-- How a message names a token. -/
def describe : TokenKind → String
  | identifier name => "identifier `" ++ name ++ "`"
  | number value => "number `" ++ Number.text value ++ "`"
  | string text => "string \"" ++ text ++ "\""
  | keyword word => "`" ++ word.text ++ "`"
  | symbol mark => "`" ++ mark.text ++ "`"
  | endOfInput => "end of input"

end TokenKind

/-- A token and its place in the source text. -/
structure Token where
  kind : TokenKind
  span : Span
deriving DecidableEq, Inhabited

end Lox
