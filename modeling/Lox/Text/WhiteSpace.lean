/-!
# White space

The characters with the property of white space, which are more than those that separate the
lexemes of a program.
-/

set_option autoImplicit false
set_option relaxedAutoImplicit false

namespace Lox

/-- Whether a character is white space. -/
def isWhiteSpace (character : Char) : Bool :=
  let code := character.toNat
  (0x09 ≤ code && code ≤ 0x0D) || (0x2000 ≤ code && code ≤ 0x200A)
    || [0x20, 0x85, 0xA0, 0x1680, 0x2028, 0x2029, 0x202F, 0x205F, 0x3000].contains code

/-- A text without the white space at its start and its end. -/
def trimmed (text : String) : String :=
  let start := text.toList.dropWhile isWhiteSpace
  String.ofList (start.reverse.dropWhile isWhiteSpace).reverse

end Lox
