import Lox.Text.Printable

/-!
# Quoted text

A text in quotes, written so that it can be told from every other. Quotes and backslashes inside it
are preceded by a backslash, four characters have a letter or digit of their own, and every other
character that is not printable is written by its code point in base sixteen.
-/

set_option autoImplicit false
set_option relaxedAutoImplicit false

namespace Lox

/-- How a character is written between quotes. -/
def quotedCharacter (character : Char) : List Char :=
  if character = '"' ∨ character = '\\' then ['\\', character]
  else if character = '\t' then ['\\', 't']
  else if character = '\r' then ['\\', 'r']
  else if character = '\n' then ['\\', 'n']
  else if character.toNat = 0 then ['\\', '0']
  else if isPrintable character then [character]
  else ['\\', 'u', '\x7b'] ++ Nat.toDigits 16 character.toNat ++ ['\x7d']

/-- A text between quotes. -/
def quoted (text : String) : String :=
  String.ofList ('"' :: text.toList.flatMap quotedCharacter ++ ['"'])

end Lox
