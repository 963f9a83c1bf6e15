/-!
# Lines

Bytes are divided into lines at each line feed, which is not part of a line; neither is a carriage
return right before it. What follows the last line feed is a line if there is anything. A line is a
text only if its bytes are the UTF-8 form of one.
-/

set_option autoImplicit false
set_option relaxedAutoImplicit false

namespace Lox

/-- The lines of some bytes, the first of which also has the bytes given in reverse before them. -/
def linesAfter (start : List UInt8) : List UInt8 → List (List UInt8)
  | [] => if start.isEmpty then [] else [start.reverse]
  | byte :: others =>
    if byte = 10 then
      let line := if start.head? = some 13 then start.tail else start
      line.reverse :: linesAfter [] others
    else linesAfter (byte :: start) others

/-- The lines of some bytes, of which those that are not texts are missing. -/
def linesOfBytes (bytes : ByteArray) : List (Option String) :=
  (linesAfter [] bytes.toList).map fun line ↦ String.fromUTF8? line.toByteArray

end Lox
