import Lox.Number.Shortest

/-!
# Number text

Numbers are doubles. `Number.text` writes one with the fewest digits that read back, always in
positional notation: no exponent, no point after a whole number, a `-` before a negative number and
before negative zero. `Number.ofNumeral` reads a numeral of digits with or without a fraction as
the nearest double, and `Number.ofText?` reads the wider form that a host may hand in, with a sign,
an exponent, or one of the words for infinity and for the value that is not a number.
-/

set_option autoImplicit false
set_option relaxedAutoImplicit false

namespace Lox.Number

/-- The value of a digit character. -/
def digitValue (character : Char) : Nat := character.toNat - '0'.toNat

/-- The number that a list of digit characters writes in base ten. -/
def ofDigits (digits : List Char) : Nat :=
  digits.foldl (fun value digit ↦ 10 * value + digitValue digit) 0

/-- A decimal in positional notation. Zeros are added behind the digits for a positive exponent, and
before them until one digit stands left of the point for a negative one. -/
def positional (decimal : Decimal) : List Char :=
  let digits := (toString decimal.digits).toList
  let places := (-decimal.exponent).toNat
  if places = 0 then
    digits ++ List.replicate decimal.exponent.toNat '0'
  else
    let padded := List.replicate (places + 1 - digits.length) '0' ++ digits
    padded.take (padded.length - places) ++ '.' :: padded.drop (padded.length - places)

/-- The text of a number. -/
def text (value : Float) : String :=
  let ordinal := Binary64.ordinal value
  let magnitude :=
    if ordinal = 0 then ['0']
    else if ordinal = Binary64.infinity then ['i', 'n', 'f']
    else positional (Decimal.shortest ordinal)
  if Binary64.infinity < ordinal then "NaN"
  else String.ofList (if Binary64.isNegative value then '-' :: magnitude else magnitude)

/-- The double nearest to a decimal. -/
def ofDecimal (decimal : Decimal) : Float :=
  Binary64.toFloat (Binary64.nearest decimal.numerator decimal.denominator)

/-- The double nearest to the numeral `whole.fraction`, both given by their digits. -/
def ofNumeral (whole fraction : List Char) : Float :=
  ofDecimal ⟨ofDigits (whole ++ fraction), -(fraction.length : Int)⟩

/-- Brings an exponent into a range beyond which every decimal with these digits rounds to zero or
to infinity. -/
def clampExponent (decimal : Decimal) : Decimal :=
  let lowest : Int := -(decimal.digits.log2 + 400)
  { decimal with exponent := max lowest (min decimal.exponent 400) }

/-- An integer written with an optional sign and at least one digit. -/
def signed? (characters : List Char) : Option Int :=
  let (negative, digits) :=
    match characters with
    | '-' :: digits => (true, digits)
    | '+' :: digits => (false, digits)
    | digits => (false, digits)
  if digits.isEmpty || !digits.all Char.isDigit then none
  else some (if negative then -(ofDigits digits : Int) else ofDigits digits)

/-- An unsigned number: digits with or without a fraction, of which one part may be empty, and an
optional exponent; or a word for infinity or for what is not a number, in either case. -/
def magnitude? (characters : List Char) : Option Float :=
  let whole := characters.takeWhile Char.isDigit
  let (fraction, rest) :=
    match characters.dropWhile Char.isDigit with
    | '.' :: rest => (rest.takeWhile Char.isDigit, rest.dropWhile Char.isDigit)
    | rest => ([], rest)
  let value (exponent : Int) : Float :=
    ofDecimal (clampExponent ⟨ofDigits (whole ++ fraction), exponent - fraction.length⟩)
  if whole.isEmpty && fraction.isEmpty then
    match (String.ofList characters).toLower with
    | "inf" | "infinity" => some (Binary64.toFloat Binary64.infinity)
    | "nan" => some (0.0 / 0.0)
    | _ => none
  else
    match rest with
    | [] => some (value 0)
    | 'e' :: exponent | 'E' :: exponent => (signed? exponent).map value
    | _ => none

/-- The number that a text writes, if it writes one. -/
def ofText? (text : String) : Option Float :=
  match text.toList with
  | '-' :: rest => (magnitude? rest).map (-·)
  | '+' :: rest => magnitude? rest
  | rest => magnitude? rest

end Lox.Number
