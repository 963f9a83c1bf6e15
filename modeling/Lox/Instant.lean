/-!
# Instants

A date and a time of day, as the clock of a host gives them. `Instant.time` and `Instant.date` are
their texts: two digits for everything but the year and the month, and the English abbreviation of
the month's name. A year has at least four digits, with a sign before it if it is negative or has
more than four.
-/

set_option autoImplicit false
set_option relaxedAutoImplicit false

namespace Lox

/-- A date of the calendar and a time of day. Months are counted from one. -/
structure Instant where
  year : Int
  month : Nat
  day : Nat
  hour : Nat
  minute : Nat
  second : Nat
deriving DecidableEq, Repr

namespace Instant

/-- A number in base ten with zeros before it, up to a given length. -/
def padded (length value : Nat) : String :=
  let digits := (toString value).toList
  String.ofList (List.replicate (length - digits.length) '0' ++ digits)

/-- The names of the months. -/
def months : List String :=
  ["Jan", "Feb", "Mar", "Apr", "May", "Jun", "Jul", "Aug", "Sep", "Oct", "Nov", "Dec"]

/-- The text of a year. -/
def yearText (year : Int) : String :=
  let digits := padded 4 year.natAbs
  if year < 0 then "-" ++ digits else if 9999 < year then "+" ++ digits else digits

/-- The time of day, as `09:05:03`. -/
def time (instant : Instant) : String :=
  padded 2 instant.hour ++ ":" ++ padded 2 instant.minute ++ ":" ++ padded 2 instant.second

/-- The date, as `2024-Mar-07`. -/
def date (instant : Instant) : String :=
  yearText instant.year ++ "-" ++ months.getD (instant.month - 1) "" ++ "-" ++ padded 2 instant.day

end Instant

end Lox
