/-
  Numerals: an optional minus sign, decimal digits, and an optional fraction.

  A numeral denotes a decimal exactly: the digits before and after the point taken together, and
  minus the count of those after it as the exponent. Its float is the nearest one, with the sign
  kept on a zero.
-/
import Stache.Decimal.Shortest

namespace Stache.Decimal

/-- The natural number that decimal digits write. -/
def natOfDigits (digits : List Char) : Nat :=
  digits.foldl (fun n c => n * 10 + (c.toNat - '0'.toNat)) 0

/-- The decimal that an unsigned numeral denotes. -/
def ofUnsigned (s : List Char) : Decimal :=
  let whole := s.takeWhile Char.isDigit
  let fraction := (s.dropWhile Char.isDigit).drop 1
  ⟨natOfDigits (whole ++ fraction), -(fraction.length : Int)⟩

/-- The float nearest to what a numeral denotes. -/
def floatOfNumeral (s : List Char) : Float :=
  match s with
  | '-' :: t => -(ofUnsigned t).toFloat
  | _ => (ofUnsigned s).toFloat

end Stache.Decimal
