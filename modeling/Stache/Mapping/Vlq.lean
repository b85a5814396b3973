/-
  Numbers in base 64, as source maps write them.

  A number is cut into groups of five bits, lowest first; every group but the last has 32 added, and
  each group is one character of the base-64 alphabet. The lowest bit of the first group is the
  sign.
-/

namespace Stache.Mapping

/-- The character of the base-64 alphabet that stands for `n` below 64. -/
def base64Char (n : Nat) : Char :=
  if n < 26 then Char.ofNat (65 + n)
  else if n < 52 then Char.ofNat (97 + (n - 26))
  else if n < 62 then Char.ofNat (48 + (n - 52))
  else if n = 62 then '+'
  else '/'

/-- The groups of five bits of `n`, lowest first, with the mark on all but the last. -/
def groups (n : Nat) : List Nat :=
  if n < 32 then [n] else (n % 32 + 32) :: groups (n / 32)
termination_by n
decreasing_by omega

/-- A signed number with its sign in the lowest bit. -/
def zigzag (i : Int) : Nat := if i < 0 then 2 * i.natAbs + 1 else 2 * i.natAbs

/-- A number in base 64. -/
def vlq (i : Int) : List Char := (groups (zigzag i)).map base64Char

end Stache.Mapping
