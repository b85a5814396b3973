/-
  Decimal numerals and binary floating point numbers.

  A decimal is `digits * 10 ^ exponent`. Three things are done with them here.

    1. `Decimal.toFloat` gives the nearest float of a decimal, ties to even.
    2. `Float.shortest` gives the decimal with the fewest digits among those that are nearer to a
       positive finite float than to any other, and of these the one nearest to it. The float is
       `m * 2 ^ q` exactly, and the reals nearest to it are an interval around it, ends included
       when `m` is even. For 1, 2, up to 17 digits the two points of the decimal grid next to the
       float are tried, in exact arithmetic on natural numbers. Seventeen digits always do.
    3. A decimal is written positionally, or with an exponent where a format asks for it.
-/

namespace Stache

/-- The number `digits * 10 ^ exponent`. -/
structure Decimal where
  digits : Nat
  exponent : Int
deriving DecidableEq, Repr

namespace Decimal

/-- The nearest float. -/
def toFloat (d : Decimal) : Float := Float.ofScientific d.digits (d.exponent < 0) d.exponent.natAbs

/-! ## The shortest decimal of a float -/

/-- A positive rational number. -/
structure Ratio where
  num : Nat
  den : Nat

/-- The point `n * 10 ^ g` of the decimal grid `g`. -/
def Ratio.ofGrid (n : Nat) (g : Int) : Ratio :=
  if 0 ≤ g then ⟨n * Nat.pow 10 g.natAbs, 1⟩ else ⟨n, Nat.pow 10 g.natAbs⟩

/-- The order of two ratios, found by multiplying across. -/
def Ratio.lt (a b : Ratio) : Bool := a.num * b.den < b.num * a.den

/-- Whether two ratios are one number. -/
def Ratio.eq (a b : Ratio) : Bool := a.num * b.den = b.num * a.den

/-- The number of the last point of the grid `g` that is not beyond `r`. -/
def Ratio.gridFloor (r : Ratio) (g : Int) : Nat :=
  if 0 ≤ g then r.num / (r.den * Nat.pow 10 g.natAbs) else r.num * Nat.pow 10 g.natAbs / r.den

/-- The least `k` with `r < 10 ^ k`. -/
def Ratio.decimalPlaces (r : Ratio) : Int :=
  if r.den ≤ r.num then (Nat.toDigits 10 (r.num / r.den)).length
  else 1 - (((List.range 400).find? fun j => r.den ≤ r.num * Nat.pow 10 j).getD 0 : Nat)

/-- A float that is `m * 2 ^ q`. At a `boundary` the gap below it is half of the gap above it. -/
structure Dyadic where
  m : Nat
  q : Int
  boundary : Bool

/-- The number `n * 2 ^ (q - 2)`. -/
def Dyadic.quarters (x : Dyadic) (n : Nat) : Ratio :=
  if 0 ≤ x.q - 2 then ⟨n * Nat.pow 2 (x.q - 2).natAbs, 1⟩
  else ⟨n, Nat.pow 2 (x.q - 2).natAbs⟩

/-- Whether the point `n * 10 ^ g` rounds to `x`. -/
def Dyadic.holds (x : Dyadic) (n : Nat) (g : Int) : Bool :=
  let low := x.quarters (4 * x.m - if x.boundary then 1 else 2)
  let high := x.quarters (4 * x.m + 2)
  let point := Ratio.ofGrid n g
  let ends := x.m % 2 == 0
  (low.lt point || ends && low.eq point) && (point.lt high || ends && point.eq high)

/-- The decimals on the grid of `n` digits that round to `x` and stand next to it, the nearer
    first. -/
def Dyadic.candidates (x : Dyadic) (n : Nat) : List Decimal :=
  let exact := x.quarters (4 * x.m)
  let g := exact.decimalPlaces - n
  let down := exact.gridFloor g
  let twice := x.quarters (8 * x.m)
  let middle := Ratio.ofGrid (2 * down + 1) g
  let downFirst := twice.lt middle || twice.eq middle && down % 2 == 0
  let order := if downFirst then [down, down + 1] else [down + 1, down]
  (order.filter fun point => x.holds point g).map fun point => ⟨point, g⟩

/-- The shortest decimal that rounds to `x`. -/
def Dyadic.shortest (x : Dyadic) : Decimal :=
  ((List.range 17).findSome? fun n => (x.candidates (n + 1)).head?).getD ⟨x.m, 0⟩

/-- The fields of a positive finite float. -/
def Dyadic.ofBits (bits : Nat) : Dyadic :=
  let e : Nat := bits / Nat.pow 2 52 % Nat.pow 2 11
  let f : Nat := bits % Nat.pow 2 52
  if e = 0 then ⟨f, -1074, false⟩ else ⟨f + Nat.pow 2 52, Int.subNatNat e 1075, f == 0 && 1 < e⟩

/-- Moves trailing zeros of the digits into the exponent. The number of steps is bounded by
    `fuel`. -/
def stripZeros : (fuel : Nat) → Decimal → Decimal
  | 0, d => d
  | fuel + 1, d =>
    if d.digits ≠ 0 && d.digits % 10 = 0 then stripZeros fuel ⟨d.digits / 10, d.exponent + 1⟩ else d

/-- The shortest decimal of a finite float, whatever its sign. -/
def ofFloat (x : Float) : Decimal :=
  let bits := x.toBits.toNat % Nat.pow 2 63
  if bits = 0 then ⟨0, 0⟩ else stripZeros 20 (Dyadic.ofBits bits).shortest

/-! ## Writing -/

/-- Digits and a point, with at least one digit on each side of it. -/
def positional (d : Decimal) : String :=
  let digits := Nat.toDigits 10 d.digits
  if 0 ≤ d.exponent then
    String.ofList (digits ++ List.replicate d.exponent.natAbs '0') ++ ".0"
  else
    let places := d.exponent.natAbs
    let padded := List.replicate (places + 1 - digits.length) '0' ++ digits
    let whole := padded.length - places
    String.ofList (padded.take whole) ++ "." ++ String.ofList (padded.drop whole)

/-- An exponent, which always shows its sign. -/
def exponentText (n : Int) : String := (if n < 0 then "-" else "+") ++ toString n.natAbs

/-- One digit, the other digits after a point, and an exponent. -/
def scientific (d : Decimal) : String :=
  let digits := Nat.toDigits 10 d.digits
  let power := exponentText (d.exponent + (digits.length - 1 : Nat))
  match digits with
  | [] => ""
  | [c] => String.ofList [c] ++ "e" ++ power
  | c :: more => String.ofList (c :: '.' :: more) ++ "e" ++ power

/-- The sign of `x` in front of `text`. A zero has one too. -/
def signed (x : Float) (text : String) : String :=
  if x.toBits.toNat < Nat.pow 2 63 then text else "-" ++ text

end Decimal

end Stache
