/-!
Binary floating-point numbers of 64 bits: the one nearest to a decimal fraction, and
the shortest decimal fraction that a number is nearest to. Both are found in exact
arithmetic on whole numbers.
-/

namespace Repackage

/-- A finite number is `mantissa * 2 ^ exponent`, with a mantissa below `2 ^ 53`. A
mantissa below `2 ^ 52` has the least exponent. -/
inductive Binary64 where
  | finite (negative : Bool) (mantissa : Nat) (exponent : Int)
  | infinite (negative : Bool)
  | nan
  deriving DecidableEq, Repr

/-- A quotient of whole numbers. -/
structure Fraction where
  num : Nat
  den : Nat
  deriving DecidableEq, Repr

namespace Fraction

/-- The fraction times a power of `base`. -/
def scale (x : Fraction) (base : Nat) : Int → Fraction
  | .ofNat n => ⟨x.num * base.pow n, x.den⟩
  | .negSucc n => ⟨x.num, x.den * base.pow (n + 1)⟩

/-- The nearest whole number, and the even one of two that are as near. -/
def round (x : Fraction) : Nat :=
  let below := x.num / x.den
  let twice := 2 * (x.num % x.den)
  if twice < x.den || (twice = x.den && below % 2 = 0) then below else below + 1

end Fraction

namespace Binary64

def leastExponent : Int := -1074
def greatestExponent : Int := 971

/-- The least mantissa of a number whose exponent is not the least, `2 ^ 52`. -/
def leastMantissa : Nat := 4503599627370496

/-- The exponent for a positive fraction: the one that leaves it at least `2 ^ 52` and
below `2 ^ 53`, if it is not less than the least. -/
def exponentFor (x : Fraction) : Int :=
  let guess : Int := (x.num.log2 : Int) - x.den.log2 - 53
  let scaled := x.scale 2 (-guess)
  max leastExponent (if 2 * leastMantissa * scaled.den ≤ scaled.num then guess + 1 else guess)

/-- The number nearest to a positive fraction. -/
def nearest (negative : Bool) (x : Fraction) : Binary64 :=
  let exponent := exponentFor x
  let mantissa := (x.scale 2 (-exponent)).round
  let (mantissa, exponent) :=
    if mantissa = 2 * leastMantissa then (leastMantissa, exponent + 1)
    else (mantissa, exponent)
  if greatestExponent < exponent then .infinite negative
  else .finite negative mantissa exponent

/-- The number nearest to `digits * 10 ^ power`. Fractions of more than 310 digits before
the point are infinite, and those with more than 330 zeros behind it are zero. -/
def ofDecimal (negative : Bool) (digits : Nat) (power : Int) : Binary64 :=
  let magnitude := (Nat.toDigits 10 digits).length + power
  if digits = 0 || magnitude < -330 then .finite negative 0 leastExponent
  else if 310 < magnitude then .infinite negative
  else nearest negative (Fraction.scale ⟨digits, 1⟩ 10 power)

/-- Decimal digits, the last of which counts `10 ^ power`. -/
structure Digits where
  value : Nat
  power : Int
  deriving DecidableEq, Repr

/-- Of the two whole multiples of `10 ^ power` next to the number, the nearer one that
is read as the number again, if there is one. A tie goes up. Distances are counted in
quarters of the last bit, which are `2 ^ (exponent - 2)`. -/
def onGrid (mantissa : Nat) (exponent power : Int) : Option Digits :=
  let quarter := (Fraction.scale ⟨1, 1⟩ 2 (exponent - 2)).scale 10 (-power)
  let number := 4 * mantissa * quarter.num
  let gap := if mantissa = leastMantissa && leastExponent < exponent then 1 else 2
  let low := (4 * mantissa - gap) * quarter.num
  let high := (4 * mantissa + 2) * quarter.num
  let below := number / quarter.den
  let reads (n : Nat) : Bool :=
    if mantissa % 2 = 0 then low ≤ n * quarter.den && n * quarter.den ≤ high
    else low < n * quarter.den && n * quarter.den < high
  let nearer := if 2 * (number % quarter.den) < quarter.den then below else below + 1
  let farther := if nearer = below then below + 1 else below
  if reads nearer then some ⟨nearer, power⟩
  else if reads farther then some ⟨farther, power⟩
  else none

/-- The digits on the coarsest decimal grid that has some for the number. -/
def shortest (mantissa : Nat) (exponent : Int) : Digits :=
  let grids := (List.range 660).map fun n => 310 - Int.ofNat n
  (grids.findSome? (onGrid mantissa exponent)).getD ⟨0, 0⟩

/-- The digits in positional notation, with at least one digit on either side of the
point. -/
def positional (digits : Digits) : String :=
  let text := Nat.toDigits 10 digits.value
  match digits.power with
  | .ofNat n => String.ofList (text ++ List.replicate n '0' ++ ['.', '0'])
  | .negSucc n =>
      let padded := List.replicate (n + 2 - text.length) '0' ++ text
      let whole := padded.length - (n + 1)
      String.ofList (padded.take whole ++ '.' :: padded.drop whole)

def render : Binary64 → String
  | .finite negative mantissa exponent =>
      let digits := if mantissa = 0 then ⟨0, 0⟩ else shortest mantissa exponent
      (if negative then "-" else "") ++ positional digits
  | .infinite negative => if negative then "-inf" else "inf"
  | .nan => "NaN"

end Binary64
end Repackage
