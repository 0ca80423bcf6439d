import LexSimplex.Numeral.Shortest

/-!
# Positional text of floating point values

Values are written with the shortest digits that read back, in positional form whatever their size:
large values are padded with zeros up to the units, small ones with zeros after the point. A whole
number has no point, zero keeps its sign, and the undefined value has none.
-/

namespace LexSimplex.Positional

open Binary64

/-- Write `digits · 10 ^ exponent` without an exponent. -/
def ofDecimal (d : Shortest.Decimal) : String :=
  let digits := Nat.toDigits 10 d.digits
  if 0 ≤ d.exponent then
    String.ofList (digits ++ List.replicate d.exponent.toNat '0')
  else
    let places := (-d.exponent).toNat
    let padded := List.replicate (places + 1 - digits.length) '0' ++ digits
    let whole := padded.take (padded.length - places)
    String.ofList (whole ++ '.' :: padded.drop (padded.length - places))

/-- Write a finite value. -/
def ofFinite (value : Finite) : String :=
  let size := if value.significand = 0 then "0" else ofDecimal (Shortest.ofFinite value)
  if value.negative then "-" ++ size else size

/-- Write a floating point value. -/
def text (x : Float) : String :=
  match ofFloat x with
  | .finite value => ofFinite value
  | .infinite negative => if negative then "-inf" else "inf"
  | .undefined => "NaN"

end LexSimplex.Positional
