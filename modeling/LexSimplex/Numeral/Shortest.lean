import LexSimplex.Numeral.Binary64

/-!
# The fewest digits that read back

A decimal reads back as a binary value when it lies in the interval of reals that round to that
value: half a gap to either side, the ends included exactly when the significand is even. Among the
decimals that read back, the shortest has the fewest significant digits, and of two with equally
many the nearer one is taken; a tie goes to the larger.

All comparisons are made in natural numbers. With the value scaled to `4 · significand` quarter
units, the ends of the interval are whole numbers of quarter units as well, and a point `d · 10 ^ e`
of a decimal grid is compared after both sides were multiplied by the powers of two and ten that
clear the denominators.
-/

namespace LexSimplex.Shortest

open Binary64

/-- A decimal `digits · 10 ^ exponent`. -/
structure Decimal where
  digits : Nat
  exponent : Int
deriving DecidableEq

/-- Factors that bring quarter units and the points of one decimal grid to a common denominator. -/
structure Scale where
  unit : Nat
  point : Nat

/-- The factors for quarter units of `2 ^ binary` and the grid of multiples of `10 ^ decimal`. -/
def scale (binary decimal : Int) : Scale where
  unit := Nat.pow 2 (binary - 2).toNat * Nat.pow 10 (-decimal).toNat
  point := Nat.pow 10 decimal.toNat * Nat.pow 2 (2 - binary).toNat

/-- Whether grid point `d` rounds to the value. -/
def readsBack (value : Finite) (s : Scale) (d : Nat) : Bool :=
  let low := (4 * value.significand - (if value.lowered then 1 else 2)) * s.unit
  let high := (4 * value.significand + 2) * s.unit
  let point := d * s.point
  if value.significand % 2 = 0 then low ≤ point && point ≤ high
  else low < point && point < high

/-- The grid point to write, if one of the value's two neighbours on the grid reads back. -/
def onGrid (value : Finite) (decimal : Int) : Option Nat :=
  let s := scale value.exponent decimal
  let exact := 4 * value.significand * s.unit
  let below := exact / s.point
  let above := below + 1
  match readsBack value s below, readsBack value s above with
  | false, false => none
  | true, false => some below
  | false, true => some above
  | true, true =>
      if exact - below * s.point < above * s.point - exact then some below else some above

/-- Whether the value is at least `10 ^ decimal`. -/
def reaches (value : Finite) (decimal : Int) : Bool :=
  let s := scale value.exponent decimal
  s.point ≤ 4 * value.significand * s.unit

/-- The largest power of ten not above the value, searched downwards from `start`. -/
def magnitude (value : Finite) : (fuel : Nat) → (start : Int) → Int
  | 0, start => start
  | fuel + 1, start =>
      if reaches value start then start else magnitude value fuel (start - 1)

/-- An exponent of ten that no value of this binary size reaches, close above its magnitude. -/
def magnitudeBound (value : Finite) : Int :=
  (Nat.log2 value.significand + 1 + value.exponent) * 30103 / 100000 + 1

/-- The first grid, from coarse to fine, on which a neighbour of the value reads back. -/
def search (value : Finite) : (fuel : Nat) → (decimal : Int) → Decimal
  | 0, decimal => ⟨0, decimal⟩
  | fuel + 1, decimal =>
      match onGrid value decimal with
      | some d => ⟨d, decimal⟩
      | none => search value fuel (decimal - 1)

/-- The shortest decimal that reads back as a positive value. The coarsest grid tried is the one
above the value's magnitude, whose only candidate is the next power of ten; seventeen digits always
suffice. -/
def ofFinite (value : Finite) : Decimal :=
  search value 18 (magnitude value 8 (magnitudeBound value) + 1)

end LexSimplex.Shortest
