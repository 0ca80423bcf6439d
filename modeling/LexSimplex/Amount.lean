import LexSimplex.Scalar

/-!
# Amounts

Ratios between dimensions are kept as exact fractions of 64-bit integers in lowest terms, the sign
on the numerator. Sums and products are formed on unbounded integers and reduced before they are
brought back to 64 bits, so an operation fails only when its reduced result does not fit, or when a
denominator or divisor is zero.
-/

namespace LexSimplex

/-- An exact fraction in lowest terms with a positive denominator. -/
structure Amount where
  numerator : Int64
  denominator : Int64
deriving DecidableEq

/-- Why an operation on amounts has no result. -/
inductive AmountFault where
  | zeroDenominator
  | zeroDivisor
  /-- The reduced fraction does not fit in 64 bits. -/
  | overflow (numerator denominator : Int)
deriving DecidableEq

namespace AmountFault

/-- The wording of a fault. -/
def message : AmountFault → String
  | zeroDenominator => "denominator of an amount can't be zero"
  | zeroDivisor => "division of an amount by zero"
  | overflow numerator denominator => s!"amount {numerator}/{denominator} overflows 64 bits"

end AmountFault

namespace Amount

/-- A fraction on unbounded integers, in any terms and with either sign below. -/
structure Fraction where
  numerator : Int
  denominator : Int
deriving DecidableEq

namespace Fraction

/-- The same fraction in lowest terms, the sign on the numerator. -/
def reduced (f : Fraction) : Fraction :=
  let divisor : Int := Int.gcd f.numerator f.denominator
  if f.denominator < 0 then
    ⟨-f.numerator / divisor, -f.denominator / divisor⟩
  else
    ⟨f.numerator / divisor, f.denominator / divisor⟩

/-- Whether an integer fits in 64 bits. -/
def fits (n : Int) : Bool :=
  Int64.minValue.toInt ≤ n && n ≤ Int64.maxValue.toInt

/-- Bring a fraction with a denominator other than zero to lowest terms and to 64 bits. -/
def toAmount (f : Fraction) : Except AmountFault Amount :=
  let r := f.reduced
  if fits r.numerator && fits r.denominator then
    .ok ⟨Int64.ofInt r.numerator, Int64.ofInt r.denominator⟩
  else
    .error (.overflow r.numerator r.denominator)

end Fraction

/-- The fraction an amount stands for. -/
def toFraction (x : Amount) : Fraction :=
  ⟨x.numerator.toInt, x.denominator.toInt⟩

/-- The rational number an amount stands for. -/
def toRat (x : Amount) : Rat :=
  (x.numerator.toInt : Rat) / (x.denominator.toInt : Rat)

/-- The fraction `numerator / denominator`, in any terms. -/
def make (numerator denominator : Int64) : Except AmountFault Amount :=
  if denominator = 0 then .error .zeroDenominator
  else Fraction.toAmount ⟨numerator.toInt, denominator.toInt⟩

/-- A whole number. -/
def ofInt64 (n : Int64) : Amount := ⟨n, 1⟩

/-- The amount zero. -/
def zero : Amount := ⟨0, 1⟩

/-- The amount one. -/
def one : Amount := ⟨1, 1⟩

instance : Inhabited Amount := ⟨zero⟩

/-- The sum of two amounts. -/
def add (x y : Amount) : Except AmountFault Amount :=
  let f := x.toFraction
  let g := y.toFraction
  Fraction.toAmount
    ⟨f.numerator * g.denominator + g.numerator * f.denominator, f.denominator * g.denominator⟩

/-- The opposite of an amount. -/
def neg (x : Amount) : Except AmountFault Amount :=
  Fraction.toAmount ⟨-x.toFraction.numerator, x.toFraction.denominator⟩

/-- The difference of two amounts, formed by adding the opposite. -/
def sub (x y : Amount) : Except AmountFault Amount := do
  x.add (← y.neg)

/-- The product of two amounts. -/
def mul (x y : Amount) : Except AmountFault Amount :=
  let f := x.toFraction
  let g := y.toFraction
  Fraction.toAmount ⟨f.numerator * g.numerator, f.denominator * g.denominator⟩

/-- The quotient of two amounts. -/
def div (x y : Amount) : Except AmountFault Amount :=
  if y.numerator = 0 then .error .zeroDivisor
  else
    let f := x.toFraction
    let g := y.toFraction
    Fraction.toAmount ⟨f.numerator * g.denominator, f.denominator * g.numerator⟩

/-- The reciprocal of an amount. -/
def inverse (x : Amount) : Except AmountFault Amount :=
  make x.denominator x.numerator

/-- Whether an amount is below zero. -/
def isNegative (x : Amount) : Bool := x.numerator < 0

/-- Whether an amount is zero. -/
def isZero (x : Amount) : Bool := x.numerator == 0

/-- Compare two amounts by cross multiplication. -/
def compare (x y : Amount) : Ordering :=
  let f := x.toFraction
  let g := y.toFraction
  Ord.compare (f.numerator * g.denominator) (g.numerator * f.denominator)

/-- The larger of two amounts, the second one of two equal amounts. -/
def max (x y : Amount) : Amount :=
  if x.compare y = .gt then x else y

/-- The scalar nearest to the quotient of the two nearest scalars. -/
def toScalar {α : Type} [Scalar α] (x : Amount) : α :=
  Scalar.ofInt x.numerator.toInt / Scalar.ofInt x.denominator.toInt

/-- Write an amount: a whole number plainly, any other as a fraction. -/
def text (x : Amount) : String :=
  if x.denominator = 1 then toString x.numerator.toInt
  else s!"{x.numerator.toInt}/{x.denominator.toInt}"

end Amount

end LexSimplex
