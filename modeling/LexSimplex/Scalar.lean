import LexSimplex.Numeral.Positional

/-!
# Scalars

The solver computes with four operations, negation, comparisons and a test for zero, and it writes
scalars in texts. Nothing else is asked of them, so everything that follows is generic in the type
of scalars:

* at `Float` the solver runs, with every rounding of binary64 arithmetic;
* at `Rat` the arithmetic is exact, and the same definitions say what the solver computes.

Equality of scalars is the boolean test `==` throughout. On floating point values it identifies the
two zeros and separates an undefined value from itself.
-/

namespace LexSimplex

/-- The arithmetic and the written form the solver needs of its numbers. -/
class Scalar (α : Type) extends
    Zero α, One α, Add α, Sub α, Mul α, Div α, Neg α, BEq α, LT α, LE α where
  decidableLT : DecidableLT α
  decidableLE : DecidableLE α
  /-- The scalar nearest to an integer. -/
  ofInt : Int → α
  /-- The text of a scalar. -/
  text : α → String

namespace Scalar

instance {α : Type} [Scalar α] (a b : α) : Decidable (a < b) := decidableLT a b

instance {α : Type} [Scalar α] (a b : α) : Decidable (a ≤ b) := decidableLE a b

instance : Scalar Float where
  zero := 0
  one := 1
  add := Float.add
  sub := Float.sub
  mul := Float.mul
  div := Float.div
  neg := Float.neg
  beq := Float.beq
  toLT := instLTFloat
  toLE := instLEFloat
  decidableLT := Float.decLt
  decidableLE := Float.decLe
  ofInt := Float.ofInt
  text := Positional.text

/-- Write an exact scalar: an integer plainly, any other number as a fraction. -/
def textOfRat (x : Rat) : String :=
  if x.den = 1 then toString x.num else s!"{x.num}/{x.den}"

instance : Scalar Rat where
  zero := 0
  one := 1
  add := Rat.add
  sub := Rat.sub
  mul := Rat.mul
  div := Rat.div
  neg := Rat.neg
  beq a b := decide (a = b)
  toLT := Rat.instLT
  toLE := Rat.instLE
  decidableLT := fun a b => Rat.instDecidableLt a b
  decidableLE := fun a b => Rat.instDecidableLe a b
  ofInt := Rat.ofInt
  text := textOfRat

variable {α : Type} [Scalar α]

/-- Compare two scalars; those without an order between them count as equal. -/
def compare (a b : α) : Ordering :=
  if a < b then .lt else if b < a then .gt else .eq

/-- The nearest scalar between the two bounds; one without an order is left as it is. -/
def clamp (low high x : α) : α :=
  if x < low then low else if high < x then high else x

end Scalar

end LexSimplex
