/-!
# Binary floating point, taken apart

A finite binary64 value is `± significand · 2 ^ exponent` with a natural significand below `2 ^ 53`.
This module reads the three parts off the bit pattern, so that everything said about the decimal
text of a value can be said about natural numbers.

`Binary64.Finite.lowered` marks the values whose lower neighbour is only half as far away as the
upper one: the powers of two above the smallest exponent.
-/

namespace LexSimplex.Binary64

/-- The parts of a finite value `± significand · 2 ^ exponent`. -/
structure Finite where
  negative : Bool
  significand : Nat
  exponent : Int
  /-- The gap below the value is half the gap above it. -/
  lowered : Bool
deriving DecidableEq

/-- What a bit pattern stands for. -/
inductive Parts where
  | finite (parts : Finite)
  | infinite (negative : Bool)
  | undefined
deriving DecidableEq

/-- The exponent of the subnormal values, which is also that of the smallest normal ones. -/
def leastExponent : Int := -1074

/-- The weight of the bit that normal values leave out. -/
def hiddenBit : Nat := Nat.pow 2 52

/-- Read a bit pattern: one sign bit, eleven exponent bits and fifty-two fraction bits. -/
def decode (bits : UInt64) : Parts :=
  let pattern := bits.toNat
  let negative := pattern / Nat.pow 2 63 == 1
  let biased := pattern / hiddenBit % 2048
  let fraction := pattern % hiddenBit
  if biased = 2047 then
    if fraction = 0 then .infinite negative else .undefined
  else if biased = 0 then
    .finite ⟨negative, fraction, leastExponent, false⟩
  else
    .finite ⟨negative, hiddenBit + fraction, leastExponent + (biased - 1 : Nat),
      fraction = 0 && biased != 1⟩

/-- The parts of a floating point value. -/
def ofFloat (x : Float) : Parts :=
  decode x.toBits

end LexSimplex.Binary64
