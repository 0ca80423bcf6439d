import LexSimplex.Amount
import Mathlib.Algebra.Order.Field.Rat
import Mathlib.Data.Rat.Lemmas
import Mathlib.Tactic.FieldSimp
import Mathlib.Tactic.Linarith
import Mathlib.Tactic.Positivity

/-!
# Amounts are exact

An amount in lowest terms with a positive denominator (`Amount.Normal`) has the numerator and the
denominator of the rational number it stands for.  Bringing a fraction to lowest terms gives those of
the rational number that the fraction is (`Fraction.reduced_eq`), so an operation gives the exact
result or reports that 64 bits do not hold it (`Amount.IsExact`).

The operations are defined on unbounded integers.  That 128 bits are enough for them is shown with a
second version of each operation, which checks every intermediate result and has none if one of them
overflows (`Wide`): on amounts in lowest terms it always has a result, and the same one.
-/

namespace LexSimplex

namespace Amount

/-! ## Lowest terms -/

/-- Whether 64 bits hold the numerator and the denominator of a rational number. -/
def Representable (q : Rat) : Prop := Fraction.fits q.num = true ∧ Fraction.fits q.den = true

/-- The result of an operation whose exact value is a given rational number. -/
def IsExact (q : Rat) : Except AmountFault Amount → Prop
  | .ok z => z.toRat = q ∧ Representable q
  | .error fault => fault = .overflow q.num q.den ∧ ¬Representable q

/-- An amount in lowest terms, the sign on the numerator. -/
structure Normal (x : Amount) : Prop where
  positive : 0 < x.denominator.toInt
  coprime : Int.gcd x.numerator.toInt x.denominator.toInt = 1

namespace Fraction

variable {n : Int} {f : Fraction}

/-- The rational number that a fraction is. -/
def toRat (f : Fraction) : Rat := (f.numerator : Rat) / (f.denominator : Rat)

theorem fits_iff : fits n = true ↔ -2 ^ 63 ≤ n ∧ n < 2 ^ 63 := by
  have hleast : Int64.minValue.toInt = -2 ^ 63 := Int64.toInt_minValue
  have hgreatest : Int64.maxValue.toInt = 2 ^ 63 - 1 := by decide
  unfold fits
  rw [Bool.and_eq_true, decide_eq_true_eq, decide_eq_true_eq, hleast, hgreatest]
  omega

theorem toInt_ofInt (h : fits n = true) : (Int64.ofInt n).toInt = n := by
  obtain ⟨hleast, hgreatest⟩ := fits_iff.mp h
  exact Int64.toInt_ofInt_of_le hleast hgreatest

/-- Lowest terms are those of the rational number. -/
theorem reduced_eq (hf : f.denominator ≠ 0) : f.reduced = ⟨f.toRat.num, f.toRat.den⟩ := by
  unfold toRat
  rw [← Rat.divInt_eq_div, Rat.num_divInt, Rat.den_divInt, if_neg hf, Int.gcd_comm f.denominator]
  unfold reduced
  rw [Int.natCast_div]
  simp only
  split
  next hneg =>
    rw [Int.sign_eq_neg_one_of_neg hneg, neg_one_mul, Int.ofNat_natAbs_of_nonpos (le_of_lt hneg)]
  next hnonneg =>
    have hpos : 0 < f.denominator := by omega
    rw [Int.sign_eq_one_of_pos hpos, one_mul, Int.natAbs_of_nonneg (le_of_lt hpos)]

/-- The last step of an operation: the two integers have to fit in 64 bits. -/
def narrow (f : Fraction) : Except AmountFault Amount :=
  if fits f.numerator && fits f.denominator then
    .ok ⟨Int64.ofInt f.numerator, Int64.ofInt f.denominator⟩
  else
    .error (.overflow f.numerator f.denominator)

theorem toAmount_eq (f : Fraction) : f.toAmount = f.reduced.narrow := rfl

end Fraction

variable {x y z : Amount}

theorem Normal.num_toRat (hx : x.Normal) : x.toRat.num = x.numerator.toInt :=
  Rat.num_div_eq_of_coprime hx.positive hx.coprime

theorem Normal.den_toRat (hx : x.Normal) : (x.toRat.den : Int) = x.denominator.toInt :=
  Rat.den_div_eq_of_coprime hx.positive hx.coprime

/-- Amounts in lowest terms are equal if the rational numbers are. -/
theorem Normal.eq_iff (hx : x.Normal) (hy : y.Normal) : x = y ↔ x.toRat = y.toRat := by
  refine ⟨congrArg toRat, fun hsame => ?_⟩
  have hnumerator : x.numerator = y.numerator := by
    rw [← Int64.toInt_inj, ← hx.num_toRat, ← hy.num_toRat, hsame]
  have hdenominator : x.denominator = y.denominator := by
    rw [← Int64.toInt_inj, ← hx.den_toRat, ← hy.den_toRat, hsame]
  cases x
  cases y
  simp_all

/-- The amount with the numerator and the denominator of a rational number. -/
theorem toFraction_narrow {q : Rat} (h : Fraction.narrow ⟨q.num, q.den⟩ = .ok z) :
    z.numerator.toInt = q.num ∧ z.denominator.toInt = q.den := by
  unfold Fraction.narrow at h
  split at h
  next hfits =>
    obtain ⟨hnum, hden⟩ := Bool.and_eq_true_iff.mp hfits
    cases h
    exact ⟨Fraction.toInt_ofInt hnum, Fraction.toInt_ofInt hden⟩
  next => cases h

theorem normal_of_narrow {q : Rat} (h : Fraction.narrow ⟨q.num, q.den⟩ = .ok z) : z.Normal := by
  obtain ⟨hnum, hden⟩ := toFraction_narrow h
  refine ⟨?_, ?_⟩
  · rw [hden]
    exact_mod_cast q.den_pos
  · rw [hnum, hden]
    exact q.reduced

/-- Bringing a fraction to 64 bits gives the rational number, or nothing if it does not fit. -/
theorem isExact_narrow (q : Rat) : IsExact q (Fraction.narrow ⟨q.num, q.den⟩) := by
  cases hresult : Fraction.narrow ⟨q.num, q.den⟩ with
  | ok z =>
      obtain ⟨hnum, hden⟩ := toFraction_narrow hresult
      refine ⟨?_, ?_⟩
      · unfold toRat
        rw [hnum, hden]
        exact Rat.num_div_den q
      · unfold Fraction.narrow at hresult
        split at hresult
        next hfits => exact Bool.and_eq_true_iff.mp hfits
        next => cases hresult
  | error fault =>
      unfold Fraction.narrow at hresult
      split at hresult
      next => cases hresult
      next hfits =>
        cases hresult
        exact ⟨rfl, fun hrepresentable => hfits (Bool.and_eq_true_iff.mpr hrepresentable)⟩

theorem isExact_toAmount {f : Fraction} (hf : f.denominator ≠ 0) {q : Rat} (hq : f.toRat = q) :
    IsExact q f.toAmount := by
  rw [Fraction.toAmount_eq, Fraction.reduced_eq hf, hq]
  exact isExact_narrow q

theorem normal_of_toAmount {f : Fraction} (hf : f.denominator ≠ 0) (h : f.toAmount = .ok z) :
    z.Normal := by
  rw [Fraction.toAmount_eq, Fraction.reduced_eq hf] at h
  exact normal_of_narrow h

/-! ## Operations -/

/-- An operation that makes an amount, with its operands. -/
inductive Operation where
  | make (numerator denominator : Int64)
  | add (x y : Amount)
  | sub (x y : Amount)
  | mul (x y : Amount)
  | div (x y : Amount)
  | neg (x : Amount)
  | inverse (x : Amount)

/-- The sum of two amounts before it is reduced. -/
def sum (x y : Amount) : Fraction :=
  ⟨x.numerator.toInt * y.denominator.toInt + y.numerator.toInt * x.denominator.toInt,
    x.denominator.toInt * y.denominator.toInt⟩

namespace Operation

/-- The amounts that an operation starts from. -/
def operands : Operation → List Amount
  | make _ _ => []
  | add x y | sub x y | mul x y | div x y => [x, y]
  | neg x | inverse x => [x]

/-- The result of an operation. -/
def run : Operation → Except AmountFault Amount
  | make n d => Amount.make n d
  | add x y => x.add y
  | sub x y => x.sub y
  | mul x y => x.mul y
  | div x y => x.div y
  | neg x => x.neg
  | inverse x => x.inverse

/-- The exact value of the result. -/
def value : Operation → Rat
  | make n d => n.toInt / d.toInt
  | add x y => x.toRat + y.toRat
  | sub x y => x.toRat - y.toRat
  | mul x y => x.toRat * y.toRat
  | div x y => x.toRat / y.toRat
  | neg x => -x.toRat
  | inverse x => x.toRat⁻¹

/-- A denominator or divisor is zero. -/
def DividesByZero : Operation → Prop
  | make _ d => d = 0
  | div _ y => y.numerator = 0
  | inverse x => x.numerator = 0
  | _ => False

/-- An amount is subtracted whose numerator has no opposite in 64 bits. -/
def NegatesLeast : Operation → Prop
  | sub _ y => y.numerator = Int64.minValue
  | _ => False

/-- The fraction that an operation forms before it is reduced. -/
def fraction? : Operation → Except AmountFault Fraction
  | make n d => if d = 0 then .error .zeroDenominator else .ok ⟨n.toInt, d.toInt⟩
  | add x y => .ok (x.sum y)
  | sub x y => do return x.sum (← y.neg)
  | mul x y => .ok ⟨x.numerator.toInt * y.numerator.toInt, x.denominator.toInt * y.denominator.toInt⟩
  | div x y =>
      if y.numerator = 0 then .error .zeroDivisor
      else .ok ⟨x.numerator.toInt * y.denominator.toInt, x.denominator.toInt * y.numerator.toInt⟩
  | neg x => .ok ⟨-x.numerator.toInt, x.denominator.toInt⟩
  | inverse x =>
      if x.numerator = 0 then .error .zeroDenominator
      else .ok ⟨x.denominator.toInt, x.numerator.toInt⟩

end Operation

open Operation

theorem toInt_ne_zero {n : Int64} (h : n ≠ 0) : n.toInt ≠ 0 := by
  intro hzero
  exact h (Int64.toInt_inj.mp hzero)

theorem Normal.ne_zero (hx : x.Normal) : x.denominator.toInt ≠ 0 := ne_of_gt hx.positive

theorem toRat_sum (hx : x.Normal) (hy : y.Normal) :
    (x.sum y).denominator ≠ 0 ∧ (x.sum y).toRat = x.toRat + y.toRat := by
  refine ⟨mul_ne_zero hx.ne_zero hy.ne_zero, ?_⟩
  have hxden : (x.denominator.toInt : Rat) ≠ 0 := Int.cast_ne_zero.mpr hx.ne_zero
  have hyden : (y.denominator.toInt : Rat) ≠ 0 := Int.cast_ne_zero.mpr hy.ne_zero
  unfold sum Fraction.toRat toRat
  push_cast
  field_simp

theorem isExact_neg (hx : x.Normal) : IsExact (-x.toRat) x.neg := by
  refine isExact_toAmount (f := ⟨-x.numerator.toInt, x.denominator.toInt⟩) hx.ne_zero ?_
  unfold Fraction.toRat toRat
  push_cast
  exact neg_div _ _

/-- The opposite of an amount exists unless its numerator is the least one. -/
theorem representable_neg_iff (hx : x.Normal) :
    Representable (-x.toRat) ↔ x.numerator ≠ Int64.minValue := by
  have hleast := Int64.le_toInt x.numerator
  have hgreatest := Int64.toInt_lt x.numerator
  have hden := Int64.toInt_lt x.denominator
  have hpositive := hx.positive
  unfold Representable
  rw [Rat.neg_num, Rat.neg_den, hx.num_toRat, hx.den_toRat, Fraction.fits_iff, Fraction.fits_iff,
    ne_eq, ← Int64.toInt_inj, Int64.toInt_minValue]
  omega

/-- Taking the opposite fails for the least numerator only. -/
theorem neg_cases (hx : x.Normal) :
    (x.numerator = Int64.minValue ∧ ∃ fault, x.neg = .error fault) ∨
      x.numerator ≠ Int64.minValue ∧ ∃ z, x.neg = .ok z ∧ z.Normal ∧ z.toRat = -x.toRat := by
  have hexact := isExact_neg hx
  cases hneg : x.neg with
  | error fault =>
      rw [hneg] at hexact
      exact Or.inl ⟨not_not.mp (hexact.2 ∘ (representable_neg_iff hx).mpr), fault, rfl⟩
  | ok z =>
      rw [hneg] at hexact
      exact Or.inr ⟨(representable_neg_iff hx).mp hexact.2, z, rfl,
        normal_of_toAmount hx.ne_zero hneg, hexact.1⟩

namespace Operation

variable {op : Operation}

theorem run_eq (op : Operation) : op.run = op.fraction? >>= Fraction.toAmount := by
  cases op with
  | make n d =>
      rw [run, fraction?, Amount.make]
      split <;> rfl
  | sub x y =>
      show (y.neg >>= fun z => x.add z) = (y.neg >>= fun z => pure (x.sum z)) >>= Fraction.toAmount
      cases y.neg <;> rfl
  | div x y =>
      rw [run, fraction?, Amount.div]
      split <;> rfl
  | inverse x =>
      rw [run, fraction?, Amount.inverse, Amount.make]
      split <;> rfl
  | add | mul | neg => rfl

/-- No fraction is formed if there is a zero below or an opposite that does not exist. -/
theorem fraction?_eq_error_iff (hop : ∀ x ∈ op.operands, x.Normal) :
    (∃ fault, op.fraction? = .error fault) ↔ op.DividesByZero ∨ op.NegatesLeast := by
  cases op with
  | make n d | div x y | inverse x =>
      simp only [fraction?, DividesByZero, NegatesLeast, or_false]
      split <;> simp_all
  | sub x y =>
      rcases neg_cases (hop y (by simp [operands])) with ⟨hleast, fault, hneg⟩ | ⟨hother, z, hneg, -⟩
      · refine iff_of_true ⟨fault, ?_⟩ (Or.inr hleast)
        rw [fraction?, hneg]
        rfl
      · refine iff_of_false ?_ (not_or.mpr ⟨not_false, hother⟩)
        rw [fraction?, hneg]
        rintro ⟨fault, hfault⟩
        cases hfault
  | add | mul | neg => simp [fraction?, DividesByZero, NegatesLeast]

/-- The fraction that an operation forms has the exact value. -/
theorem fraction?_spec (hop : ∀ x ∈ op.operands, x.Normal) {f : Fraction}
    (h : op.fraction? = .ok f) : f.denominator ≠ 0 ∧ f.toRat = op.value := by
  cases op with
  | make n d =>
      rw [fraction?] at h
      split at h
      next => cases h
      next hd =>
        cases h
        exact ⟨toInt_ne_zero hd, rfl⟩
  | add x y =>
      cases h
      exact toRat_sum (hop x (by simp [operands])) (hop y (by simp [operands]))
  | sub x y =>
      rcases neg_cases (hop y (by simp [operands])) with ⟨-, fault, hneg⟩ | ⟨-, z, hneg, hz, hvalue⟩
      · rw [fraction?, hneg] at h
        cases h
      · rw [fraction?, hneg] at h
        cases h
        obtain ⟨hden, hsum⟩ := toRat_sum (hop x (by simp [operands])) hz
        refine ⟨hden, ?_⟩
        rw [hsum, hvalue, ← sub_eq_add_neg]
        rfl
  | mul x y =>
      cases h
      refine ⟨mul_ne_zero (hop x (by simp [operands])).ne_zero
        (hop y (by simp [operands])).ne_zero, ?_⟩
      simp only [Fraction.toRat, value, toRat]
      push_cast
      exact (div_mul_div_comm _ _ _ _).symm
  | div x y =>
      rw [fraction?] at h
      split at h
      next => cases h
      next hy =>
        cases h
        refine ⟨mul_ne_zero (hop x (by simp [operands])).ne_zero (toInt_ne_zero hy), ?_⟩
        simp only [Fraction.toRat, value, toRat]
        push_cast
        exact (div_div_div_eq _ _ _ _).symm
  | neg x =>
      cases h
      refine ⟨(hop x (by simp [operands])).ne_zero, ?_⟩
      simp only [Fraction.toRat, value, toRat]
      push_cast
      exact neg_div _ _
  | inverse x =>
      rw [fraction?] at h
      split at h
      next => cases h
      next hx =>
        cases h
        refine ⟨toInt_ne_zero hx, ?_⟩
        simp only [Fraction.toRat, value, toRat]
        exact (inv_div _ _).symm

/-- An operation that forms a fraction gives its exact value. -/
theorem isExact_run (hop : ∀ x ∈ op.operands, x.Normal) {f : Fraction} (h : op.fraction? = .ok f) :
    IsExact op.value op.run := by
  obtain ⟨hden, hvalue⟩ := fraction?_spec hop h
  rw [run_eq, h]
  exact isExact_toAmount hden hvalue

/-- The result of an operation is in lowest terms and exact. -/
theorem run_eq_ok (hop : ∀ x ∈ op.operands, x.Normal) (h : op.run = .ok z) :
    z.Normal ∧ z.toRat = op.value ∧ Representable op.value := by
  rw [run_eq] at h
  cases hfraction : op.fraction? with
  | error fault =>
      rw [hfraction] at h
      cases h
  | ok f =>
      rw [hfraction] at h
      have hexact := isExact_run hop hfraction
      rw [run_eq, hfraction, h] at hexact
      exact ⟨normal_of_toAmount (fraction?_spec hop hfraction).1 h, hexact⟩

/-- An operation fails in three cases. -/
theorem run_eq_error_iff (hop : ∀ x ∈ op.operands, x.Normal) :
    (∃ fault, op.run = .error fault) ↔
      op.DividesByZero ∨ op.NegatesLeast ∨ ¬Representable op.value := by
  rw [← or_assoc, ← fraction?_eq_error_iff hop]
  cases hfraction : op.fraction? with
  | error fault =>
      refine iff_of_true ⟨fault, ?_⟩ (Or.inl ⟨fault, rfl⟩)
      rw [run_eq, hfraction]
      rfl
  | ok f =>
      have hexact := isExact_run hop hfraction
      cases hrun : op.run with
      | error fault =>
          rw [hrun] at hexact
          exact iff_of_true ⟨fault, rfl⟩ (Or.inr hexact.2)
      | ok z =>
          rw [hrun] at hexact
          simp [hexact.2]

end Operation

/-- The amounts that can be made: whole numbers and the results of operations on amounts that can be
made. -/
inductive Obtainable : Amount → Prop
  | zero : Obtainable zero
  | one : Obtainable one
  | whole (n : Int64) : Obtainable (ofInt64 n)
  | result {op : Operation} {z : Amount} : (∀ x ∈ op.operands, Obtainable x) → op.run = .ok z →
      Obtainable z

theorem normal_ofInt64 (n : Int64) : (ofInt64 n).Normal :=
  ⟨one_pos, Int.gcd_one_right _⟩

theorem Obtainable.normal (h : Obtainable x) : x.Normal := by
  induction h with
  | zero => exact normal_ofInt64 0
  | one => exact normal_ofInt64 1
  | whole n => exact normal_ofInt64 n
  | result _ hrun ih => exact (Operation.run_eq_ok ih hrun).1

/-! ## Making fractions -/

theorem narrow_overflow_iff {f : Fraction} : (∃ a b, f.narrow = .error (.overflow a b)) ↔
    ¬(Fraction.fits f.numerator = true ∧ Fraction.fits f.denominator = true) := by
  unfold Fraction.narrow
  rw [← Bool.and_eq_true_iff]
  split
  next hfits => simp [hfits]
  next hfits => simp [hfits]

theorem fits_ediv {m g : Int} (hg : 0 < g) (hleast : -2 ^ 63 ≤ m) (hgreatest : m < 2 ^ 63 * g) :
    Fraction.fits (m / g) = true := by
  have hlower : -2 ^ 63 * g ≤ m := by nlinarith
  exact Fraction.fits_iff.mpr
    ⟨(Int.le_ediv_iff_mul_le hg).mpr hlower, Int.ediv_lt_of_lt_mul hg hgreatest⟩

/-- A fraction of 64-bit integers overflows only if it is in lowest terms and the sign moves between
a numerator and a denominator one of which has no opposite. -/
theorem make_overflow_iff {n d : Int64} (hd : d ≠ 0) :
    (∃ a b, make n d = .error (.overflow a b)) ↔
      d < 0 ∧ Int.gcd n.toInt d.toInt = 1 ∧ (n = Int64.minValue ∨ d = Int64.minValue) := by
  have hzero := toInt_ne_zero hd
  have hgcd : 0 < Int.gcd n.toInt d.toInt := Int.gcd_pos_of_ne_zero_right _ hzero
  have hleast := Int64.le_toInt n
  have hgreatest := Int64.toInt_lt n
  have hleast' := Int64.le_toInt d
  have hgreatest' := Int64.toInt_lt d
  unfold make
  rw [if_neg hd, Fraction.toAmount_eq, narrow_overflow_iff, Fraction.reduced]
  simp only [Int64.lt_iff_toInt_lt, ← Int64.toInt_inj, Int64.toInt_minValue, Int64.toInt_zero]
  by_cases hneg : d.toInt < 0
  · simp only [hneg, if_true, true_and]
    by_cases hone : Int.gcd n.toInt d.toInt = 1
    · simp only [hone, Nat.cast_one, Int.ediv_one, Fraction.fits_iff, true_and]
      omega
    · -- A common divisor of two or more makes room for the sign.
      simp only [hone, false_and, iff_false, not_not]
      exact ⟨fits_ediv (by omega) (by omega) (by omega), fits_ediv (by omega) (by omega) (by omega)⟩
  · simp only [hneg, if_false, false_and, iff_false, not_not]
    exact ⟨fits_ediv (by omega) (by omega) (by omega), fits_ediv (by omega) (by omega) (by omega)⟩

/-! ## Comparing -/

/-- Cross multiplication compares the rational numbers. -/
theorem compare_iff (hx : x.Normal) (hy : y.Normal) :
    (x.compare y = .lt ↔ x.toRat < y.toRat) ∧ (x.compare y = .eq ↔ x.toRat = y.toRat) ∧
      (x.compare y = .gt ↔ y.toRat < x.toRat) := by
  have hxpos : (0 : Rat) < x.denominator.toInt := Int.cast_pos.mpr hx.positive
  have hypos : (0 : Rat) < y.denominator.toInt := Int.cast_pos.mpr hy.positive
  unfold compare toRat toFraction
  rw [div_lt_div_iff₀ hxpos hypos, div_lt_div_iff₀ hypos hxpos,
    div_eq_div_iff (ne_of_gt hxpos) (ne_of_gt hypos), Int.compare_eq_lt, Int.compare_eq_eq,
    Int.compare_eq_gt]
  refine ⟨?_, ?_, ?_⟩ <;> exact_mod_cast Iff.rfl

/-! ## Intermediate results of 128 bits -/

namespace Wide

/-- An intermediate result, unless it overflows 128 bits. -/
def checked (n : Int) : Option Int := if -2 ^ 127 ≤ n ∧ n < 2 ^ 127 then some n else none

/-- Euclid's algorithm. -/
def euclid (a b : Nat) : Nat := if b = 0 then a else euclid b (a % b)
termination_by b
decreasing_by exact Nat.mod_lt _ (Nat.pos_of_ne_zero (by assumption))

/-- Move the sign to the numerator. -/
def signed (n d : Int) : Option Fraction :=
  if d < 0 then do return ⟨← checked (-n), ← checked (-d)⟩ else some ⟨n, d⟩

/-- Divide both sides of a fraction by a divisor other than one. -/
def cancelled (f : Fraction) (divisor : Nat) : Option Fraction :=
  if 1 < divisor then do
    let divisor ← checked divisor
    return ⟨← checked (f.numerator.tdiv divisor), ← checked (f.denominator.tdiv divisor)⟩
  else some f

/-- Divide both sides of a fraction by their greatest common divisor. -/
def divided (f : Fraction) : Option Fraction := do
  let g ← cancelled f (euclid f.numerator.natAbs f.denominator.natAbs)
  return if g.numerator = 0 then ⟨0, 1⟩ else g

/-- Bring a fraction to lowest terms and to 64 bits. -/
def toAmount (n d : Int) : Option (Except AmountFault Amount) := do
  return (← divided (← signed n d)).narrow

/-- The fraction `numerator / denominator`. -/
def make (n d : Int64) : Option (Except AmountFault Amount) :=
  if d = 0 then some (.error .zeroDenominator) else toAmount n.toInt d.toInt

/-- The sum of two amounts. -/
def add (x y : Amount) : Option (Except AmountFault Amount) := do
  let left ← checked (x.numerator.toInt * y.denominator.toInt)
  let right ← checked (y.numerator.toInt * x.denominator.toInt)
  toAmount (← checked (left + right)) (← checked (x.denominator.toInt * y.denominator.toInt))

/-- The opposite of an amount. -/
def neg (x : Amount) : Option (Except AmountFault Amount) := do
  toAmount (← checked (-x.numerator.toInt)) x.denominator.toInt

/-- An operation with all intermediate results checked. -/
def run : Operation → Option (Except AmountFault Amount)
  | .make n d => make n d
  | .add x y => add x y
  | .sub x y => do
      match ← neg y with
      | .ok z => add x z
      | .error fault => some (.error fault)
  | .mul x y => do
      toAmount (← checked (x.numerator.toInt * y.numerator.toInt))
        (← checked (x.denominator.toInt * y.denominator.toInt))
  | .div x y =>
      if y.numerator = 0 then some (.error .zeroDivisor)
      else do
        toAmount (← checked (x.numerator.toInt * y.denominator.toInt))
          (← checked (x.denominator.toInt * y.numerator.toInt))
  | .neg x => neg x
  | .inverse x => make x.denominator x.numerator

/-- The comparison of two amounts. -/
def compare (x y : Amount) : Option Ordering := do
  return Ord.compare (← checked (x.numerator.toInt * y.denominator.toInt))
    (← checked (y.numerator.toInt * x.denominator.toInt))

variable {n d : Int}

theorem checked_eq (h : n.natAbs < 2 ^ 127) : checked n = some n := by
  unfold checked
  rw [if_pos (by omega)]

theorem euclid_eq (a b : Nat) : euclid a b = Nat.gcd a b := by
  induction a, b using euclid.induct with
  | case1 a =>
      rw [euclid, if_pos rfl, Nat.gcd_zero_right]
  | case2 a b hb ih =>
      rw [euclid, if_neg hb, ih, Nat.gcd_comm a b, Nat.gcd_rec b a, Nat.gcd_comm]

/-- Dividing by a common divisor does not overflow. -/
theorem cancelled_eq {g : Nat} (hn : n.natAbs < 2 ^ 127) (hd : d.natAbs < 2 ^ 127) (hpos : 0 < d)
    (hg : 0 < g) (hleft : (g : Int) ∣ n) (hright : (g : Int) ∣ d) :
    cancelled ⟨n, d⟩ g = some ⟨n / g, d / g⟩ := by
  have hquotient : ∀ m : Int, m.natAbs < 2 ^ 127 → (g : Int) ∣ m →
      checked (m.tdiv g) = some (m / g) := by
    intro m hm hdvd
    rw [Int.tdiv_eq_ediv_of_dvd hdvd]
    refine checked_eq (lt_of_le_of_lt ?_ hm)
    rw [Int.natAbs_ediv_of_dvd hdvd]
    exact Nat.div_le_self _ _
  unfold cancelled
  split
  next =>
    have hdivisor : checked (g : Int) = some (g : Int) := by
      have hle := Int.le_of_dvd hpos hright
      exact checked_eq (by omega)
    simp only [Option.bind_eq_bind, Option.bind_some, hdivisor, hquotient n hn hleft,
      hquotient d hd hright, Option.pure_def]
  next hone =>
    obtain rfl : g = 1 := by omega
    rw [Nat.cast_one, Int.ediv_one, Int.ediv_one]

/-- Dividing out the greatest common divisor leaves one below a zero. -/
theorem divided_eq (hn : n.natAbs < 2 ^ 127) (hd : d.natAbs < 2 ^ 127) (hpos : 0 < d) :
    divided ⟨n, d⟩ = some ⟨n / Int.gcd n d, d / Int.gcd n d⟩ := by
  have hleft : (Int.gcd n d : Int) ∣ n := Int.gcd_dvd_left _ _
  have hcancelled := cancelled_eq hn hd hpos (Int.gcd_pos_of_ne_zero_right _ (ne_of_gt hpos)) hleft
    (Int.gcd_dvd_right _ _)
  have heuclid : euclid n.natAbs d.natAbs = Int.gcd n d := euclid_eq _ _
  unfold divided
  simp only [heuclid, hcancelled, Option.bind_eq_bind, Option.bind_some, Option.pure_def]
  split
  next hzero =>
    have hn : n = 0 := by rw [← Int.ediv_mul_cancel hleft, hzero, zero_mul]
    subst hn
    rw [Int.zero_ediv, Int.gcd_zero_left, Int.natAbs_of_nonneg (le_of_lt hpos),
      Int.ediv_self (ne_of_gt hpos)]
  next => rfl

/-- Bringing a fraction to lowest terms does not overflow. -/
theorem toAmount_eq (hn : n.natAbs < 2 ^ 127) (hd : d.natAbs < 2 ^ 127) (hne : d ≠ 0) :
    toAmount n d = some (Fraction.toAmount ⟨n, d⟩) := by
  unfold toAmount signed
  rw [Fraction.toAmount_eq, Fraction.reduced]
  split
  next hneg =>
    have hdivided := divided_eq (n := -n) (d := -d) (by rwa [Int.natAbs_neg])
      (by rwa [Int.natAbs_neg]) (by omega)
    rw [Int.gcd_neg, Int.neg_gcd] at hdivided
    rw [checked_eq (by rwa [Int.natAbs_neg]), checked_eq (by rwa [Int.natAbs_neg])]
    simp only [Option.bind_eq_bind, Option.bind_some, Option.pure_def, hdivided]
  next hpos =>
    have hdivided := divided_eq hn hd (by omega)
    simp only [Option.bind_eq_bind, Option.bind_some, Option.pure_def, hdivided]

theorem natAbs_toInt_le (n : Int64) : n.toInt.natAbs ≤ 2 ^ 63 := by
  have hleast := Int64.le_toInt n
  have hgreatest := Int64.toInt_lt n
  omega

theorem make_eq (n d : Int64) : make n d = some (Amount.make n d) := by
  unfold make Amount.make
  split
  next => rfl
  next hd =>
    have hn := natAbs_toInt_le n
    have hd' := natAbs_toInt_le d
    exact toAmount_eq (by omega) (by omega) (toInt_ne_zero hd)

theorem natAbs_mul_le {a b : Int} {m k : Nat} (ha : a.natAbs ≤ m) (hb : b.natAbs ≤ k) :
    (a * b).natAbs ≤ m * k := by
  rw [Int.natAbs_mul]
  exact Nat.mul_le_mul ha hb

/-- The product of two 64-bit integers has room for one more bit. -/
theorem checked_mul (n d : Int64) : checked (n.toInt * d.toInt) = some (n.toInt * d.toInt) := by
  have hproduct := natAbs_mul_le (natAbs_toInt_le n) (natAbs_toInt_le d)
  exact checked_eq (by omega)

theorem add_eq (hx : x.Normal) (hy : y.Normal) : add x y = some (x.add y) := by
  -- A denominator is one short of the bound, which is what keeps the sum of two products below it.
  have hxden : x.denominator.toInt.natAbs ≤ 2 ^ 63 - 1 := by
    have hgreatest := Int64.toInt_lt x.denominator
    have hpositive := hx.positive
    omega
  have hyden : y.denominator.toInt.natAbs ≤ 2 ^ 63 - 1 := by
    have hgreatest := Int64.toInt_lt y.denominator
    have hpositive := hy.positive
    omega
  have hleft := natAbs_mul_le (natAbs_toInt_le x.numerator) hyden
  have hright := natAbs_mul_le (natAbs_toInt_le y.numerator) hxden
  have hbelow := natAbs_mul_le hxden hyden
  have hsum : (x.numerator.toInt * y.denominator.toInt +
      y.numerator.toInt * x.denominator.toInt).natAbs < 2 ^ 127 :=
    lt_of_le_of_lt (Int.natAbs_add_le _ _) (by omega)
  unfold add
  rw [checked_mul, checked_mul, checked_mul]
  simp only [Option.bind_eq_bind, Option.bind_some]
  rw [checked_eq hsum, Option.bind_some]
  exact toAmount_eq hsum (by omega) (mul_ne_zero hx.ne_zero hy.ne_zero)

theorem neg_eq (hx : x.Normal) : neg x = some x.neg := by
  have hnum := natAbs_toInt_le x.numerator
  have hden := natAbs_toInt_le x.denominator
  unfold neg
  rw [checked_eq (by omega)]
  exact toAmount_eq (by omega) (by omega) hx.ne_zero

/-- No intermediate result of an operation on amounts in lowest terms overflows 128 bits. -/
theorem run_eq {op : Operation} (hop : ∀ x ∈ op.operands, x.Normal) : run op = some op.run := by
  cases op with
  | make n d => exact make_eq n d
  | add x y => exact add_eq (hop x (by simp [operands])) (hop y (by simp [operands]))
  | sub x y =>
      have hx := hop x (by simp [operands])
      have hy := hop y (by simp [operands])
      rw [run, neg_eq hy]
      show (match y.neg with
        | .ok z => add x z
        | .error fault => some (.error fault)) = some (y.neg >>= fun z => x.add z)
      rcases neg_cases hy with ⟨-, fault, hneg⟩ | ⟨-, z, hneg, hz, -⟩
      · rw [hneg]
        rfl
      · rw [hneg]
        exact add_eq hx hz
  | mul x y =>
      have hx := (hop x (by simp [operands])).ne_zero
      have hy := (hop y (by simp [operands])).ne_zero
      have hnum := natAbs_mul_le (natAbs_toInt_le x.numerator) (natAbs_toInt_le y.numerator)
      have hden := natAbs_mul_le (natAbs_toInt_le x.denominator) (natAbs_toInt_le y.denominator)
      rw [run, checked_mul, checked_mul]
      exact toAmount_eq (by omega) (by omega) (mul_ne_zero hx hy)
  | div x y =>
      have hx := (hop x (by simp [operands])).ne_zero
      have hnum := natAbs_mul_le (natAbs_toInt_le x.numerator) (natAbs_toInt_le y.denominator)
      have hden := natAbs_mul_le (natAbs_toInt_le x.denominator) (natAbs_toInt_le y.numerator)
      rw [run, Operation.run, Amount.div]
      split
      next => rfl
      next hy =>
        rw [checked_mul, checked_mul]
        exact toAmount_eq (by omega) (by omega) (mul_ne_zero hx (toInt_ne_zero hy))
  | neg x => exact neg_eq (hop x (by simp [operands]))
  | inverse x => exact make_eq x.denominator x.numerator

theorem compare_eq (x y : Amount) : compare x y = some (x.compare y) := by
  unfold compare
  rw [checked_mul, checked_mul]
  rfl

end Wide

/-! ## Exact arithmetic -/

theorem toRat_ofInt64 (n : Int64) : (ofInt64 n).toRat = n.toInt := by
  show (n.toInt : Rat) / ((1 : Int) : Rat) = n.toInt
  rw [Int.cast_one, div_one]

/-- Every amount that can be made is in lowest terms.  An operation on such amounts does not overflow
128 bits on the way and gives the exact result; it fails if there is a zero below, if the result does
not fit in 64 bits, or if an amount is subtracted whose numerator has no opposite.  Amounts are equal
and ordered like the rational numbers they stand for. -/
theorem arithmetic_exact :
    (∀ x, Obtainable x →
      0 < x.denominator.toInt ∧ Int.gcd x.numerator.toInt x.denominator.toInt = 1) ∧
    (zero.toRat = 0 ∧ one.toRat = 1 ∧ ∀ n, (ofInt64 n).toRat = n.toInt) ∧
    (∀ op : Operation, (∀ x ∈ op.operands, Obtainable x) →
      Wide.run op = some op.run ∧ (∀ z, op.run = .ok z → z.toRat = op.value) ∧
      ((∃ fault, op.run = .error fault) ↔
        op.DividesByZero ∨ op.NegatesLeast ∨ ¬Representable op.value)) ∧
    (∀ n d : Int64, d ≠ 0 → ((∃ a b, make n d = .error (.overflow a b)) ↔
      d < 0 ∧ Int.gcd n.toInt d.toInt = 1 ∧ (n = Int64.minValue ∨ d = Int64.minValue))) ∧
    ∀ x y, Obtainable x → Obtainable y →
      (x == y ↔ x.toRat = y.toRat) ∧ Wide.compare x y = some (x.compare y) ∧
      (x.compare y = .lt ↔ x.toRat < y.toRat) ∧ (x.compare y = .eq ↔ x.toRat = y.toRat) ∧
      (x.compare y = .gt ↔ y.toRat < x.toRat) := by
  refine ⟨fun x hx => ⟨hx.normal.positive, hx.normal.coprime⟩, ⟨?_, ?_, toRat_ofInt64⟩,
    fun op hop => ?_, fun n d hd => make_overflow_iff hd, fun x y hx hy => ?_⟩
  · exact (toRat_ofInt64 0).trans Int.cast_zero
  · exact (toRat_ofInt64 1).trans Int.cast_one
  · have hnormal : ∀ x ∈ op.operands, x.Normal := fun x hx => (hop x hx).normal
    exact ⟨Wide.run_eq hnormal, fun z hz => (Operation.run_eq_ok hnormal hz).2.1,
      Operation.run_eq_error_iff hnormal⟩
  · refine ⟨?_, Wide.compare_eq x y, compare_iff hx.normal hy.normal⟩
    rw [beq_iff_eq]
    exact hx.normal.eq_iff hy.normal

/-- The least whole number cannot be subtracted from minus one, although the difference would fit,
and its reciprocal overflows; a half less a third is a sixth. -/
theorem arithmetic_exact_sample :
    Operation.run (.sub ⟨1, 2⟩ ⟨1, 3⟩) = .ok ⟨1, 6⟩ ∧
    (⟨1, 6⟩ : Amount).toRat = (⟨1, 2⟩ : Amount).toRat - (⟨1, 3⟩ : Amount).toRat ∧
    (∃ fault, Operation.run (.sub (ofInt64 (-1)) (ofInt64 Int64.minValue)) = .error fault) ∧
    ∃ a b, make 1 Int64.minValue = .error (.overflow a b) := by
  obtain ⟨-, -, hoperations, hmake, -⟩ := arithmetic_exact
  have hmade : ∀ n d z, make n d = .ok z → Obtainable z := fun n d z hz =>
    @Obtainable.result (.make n d) z (by simp [operands]) hz
  have hhalf : Obtainable ⟨1, 2⟩ := hmade 2 4 _ (by decide +kernel)
  have hthird : Obtainable ⟨1, 3⟩ := hmade (-1) (-3) _ (by decide +kernel)
  have hdifference : Operation.run (.sub ⟨1, 2⟩ ⟨1, 3⟩) = .ok ⟨1, 6⟩ := by decide +kernel
  refine ⟨hdifference, (hoperations (.sub ⟨1, 2⟩ ⟨1, 3⟩) ?_).2.1 _ hdifference,
    (hoperations _ ?_).2.2.mpr (Or.inr (Or.inl rfl)),
    (hmake _ _ (by decide)).mpr ⟨by decide, by decide, Or.inr rfl⟩⟩
  · simp [operands, hhalf, hthird]
  · simp [operands, Obtainable.whole]

end Amount

end LexSimplex
