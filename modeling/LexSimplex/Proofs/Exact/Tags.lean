import LexSimplex.Proofs.Exact.Lowering
import LexSimplex.Proofs.Exact.Pivoting

/-!
# Constraints and their own variables

A tag records the variables that a constraint brought.  Their roles follow from the relation and the
strength of the constraint (`Tag.Formed`).  On the solutions of the tag's equation the error
variables measure the violation from above (`Tag.violation_le_shortfall`).  Conversely `Tag.fill`
gives the own variables the values that solve the equation with the least error.
-/

namespace LexSimplex

/-- The kind of a variable and the levels at which it is penalised. -/
abbrev Role := VariableKind × Option (StrengthVector Rat)

namespace Tag

variable {tag : Tag Rat} {a b : Assignment Rat}

/-- The role of the first variable that a constraint brings. -/
def markerRole (c : Constraint Rat) : Role :=
  match c.relation, c.strength with
  | .equal, none => (.constant, none)
  | .equal, some strength => (.error, some (.unit strength))
  | _, _ => (.slack, none)

/-- The variables of a constraint have the roles that its relation and its strength ask for. -/
structure Formed (t : Tableau LinearForm Rat) (tag : Tag Rat) : Prop where
  marker : t.roleOf tag.marker = some (markerRole tag.constraint)
  required : tag.constraint.strength = none → tag.partner = none
  soft : ∀ strength, tag.constraint.strength = some strength → ∃ partner,
    tag.partner = some partner ∧ t.roleOf partner = some (.error, some (.unit strength))
  nodup : tag.own.Nodup

/-- The sum of the error variables of a constraint. -/
def shortfall (tag : Tag Rat) (a : Assignment Rat) : Rat :=
  match tag.constraint.relation with
  | .equal => a tag.marker + tag.partnerValue a
  | _ => tag.partnerValue a

/-- What a constraint adds to the goal at one level. -/
def penalty (tag : Tag Rat) (level : Strength) (a : Assignment Rat) : Rat :=
  if tag.constraint.strength = some level then tag.shortfall a else 0

theorem mem_own {v : VariableId} : v ∈ tag.own ↔ v = tag.marker ∨ tag.partner = some v := by
  unfold own
  rw [List.mem_cons, Option.mem_toList]

theorem partnerValue_congr (h : ∀ v ∈ tag.own, a v = b v) :
    tag.partnerValue a = tag.partnerValue b := by
  unfold partnerValue
  cases hpartner : tag.partner with
  | none => rfl
  | some partner => exact h partner (mem_own.mpr (Or.inr hpartner))

theorem shortfall_congr (h : ∀ v ∈ tag.own, a v = b v) : tag.shortfall a = tag.shortfall b := by
  unfold shortfall
  rw [h tag.marker List.mem_cons_self, partnerValue_congr h]

theorem penalty_congr (h : ∀ v ∈ tag.own, a v = b v) (level : Strength) :
    tag.penalty level a = tag.penalty level b := by
  unfold penalty
  rw [shortfall_congr h]

/-- The sign with which the marker enters the equation of a tag. -/
def markerSign (tag : Tag Rat) : Rat :=
  match tag.constraint.relation, tag.partner with
  | .equal, none => 1
  | .equal, some _ => -1
  | .lessOrEqual, _ => 1
  | .greaterOrEqual, _ => -1

theorem markerSign_ne_zero (tag : Tag Rat) : tag.markerSign ≠ 0 := by
  unfold markerSign
  split <;> simp

/-- The equation of a tag balances its expression with its marker and its partner. -/
theorem residual_eq (tag : Tag Rat) (a : Assignment Rat) :
    tag.residual a = tag.constraint.expression.eval a +
      tag.markerSign * (a tag.marker - tag.partnerValue a) := by
  unfold residual markerSign partnerValue
  cases tag.constraint.relation <;> cases tag.partner <;> simp only <;> ring

/-- Moving the marker moves the equation by as much. -/
theorem residual_update_marker (hpartner : tag.partner ≠ some tag.marker)
    (hnet : tag.constraint.expression.netCoefficient tag.marker = 0) (x : Rat) :
    tag.residual (Function.update a tag.marker x) =
      tag.residual a + tag.markerSign * (x - a tag.marker) := by
  have hvalue : tag.partnerValue (Function.update a tag.marker x) = tag.partnerValue a := by
    unfold partnerValue
    cases hcase : tag.partner with
    | none => rfl
    | some partner =>
        have hne : partner ≠ tag.marker := by
          rintro rfl
          exact hpartner hcase
        exact Function.update_of_ne hne _ _
  rw [residual_eq, residual_eq, Expression.eval_update, hnet, hvalue, Function.update_self]
  ring

/-- A variable that is not the constraint's own moves the equation through the expression. -/
theorem residual_update_of_not_mem {v : VariableId} (hv : v ∉ tag.own) (x : Rat) :
    tag.residual (Function.update a v x) =
      tag.residual a + tag.constraint.expression.netCoefficient v * (x - a v) := by
  have hown : ∀ w ∈ tag.own, Function.update a v x w = a w := by
    intro w hw
    refine Function.update_of_ne ?_ _ _
    rintro rfl
    exact hv hw
  rw [residual_eq, residual_eq, Expression.eval_update, partnerValue_congr hown,
    hown tag.marker List.mem_cons_self]
  ring

/-! ## Filling in the own variables -/

theorem excess_nonneg (x : Rat) : 0 ≤ Constraint.excess x := by
  unfold Constraint.excess
  split
  next h => exact le_of_lt h
  next _ => exact le_refl 0

theorem excess_sub_excess (x : Rat) : Constraint.excess x - Constraint.excess (-x) = x := by
  unfold Constraint.excess
  rcases lt_trichotomy x 0 with hneg | rfl | hpos
  · simp [hneg, not_lt_of_gt hneg]
  · simp
  · simp [hpos, not_lt_of_gt hpos]

/-- What the marker has to exceed the partner by. -/
def balance (tag : Tag Rat) (a : Assignment Rat) : Rat :=
  -tag.markerSign * tag.constraint.expression.eval a

/-- The own variables of a constraint at the values that solve its equation with the least error. -/
def fill (tag : Tag Rat) (a : Assignment Rat) : Assignment Rat := fun v =>
  if v = tag.marker then
    if tag.partner.isSome then Constraint.excess (tag.balance a) else tag.balance a
  else if tag.partner = some v then Constraint.excess (-tag.balance a)
  else a v

theorem fill_of_not_mem {v : VariableId} (h : v ∉ tag.own) : tag.fill a v = a v := by
  rw [mem_own, not_or] at h
  unfold fill
  rw [if_neg h.1, if_neg h.2]

theorem markerSign_mul_self (tag : Tag Rat) : tag.markerSign * tag.markerSign = 1 := by
  unfold markerSign
  split <;> norm_num

/-- An assignment whose own values are filled in solves the equation. -/
theorem holds_of_fill (hpartner : tag.partner ≠ some tag.marker) (hown : ∀ v ∈ tag.own, b v = tag.fill a v)
    (hexpression : tag.constraint.expression.eval b = tag.constraint.expression.eval a) :
    tag.Holds b := by
  have hdifference : b tag.marker - tag.partnerValue b = tag.balance a := by
    have hmarker := hown tag.marker List.mem_cons_self
    unfold fill at hmarker
    rw [if_pos rfl] at hmarker
    unfold partnerValue
    cases hcase : tag.partner with
    | none =>
        rw [hcase] at hmarker
        rw [hmarker]
        simp
    | some partner =>
        have hne : partner ≠ tag.marker := by
          rintro rfl
          exact hpartner hcase
        have hvalue := hown partner (mem_own.mpr (Or.inr hcase))
        unfold fill at hvalue
        rw [if_neg hne, if_pos hcase] at hvalue
        rw [hcase] at hmarker
        simp only
        rw [hmarker, hvalue]
        simpa using excess_sub_excess (tag.balance a)
  unfold Holds
  rw [residual_eq, hdifference, hexpression]
  have hproduct : tag.markerSign * tag.balance a = -tag.constraint.expression.eval a := by
    unfold balance
    rw [← mul_assoc, mul_neg, markerSign_mul_self]
    ring
  rw [hproduct]
  ring

/-- The sum of the error variables, filled in, is the violation of a soft constraint. -/
theorem shortfall_of_fill (hpartner : tag.partner.isSome) (hne : tag.partner ≠ some tag.marker)
    (hown : ∀ v ∈ tag.own, b v = tag.fill a v) : tag.shortfall b = tag.constraint.violation a := by
  obtain ⟨partner, hcase⟩ := Option.isSome_iff_exists.mp hpartner
  have hmarker : b tag.marker = Constraint.excess (tag.balance a) := by
    rw [hown tag.marker List.mem_cons_self]
    unfold fill
    rw [if_pos rfl, if_pos hpartner]
  have hvalue : tag.partnerValue b = Constraint.excess (-tag.balance a) := by
    have hpartnerNe : partner ≠ tag.marker := by
      rintro rfl
      exact hne hcase
    unfold partnerValue
    rw [hcase]
    simp only
    rw [hown partner (mem_own.mpr (Or.inr hcase))]
    unfold fill
    rw [if_neg hpartnerNe, if_pos hcase]
  unfold shortfall Constraint.violation
  rw [hmarker, hvalue]
  unfold balance markerSign
  cases hrelation : tag.constraint.relation with
  | equal =>
      rw [hcase]
      simp only [neg_neg, one_mul, Constraint.excess]
      rcases lt_trichotomy (tag.constraint.expression.eval a) 0 with hneg | hzero | hpos
      · simp [hneg, not_lt_of_gt hneg]
      · simp [hzero]
      · simp [hpos, not_lt_of_gt hpos]
  | lessOrEqual => simp
  | greaterOrEqual => simp

/-- On a solution with own values that are not negative the error variables are at least the
violation. -/
theorem violation_le_shortfall (hpartner : tag.partner.isSome) (hholds : tag.Holds a)
    (hown : ∀ v ∈ tag.own, 0 ≤ a v) : tag.constraint.violation a ≤ tag.shortfall a := by
  obtain ⟨partner, hcase⟩ := Option.isSome_iff_exists.mp hpartner
  have hmarker := hown tag.marker List.mem_cons_self
  have hvalue := hown partner (mem_own.mpr (Or.inr hcase))
  unfold Holds residual at hholds
  unfold shortfall Constraint.violation partnerValue
  unfold partnerValue at hholds
  rw [hcase] at hholds ⊢
  cases hrelation : tag.constraint.relation with
  | equal =>
      rw [hrelation] at hholds
      simp only at hholds ⊢
      split <;> linarith
  | lessOrEqual =>
      rw [hrelation] at hholds
      simp only [Constraint.excess] at hholds ⊢
      split <;> linarith
  | greaterOrEqual =>
      rw [hrelation] at hholds
      simp only [Constraint.excess] at hholds ⊢
      split <;> linarith

/-- On a solution with its marker in range a required constraint holds. -/
theorem constraint_holds (hpartner : tag.partner = none) (hstrength : tag.constraint.strength = none)
    (hholds : tag.Holds a) (hmarker : (markerRole tag.constraint).1.Allows (a tag.marker)) :
    tag.constraint.Holds a := by
  unfold Holds residual at hholds
  unfold partnerValue at hholds
  unfold markerRole at hmarker
  unfold Constraint.Holds
  rw [hpartner] at hholds
  rw [hstrength] at hmarker
  cases hrelation : tag.constraint.relation with
  | equal =>
      rw [hrelation] at hholds hmarker
      simp only [VariableKind.Allows] at hholds hmarker ⊢
      linarith
  | lessOrEqual =>
      rw [hrelation] at hholds hmarker
      simp only [VariableKind.Allows] at hholds hmarker ⊢
      linarith
  | greaterOrEqual =>
      rw [hrelation] at hholds hmarker
      simp only [VariableKind.Allows] at hholds hmarker ⊢
      linarith

/-- The filled-in marker of a required constraint is in range where the constraint holds. -/
theorem allows_fill_required (hpartner : tag.partner = none)
    (hstrength : tag.constraint.strength = none) (hholds : tag.constraint.Holds a) :
    (markerRole tag.constraint).1.Allows (tag.fill a tag.marker) := by
  have hvalue : tag.fill a tag.marker = tag.balance a := by
    unfold fill
    rw [if_pos rfl, hpartner]
    rfl
  rw [hvalue]
  unfold balance markerSign markerRole
  unfold Constraint.Holds at hholds
  rw [hpartner, hstrength]
  cases hrelation : tag.constraint.relation with
  | equal =>
      rw [hrelation] at hholds
      simp only [VariableKind.Allows] at hholds ⊢
      rw [hholds]
      ring
  | lessOrEqual =>
      rw [hrelation] at hholds
      simp only [VariableKind.Allows] at hholds ⊢
      linarith
  | greaterOrEqual =>
      rw [hrelation] at hholds
      simp only [VariableKind.Allows] at hholds ⊢
      linarith

/-- The filled-in variables of a soft constraint are not negative. -/
theorem fill_nonneg (hpartner : tag.partner.isSome) {v : VariableId} (hv : v ∈ tag.own) :
    0 ≤ tag.fill a v := by
  unfold fill
  rw [mem_own] at hv
  rw [if_pos hpartner]
  split
  · exact excess_nonneg _
  next hne =>
    rw [if_pos (hv.resolve_left hne)]
    exact excess_nonneg _

end Tag

end LexSimplex
