import LexSimplex.Proofs.Exact.Lexicographic
import LexSimplex.Proofs.Exact.Pivoting

/-!
# Feasible points and optimal tableaus

A feasible point of a tableau is a solution within the ranges of all live variables.  The current
values are one (`Proper.feasible_value`).  When no variable improves an objective, no feasible point
is better (`optimal_of_decided`).  When one does and no row limits it, it can grow without limit
(`feasible_raised`), and the objective takes values below zero (`exists_negative_of_unbounded`), which
the objectives of the solver never do.
-/

namespace LexSimplex

namespace Tableau

variable {t : Tableau LinearForm Rat} {g : Goal Rat} {entering : VariableId} {a : Assignment Rat}

/-- A solution within the ranges of the live variables. -/
structure Feasible (t : Tableau LinearForm Rat) (a : Assignment Rat) : Prop where
  holds : t.Holds a
  allows : ∀ v kind, t.kindOf v = some kind → kind.Allows (a v)

theorem Agrees.feasible {next : Tableau LinearForm Rat} (h : Agrees t next) :
    next.Feasible a ↔ t.Feasible a := by
  constructor
  · intro ha
    exact ⟨(h.holds a).mp ha.holds, fun v kind hkind => ha.allows v kind (by rw [h.kindOf, hkind])⟩
  · intro ha
    exact ⟨(h.holds a).mpr ha.holds, fun v kind hkind => ha.allows v kind (by rw [← h.kindOf, hkind])⟩

/-- The values reached when a variable grows are those with all other parameters at zero. -/
theorem raised_eq_complete (t : Tableau LinearForm Rat) (v : VariableId) (x : Rat) :
    t.raised v x = t.complete (Function.update (fun _ => 0) v x) := by
  funext w
  have hvalue : t.value w = t.complete (fun _ => 0) w := by rw [value_eq_complete]
  have hdefinition : t.registry.definition? w = t.definitionOf w := rfl
  unfold raised slope
  rw [hvalue, hdefinition]
  unfold complete
  cases (t.definitionOf w).bind t.row? with
  | none => by_cases hw : w = v <;> simp [hw]
  | some row => simp only [Row.eval_update, sub_zero]

/-- The point reached from the current values when a variable that may enter grows and no row limits
it. -/
theorem feasible_raised (h : t.Reduced) (hallowed : t.ValuesAllowed) (hpinned : t.PinnedApart)
    {kind : VariableKind} (hkind : t.kindOf entering = some kind)
    (hcanEnter : kind.canEnter = true)
    (hunlimited : ∀ id row, t.row? id = some row → ¬t.Limits entering (id, row)) {x : Rat}
    (hx : 0 ≤ x) : t.Feasible (t.raised entering x) := by
  obtain ⟨-, hunpinned⟩ := canEnter_ne hcanEnter
  rw [raised_eq_complete]
  refine ⟨h.holds_complete _, fun v found hfound => ?_⟩
  cases hdefinition : t.definitionOf v with
  | none =>
      rw [complete_of_none hdefinition]
      by_cases hv : v = entering
      · subst hv
        rw [hkind, Option.some.injEq] at hfound
        rw [Function.update_self, ← hfound]
        exact VariableKind.allows_of_nonneg hunpinned hx
      · rw [Function.update_of_ne hv]
        exact VariableKind.allows_zero found
  | some id =>
      obtain ⟨row, hrow, hbasic⟩ := h.row_of_definition hdefinition
      have hbasicKind : t.BasicOf row found := (basicOf_iff hbasic).mpr hfound
      have hconstant := valuesAllowed_iff.mp hallowed id row found hrow hbasicKind
      rw [complete_of_row hdefinition hrow, Row.eval_update, Row.eval_zero, sub_zero]
      by_cases hfree : found = .unrestricted
      · rw [hfree]
        trivial
      by_cases hpinnedKind : found = .constant
      · -- The row of a pinned variable does not mention the entering one.
        have hzero : row.coefficient entering = 0 := by
          refine hpinned.coefficient_eq_zero hrow (hpinnedKind ▸ hbasicKind) ?_
          rw [hkind, ne_eq, Option.some.injEq]
          exact hunpinned
        rwa [hzero, zero_mul, add_zero]
      · have hcoefficient : 0 ≤ row.coefficient entering := by
          by_contra hneg
          exact hunlimited id row hrow ⟨⟨found, hbasicKind, hfree⟩, lt_of_not_ge hneg⟩
        refine VariableKind.allows_of_nonneg hpinnedKind ?_
        have hstart := hconstant.nonneg hfree
        have hgrowth := mul_nonneg hcoefficient hx
        linarith

/-- The value of an objective when a variable grows. -/
theorem level_raised (hg : g.OverNonbasic t.registry) (s : Strength) (x : Rat) :
    g.level s (t.raised entering x) = g.constant.get s + g.rate s entering * x := by
  rw [raised_eq_complete, level_complete hg, Goal.level_update, Goal.level_zero, sub_zero]

/-- The current values are feasible. -/
theorem Proper.feasible_value (h : t.Proper) : t.Feasible t.value := by
  refine ⟨h.holds_value, fun v kind hkind => ?_⟩
  rw [value_eq_complete]
  cases hdefinition : t.definitionOf v with
  | none =>
      rw [complete_of_none hdefinition]
      exact VariableKind.allows_zero kind
  | some id =>
      obtain ⟨row, hrow, hbasic⟩ := h.row_of_definition hdefinition
      rw [complete_of_row hdefinition hrow, Row.eval_zero]
      exact (h.fits_of_basic hrow hbasic hkind).allows

/-- The value of an objective at the current values is its constant. -/
theorem level_value (hg : t.Admits g) (s : Strength) : g.level s t.value = g.constant.get s := by
  rw [← Goal.level_zero, value_eq_complete, hg.level_complete]

/-- The weighted sum of nonnegative vectors is nonnegative. -/
theorem nonneg_weighIn (entries : List (VariableId × StrengthVector Rat))
    (h : ∀ entry ∈ entries, Strength.Nonneg fun s => entry.2.get s * a entry.1) :
    Strength.Nonneg fun s => SortedMap.weighIn (fun vector => vector.get s) a entries := by
  induction entries with
  | nil => exact Strength.nonneg_of_forall fun s => by simp [SortedMap.weighIn]
  | cons entry rest ih =>
      have hrest := ih fun other hother => h other (List.mem_cons_of_mem _ hother)
      have hsum := (h entry List.mem_cons_self).add hrest
      simpa only [SortedMap.weighIn_cons] using hsum

/-- If no variable improves an objective, no feasible point is better than the current values. -/
theorem optimal_of_decided (hg : t.Admits g) (hdecided : ∀ v, ¬t.Improves g v)
    (ha : t.Feasible a) : Strength.Nonneg fun s => g.level s a - g.level s t.value := by
  have hterms : Strength.Nonneg fun s => g.terms.weigh (fun vector => vector.get s) a := by
    refine nonneg_weighIn g.terms.toList fun entry hentry => ?_
    have hvector : g.coefficient? entry.1 = some entry.2 := SortedMap.find?_eq_some.mpr hentry
    have hoccurs : (g.coefficient? entry.1).isSome := by rw [hvector]; rfl
    obtain ⟨kind, hkind⟩ := Option.isSome_iff_exists.mp (hg.free entry.1 hoccurs).kindOf_isSome
    have hrange := ha.allows entry.1 kind hkind
    have hrestricted : kind ≠ .unrestricted := by
      rintro rfl
      exact hg.restricted entry.1 hoccurs hkind
    by_cases hpinned : kind = .constant
    · have hzero : a entry.1 = 0 := by
        rw [hpinned] at hrange
        exact hrange
      exact Strength.nonneg_of_forall fun s => by rw [hzero, mul_zero]
    · -- A variable that may enter has a nonnegative vector, since it does not improve the objective.
      have hcanEnter : kind.canEnter = true := by
        cases kind <;> simp_all [VariableKind.canEnter]
      have hvectorNonneg : Strength.Nonneg entry.2.get := by
        by_contra hnegative
        exact hdecided entry.1
          ⟨kind, entry.2, hkind, hcanEnter, hvector, StrengthVector.isNegative_iff.mpr hnegative⟩
      exact hvectorNonneg.mul (hrange.nonneg hrestricted)
  have hdifference : ∀ s, g.level s a - g.level s t.value =
      g.terms.weigh (fun vector => vector.get s) a := by
    intro s
    rw [level_value hg, Goal.level_eq]
    ring
  simpa only [hdifference] using hterms

/-- An objective that an unlimited variable improves has a negative value at some feasible point. -/
theorem exists_negative_of_unbounded (h : t.Proper) (hg : t.Admits g)
    (himproves : t.Improves g entering)
    (hunlimited : ∀ id row, t.row? id = some row → ¬t.Limits entering (id, row)) :
    ∃ s a, t.Feasible a ∧ g.level s a < 0 := by
  obtain ⟨kind, vector, hkind, hcanEnter, hvector, hnegative⟩ := himproves
  have hlead := StrengthVector.isNegative_iff.mp hnegative
  unfold Strength.Nonneg at hlead
  push Not at hlead
  obtain ⟨s, -, hs⟩ := hlead
  have hrate : g.rate s entering = vector.get s := Goal.rate_eq_get hvector s
  -- Far enough along the ray the level falls below zero.
  let x : Rat := (|g.constant.get s| + 1) / -vector.get s
  have hx : 0 ≤ x := div_nonneg (by positivity) (by linarith)
  refine ⟨s, _, feasible_raised h.reduced h.valuesAllowed h.pinnedApart hkind hcanEnter hunlimited hx,
    ?_⟩
  have hstep : vector.get s * x = -(|g.constant.get s| + 1) := by
    have hne : vector.get s ≠ 0 := ne_of_lt hs
    simp only [x]
    field_simp
  rw [level_raised hg.overNonbasic, hrate, hstep]
  linarith [le_abs_self (g.constant.get s)]

end Tableau

end LexSimplex
