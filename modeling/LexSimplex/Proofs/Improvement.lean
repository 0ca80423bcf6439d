import LexSimplex.Proofs.Exact.Optimality
import LexSimplex.Proofs.Transfer.Forms

/-!
# What a step of the primal method achieves

A step brings in a variable whose vector in the objective is lexicographically negative.  Whatever the
history of the tableau, if its rows are in range and rows of pinned variables mention pinned variables
only:

* going through the row that the ratio test gives keeps all rows in range and does not make the
  objective larger; it becomes smaller exactly if the constant of that row is positive;
* if the ratio test gives no row, the variable can grow without limit, and the objective falls without
  limit at the highest level at which the vector is not zero.

Both parts rest on `StrengthVector.compare_of_negative`: the vector times how far the variable grows is
what is added to the objective.
-/

namespace LexSimplex

open Strength (Nonneg)

/-! ## Negative vectors -/

namespace StrengthVector

/-- Adding a multiple of a negative vector does not make a vector larger, and makes it smaller unless
the factor is zero. -/
theorem compare_of_negative {f : Strength → Rat} (hnegative : ¬Nonneg f) {x : Rat} (hx : 0 ≤ x)
    {v w : StrengthVector Rat} (h : ∀ s, w.get s = v.get s + f s * x) :
    v.compare w ≠ .lt ∧ (w.compare v = .lt ↔ 0 < x) := by
  constructor
  · have hfall := (Nonneg.neg_of_not hnegative).mul hx
    have hterms : ∀ s, -f s * x = v.get s - w.get s := fun s => by rw [h]; ring
    rw [compare_ne_lt_iff]
    simpa only [hterms] using hfall
  · rw [← not_iff_not, ← ne_eq, compare_ne_lt_iff]
    have hterms : ∀ s, w.get s - v.get s = f s * x := fun s => by rw [h]; ring
    simp only [hterms]
    constructor
    · -- Divided by a positive factor the vector would not be negative.
      intro hrise hpositive
      have hdivided := hrise.mul (le_of_lt (one_div_pos.mpr hpositive))
      have hsame : ∀ s, f s * x * (1 / x) = f s := fun s => by field_simp
      simp only [hsame] at hdivided
      exact hnegative hdivided
    · intro hzero
      obtain rfl : x = 0 := le_antisymm (le_of_not_gt hzero) hx
      exact Strength.nonneg_of_forall fun s => by rw [mul_zero]

/-- The sign of a vector is decided at its highest level that is not zero. -/
theorem exists_highestLevel {v : StrengthVector Rat} (h : v.isNegative = true) :
    ∃ s, v.highestLevel = some s ∧ v.get s < 0 ∧ ∀ r, s.level < r.level → v.get r = 0 := by
  unfold isNegative sign at h
  cases hlevel : v.highestLevel with
  | none => simp [hlevel] at h
  | some s =>
      have hsign : v.get s < 0 := by
        by_contra hnot
        simp [hlevel, hnot] at h
      refine ⟨s, rfl, hsign, fun r hr => ?_⟩
      obtain ⟨-, above, below, hsplit, habove⟩ := List.find?_eq_some_iff_append.mp hlevel
      -- The levels are listed from the highest, so those above stand before it.
      have hfalling : Strength.descending.Pairwise fun s r => r.level < s.level := by decide
      have hmem := Strength.mem_descending r
      rw [hsplit] at hfalling hmem
      rcases List.mem_append.mp hmem with hbefore | hafter
      · simpa using habove r hbefore
      · rcases List.mem_cons.mp hafter with rfl | hbelow
        · exact absurd hr (lt_irrefl _)
        · have hlower := (List.pairwise_cons.mp (List.pairwise_append.mp hfalling).2.1).1 r hbelow
          omega

end StrengthVector

theorem Goal.constant_substitute (g : Goal Rat) (v : VariableId) (definition : Row LinearForm Rat)
    (s : Strength) : (g.substitute v definition).constant.get s =
      g.constant.get s + g.rate s v * definition.constant := by
  rw [← level_zero, ← level_zero, level_substitute, Row.eval_zero, sub_zero]

/-- A falling line falls below every bound. -/
theorem exists_lt_bound (start : Rat) {slope : Rat} (h : slope < 0) (bound : Rat) :
    ∃ least, ∀ x, least ≤ x → start + slope * x < bound := by
  refine ⟨(start - bound) / -slope + 1, fun x hx => ?_⟩
  have hne : slope ≠ 0 := ne_of_lt h
  have hscaled : slope * x ≤ slope * ((start - bound) / -slope + 1) :=
    mul_le_mul_of_nonpos_left hx (le_of_lt h)
  have hvalue : slope * ((start - bound) / -slope + 1) = bound - start + slope := by
    field_simp
    ring
  linarith

namespace Tableau

/-- A variable can grow without limit, and the objective falls without limit with it. -/
structure Unlimited {S : Type} [RowStore S Rat] (t : Tableau S Rat) (g : Goal Rat)
    (v : VariableId) : Prop where
  /-- The values reached satisfy the rows and the ranges of all variables. -/
  feasible : ∀ x, 0 ≤ x → t.Holds (t.raised v x) ∧
    ∀ w kind, t.registry.kind? w = some kind → kind.Allows (t.raised v x w)
  falls : ∀ x, 0 < x → (g.eval (t.raised v x)).compare g.constant = .lt
  /-- The levels above the one that decides stay as they are, and that one falls below every bound. -/
  unbounded : ∃ vector s, g.coefficient? v = some vector ∧ vector.highestLevel = some s ∧
    (∀ x r, s.level < r.level → (g.eval (t.raised v x)).get r = g.constant.get r) ∧
    ∀ bound, ∃ least, ∀ x, least ≤ x → (g.eval (t.raised v x)).get s < bound

variable {t : Tableau LinearForm Rat} {which : Objective} {g : Goal Rat} {entering : VariableId}
  {id : RowId} {row : Row LinearForm Rat}

/-! ## Through a row -/

/-- Going through the row that limits an improving variable first. -/
theorem Reduced.exists_improved (h : t.Reduced) (hallowed : t.ValuesAllowed)
    (hpinned : t.PinnedApart) (hg : t.objective which = .ok g) (himproves : t.Improves g entering)
    (hrow : t.row? id = some row) (hlimits : t.Limits entering (id, row))
    (hleast : ∀ j other, t.row? j = some other → t.Limits entering (j, other) →
      -row.constant / row.coefficient entering ≤ -other.constant / other.coefficient entering) :
    ∃ next exchange g', t.pivot entering id = .ok (next, exchange) ∧ next.Reduced ∧
      next.ValuesAllowed ∧ next.PinnedApart ∧ next.objective which = .ok g' ∧
      g.constant.compare g'.constant ≠ .lt ∧
      (g'.constant.compare g.constant = .lt ↔ 0 < row.constant) := by
  obtain ⟨kind, vector, hkind, hcanEnter, hvector, hnegative⟩ := himproves
  have hunpinned : t.kindOf entering ≠ some .constant := by
    rw [hkind, ne_eq, Option.some.injEq]
    exact (canEnter_ne hcanEnter).2
  have ⟨⟨leavingKind, hleavingKind, hleaving⟩, hcoefficient⟩ := hlimits
  have hconstant : 0 ≤ row.constant :=
    (valuesAllowed_iff.mp hallowed id row leavingKind hrow hleavingKind).nonneg hleaving
  have hne : row.coefficient entering ≠ 0 := ne_of_lt hcoefficient
  obtain ⟨leaving, hbasic, -⟩ := h.row_basic hrow
  obtain ⟨next, hpivot, hexchanged⟩ := h.exists_exchange hrow hbasic hne
  have hfall : 0 < -row.coefficient entering := by linarith
  have hgrowth : 0 ≤ (row.solved entering).constant := div_nonneg hconstant (le_of_lt hfall)
  have hlower := StrengthVector.compare_of_negative (StrengthVector.isNegative_iff.mp hnegative)
    hgrowth (v := g.constant) (w := (g.substitute entering (row.solved entering)).constant)
    fun s => by rw [Goal.constant_substitute, Goal.rate_eq_get hvector]
  have hpositive : 0 < (row.solved entering).constant ↔ 0 < row.constant := by
    rw [Row.constant_solved, lt_div_iff₀ hfall, zero_mul]
  exact ⟨next, _, _, hpivot, hexchanged.reduced h hrow hne,
    hexchanged.valuesAllowed hallowed hpinned hunpinned hrow hlimits hleast,
    hexchanged.pinnedApart hpinned hunpinned, hexchanged.objective hg, hlower.1,
    hlower.2.trans hpositive⟩

/-! ## Without a row -/

/-- An improving variable that no row limits. -/
theorem Reduced.unlimited (h : t.Reduced) (hallowed : t.ValuesAllowed) (hpinned : t.PinnedApart)
    (hg : g.OverNonbasic t.registry) (himproves : t.Improves g entering)
    (hunlimited : ∀ id row, t.row? id = some row → ¬t.Limits entering (id, row)) :
    t.Unlimited g entering := by
  obtain ⟨kind, vector, hkind, hcanEnter, hvector, hnegative⟩ := himproves
  have hlevel : ∀ x s, (g.eval (t.raised entering x)).get s =
      g.constant.get s + vector.get s * x := by
    intro x s
    rw [← Goal.rate_eq_get hvector]
    exact level_raised hg s x
  refine ⟨fun x hx => ?_, fun x hx => ?_, ?_⟩
  · have hfeasible := feasible_raised h hallowed hpinned hkind hcanEnter hunlimited hx
    exact ⟨hfeasible.holds, hfeasible.allows⟩
  · exact (StrengthVector.compare_of_negative (StrengthVector.isNegative_iff.mp hnegative)
      (le_of_lt hx) (hlevel x)).2.mpr hx
  · obtain ⟨s, hs, hfall, habove⟩ := StrengthVector.exists_highestLevel hnegative
    refine ⟨vector, s, hvector, hs, fun x r hr => ?_, fun bound => ?_⟩
    · rw [hlevel, habove r hr, zero_mul, add_zero]
    · obtain ⟨least, hleast⟩ := exists_lt_bound (g.constant.get s) hfall bound
      exact ⟨least, fun x hx => by rw [hlevel]; exact hleast x hx⟩

theorem AsForms.unlimited {S : Type} [RowStore S Rat] [LawfulStore S Rat] {t : Tableau S Rat}
    {l : Tableau LinearForm Rat} (h : t.AsForms l) (hl : l.Unlimited g entering) :
    t.Unlimited g entering := by
  have hraised : l.raised entering = t.raised entering := funext (h.raised entering)
  refine ⟨fun x hx => ?_, fun x hx => ?_, ?_⟩
  · rw [← h.holds, ← hraised, ← h.registry]
    exact hl.feasible x hx
  · exact hraised ▸ hl.falls x hx
  · exact hraised ▸ hl.unbounded

end Tableau

/-- One step of the primal method on a tableau in reduced form, reached by a run or not, whose rows are
in range and whose rows of pinned variables mention pinned variables only.  The ratio test answers.
If it gives a row, the pivot through it succeeds and keeps these conditions; the objective does not
become larger, and becomes smaller exactly if the constant of the row was positive.  If it gives
none, the entering variable can grow without limit, and the objective falls without limit. -/
theorem primal_step_improves {t : Tableau (Storage Rat) Rat} {which : Objective} {g : Goal Rat}
    {v : VariableId} (hstored : t.Stored) (hreduced : t.Reduced) (hallowed : t.ValuesAllowed)
    (hpinned : t.PinnedApart) (hg : t.objective which = .ok g) (hover : g.OverNonbasic t.registry)
    (hcolumn : g.pivotColumn t.registry = .ok (some v)) :
    ∃ choice, t.leavingRow v = .ok choice ∧
      (∀ id, choice = some id → ∃ row next exchange g', t.row? id = some row ∧
        t.pivot v id = .ok (next, exchange) ∧
        next.Stored ∧ next.Reduced ∧ next.ValuesAllowed ∧ next.PinnedApart ∧
        next.objective which = .ok g' ∧ g.constant.compare g'.constant ≠ .lt ∧
        (g'.constant.compare g.constant = .lt ↔ 0 < row.constant)) ∧
      (choice = none → t.Unlimited g v) := by
  obtain ⟨l, has⟩ := hstored.exists_asForms
  rw [← has.reduced] at hreduced
  rw [← has.valuesAllowed] at hallowed
  rw [← has.pinnedApart] at hpinned
  rw [← has.objective] at hg
  rw [← has.registry] at hover hcolumn
  -- The column rule gives an improving variable.
  obtain ⟨column, hfound, himproves, -⟩ := Tableau.exists_pivotColumn hover
  rw [hcolumn, Except.ok.injEq] at hfound
  obtain ⟨choice, hchoice, hunlimited, hlimited⟩ := Tableau.exists_leavingRow hreduced v
  refine ⟨choice, (has.leavingRow v).symm.trans hchoice, fun id hid => ?_, fun hnone => ?_⟩
  · obtain ⟨form, hform, hlimits, hleast⟩ := hlimited id hid
    obtain ⟨row, hrow, hasRow⟩ := has.exists_row hform
    obtain ⟨next, exchange, g', hpivot, hnext, hnextAllowed, hnextPinned, hg', hlower, hstrict⟩ :=
      hreduced.exists_improved hallowed hpinned hg (himproves v hfound.symm) hform hlimits hleast
    obtain ⟨result, hresult, hasNext⟩ := has.pivot hpivot
    rw [hasRow.constant] at hstrict
    exact ⟨row, result, exchange, g', hrow, hresult, hasNext.stored, hasNext.reduced.mp hnext,
      hasNext.valuesAllowed.mp hnextAllowed, hasNext.pinnedApart.mp hnextPinned,
      (hasNext.objective which).symm.trans hg', hlower, hstrict⟩
  · exact has.unlimited (hreduced.unlimited hallowed hpinned hover (himproves v hfound.symm)
      (hunlimited hnone))

/-- The small layout when its upper bound was withdrawn and the width has yet to follow. -/
def unboundedLayout : Tableau (Storage Rat) Rat :=
  (SolverM.left ((Call.remove ⟨⟨0⟩, ⟨1⟩⟩).opening 9) layout.2).tableau

/-- The small layout with an objective that rewards the excess of the width, which nothing limits. -/
def rewardingLayout : Tableau (Storage Rat) Rat :=
  { layout.2.tableau with goal := Goal.zero.insert ⟨3⟩ (.unit .low) (-1) }

/-- Without its upper bound the width grows until the wish for 20 is met, and the objective becomes
smaller; with the other objective a step finds that nothing limits it. -/
theorem primal_step_improves_layout :
    (∃ next exchange g', unboundedLayout.pivot ⟨1⟩ ⟨2⟩ = .ok (next, exchange) ∧
      next.ValuesAllowed ∧ next.objective .main = .ok g' ∧
      g'.constant.compare unboundedLayout.goal.constant = .lt) ∧
    rewardingLayout.Unlimited rewardingLayout.goal ⟨3⟩ := by
  have hopening : unboundedLayout.Regular := run_layout.regular_opening _ 9
  have hlayout := run_layout.regular
  constructor
  · obtain ⟨choice, hchoice, hpivots, -⟩ := primal_step_improves (t := unboundedLayout)
      hopening.stored hopening.reduced hopening.valuesAllowed hopening.pinnedApart
      (show unboundedLayout.objective .main = .ok _ from rfl) (hopening.objectives .main _ rfl).1
      (show unboundedLayout.goal.pivotColumn unboundedLayout.registry = .ok (some ⟨1⟩) by
        decide +kernel)
    have hrow : unboundedLayout.leavingRow ⟨1⟩ = .ok (some ⟨2⟩) := by decide +kernel
    have hpositive : ∀ row ∈ unboundedLayout.row? ⟨2⟩, 0 < row.constant := by decide +kernel
    rw [hrow, Except.ok.injEq] at hchoice
    obtain ⟨row, next, exchange, g', hfound, hpivot, -, -, hallowed, -, hg', -, hstrict⟩ :=
      hpivots ⟨2⟩ hchoice.symm
    exact ⟨next, exchange, g', hpivot, hallowed, hg', hstrict.mpr (hpositive row hfound)⟩
  · obtain ⟨choice, hchoice, -, hunlimited⟩ := primal_step_improves (t := rewardingLayout)
      hlayout.stored (by decide +kernel) hlayout.valuesAllowed hlayout.pinnedApart
      (show rewardingLayout.objective .main = .ok _ from rfl) (by decide +kernel)
      (show rewardingLayout.goal.pivotColumn rewardingLayout.registry = .ok (some ⟨3⟩) by
        decide +kernel)
    have hrow : rewardingLayout.leavingRow ⟨3⟩ = .ok none := by decide +kernel
    rw [hrow, Except.ok.injEq] at hchoice
    exact hunlimited hchoice.symm

end LexSimplex
