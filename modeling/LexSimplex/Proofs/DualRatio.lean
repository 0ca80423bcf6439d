import LexSimplex.Proofs.Exact.Lexicographic
import LexSimplex.Proofs.Exact.Selection
import LexSimplex.Proofs.Transfer.Forms

/-!
# The dual ratio test

The dual method chooses, of the variables that can enter through a row, one whose vector divided by its
coefficient is lexicographically smallest (`exists_dualEntering`).  That choice keeps an objective
optimal: when the row is solved for the variable and the variable is replaced in the objective, again
no variable that can enter has a negative vector (`dualEntering_keeps_optimal`).
-/

namespace LexSimplex

open Strength (Nonneg)

/-! ## The lexicographic order -/

namespace StrengthVector

/-- The lexicographic order, the highest level first. -/
instance : Preorder (StrengthVector Rat) where
  le v w := w.compare v ≠ .lt
  le_refl v := by
    rw [compare_ne_lt_iff]
    exact Strength.nonneg_of_forall fun s => by rw [sub_self]
  le_trans u v w huv hvw := by
    rw [compare_ne_lt_iff] at huv hvw ⊢
    have hsum := huv.add hvw
    simpa only [sub_add_sub_cancel', sub_add_sub_cancel] using hsum

theorem le_iff {v w : StrengthVector Rat} : v ≤ w ↔ Nonneg fun s => w.get s - v.get s :=
  compare_ne_lt_iff

theorem le_of_compare_eq_lt {v w : StrengthVector Rat} (h : v.compare w = .lt) : v ≤ w := by
  have hnegative : ¬Nonneg fun s => v.get s - w.get s := by
    rw [← compare_ne_lt_iff, not_not]
    exact h
  rw [le_iff]
  simpa only [neg_sub] using Nonneg.neg_of_not hnegative

end StrengthVector

/-! ## Variables that can enter -/

/-- A live variable of a kind that may enter the basis. -/
def Registry.CanEnter (registry : Registry Rat) (v : VariableId) : Prop :=
  (registry.kind? v).any VariableKind.canEnter = true

instance (registry : Registry Rat) (v : VariableId) : Decidable (registry.CanEnter v) :=
  inferInstanceAs (Decidable (_ = true))

/-- No variable that can enter has a lexicographically negative vector. -/
def Goal.OptimalOver (g : Goal Rat) (registry : Registry Rat) : Prop :=
  ∀ term ∈ g.terms.toList, registry.CanEnter term.1 → term.2.isNegative = false

instance (g : Goal Rat) (registry : Registry Rat) : Decidable (g.OptimalOver registry) :=
  inferInstanceAs (Decidable (∀ term ∈ g.terms.toList, registry.CanEnter term.1 → _))

variable {g : Goal Rat} {registry : Registry Rat} {row : Row LinearForm Rat}
  {v entering leaving : VariableId}

theorem Registry.canEnter_iff :
    registry.CanEnter v ↔ ∃ kind, registry.kind? v = some kind ∧ kind.canEnter = true := by
  unfold CanEnter
  cases registry.kind? v <;> simp

theorem Goal.not_isNegative_iff {vector : StrengthVector Rat} (h : g.coefficient? v = some vector) :
    vector.isNegative = false ↔ Nonneg fun s => g.rate s v := by
  have hrates : (fun s => g.rate s v) = vector.get := funext (rate_eq_get h)
  rw [hrates, ← Bool.not_eq_true, StrengthVector.isNegative_iff, not_not]

/-- Optimality in terms of the rates of all variables, those that do not occur included. -/
theorem Goal.optimalOver_iff :
    g.OptimalOver registry ↔ ∀ v, registry.CanEnter v → Nonneg fun s => g.rate s v := by
  constructor
  · intro h v hv
    cases hvector : g.coefficient? v with
    | none => exact Strength.nonneg_of_forall fun s => by rw [rate_eq_zero_of_none hvector]
    | some vector =>
        exact (not_isNegative_iff hvector).mp (h (v, vector) (SortedMap.find?_eq_some.mp hvector) hv)
  · intro h entry hentry hcanEnter
    exact (not_isNegative_iff (SortedMap.find?_eq_some.mpr hentry)).mpr (h entry.1 hcanEnter)

/-! ## The choice -/

/-- A term of a row through which the row can be repaired. -/
def Registry.Repairs (registry : Registry Rat) (entry : VariableId × Rat) : Prop :=
  0 < entry.2 ∧ registry.CanEnter entry.1

theorem Goal.get_dualRatio (g : Goal Rat) (v : VariableId) (x : Rat) (s : Strength) :
    (g.dualRatio v x).get s = g.rate s v * (1 / x) := by
  unfold dualRatio rate
  cases g.coefficient? v with
  | none => simp [StrengthVector.get_zero]
  | some vector => simp [StrengthVector.scaled]

/-- The better of two candidates is the least of those seen. -/
theorem Tableau.Least.add_better {β : Type} {candidate : β → Prop} {position : β → VariableId}
    {ratio : β → StrengthVector Rat} {seen : List β}
    {best : Option (VariableId × StrengthVector Rat)} {x : β}
    (h : Least candidate position ratio seen best) (hx : candidate x) :
    Least candidate position ratio (seen ++ [x]) (Goal.better best (position x) (ratio x)) := by
  cases best with
  | none => exact h.replace hx (by simp)
  | some current =>
      by_cases hlt : (ratio x).compare current.2 = .lt
      · have hbest : Goal.better (some current) (position x) (ratio x) =
            some (position x, ratio x) := by
          simp [Goal.better, hlt]
        rw [hbest]
        refine h.replace hx fun found hfound => ?_
        rw [← Option.some.inj hfound]
        exact StrengthVector.le_of_compare_eq_lt hlt
      · have hbest : Goal.better (some current) (position x) (ratio x) = some current := by
          simp [Goal.better, hlt]
        rw [hbest]
        exact h.keep hlt

theorem Goal.weighRatio_eq_ok (g : Goal Rat) (best : Option (VariableId × StrengthVector Rat))
    {entry : VariableId × Rat}
    (hlive : 0 < entry.2 → (registry.get? entry.1).isSome) :
    (registry.Repairs entry ∧ g.weighRatio registry best entry =
        .ok (better best entry.1 (g.dualRatio entry.1 entry.2))) ∨
      ¬registry.Repairs entry ∧ g.weighRatio registry best entry = .ok best := by
  unfold weighRatio Registry.Repairs
  by_cases hsign : entry.2 ≤ 0
  · exact Or.inr ⟨fun h => absurd h.1 (not_lt_of_ge hsign), if_pos hsign⟩
  · have hpositive : 0 < entry.2 := lt_of_not_ge hsign
    obtain ⟨record, hrecord⟩ := Option.isSome_iff_exists.mp (hlive hpositive)
    have hcanEnter : registry.CanEnter entry.1 ↔ record.kind.canEnter = true := by
      unfold Registry.CanEnter Registry.kind?
      simp [hrecord]
    rw [if_neg hsign, Registry.kind_eq_ok hrecord, hcanEnter]
    by_cases hkind : record.kind.canEnter = true
    · exact Or.inl ⟨⟨hpositive, hkind⟩, congrArg Except.ok (if_pos hkind)⟩
    · exact Or.inr ⟨fun h => hkind h.2, congrArg Except.ok (if_neg hkind)⟩

/-- The dual ratio test answers with a variable that can enter and has a positive coefficient, if
there is one, and then with one whose ratio is smallest. -/
theorem Goal.exists_dualEntering (g : Goal Rat) (row : Row LinearForm Rat)
    (registry : Registry Rat)
    (hlive : ∀ v, 0 < row.coefficient v → (registry.get? v).isSome) :
    ∃ choice, g.dualEntering row registry = .ok choice ∧
      (choice = none → ∀ v, registry.CanEnter v → row.coefficient v ≤ 0) ∧
      ∀ entering, choice = some entering → registry.CanEnter entering ∧
        0 < row.coefficient entering ∧ ∀ v, registry.CanEnter v → 0 < row.coefficient v →
          g.dualRatio entering (row.coefficient entering) ≤ g.dualRatio v (row.coefficient v) := by
  have hmem : ∀ {v}, 0 < row.coefficient v → (v, row.coefficient v) ∈ row.entries :=
    fun hpositive => Row.mem_entries.mpr ⟨rfl, ne_of_gt hpositive⟩
  obtain ⟨best, hbest, hleast⟩ := foldlM_ok (f := g.weighRatio registry)
    (Tableau.Least registry.Repairs Prod.fst fun entry => g.dualRatio entry.1 entry.2)
    row.entries none Tableau.Least.nil (by
      intro seen entry best hentry hseen
      obtain ⟨hcoefficient, -⟩ := Row.mem_entries.mp hentry
      have hpositive : 0 < entry.2 → (registry.get? entry.1).isSome :=
        fun hpositive => hlive entry.1 (hcoefficient ▸ hpositive)
      rcases g.weighRatio_eq_ok best hpositive with ⟨hrepairs, hout⟩ | ⟨hskip, hout⟩
      · exact ⟨_, hout, hseen.add_better hrepairs⟩
      · exact ⟨_, hout, hseen.skip hskip⟩)
  refine ⟨best.map Prod.fst, by rw [dualEntering, hbest]; rfl, fun hnone v hv => ?_,
    fun entering hentering => ?_⟩
  · refine le_of_not_gt fun hpositive => ?_
    exact hleast.not_candidate (Option.map_eq_none_iff.mp hnone) (hmem hpositive) ⟨hpositive, hv⟩
  · obtain ⟨p, hp, rfl⟩ := Option.map_eq_some_iff.mp hentering
    obtain ⟨entry, hentry, ⟨hpositive, hcanEnter⟩, rfl, hsmallest⟩ := hleast.exists_best hp
    obtain ⟨hcoefficient, -⟩ := Row.mem_entries.mp hentry
    refine ⟨hcanEnter, hcoefficient ▸ hpositive, fun v hv hpositive => ?_⟩
    rw [hcoefficient]
    exact hsmallest (v, row.coefficient v) (hmem hpositive) ⟨hpositive, hv⟩

/-! ## Optimality after the exchange -/

section Exchange

variable (hbasic : row.basic = some leaving) (hentering : Nonneg fun s => g.rate s entering)
  (hpositive : 0 < row.coefficient entering)

include hbasic hentering hpositive

/-- The leaving variable takes over the vector of the entering one, divided by its coefficient. -/
theorem Goal.nonneg_leaving (hself : row.coefficient leaving = 0)
    (habsent : g.coefficient? leaving = none) :
    Nonneg fun s => (g.substitute entering (row.solved entering)).rate s leaving := by
  have hne : leaving ≠ entering := by
    rintro rfl
    rw [hself] at hpositive
    exact lt_irrefl 0 hpositive
  have hrate : ∀ s, (g.substitute entering (row.solved entering)).rate s leaving =
      g.rate s entering * (1 / row.coefficient entering) := by
    intro s
    rw [rate_substitute, if_neg hne, rate_eq_zero_of_none habsent, Row.coefficient_solved,
      if_pos hbasic, zero_add, neg_div_neg_eq]
  simp only [hrate]
  exact hentering.mul (le_of_lt (one_div_pos.mpr hpositive))

/-- Every other variable keeps a nonnegative vector: with a positive coefficient since its ratio is not
below that of the entering one, with another since a nonnegative vector is added. -/
theorem Goal.nonneg_other (hother : Nonneg fun s => g.rate s v) (hv : v ≠ leaving)
    (hratio : 0 < row.coefficient v →
      g.dualRatio entering (row.coefficient entering) ≤ g.dualRatio v (row.coefficient v)) :
    Nonneg fun s => (g.substitute entering (row.solved entering)).rate s v := by
  have hbasicNe : row.basic ≠ some v := by
    rw [hbasic, ne_eq, Option.some.injEq]
    exact fun heq => hv heq.symm
  have hne : row.coefficient entering ≠ 0 := ne_of_gt hpositive
  by_cases hsame : v = entering
  · subst hsame
    have hrate : ∀ s, (g.substitute v (row.solved v)).rate s v = 0 := by
      intro s
      rw [rate_substitute, if_pos rfl, Row.coefficient_solved_self hbasicNe, mul_zero, add_zero]
    simp only [hrate]
    exact Strength.nonneg_of_forall fun _ => le_refl 0
  have hrate : ∀ s, (g.substitute entering (row.solved entering)).rate s v =
      g.rate s v + g.rate s entering * (row.coefficient v / -row.coefficient entering) := by
    intro s
    rw [rate_substitute, if_neg hsame, Row.coefficient_solved, if_neg hbasicNe, if_neg hsame]
  simp only [hrate]
  by_cases hsign : 0 < row.coefficient v
  · have hscaled := (StrengthVector.le_iff.mp (hratio hsign)).mul (le_of_lt hsign)
    have hvne : row.coefficient v ≠ 0 := ne_of_gt hsign
    have hterms : ∀ s, (g.rate s v * (1 / row.coefficient v) -
        g.rate s entering * (1 / row.coefficient entering)) * row.coefficient v =
        g.rate s v + g.rate s entering * (row.coefficient v / -row.coefficient entering) := by
      intro s
      field_simp
      ring
    simpa only [get_dualRatio, hterms] using hscaled
  · refine hother.add (hentering.mul ?_)
    rw [div_neg, ← neg_div]
    exact div_nonneg (neg_nonneg.mpr (le_of_not_gt hsign)) (le_of_lt hpositive)

end Exchange

/-- The dual ratio test on a row whose basic variable occurs neither in the row nor in an objective
that is optimal over the variables that can enter.  It gives no variable exactly when none of them
has a positive coefficient; otherwise the objective stays optimal when the row is solved for the
variable and the variable is replaced, and the variable that leaves has no negative vector either. -/
theorem dualEntering_keeps_optimal {row : Row (Storage Rat) Rat} (hstored : row.Stored)
    (hbasic : row.basic = some leaving) (hself : row.coefficient leaving = 0)
    (habsent : g.coefficient? leaving = none)
    (hlive : ∀ term ∈ row.entries, 0 < term.2 → (registry.get? term.1).isSome)
    (hoptimal : g.OptimalOver registry) :
    ∃ choice, g.dualEntering row registry = .ok choice ∧
      (choice = none ↔ ∀ v, registry.CanEnter v → row.coefficient v ≤ 0) ∧
      ∀ entering, choice = some entering → ∃ solved, row.pivot entering leaving = .ok solved ∧
        (g.substitute entering solved).OptimalOver registry ∧
        ∀ vector, (g.substitute entering solved).coefficient? leaving = some vector →
          vector.isNegative = false := by
  obtain ⟨form, has⟩ := hstored.exists_asForm
  simp only [← has.coefficient] at hself ⊢
  rw [← has.entries] at hlive
  obtain ⟨choice, hchoice, hnone, hsome⟩ := g.exists_dualEntering form registry fun v hpositive =>
    hlive (v, _) (Row.mem_entries.mpr ⟨rfl, ne_of_gt hpositive⟩) hpositive
  refine ⟨choice, (has.dualEntering g registry).symm.trans hchoice, ⟨hnone, fun hall => ?_⟩,
    fun entering hentering => ?_⟩
  · by_contra hne
    obtain ⟨entering, hentering⟩ := Option.ne_none_iff_exists'.mp hne
    obtain ⟨hcanEnter, hpositive, -⟩ := hsome entering hentering
    exact absurd (hall entering hcanEnter) (not_le_of_gt hpositive)
  · obtain ⟨hcanEnter, hpositive, hleast⟩ := hsome entering hentering
    have hformBasic : form.basic = some leaving := has.basic.trans hbasic
    obtain ⟨solved, hsolved, hasSolved⟩ :=
      has.pivot (Row.pivot_eq_ok hformBasic (ne_of_gt hpositive))
    rw [Goal.optimalOver_iff] at hoptimal
    have hrates := hoptimal entering hcanEnter
    have hleaving := Goal.nonneg_leaving hformBasic hrates hpositive hself habsent
    refine ⟨solved, hsolved, ?_, fun vector hvector => ?_⟩
    · rw [← hasSolved.goal_substitute, Goal.optimalOver_iff]
      intro v hv
      by_cases hsame : v = leaving
      · exact hsame ▸ hleaving
      · exact Goal.nonneg_other hformBasic hrates hpositive (hoptimal v hv) hsame (hleast v hv)
    · rw [← hasSolved.goal_substitute] at hvector
      exact (Goal.not_isNegative_iff hvector).mpr hleaving

/-- In the small layout two variables could enter through the row of the error variable.  The slack of
the upper bound has the smaller ratio, and the wish stays optimally met when it enters. -/
theorem dualEntering_keeps_optimal_layout : ∃ row solved,
    layout.2.tableau.row? ⟨2⟩ = some row ∧ row.entries = [(⟨2⟩, 1), (⟨3⟩, 1)] ∧
      layout.2.tableau.goal.dualEntering row layout.2.tableau.registry = .ok (some ⟨2⟩) ∧
      row.pivot ⟨2⟩ ⟨4⟩ = .ok solved ∧
      (layout.2.tableau.goal.substitute ⟨2⟩ solved).OptimalOver layout.2.tableau.registry := by
  have hfacts : ∀ row ∈ layout.2.tableau.row? ⟨2⟩, row.basic = some ⟨4⟩ ∧ row.coefficient ⟨4⟩ = 0 ∧
      (∀ term ∈ row.entries, 0 < term.2 → (layout.2.tableau.registry.get? term.1).isSome) ∧
      row.entries = [(⟨2⟩, 1), (⟨3⟩, 1)] ∧
      layout.2.tableau.goal.dualEntering row layout.2.tableau.registry = .ok (some ⟨2⟩) := by
    decide +kernel
  obtain ⟨row, hrow⟩ := Option.isSome_iff_exists.mp
    (show (layout.2.tableau.row? ⟨2⟩).isSome by decide +kernel)
  obtain ⟨hbasic, hself, hlive, hentries, hentering⟩ := hfacts row hrow
  obtain ⟨choice, hchoice, -, hkept⟩ := dualEntering_keeps_optimal
    (run_layout.regular.stored (⟨2⟩, row) (Tableau.mem_rowList.mpr hrow)) hbasic hself
    (show layout.2.tableau.goal.coefficient? ⟨4⟩ = none by decide +kernel) hlive (by decide +kernel)
  rw [hentering, Except.ok.injEq] at hchoice
  obtain ⟨solved, hsolved, hoptimal, -⟩ := hkept ⟨2⟩ hchoice.symm
  exact ⟨row, solved, hrow, hentries, hentering, hsolved, hoptimal⟩

end LexSimplex
