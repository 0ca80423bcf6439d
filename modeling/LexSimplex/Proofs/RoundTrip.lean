import LexSimplex.Proofs.Exact.Cycling
import LexSimplex.Proofs.Transfer.Forms

/-!
# Exchanging a pair of variables back

A pivot and the pivot that exchanges the same pair of variables back cancel.  Neither the terms that
cancel on the way nor those that come in have to be followed: a row is determined by the points at
which it holds (`Row.ext_holds`), a reduced tableau by its solutions and the rows that its variables are
defined by, and an objective by its values at the solutions (`Tableau.row?_eq`, `Tableau.goal_eq`).  A
pivot changes none of the solutions and none of these values, so only the definitions are compared
(`ExchangedBack.definitionOf`).
-/

namespace LexSimplex

/-- What is written in a row: its basic variable, its constant and its terms. -/
def Row.content {S : Type} [RowStore S Rat] (row : Row S Rat) :
    Option VariableId × Rat × List (VariableId × Rat) :=
  (row.basic, row.constant, row.entries)

section Storages

variable {S : Type} [RowStore S Rat] [LawfulStore S Rat]

theorem Row.AsForm.content {row : Row S Rat} {form : Row LinearForm Rat} (h : row.AsForm form) :
    form.content = row.content := by
  unfold Row.content
  rw [h.basic, h.constant, h.entries]

theorem Tableau.AsForms.content {t : Tableau S Rat} {l : Tableau LinearForm Rat} (h : t.AsForms l)
    (j : RowId) : (l.row? j).map Row.content = (t.row? j).map Row.content :=
  h.agree (fun t => (t.row? j).map Row.content) fun m t => by
    rw [row?_mapStore, Option.map_map]
    refine congrArg (fun f => (t.row? j).map f) (funext fun row => ?_)
    simp only [Function.comp_apply, Row.content, Row.basic_mapStore, Row.constant_mapStore,
      Row.entries_mapStore]

end Storages

/-! ## Rows -/

namespace Row

variable {row other : Row LinearForm Rat} {v entering leaving : VariableId}

/-- Rows for a variable that they do not mention are equal if they hold at the same points. -/
theorem ext_holds (hbasic : row.basic = some v) (hself : row.coefficient v = 0)
    (hother : other.basic = some v) (hotherSelf : other.coefficient v = 0)
    (h : ∀ a, row.Holds a ↔ other.Holds a) : row = other := by
  apply ext_eval (hbasic.trans hother.symm)
  intro a
  have hholds : row.Holds (Function.update a v (row.eval a)) :=
    (holds_update_iff hbasic hself _).mpr rfl
  exact (holds_update_iff hother hotherSelf _).mp ((h _).mp hholds)

/-- The variable that left has a coefficient in the solved row, so that it can come back. -/
theorem coefficient_solved_leaving (hbasic : row.basic = some leaving)
    (hentering : row.coefficient entering ≠ 0) : (row.solved entering).coefficient leaving ≠ 0 := by
  rw [coefficient_solved, if_pos hbasic, neg_div_neg_eq]
  exact one_div_ne_zero hentering

/-- Solving a row for another variable and then for the one it was solved for. -/
theorem solved_solved (hbasic : row.basic = some leaving) (hself : row.coefficient leaving = 0)
    (hentering : row.coefficient entering ≠ 0) : (row.solved entering).solved leaving = row := by
  have hne : entering ≠ leaving := by
    rintro rfl
    exact hentering hself
  have hrow : ∀ basic, row.basic = some basic → row.coefficient basic = 0 := by
    intro basic hfound
    rw [hbasic, Option.some.injEq] at hfound
    exact hfound ▸ hself
  have hsolvedSelf : (row.solved entering).coefficient entering = 0 :=
    coefficient_solved_self (by rw [hbasic, ne_eq, Option.some.injEq]; exact hne.symm)
  have hsolved : ∀ basic, (row.solved entering).basic = some basic →
      (row.solved entering).coefficient basic = 0 := by
    intro basic hfound
    rw [basic_solved, Option.some.injEq] at hfound
    exact hfound ▸ hsolvedSelf
  have hback : ((row.solved entering).solved leaving).coefficient leaving = 0 :=
    coefficient_solved_self (by rw [basic_solved, ne_eq, Option.some.injEq]; exact hne)
  refine ext_holds rfl hback hbasic hself fun a => ?_
  rw [holds_solved hsolved (coefficient_solved_leaving hbasic hentering),
    holds_solved hrow hentering]

end Row

/-! ## Tableaus -/

namespace Tableau

variable {t next back : Tableau LinearForm Rat} {id : RowId} {row : Row LinearForm Rat}
  {entering leaving : VariableId} {which : Objective} {g : Goal Rat}

/-- A pivot, and the one that exchanges the two variables back. -/
structure ExchangedBack (t next back : Tableau LinearForm Rat) (id : RowId)
    (row : Row LinearForm Rat) (entering leaving : VariableId) : Prop where
  reduced : t.Reduced
  found : t.row? id = some row
  basic : row.basic = some leaving
  coefficient : row.coefficient entering ≠ 0
  there : Exchanged t next id entering row
  back : Exchanged next back id leaving (row.solved entering)

namespace ExchangedBack

theorem reduced_next (h : ExchangedBack t next back id row entering leaving) : next.Reduced :=
  h.there.reduced h.reduced h.found h.coefficient

theorem row_next (h : ExchangedBack t next back id row entering leaving) :
    next.row? id = some (row.solved entering) := by
  rw [h.there.rows, if_pos rfl]

theorem coefficient_next (h : ExchangedBack t next back id row entering leaving) :
    (row.solved entering).coefficient leaving ≠ 0 :=
  Row.coefficient_solved_leaving h.basic h.coefficient

theorem reduced_back (h : ExchangedBack t next back id row entering leaving) : back.Reduced :=
  h.back.reduced h.reduced_next h.row_next h.coefficient_next

theorem agrees (h : ExchangedBack t next back id row entering leaving) : Agrees t back :=
  (h.there.agrees h.reduced h.found h.coefficient).trans
    (h.back.agrees h.reduced_next h.row_next h.coefficient_next)

/-- All variables have the definitions that they had. -/
theorem definitionOf (h : ExchangedBack t next back id row entering leaving) (v : VariableId) :
    back.definitionOf v = t.definitionOf v := by
  have hfree := h.reduced.terms_free h.found h.coefficient
  have hdefined := h.reduced.definition_of_basic h.found h.basic
  have hleavingFree := h.reduced_next.terms_free h.row_next h.coefficient_next
  rw [h.back.definitionOf hleavingFree.kindOf_isSome, h.there.definitionOf hfree.kindOf_isSome]
  by_cases hleaving : v = leaving
  · rw [if_pos hleaving, hleaving, hdefined]
    rfl
  by_cases hentering : v = entering
  · rw [if_neg hleaving, if_pos hentering, hentering, hfree.definitionOf]
    simp
  · -- No variable but the leaving one was defined by the row.
    have hother : t.definitionOf v ≠ some id := by
      intro hsame
      obtain ⟨found, hfound, hfoundBasic⟩ := h.reduced.row_of_definition hsame
      rw [h.found, Option.some.injEq] at hfound
      rw [← hfound, h.basic, Option.some.injEq] at hfoundBasic
      exact hleaving hfoundBasic.symm
    rw [if_neg hleaving, if_neg hentering, if_neg hother, if_neg hother]

theorem row? (h : ExchangedBack t next back id row entering leaving) (j : RowId) :
    back.row? j = t.row? j :=
  row?_eq h.definitionOf h.reduced h.reduced_back h.agrees.holds j

theorem registry (h : ExchangedBack t next back id row entering leaving) :
    back.registry = t.registry :=
  Registry.eq_of_undefined (h.there.frame.trans h.back.frame).registry h.definitionOf

theorem objective (h : ExchangedBack t next back id row entering leaving)
    (hg : t.objective which = .ok g) (hover : g.OverNonbasic t.registry) (hclean : g.Clean) :
    back.objective which = .ok g := by
  obtain ⟨g', hg', hlevel⟩ := h.agrees.objective hg
  have hmiddle := Goal.clean_substitute hclean entering (row.solved entering)
  have hoverNext := h.there.overNonbasic hclean hover
    (Exchanged.solved_self h.reduced h.found h.coefficient)
    fun _ => Exchanged.terms_solved h.reduced h.found
  have hoverBack := h.back.overNonbasic hmiddle hoverNext
    (Exchanged.solved_self h.reduced_next h.row_next h.coefficient_next)
    fun _ => Exchanged.terms_solved h.reduced_next h.row_next
  have hsame := hg'.symm.trans (h.back.objective (h.there.objective hg))
  rw [Except.ok.injEq] at hsame
  rw [hg', Except.ok.injEq]
  refine goal_eq h.definitionOf h.reduced h.reduced_back h.agrees.holds hclean hover ?_ ?_ hlevel
  · exact hsame ▸ Goal.clean_substitute hmiddle _ _
  · exact hsame ▸ hoverBack

end ExchangedBack

/-- Both pivots succeed. -/
theorem Reduced.exists_exchangedBack (h : t.Reduced) (hrow : t.row? id = some row)
    (hbasic : row.basic = some leaving) (hentering : row.coefficient entering ≠ 0) :
    ∃ next back, t.pivot entering id = .ok (next, ⟨id, entering, leaving⟩) ∧
      next.pivot leaving id = .ok (back, ⟨id, leaving, entering⟩) ∧
      ExchangedBack t next back id row entering leaving := by
  obtain ⟨next, hpivot, hexchanged⟩ := h.exists_exchange hrow hbasic hentering
  have hreduced := hexchanged.reduced h hrow hentering
  have hsolved : next.row? id = some (row.solved entering) := by rw [hexchanged.rows, if_pos rfl]
  obtain ⟨back, hback, hexchangedBack⟩ := hreduced.exists_exchange hsolved (Row.basic_solved _ _)
    (Row.coefficient_solved_leaving hbasic hentering)
  exact ⟨next, back, hpivot, hback, h, hrow, hbasic, hentering, hexchanged, hexchangedBack⟩

end Tableau

/-- Exchanging a pair of variables back restores everything.  In a tableau in reduced form, whatever its
history, both pivots succeed, and every row, every record and every objective over variables that no
row defines, without zero vectors, is as it was.  For a single row it is enough that it does not
mention its own variable. -/
theorem exchange_round_trip :
    (∀ (t : Tableau (Storage Rat) Rat) (id : RowId) (row : Row (Storage Rat) Rat)
      (entering leaving : VariableId), t.Stored → t.Reduced → t.row? id = some row →
      row.basic = some leaving → row.coefficient entering ≠ 0 →
      ∃ next back, t.pivot entering id = .ok (next, ⟨id, entering, leaving⟩) ∧
        next.pivot leaving id = .ok (back, ⟨id, leaving, entering⟩) ∧
        (∀ j, (back.row? j).map Row.content = (t.row? j).map Row.content) ∧
        back.registry = t.registry ∧
        ∀ which g, t.objective which = .ok g → g.OverNonbasic t.registry → g.Clean →
          back.objective which = .ok g) ∧
    ∀ (row : Row (Storage Rat) Rat) (entering leaving : VariableId), row.Stored →
      row.basic = some leaving → row.coefficient leaving = 0 → row.coefficient entering ≠ 0 →
      ∃ solved back, row.pivot entering leaving = .ok solved ∧
        solved.pivot leaving entering = .ok back ∧ back.content = row.content := by
  constructor
  · intro t id row entering leaving hstored hreduced hrow hbasic hentering
    obtain ⟨l, has⟩ := hstored.exists_asForms
    obtain ⟨form, hform, hasRow⟩ := has.exists_form hrow
    rw [← hasRow.basic] at hbasic
    rw [← hasRow.coefficient] at hentering
    obtain ⟨next, back, hpivot, hback, hexchanged⟩ :=
      (has.reduced.mpr hreduced).exists_exchangedBack hform hbasic hentering
    obtain ⟨after, hafter, hasAfter⟩ := has.pivot hpivot
    obtain ⟨result, hresult, hasResult⟩ := hasAfter.pivot hback
    refine ⟨after, result, hafter, hresult, fun j => ?_, ?_, fun which g hg hover hclean => ?_⟩
    · rw [← hasResult.content, ← has.content, hexchanged.row?]
    · rw [← hasResult.registry, hexchanged.registry, has.registry]
    · rw [← has.objective] at hg
      rw [← has.registry] at hover
      rw [← hasResult.objective]
      exact hexchanged.objective hg hover hclean
  · intro row entering leaving hstored hbasic hself hentering
    obtain ⟨form, has⟩ := hstored.exists_asForm
    rw [← has.basic] at hbasic
    rw [← has.coefficient] at hself hentering
    obtain ⟨solved, hsolved, hasSolved⟩ := has.pivot (Row.pivot_eq_ok hbasic hentering)
    obtain ⟨back, hback, hasBack⟩ := hasSolved.pivot (Row.pivot_eq_ok (Row.basic_solved form entering)
      (Row.coefficient_solved_leaving hbasic hentering))
    rw [Row.solved_solved hbasic hself hentering] at hasBack
    exact ⟨solved, back, hsolved, hback, hasBack.content.symm.trans has.content⟩

/-- In the small layout the slack of the upper bound enters through the row of the lower bound and
leaves again. -/
theorem exchange_round_trip_layout :
    (∃ next back, layout.2.tableau.pivot ⟨2⟩ ⟨1⟩ = .ok (next, ⟨⟨1⟩, ⟨2⟩, ⟨1⟩⟩) ∧
      next.pivot ⟨1⟩ ⟨1⟩ = .ok (back, ⟨⟨1⟩, ⟨1⟩, ⟨2⟩⟩) ∧
      back.registry = layout.2.tableau.registry ∧
      back.objective .main = layout.2.tableau.objective .main) ∧
    ∃ row solved back, layout.2.tableau.row? ⟨1⟩ = some row ∧ row.pivot ⟨2⟩ ⟨1⟩ = .ok solved ∧
      solved.pivot ⟨1⟩ ⟨2⟩ = .ok back ∧ back.content = row.content := by
  have hregular := run_layout.regular
  have hfacts : ∀ row ∈ layout.2.tableau.row? ⟨1⟩, row.basic = some ⟨1⟩ ∧ row.coefficient ⟨1⟩ = 0 ∧
      row.coefficient ⟨2⟩ ≠ 0 := by
    decide +kernel
  obtain ⟨row, hrow⟩ := Option.isSome_iff_exists.mp
    (show (layout.2.tableau.row? ⟨1⟩).isSome by decide +kernel)
  obtain ⟨hbasic, hself, hentering⟩ := hfacts row hrow
  have hstored := hregular.stored (⟨1⟩, row) (Tableau.mem_rowList.mpr hrow)
  constructor
  · obtain ⟨next, back, hpivot, hback, -, hregistry, hobjectives⟩ := exchange_round_trip.1 _ ⟨1⟩ row
      ⟨2⟩ ⟨1⟩ hregular.stored hregular.reduced hrow hbasic hentering
    obtain ⟨hover, hclean⟩ := hregular.objectives .main _ rfl
    exact ⟨next, back, hpivot, hback, hregistry, hobjectives .main _ rfl hover hclean⟩
  · obtain ⟨solved, back, hsolved, hback, hsame⟩ :=
      exchange_round_trip.2 row ⟨2⟩ ⟨1⟩ hstored hbasic hself hentering
    exact ⟨row, solved, back, hrow, hsolved, hback, hsame⟩

end LexSimplex
