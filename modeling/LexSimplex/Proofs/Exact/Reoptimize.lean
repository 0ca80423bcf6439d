import LexSimplex.Proofs.Exact.PhaseOne
import LexSimplex.Proofs.Ends
import LexSimplex.Proofs.Loops

/-!
# Reoptimising a solver

The two loops of a solver on a proper tableau.  There is nothing to repair, so the dual loop halts at
once; the primal loop ends at a tableau that agrees with the one it started from.  If the goal is
never negative at a feasible point, the outcome is optimal (`reoptimize_ends`).

A loop that runs out of steps leaves the tableau that it started from, which is still proper
(`Solver.Exhausted`).
-/

namespace LexSimplex

/-- The loop that is under way in a solver starts from a proper tableau and does not end within the
limit. -/
def Solver.Exhausted (limit : Nat) (s : Solver LinearForm Rat) : Prop :=
  s.tableau.Proper ∧ s.tableau.optimize s.tableau.pursued limit = .error .outOfSteps

theorem Tableau.pursued_main {t : Tableau LinearForm Rat} (h : t.artificial = none) :
    t.pursued = .main := by
  unfold pursued
  rw [h]
  rfl

theorem Tableau.pursued_artificial {t : Tableau LinearForm Rat} {g : Goal Rat}
    (h : t.artificial = some g) : t.pursued = .artificial := by
  unfold pursued
  rw [h]
  rfl

/-- The loop that is under way has an objective. -/
theorem Tableau.exists_objective (t : Tableau LinearForm Rat) :
    ∃ g, t.objective t.pursued = .ok g := by
  cases hartificial : t.artificial with
  | none =>
      rw [pursued_main hartificial]
      exact ⟨t.goal, rfl⟩
  | some g =>
      rw [pursued_artificial hartificial]
      exact ⟨g, objective_artificial_iff.mpr hartificial⟩

namespace SolverM

open Tableau

variable {s : Solver LinearForm Rat}

/-- The primal loop of a solver. -/
theorem optimize_ends (h : s.tableau.Proper) {which : Objective} {g : Goal Rat}
    (hg : s.tableau.objective which = .ok g) (hpursued : s.tableau.pursued = which) (limit : Nat) :
    Ends (optimize which limit) s (ReturnsOr
      (fun next => next.Exhausted limit ∧ s.SameBooks next ∧ next.tableau = s.tableau)
      fun outcome next => s.SameBooks next ∧ next.tableau.Proper ∧ Agrees s.tableau next.tableau ∧
      ∃ g' verdict, next.tableau.objective which = .ok g' ∧
        (∀ level a, s.tableau.Holds a → g'.level level a = g.level level a) ∧
        next.tableau.Decided g' verdict ∧ outcome = verdict.outcome) := by
  unfold optimize
  simp only [ends_bind, ends_enter, ends_tableau]
  rcases optimize_spec h hg limit with hout | ⟨course, hcourse, hfinal, hagrees, g', hg', hlevel, hend⟩
  · rw [hout]
    rw [← hpursued] at hout
    exact ⟨⟨h, hout⟩, ⟨rfl, rfl⟩, rfl⟩
  · rw [hcourse]
    exact ⟨⟨rfl, rfl⟩, hfinal, hagrees, g', course.verdict, hg', hlevel, hend, rfl⟩

/-- The dual loop of a solver has no rows to repair. -/
theorem dualOptimize_ends (h : s.tableau.Proper) (limit : Nat) :
    Ends (dualOptimize limit) s (ReturnsOr (Solver.Exhausted limit) fun outcome next =>
      s.SameBooks next ∧ next.tableau = s.tableau ∧ outcome = .optimal) := by
  unfold dualOptimize
  simp only [ends_bind, ends_tableau]
  rcases dualOptimize_settled h.settled limit with ⟨rfl, hout⟩ | hcourse
  · rw [hout]
    exact ⟨h, rfl⟩
  · rw [hcourse]
    exact ⟨⟨rfl, rfl⟩, rfl, rfl⟩

/-- Reoptimising with a goal that is never negative ends at an optimum. -/
theorem reoptimize_ends (h : s.tableau.Proper) (hnone : s.tableau.artificial = none)
    (hgoal : ∀ level a, s.tableau.Feasible a → 0 ≤ s.tableau.goal.level level a) (limit : Nat) :
    Ends (reoptimize limit) s (ReturnsOr (Solver.Exhausted limit) fun outcome next =>
      s.SameBooks next ∧ next.tableau.Proper ∧ Agrees s.tableau next.tableau ∧
      (∀ v, ¬next.tableau.Improves next.tableau.goal v) ∧ outcome = .optimal) := by
  unfold reoptimize
  refine (dualOptimize_ends h limit).bindOr (fun _ hout => hout) ?_
  rintro repaired middle ⟨hbooks, htableau, rfl⟩
  have hmiddle : middle.tableau.Proper := htableau ▸ h
  have hmain : middle.tableau.objective .main = .ok middle.tableau.goal := rfl
  have hpursued : middle.tableau.pursued = .main := pursued_main (htableau ▸ hnone)
  refine (optimize_ends hmiddle hmain hpursued limit).bindOr (fun _ hout => hout.1) ?_
  rintro optimized next ⟨hbooks', hnext, hagrees, g', verdict, hg', hlevel, hdecided, rfl⟩
  obtain rfl : next.tableau.goal = g' := Except.ok.inj hg'
  rw [htableau] at hagrees hlevel
  have hnonneg : ∀ level a, next.tableau.Feasible a → 0 ≤ next.tableau.goal.level level a := by
    intro level a ha
    have hfeasible := hagrees.feasible.mp ha
    rw [hlevel level a hfeasible.holds]
    exact hgoal level a hfeasible
  rw [ends_pure]
  cases verdict with
  | optimal => exact ⟨hbooks.trans hbooks', hnext, hagrees, hdecided, rfl⟩
  | infeasible => exact hdecided.elim
  | unbounded entering =>
      obtain ⟨level, a, ha, hnegative⟩ :=
        exists_negative_of_unbounded hnext hnext.goal hdecided.1 hdecided.2
      exact absurd (hnonneg level a ha) (not_le_of_gt hnegative)

end SolverM

end LexSimplex
