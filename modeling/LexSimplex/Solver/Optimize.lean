import LexSimplex.Solver.Basic

/-!
# Keeping a solver optimal

After every change the rows out of range are repaired and the goal is optimised again. Each finished
loop is counted and reported.
-/

namespace LexSimplex.SolverM

variable {S α : Type} [Scalar α] [RowStore S α]

/-- Take over the result of a finished loop and report it. -/
def follow (course : Course (Tableau S α)) : SolverM S α Unit := do
  setTableau course.final
  report course.events

/-- Minimise an objective. -/
def optimize (objective : Objective) (limit : Nat) : SolverM S α Outcome := do
  enter .optimizing
  let course ← (← tableau).optimize objective limit
  follow course
  count fun c => { c with pivots := c.pivots + course.exchanges.length }
  enter .building
  return course.verdict.outcome

/-- Bring the queued rows back into range. -/
def dualOptimize (limit : Nat) : SolverM S α Outcome := do
  let course ← (← tableau).dualOptimize limit
  follow course
  count fun c => { c with dualPivots := c.dualPivots + course.exchanges.length }
  return course.verdict.outcome

/-- Repair the rows out of range, then minimise the goal. The first outcome other than optimal
stands. -/
def reoptimize (limit : Nat) : SolverM S α Outcome := do
  let repaired ← dualOptimize limit
  let optimized ← optimize .main limit
  return if repaired = .optimal then optimized else repaired

end LexSimplex.SolverM
