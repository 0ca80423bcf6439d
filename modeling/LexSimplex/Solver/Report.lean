import LexSimplex.Tableau.Lowering
import LexSimplex.Tableau.Optimize

/-!
# What a solver counts and reports

Counters and events are for information only: nothing is decided by them. An event is kept as a
value, and its wording is a function of it.
-/

namespace LexSimplex

/-- How much work a solver did since it was created. -/
structure Counters where
  added : Nat := 0
  removed : Nat := 0
  unsatisfiable : Nat := 0
  /-- Insertions through an artificial variable. -/
  artificial : Nat := 0
  pivots : Nat := 0
  dualPivots : Nat := 0
  resolves : Nat := 0
  resets : Nat := 0
deriving DecidableEq

namespace Counters

/-- Write all counts. -/
def text (c : Counters) : String :=
  s!"{c.added} added, {c.removed} removed, {c.unsatisfiable} unsatisfiable, " ++
    s!"{c.artificial} artificial, {c.pivots} pivots, {c.dualPivots} dual pivots, " ++
    s!"{c.resolves} resolves, {c.resets} resets"

end Counters

/-- Something a solver reports while it answers a call. -/
inductive Event (α : Type) where
  | created (id : VariableId) (name : String)
  | pivoted (exchange : Exchange)
  | unboundedIn (entering : VariableId)
  | stuckRow (row : RowId)
  | unsatisfiable (constraint : Constraint α)
  | contradictory (constraint : Constraint α)
  | added (number : ConstraintNumber) (constraint : Constraint α)
  | removed (handle : ConstraintHandle)
  | resolved (constraints rows : Nat) (outcome : Outcome) (goal : StrengthVector α)
  | reset (constraints rows : Nat)
deriving DecidableEq

namespace Event

variable {α : Type}

/-- How much attention an event deserves. -/
inductive Level where
  | trace
  | debug
  | warn
deriving DecidableEq

/-- The level of an event. -/
def level : Event α → Level
  | created .. | pivoted .. => .trace
  | added .. | removed .. | resolved .. | reset .. => .debug
  | unboundedIn .. | stuckRow .. | unsatisfiable .. | contradictory .. => .warn

/-- The name of a level. -/
def Level.name : Level → String
  | trace => "TRACE"
  | debug => "DEBUG"
  | warn => "WARN"

/-- The wording of an event. -/
def message [Scalar α] : Event α → String
  | created id name => s!"created variable {id} ({name})"
  | pivoted ⟨row, entering, leaving⟩ =>
      s!"pivot on {row}: {entering} enters, {leaving} leaves"
  | unboundedIn entering => s!"objective is unbounded in the direction of {entering}"
  | stuckRow row => s!"row {row} can't be made feasible"
  | unsatisfiable constraint => s!"rejected unsatisfiable constraint {constraint.text}"
  | contradictory constraint => s!"rejected contradictory constraint {constraint.text}"
  | added number constraint => s!"added constraint c{number}: {constraint.text}"
  | removed handle => s!"removed constraint {handle}"
  | resolved constraints rows outcome goal =>
      s!"resolved {constraints} constraints in {rows} rows ({outcome.name}), goal {goal.text}"
  | reset constraints rows => s!"reset after {constraints} constraints in {rows} rows"

/-- An event as a line of a log. -/
def line [Scalar α] (event : Event α) : String := s!"{event.level.name} {event.message}"

end Event

namespace Verdict

/-- What is reported about a loop that halted. -/
def events {α : Type} : Verdict → List (Event α)
  | optimal => []
  | infeasible row => [.stuckRow row]
  | unbounded entering => [.unboundedIn entering]

end Verdict

namespace Course

/-- What is reported about a finished loop. -/
def events {σ α : Type} (course : Course σ) : List (Event α) :=
  course.exchanges.map .pivoted ++ course.verdict.events

end Course

end LexSimplex
