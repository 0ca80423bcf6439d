import LexSimplex.Solver.Withdraw

/-!
# Calls on a solver

The calls a layout engine makes during a session: declare variables, add and remove constraints,
resolve, read values back, release variables and start over. Every call is also a value of type
`Call`, so that a history of a solver is a list of calls.
-/

namespace LexSimplex

namespace SolverM

variable {S α : Type} [Scalar α] [RowStore S α]

/-- Create a variable for the layout to constrain. -/
def declare (name : String) (kind : DeclaredKind) : SolverM S α Variable := do
  enter .building
  create name kind.toKind

/-- Optimise and store the value of every variable in its record. -/
def resolve (limit : Nat) : SolverM S α Outcome := do
  let outcome ← reoptimize limit
  setTableau (← tableau).storeValues
  enter .solved
  count fun c => { c with resolves := c.resolves + 1 }
  let s ← get
  report [.resolved s.constraints.size s.tableau.rowCount outcome s.tableau.goal.constant]
  return outcome

/-- Release a variable that the tableau does not mention. -/
def release (v : Variable) : SolverM S α Unit := do
  let s ← get
  let id ← s.tableau.registry.resolve v
  let tagged := s.constraints.toList.any fun (_, tag) => tag.own.contains id
  if tagged then refuse (.variableInUse id)
  else if ← s.tableau.isReferenced id then refuse (.variableInUse id)
  else releaseId id

/-- The current value of a variable. -/
def valueOf (v : Variable) : SolverM S α α := do
  let t ← tableau
  return t.value (← t.registry.resolve v)

/-- The error variables of a constraint; a required one has none. -/
def errorVariables (handle : ConstraintHandle) : SolverM S α (List Variable) := do
  let s ← get
  let tag ← s.tag handle
  let errors ← tag.own.filterM fun v => return (← s.tableau.registry.kind v) = .error
  return errors.filterMap s.tableau.registry.handle?

/-- The strength of a constraint; a required one has none. -/
def strengthOf (handle : ConstraintHandle) : SolverM S α (Option Strength) := do
  return (← (← get).tag handle).constraint.strength

/-- Drop all constraints and variables and start a new session. Settings, counters and journal are
kept. -/
def reset (session : SessionId) : SolverM S α Unit := do
  let s ← get
  report [.reset s.constraints.size s.tableau.rowCount]
  modify fun s => { s with
    tableau := .start session
    constraints := .empty
    nextConstraint := .first
    state := .empty
    counters := { s.counters with resets := s.counters.resets + 1 } }

end SolverM

/-- A call on a solver. -/
inductive Call (α : Type) where
  | declare (name : String) (kind : DeclaredKind)
  | add (constraint : Constraint α)
  | remove (handle : ConstraintHandle)
  | resolve
  | release (v : Variable)
  | reset (session : SessionId)
  | valueOf (v : Variable)
  | errorVariables (handle : ConstraintHandle)
  | strengthOf (handle : ConstraintHandle)
deriving DecidableEq

/-- The answer of a call. -/
inductive Reply (α : Type) where
  | declared (v : Variable)
  | added (handle : ConstraintHandle)
  | resolved (outcome : Outcome)
  | value (x : α)
  | errors (vs : List Variable)
  | strength (s : Option Strength)
  | done
deriving DecidableEq

namespace Call

variable {S α : Type} [Scalar α] [RowStore S α]

/-- Make a call, each of its pivot loops limited to the given number of steps. -/
def perform (limit : Nat) : Call α → SolverM S α (Reply α)
  | declare name kind => return .declared (← SolverM.declare name kind)
  | add constraint => return .added (← SolverM.add constraint limit)
  | remove handle => do
      SolverM.remove handle limit
      return .done
  | resolve => return .resolved (← SolverM.resolve limit)
  | release v => do
      SolverM.release v
      return .done
  | reset session => do
      SolverM.reset session
      return .done
  | valueOf v => return .value (← SolverM.valueOf v)
  | errorVariables handle => return .errors (← SolverM.errorVariables handle)
  | strengthOf handle => return .strength (← SolverM.strengthOf handle)

end Call

end LexSimplex
