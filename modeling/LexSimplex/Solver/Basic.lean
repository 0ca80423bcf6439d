import LexSimplex.Solver.Report

/-!
# Solvers

A solver is a tableau together with the constraints it was built from. This module holds the state
of a solver and the monad in which calls are written: a call can fail and still leave the state
changed, so the state is kept on both ways out.
-/

namespace LexSimplex

/-- Where a solver is between resets. -/
inductive State where
  /-- Nothing was declared since the start of the session. -/
  | empty
  /-- Something changed since values were last stored. -/
  | building
  /-- A pivot loop is running. -/
  | optimizing
  /-- The stored values are those of the tableau. -/
  | solved
deriving DecidableEq

namespace State

/-- The name of a state. -/
def name : State → String
  | empty => "Empty"
  | building => "Building"
  | optimizing => "Optimizing"
  | solved => "Solved"

end State

/-- A tableau with a lexicographic goal, kept optimal as constraints come and go. -/
structure Solver (S α : Type) where
  settings : Settings
  tableau : Tableau S α
  constraints : SortedMap ConstraintNumber (Tag α)
  nextConstraint : ConstraintNumber
  state : State
  counters : Counters
  /-- What was reported, in order. -/
  journal : Array (Event α)

namespace Solver

variable {S α : Type} [Scalar α] [RowStore S α]

/-- An empty solver in a new session. -/
def start (settings : Settings) (session : SessionId) : Solver S α where
  settings := settings
  tableau := .start session
  constraints := .empty
  nextConstraint := .first
  state := .empty
  counters := {}
  journal := #[]

/-- The session of a solver. -/
def session (s : Solver S α) : SessionId := s.tableau.registry.session

/-- The tag of a constraint, if the handle belongs to one that is present. -/
def tag (s : Solver S α) (handle : ConstraintHandle) : Except SolverError (Tag α) :=
  if handle.session ≠ s.session then .error (.unknownConstraint handle.number)
  else
    match s.constraints.find? handle.number with
    | some tag => .ok tag
    | none => .error (.unknownConstraint handle.number)

/-- The constraints that are present, in the order of their numbers. -/
def accepted (s : Solver S α) : List (Constraint α) :=
  s.constraints.toList.map fun (_, tag) => tag.constraint

/-- Forget what was reported. -/
def clearJournal (s : Solver S α) : Solver S α := { s with journal := #[] }

/-- Write the goal and the rows. -/
def text (s : Solver S α) : String := s.tableau.text

end Solver

/-- Calls on a solver. The state survives a failure. -/
abbrev SolverM (S α : Type) := EStateM Failure (Solver S α)

instance {S α : Type} : MonadLift (Except Failure) (SolverM S α) where
  monadLift result := match result with
    | .ok a => pure a
    | .error failure => throw failure

namespace SolverM

variable {S α : Type}

/-- Refuse a call. -/
def refuse {β : Type} (cause : SolverError) : SolverM S α β := throw (.error cause)

/-- Report events in order. -/
def report (events : List (Event α)) : SolverM S α Unit :=
  modify fun s => { s with journal := s.journal ++ events.toArray }

/-- Move to a state. -/
def enter (state : State) : SolverM S α Unit := modify fun s => { s with state }

/-- Change the counters. -/
def count (change : Counters → Counters) : SolverM S α Unit :=
  modify fun s => { s with counters := change s.counters }

/-- The tableau. -/
def tableau : SolverM S α (Tableau S α) := return (← get).tableau

/-- Replace the tableau. -/
def setTableau (t : Tableau S α) : SolverM S α Unit := modify fun s => { s with tableau := t }

/-- Change the tableau, unless the change fails. -/
def update (change : Tableau S α → Except Failure (Tableau S α)) : SolverM S α Unit := do
  setTableau (← change (← tableau))

/-- Change the goal. -/
def modifyGoal (change : Goal α → Goal α) : SolverM S α Unit :=
  modify fun s => { s with tableau := { s.tableau with goal := change s.tableau.goal } }

/-- Replace the registry. -/
def setRegistry (registry : Registry α) : SolverM S α Unit :=
  modify fun s => { s with tableau := { s.tableau with registry } }

/-- Free the number of a variable. -/
def releaseId (id : VariableId) : SolverM S α Unit := do
  let registry := (← tableau).registry
  registry.checkReleased id
  setRegistry (registry.releaseId id)

variable [Scalar α]

/-- Create a variable. -/
def create (name : String) (kind : VariableKind) : SolverM S α Variable := do
  let registry := (← tableau).registry
  registry.checkFree
  let (v, registry) := registry.create name kind
  setRegistry registry
  report [.created v.id name]
  return v

/-- Create an error variable. -/
def createError (name : String) (strength : Strength) : SolverM S α Variable := do
  let registry := (← tableau).registry
  registry.checkFree
  let (v, registry) := registry.createError name strength
  setRegistry registry
  report [.created v.id name]
  return v

end SolverM

end LexSimplex
