import LexSimplex.Variable

/-!
# What can go wrong

Four classes of failure are kept apart:

* a `SolverError` is an answer: the caller used a handle that does not belong here, or offered a
  required constraint that contradicts the ones present;
* an `AccessFault` means that the record of an identifier without a live variable was demanded, that
  a position was out of bounds or that an assertion about the variables failed, so that the call
  cannot be answered at all;
* running out of steps means that a pivot loop did not finish within the number of steps it was
  given;
* running out of numbers means that a session accepted as many constraints as its counter can tell
  apart, and the next one cannot be numbered.
-/

namespace LexSimplex

/-- A property of the tableau that a call found violated. -/
inductive Inconsistency where
  | missingRow (row : RowId)
  | rowWithoutBasic (row : RowId)
  | notBasic (leaving : VariableId)
  | markerInNoRow (marker : VariableId) (constraint : ConstraintHandle)
  | noArtificialObjective
  | emptyArtificialRow
deriving DecidableEq

namespace Inconsistency

/-- The wording of an inconsistency. -/
def message : Inconsistency → String
  | missingRow row => s!"row {row} is missing"
  | rowWithoutBasic row => s!"row {row} has no basic variable"
  | notBasic leaving => s!"{leaving} is not basic in the row it should leave"
  | markerInNoRow marker constraint => s!"marker {marker} of constraint {constraint} is in no row"
  | noArtificialObjective => "no artificial objective to optimize"
  | emptyArtificialRow => "empty artificial row"

end Inconsistency

/-- The answer of a call that was refused. -/
inductive SolverError where
  /-- The handle was made by another solver, or before the last reset. -/
  | foreignVariable (id : VariableId)
  /-- The handle was released, and its number may be in use again. -/
  | staleVariable (id : VariableId)
  /-- The variable still occurs in the tableau. -/
  | variableInUse (id : VariableId)
  /-- The constraint is not, or no longer, part of the solver. -/
  | unknownConstraint (number : ConstraintNumber)
  /-- A row was to be solved for a variable that does not occur in it. -/
  | zeroPivot (id : VariableId)
  /-- A required constraint contradicts the ones present. -/
  | unsatisfiable
  /-- No strength has this level. -/
  | invalidStrength (level : Nat)
  /-- The tableau lost one of its properties. -/
  | inconsistent (cause : Inconsistency)
deriving DecidableEq

namespace SolverError

/-- The wording of an error. -/
def message : SolverError → String
  | foreignVariable id => s!"variable {id} belongs to another solve session"
  | staleVariable id => s!"variable {id} was released"
  | variableInUse id => s!"variable {id} is still used by a constraint"
  | unknownConstraint number => s!"constraint {number} is not part of this system"
  | zeroPivot id => s!"can't pivot on variable {id}: its coefficient is zero"
  | unsatisfiable => "required constraint can't be satisfied"
  | invalidStrength level => s!"there is no strength level {level}"
  | inconsistent cause => s!"internal inconsistency: {cause.message}"

/-- Whether the caller is at fault, rather than the constraints being contradictory. -/
def isUsageError : SolverError → Bool
  | unsatisfiable => false
  | _ => true

end SolverError

/-- A demand for what is not there, or an assertion that failed. -/
inductive AccessFault where
  /-- The record of a number that is free. -/
  | notLive (id : VariableId)
  /-- A position behind the last one. -/
  | outOfBounds
  /-- A number that was to be handed out is in use. -/
  | notFree (id : VariableId)
  /-- A variable that was to be released is still basic. -/
  | defined (id : VariableId)
  /-- A variable that was to become basic in a row is mentioned on its right-hand side. -/
  | mentioned (id : VariableId)
deriving DecidableEq

namespace AccessFault

/-- The wording of a fault. -/
def message : AccessFault → String
  | notLive id => s!"variable {id} is not live"
  | outOfBounds => "index out of bounds"
  | notFree id => s!"the number of variable {id} is not free"
  | defined id => s!"variable {id} is basic"
  | mentioned id => s!"variable {id} is mentioned in the row it should define"

end AccessFault

/-- How a call can end without a result. -/
inductive Failure where
  | error (cause : SolverError)
  | access (fault : AccessFault)
  | outOfSteps
  | outOfNumbers
deriving DecidableEq

instance : MonadLift (Except SolverError) (Except Failure) where
  monadLift result := result.mapError .error

instance : MonadLift (Except AccessFault) (Except Failure) where
  monadLift result := result.mapError .access

theorem mapError_eq {ε ε' β : Type} (f : ε → ε') (result : Except ε β) :
    result.mapError f = match result with
      | .ok x => .ok x
      | .error cause => .error (f cause) := by
  cases result <;> rfl

/-- The strength at a level. -/
def Strength.ofLevel (level : Nat) : Except SolverError Strength :=
  match ofLevel? level with
  | some strength => .ok strength
  | none => .error (.invalidStrength level)

end LexSimplex
