import LexSimplex.Constraint
import LexSimplex.Goal
import LexSimplex.Worklist

/-!
# The tableau

The rows of a solver together with the variables they mention and the objectives that are expressed
in the same variables. A variable is basic when a row defines it; its record names that row. Dropped
rows leave a hole, and holes are filled again, the most recent one first.

The current value of a basic variable is the constant of its row, that of every other variable is
zero.
-/

namespace LexSimplex

/-- Rows over the variables of a registry, with the objectives and the rows to be repaired. -/
structure Tableau (S α : Type) where
  registry : Registry α
  rows : Array (Option (Row S α))
  /-- The holes among the rows, the most recent first. -/
  freeRows : List RowId
  goal : Goal α
  /-- The objective of a row being inserted through an artificial variable. -/
  artificial : Option (Goal α)
  /-- Rows whose basic variable went out of its range during a substitution. -/
  infeasible : Worklist
deriving DecidableEq

namespace Tableau

variable {S α : Type} [Scalar α] [RowStore S α]

/-- The tableau of a new session. -/
def start (session : SessionId) : Tableau S α where
  registry := .start session
  rows := #[]
  freeRows := []
  goal := .zero
  artificial := none
  infeasible := .empty

/-- The row at a position. -/
def row? (t : Tableau S α) (id : RowId) : Option (Row S α) := t.rows[id.index]?.join

/-- The row at a position that has to hold one. -/
def row (t : Tableau S α) (id : RowId) : Except SolverError (Row S α) :=
  match t.row? id with
  | some row => .ok row
  | none => .error (.inconsistent (.missingRow id))

/-- The rows with their positions, in ascending order. -/
def rowList (t : Tableau S α) : List (RowId × Row S α) :=
  t.rows.toList.zipIdx.filterMap fun (slot, index) => slot.map fun row => (⟨index⟩, row)

/-- The number of rows. -/
def rowCount (t : Tableau S α) : Nat := t.rows.size - t.freeRows.length

/-- The value given by a defining row, zero without one. -/
def valueBy (t : Tableau S α) (definition : Option RowId) : α :=
  match definition.bind t.row? with
  | some row => row.constant
  | none => 0

/-- The current value of a variable. -/
def value (t : Tableau S α) (id : VariableId) : α :=
  t.valueBy ((t.registry.get? id).bind Record.definition)

/-- Store the current value of every variable in its record. -/
def storeValues (t : Tableau S α) : Tableau S α :=
  { t with registry := t.registry.mapRecords fun _ record =>
      { record with value := t.valueBy record.definition } }

/-- Note by which row a variable is defined. -/
def define (t : Tableau S α) (v : Option VariableId) (definition : Option RowId) :
    Except AccessFault (Tableau S α) :=
  match v with
  | none => .ok t
  | some id => return { t with registry := ← t.registry.setDefinition id definition }

/-- Put a row at a position. -/
def setRow (t : Tableau S α) (id : RowId) (row : Option (Row S α)) : Tableau S α :=
  { t with rows := t.rows.setIfInBounds id.index row }

/-- Add a row in the most recent hole, or at the end. -/
def insertRow (t : Tableau S α) (row : Row S α) : Except AccessFault (Tableau S α) :=
  match t.freeRows with
  | id :: rest =>
      if id.index < t.rows.size then
        define { t.setRow id (some row) with freeRows := rest } row.basic (some id)
      else .error .outOfBounds
  | [] => define { t with rows := t.rows.push (some row) } row.basic (some ⟨t.rows.size⟩)

/-- Drop a row; its basic variable becomes non-basic. -/
def dropRow (t : Tableau S α) (id : RowId) : Except Failure (Row S α × Tableau S α) := do
  let row ← t.row id
  let dropped := { t.setRow id none with freeRows := id :: t.freeRows }
  return (row, ← dropped.define row.basic none)

/-- Whether the basic variable of a row has to be non-negative. -/
def hasRestrictedBasic (t : Tableau S α) (row : Row S α) : Except AccessFault Bool :=
  match row.basic with
  | none => .ok false
  | some basic => return (← t.registry.kind basic).isRestricted

/-- Whether a value is out of the range of a kind: a restricted variable cannot be negative, and a
pinned one has to be zero. -/
def outOfRange (kind : VariableKind) (x : α) : Bool :=
  match kind with
  | .constant => x != 0
  | kind => kind.isRestricted && x < 0

/-- Whether a row gives its basic variable a value out of range. -/
def isInfeasible (t : Tableau S α) (row : Row S α) : Except AccessFault Bool :=
  match row.basic with
  | none => .ok false
  | some basic => return outOfRange (← t.registry.kind basic) row.constant

/-- Whether a variable occurs in the tableau. -/
def isReferenced (t : Tableau S α) (id : VariableId) : Except AccessFault Bool := do
  let record ← t.registry.record id
  return record.definition.isSome || (t.goal.coefficient? id).isSome ||
    t.rowList.any fun (_, row) => RowStore.contains row.terms id

/-- Write the goal and the rows, one on each line. -/
def text (t : Tableau S α) : String :=
  let rows := t.rowList.map fun (id, row) => s!"{id}: {row.describe t.registry}\n"
  s!"{t.goal.describe t.registry}\n" ++ String.join rows

end Tableau

end LexSimplex
