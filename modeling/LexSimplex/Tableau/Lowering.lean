import LexSimplex.Tableau.Basic

/-!
# Lowering constraints to rows

A constraint becomes a single row over the variables that are non-basic at that moment: every basic
variable it mentions is replaced by the right-hand side of its row. To identify the row later on,
each constraint brings variables of its own:

* an inequality a slack variable, and an error variable if it is soft;
* a soft equation two error variables, one for either direction;
* a required equation a variable pinned at zero.

The first of them is the marker of the constraint.
-/

namespace LexSimplex

/-- What a solver keeps of an accepted constraint: the constraint and the variables it brought. -/
structure Tag (α : Type) where
  constraint : Constraint α
  marker : VariableId
  /-- The second variable of a soft constraint. -/
  partner : Option VariableId
deriving DecidableEq

namespace Tag

/-- The variables a constraint brought. -/
def own {α : Type} (tag : Tag α) : List VariableId := tag.marker :: tag.partner.toList

end Tag

/-- How a new row enters the basis. -/
inductive Subject where
  /-- The row is solved for this variable. -/
  | variable (id : VariableId)
  /-- No variable can be solved for without leaving the range of another one. -/
  | artificial
  /-- The row reads `0 = c` for some `c` other than zero. -/
  | contradiction
deriving DecidableEq

namespace Tableau

variable {S α : Type} [Scalar α] [RowStore S α]

/-- The number of terms by which a variable widens a row. -/
def widthOf (t : Tableau S α) (v : VariableId) : Except Failure Nat := do
  match (← t.registry.record v).definition with
  | some id => return (← t.row id).size
  | none => return 1

/-- The number of terms a row for the given terms is expected to hold, with two for the variables
the constraint brings. -/
def expectedWidth (t : Tableau S α) (terms : List (α × VariableId)) : Except Failure Nat :=
  terms.foldlM (fun width (_, v) => return width + (← t.widthOf v)) 2

/-- Add a multiple of a variable to a row, a basic variable through its definition. -/
def addTerm (t : Tableau S α) (row : Row S α) (term : α × VariableId) :
    Except Failure (Row S α) := do
  let (coefficient, v) := term
  if coefficient == 0 then return row
  else
    match (← t.registry.record v).definition with
    | some id => return row.addRow (← t.row id) coefficient
    | none => return row.insert v coefficient

/-- An expression as a row over non-basic variables. -/
def rowOf (t : Tableau S α) (settings : Settings) (constant : α) (terms : List (α × VariableId)) :
    Except Failure (Row S α) := do
  let width ← t.expectedWidth terms
  terms.foldlM t.addTerm ⟨none, constant, RowStore.forRow settings width⟩

/-- The first variable of a constraint's own that a row can be solved for: a slack or error variable
with a negative coefficient, which then gets a value that is not negative. -/
def ownSubject (t : Tableau S α) (row : Row S α) :
    List VariableId → Except AccessFault (Option VariableId)
  | [] => .ok none
  | v :: rest => do
      if (← t.registry.kind v).isPivotable && row.coefficient v < 0 then return some v
      else t.ownSubject row rest

/-- Whether a row mentions pinned variables only. -/
def onlyPinned (t : Tableau S α) : List (VariableId × α) → Except AccessFault Bool
  | [] => .ok true
  | (v, _) :: rest => do
      if (← t.registry.kind v) = .constant then t.onlyPinned rest
      else return false

/-- How a new row enters the basis. Unrestricted variables come first, then the variables of the
constraint itself; a row of pinned variables only is either redundant or contradictory. -/
def chooseSubject (t : Tableau S α) (row : Row S α) (tag : Tag α) :
    Except AccessFault Subject := do
  match ← t.registry.firstOfKind (· = .unrestricted) row.entries with
  | some v => return .variable v
  | none =>
      match ← t.ownSubject row tag.own with
      | some v => return .variable v
      | none =>
          if ← t.onlyPinned row.entries then
            return if row.constant != 0 then .contradiction else .variable tag.marker
          else
            return .artificial

end Tableau

end LexSimplex
