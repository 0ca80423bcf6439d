import LexSimplex.Registry
import LexSimplex.Storage.Basic

/-!
# Rows of the tableau

A row expresses its basic variable through the non-basic ones:
`basic = constant + Σ coefficient · variable`. While a constraint is being inserted its row has no
basic variable yet and reads `0 = constant + Σ coefficient · variable`.
-/

namespace LexSimplex

/-- An affine right-hand side, possibly defining a basic variable. -/
structure Row (S α : Type) where
  basic : Option VariableId
  constant : α
  terms : S
deriving DecidableEq

namespace Row

variable {S α : Type} [Scalar α] [RowStore S α]

/-- The coefficient of a variable on the right-hand side, zero if it does not occur. -/
def coefficient (row : Row S α) (v : VariableId) : α := RowStore.get row.terms v

/-- Whether a variable is stored on the right-hand side. -/
def mentions (row : Row S α) (v : VariableId) : Bool := (RowStore.find? row.terms v).isSome

/-- The number of variables on the right-hand side. -/
def size (row : Row S α) : Nat := RowStore.size row.terms

/-- Whether the right-hand side is only a constant. -/
def isConstant (row : Row S α) : Bool := RowStore.isEmpty row.terms

/-- The variables on the right-hand side with their coefficients, in ascending order. -/
def entries (row : Row S α) : List (VariableId × α) := RowStore.toList row.terms

/-- Let a row define a variable that does not occur on its right-hand side. -/
def assignBasic (row : Row S α) (v : VariableId) : Except AccessFault (Row S α) :=
  if RowStore.contains row.terms v then .error (.mentioned v)
  else .ok { row with basic := some v }

/-- Add a multiple of a variable to the right-hand side. -/
def insert (row : Row S α) (v : VariableId) (coefficient : α) : Row S α :=
  { row with terms := (RowStore.add row.terms v coefficient).1 }

/-- Drop a variable from the right-hand side. -/
def erase (row : Row S α) (v : VariableId) : Row S α :=
  { row with terms := RowStore.erase row.terms v }

/-- Add a multiple of another right-hand side. -/
def addRow (row other : Row S α) (factor : α) : Row S α :=
  other.entries.foldl (fun row (v, x) => row.insert v (x * factor))
    { row with constant := row.constant + other.constant * factor }

/-- Multiply a row that has no basic variable yet by minus one. -/
def negate (row : Row S α) : Row S α :=
  { row with constant := -row.constant, terms := RowStore.negate row.terms }

/-- Replace a scalar that tests as zero by zero itself. -/
def unsigned (x : α) : α := if x == 0 then 0 else x

/-- Make `entering` the basic variable. The one that was basic moves to the right-hand side with
coefficient minus one, and the row is divided by minus the coefficient `entering` had. -/
def solveFor (row : Row S α) (entering : VariableId) : Except SolverError (Row S α) :=
  match RowStore.find? row.terms entering with
  | none => .error (.zeroPivot entering)
  | some coefficient =>
      let rest := RowStore.erase row.terms entering
      let moved := match row.basic with
        | some leaving => RowStore.put rest leaving (-1)
        | none => rest
      .ok {
        basic := some entering
        constant := unsigned (row.constant / -coefficient)
        terms := RowStore.divideBy moved (-coefficient) }

/-- Exchange the basic variable `leaving` for `entering`. -/
def pivot (row : Row S α) (entering leaving : VariableId) : Except SolverError (Row S α) :=
  if row.basic = some leaving then row.solveFor entering
  else .error (.inconsistent (.notBasic leaving))

/-- Replace a variable by the right-hand side of the row that defines it. -/
def substitute (row : Row S α) (v : VariableId) (definition : Row S α) : Row S α :=
  match RowStore.find? row.terms v with
  | none => row
  | some coefficient => (row.erase v).addRow definition coefficient

/-- Whether two rows agree in their basic variable, constant and terms. -/
def beq (row other : Row S α) : Bool :=
  row.basic = other.basic && row.constant == other.constant && RowStore.same row.terms other.terms

/-- Write a row, given how to write its variables. -/
def textWith (row : Row S α) (name : VariableId → String) : String :=
  let left := match row.basic with
    | some basic => name basic
    | none => "0"
  let terms := row.entries.map fun (v, x) => s!"{Scalar.text x} {name v}"
  s!"{left} = " ++ " + ".intercalate (Scalar.text row.constant :: terms)

/-- Write a row with the numbers of its variables. -/
def text (row : Row S α) : String := row.textWith toString

/-- Write a row with the names of its variables. -/
def describe (row : Row S α) (registry : Registry α) : String := row.textWith registry.nameOf

end Row

end LexSimplex
