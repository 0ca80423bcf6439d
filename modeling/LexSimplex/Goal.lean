import LexSimplex.Row

/-!
# The goal

The objective `constant + Σ vector · variable` that is minimised lexicographically: its coefficients
are strength vectors, and an improvement at a higher level is worth any deterioration at a lower
one. Like a row it mentions only non-basic variables, so a variable that becomes basic is replaced
by its definition. That is how the penalty on an error variable reaches the variables it is
expressed in.
-/

namespace LexSimplex

/-- An objective to be minimised lexicographically. -/
structure Goal (α : Type) where
  /-- The value of the objective at each level in the current basic solution. -/
  constant : StrengthVector α
  terms : SortedMap VariableId (StrengthVector α)
deriving DecidableEq

namespace Goal

variable {S α : Type} [Scalar α] [RowStore S α]

/-- The objective that is zero at every level. -/
def zero : Goal α := ⟨.zero, .empty⟩

/-- The vector of a variable, if it occurs. -/
def coefficient? (g : Goal α) (v : VariableId) : Option (StrengthVector α) := g.terms.find? v

/-- Add a multiple of a vector to the vector of a variable, which disappears once it is zero. -/
def insert (g : Goal α) (v : VariableId) (vector : StrengthVector α) (factor : α) : Goal α :=
  let sum := ((g.coefficient? v).getD .zero).addMultiple vector factor
  { g with terms := if sum.isZero then g.terms.erase v else g.terms.insert v sum }

/-- Add a multiple of a vector times a right-hand side. -/
def insertRow (g : Goal α) (row : Row S α) (vector : StrengthVector α) (factor : α) : Goal α :=
  row.entries.foldl (fun g (v, x) => g.insert v vector (x * factor))
    { g with constant := g.constant.addMultiple vector (row.constant * factor) }

/-- The objective that minimises a right-hand side, with all weight at one level. -/
def ofRow (row : Row S α) (strength : Strength) : Goal α :=
  zero.insertRow row (.unit strength) 1

/-- Drop a variable. -/
def erase (g : Goal α) (v : VariableId) : Goal α := { g with terms := g.terms.erase v }

/-- Replace a variable that became basic by its definition. -/
def substitute (g : Goal α) (v : VariableId) (definition : Row S α) : Goal α :=
  match g.coefficient? v with
  | none => g
  | some vector => (g.erase v).insertRow definition vector 1

/-- Of the best candidate so far and a new one, the one with the lexicographically smaller vector;
the earlier one wins a tie. -/
def better (best : Option (VariableId × StrengthVector α)) (v : VariableId)
    (vector : StrengthVector α) : Option (VariableId × StrengthVector α) :=
  match best with
  | none => some (v, vector)
  | some (_, current) => if vector.compare current = .lt then some (v, vector) else best

/-- Weigh one variable of the objective as a candidate to enter the basis. -/
def weighColumn (registry : Registry α) (best : Option (VariableId × StrengthVector α))
    (entry : VariableId × StrengthVector α) :
    Except AccessFault (Option (VariableId × StrengthVector α)) := do
  let kind ← registry.kind entry.1
  return if kind.canEnter && entry.2.isNegative then better best entry.1 entry.2 else best

/-- The variable to bring into the basis, if the objective can be improved: of the variables that
may enter and have a lexicographically negative vector, the first with the smallest one. -/
def pivotColumn (g : Goal α) (registry : Registry α) : Except AccessFault (Option VariableId) := do
  let best ← g.terms.toList.foldlM (weighColumn registry) none
  return best.map Prod.fst

/-- The vector of a variable divided by its coefficient in a row. -/
def dualRatio (g : Goal α) (v : VariableId) (x : α) : StrengthVector α :=
  match g.coefficient? v with
  | some vector => vector.scaled (1 / x)
  | none => .zero

/-- Weigh one variable of a row as a candidate to enter the basis through that row. -/
def weighRatio (g : Goal α) (registry : Registry α)
    (best : Option (VariableId × StrengthVector α)) (entry : VariableId × α) :
    Except AccessFault (Option (VariableId × StrengthVector α)) :=
  if entry.2 ≤ 0 then .ok best
  else do
    let kind ← registry.kind entry.1
    return if kind.canEnter then better best entry.1 (g.dualRatio entry.1 entry.2) else best

/-- The variable to bring into the basis through a row with a negative constant: of the variables
that may enter and have a positive coefficient in the row, the first whose vector divided by that
coefficient is smallest. -/
def dualEntering (g : Goal α) (row : Row S α) (registry : Registry α) :
    Except AccessFault (Option VariableId) := do
  let best ← row.entries.foldlM (g.weighRatio registry) none
  return best.map Prod.fst

/-- Whether two objectives agree in their constant and their terms. -/
def beq (g h : Goal α) : Bool :=
  g.constant.beq h.constant &&
    g.terms.size == h.terms.size &&
    (g.terms.toList.zip h.terms.toList).all fun (p, q) => p.1 = q.1 && p.2.beq q.2

/-- Write an objective, given how to write its variables. -/
def textWith (g : Goal α) (name : VariableId → String) : String :=
  let terms := g.terms.toList.map fun (v, vector) => s!"{vector.text} {name v}"
  " + ".intercalate (g.constant.text :: terms)

/-- Write an objective with the numbers of its variables. -/
def text (g : Goal α) : String := g.textWith toString

/-- Write an objective with the names of its variables. -/
def describe (g : Goal α) (registry : Registry α) : String :=
  s!"minimize {g.textWith registry.nameOf}"

end Goal

end LexSimplex
