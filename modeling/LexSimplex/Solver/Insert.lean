import LexSimplex.Solver.Optimize

/-!
# Adding a constraint

The constraint is lowered to a row, which is solved for one of its variables and substituted
everywhere. If no variable qualifies, the row is given an artificial basic variable and that
variable is minimised first: when it reaches zero it is exchanged for a variable of its row, and
when it does not the constraint contradicts the ones present and is discarded.
-/

namespace LexSimplex.SolverM

variable {S α : Type} [Scalar α] [RowStore S α]

/-- Check the handles of an expression and give its terms with identifiers. -/
def resolveTerms (registry : Registry α) (terms : List (α × Variable)) :
    Except SolverError (List (α × VariableId)) :=
  terms.mapM fun (coefficient, v) => return (coefficient, ← registry.resolve v)

/-- The sign with which the slack of an inequality enters its row. -/
def slackSign : Relation → α
  | .greaterOrEqual => -1
  | _ => 1

/-- Create the variables of an inequality and add them to its row. -/
def markInequality (number : ConstraintNumber) (constraint : Constraint α) (row : Row S α) :
    SolverM S α (Row S α × Tag α) := do
  let sign := slackSign constraint.relation
  let slack := (← create s!"s{number}" .slack).id
  let row := row.insert slack sign
  match constraint.strength with
  | none => return (row, ⟨constraint, slack, none⟩)
  | some strength =>
      let error := (← createError s!"e{number}" strength).id
      modifyGoal fun goal => goal.insert error (.unit strength) 1
      return (row.insert error (-sign), ⟨constraint, slack, some error⟩)

/-- Create the variables of an equation and add them to its row. -/
def markEquation (number : ConstraintNumber) (constraint : Constraint α) (row : Row S α) :
    SolverM S α (Row S α × Tag α) := do
  match constraint.strength with
  | none =>
      let pin := (← create s!"d{number}" .constant).id
      return (row.insert pin 1, ⟨constraint, pin, none⟩)
  | some strength =>
      let plus := (← createError s!"e{number}+" strength).id
      let minus := (← createError s!"e{number}-" strength).id
      modifyGoal fun goal =>
        (goal.insert plus (.unit strength) 1).insert minus (.unit strength) 1
      return ((row.insert plus (-1)).insert minus 1, ⟨constraint, plus, some minus⟩)

/-- Lower a constraint to a row with a constant that is not negative. -/
def lower (number : ConstraintNumber) (constraint : Constraint α)
    (terms : List (α × VariableId)) : SolverM S α (Row S α × Tag α) := do
  let s ← get
  let row ← s.tableau.rowOf s.settings constraint.expression.constant terms
  let (row, tag) ← match constraint.relation with
    | .equal => markEquation number constraint row
    | _ => markInequality number constraint row
  return (if row.constant < 0 then row.negate else row, tag)

/-- Forget the variables of a constraint that did not make it into the tableau. -/
def discard (tag : Tag α) : SolverM S α Unit :=
  tag.own.forM fun v => do
    modifyGoal fun goal => goal.erase v
    releaseId v

/-- Substitute the basic variable of a solved row everywhere and add the row. -/
def adopt (subject : VariableId) (row : Row S α) : SolverM S α Unit :=
  update fun t => do (← t.substitute subject row).insertRow row

/-- Drop a row. -/
def dropRow (id : RowId) : SolverM S α (Row S α) := do
  let (row, t) ← (← tableau).dropRow id
  setTableau t
  return row

/-- Remove the last traces of an artificial variable. -/
def forgetArtificial (artificial : VariableId) : SolverM S α Unit := do
  modify fun s => { s with tableau := { s.tableau with
    rows := s.tableau.rows.map fun slot => slot.map fun row => row.erase artificial
    goal := s.tableau.goal.erase artificial } }
  releaseId artificial

/-- Exchange an artificial variable that is basic at zero for another variable of its row; a row
without variables is dropped. -/
def replaceArtificial (artificial : VariableId) (row : Row S α) : SolverM S α Unit := do
  if row.isConstant then return
  else
    match ← (← tableau).zeroLevelEntering row with
    | none => refuse (.inconsistent .emptyArtificialRow)
    | some entering =>
        let solved ← row.pivot entering artificial
        adopt entering solved

/-- Insert a row by minimising an artificial variable that stands in for its basic variable. -/
def insertThroughArtificial (row : Row S α) (limit : Nat) : SolverM S α Unit := do
  let artificial := (← create "artificial" .unknown).id
  let row ← row.assignBasic artificial
  update fun t => { t with artificial := some (.ofRow row .equality) }.insertRow row
  let _ ← optimize .artificial limit
  let t ← tableau
  let reachedZero := match t.artificial with
    | some goal => goal.constant.isZero
    | none => false
  setTableau { t with artificial := none }
  match (← t.registry.record artificial).definition with
  | none => forgetArtificial artificial
  | some id =>
      let row ← dropRow id
      if reachedZero then
        replaceArtificial artificial row
        forgetArtificial artificial
      else
        releaseId artificial
        refuse .unsatisfiable

/-- Count and report a constraint that contradicts the ones present. -/
def reject {β : Type} (event : Event α) : SolverM S α β := do
  count fun c => { c with unsatisfiable := c.unsatisfiable + 1 }
  report [event]
  refuse .unsatisfiable

/-- Bring a new row into the basis, or discard the variables of its constraint. -/
def enterBasis (row : Row S α) (tag : Tag α) (limit : Nat) : SolverM S α Unit := do
  match ← (← tableau).chooseSubject row tag with
  | .variable subject => adopt subject (← row.solveFor subject)
  | .contradiction =>
      discard tag
      reject (.contradictory tag.constraint)
  | .artificial =>
      count fun c => { c with artificial := c.artificial + 1 }
      try insertThroughArtificial row limit
      catch
        | .error .unsatisfiable =>
            discard tag
            reject (.unsatisfiable tag.constraint)
        | .error cause =>
            discard tag
            refuse cause
        | failure => throw failure

/-- Keep an accepted constraint under its number and move on to the next number. -/
def enlist (number : ConstraintNumber) (tag : Tag α) : SolverM S α Unit := do
  match number.next? with
  | none => throw .outOfNumbers
  | some next =>
      modify fun s => { s with
        nextConstraint := next
        constraints := s.constraints.insert number tag }

/-- Add a constraint and optimise again. A required constraint that contradicts the ones present is
rejected. -/
def add (constraint : Constraint α) (limit : Nat) : SolverM S α ConstraintHandle := do
  let terms ← resolveTerms (← tableau).registry constraint.expression.terms
  enter .building
  let number := (← get).nextConstraint
  let (row, tag) ← lower number constraint terms
  enterBasis row tag limit
  enlist number tag
  count fun c => { c with added := c.added + 1 }
  report [.added number constraint]
  let _ ← reoptimize limit
  return ⟨(← get).session, number⟩

end LexSimplex.SolverM
