import LexSimplex.Solver.Insert

/-!
# Removing a constraint

The penalties of the constraint's error variables are taken out of the goal. Its marker is brought
into the basis, unless it is basic already, and the row of the marker is dropped. Variables that the
constraint brought are released once the tableau does not mention them.
-/

namespace LexSimplex.SolverM

variable {S α : Type} [Scalar α] [RowStore S α]

/-- Take the penalty of an error variable out of the goal, through its row if it is basic. -/
def removePenalty (v : VariableId) : SolverM S α Unit := do
  let t ← tableau
  let record ← t.registry.record v
  match record.strength with
  | none => return
  | some vector =>
      match record.definition with
      | some id =>
          let row ← t.row id
          modifyGoal fun goal => goal.insertRow row vector (-1)
      | none => modifyGoal fun goal => goal.insert v vector (-1)

/-- Drop the row of a marker, after bringing the marker into the basis. -/
def dropMarker (handle : ConstraintHandle) (marker : VariableId) : SolverM S α Unit := do
  let t ← tableau
  match (← t.registry.record marker).definition with
  | some id =>
      let _ ← dropRow id
  | none =>
      match ← t.markerLeavingRow marker with
      | none => refuse (.inconsistent (.markerInNoRow marker handle))
      | some id =>
          let row ← dropRow id
          match row.basic with
          | none => refuse (.inconsistent (.rowWithoutBasic id))
          | some leaving =>
              let solved ← row.pivot marker leaving
              update fun t => t.substitute marker solved

/-- Release a variable unless the tableau mentions it. -/
def releaseUnreferenced (v : VariableId) : SolverM S α Unit := do
  if ← (← tableau).isReferenced v then return
  else releaseId v

/-- Remove a constraint and optimise again. -/
def remove (handle : ConstraintHandle) (limit : Nat) : SolverM S α Unit := do
  let tag ← (← get).tag handle
  modify fun s => { s with constraints := s.constraints.erase handle.number }
  enter .building
  tag.own.forM removePenalty
  dropMarker handle tag.marker
  tag.own.forM releaseUnreferenced
  count fun c => { c with removed := c.removed + 1 }
  report [.removed handle]
  let _ ← reoptimize limit

end LexSimplex.SolverM
