import LexSimplex.Tableau.Basic

/-!
# Pivots

Exchanging the basic variable of a row for one of its other variables rewrites every row and the
objectives. This module holds the exchange and the rules that choose it: the ratio test of the
primal method, the row through which a marker enters the basis when its constraint is withdrawn, and
the variable that replaces an artificial one at level zero.
-/

namespace LexSimplex

/-- A pivot that was carried out. -/
structure Exchange where
  row : RowId
  entering : VariableId
  leaving : VariableId
deriving DecidableEq

namespace Tableau

variable {S α : Type} [Scalar α] [RowStore S α]

/-- Replace a variable by its definition in every row. -/
def substituteRows (t : Tableau S α) (v : VariableId) (definition : Row S α) :
    Array (Option (Row S α)) :=
  t.rows.map fun slot => slot.map fun row => row.substitute v definition

/-- The positions of the rows that mention a variable. -/
def rowsMentioning (t : Tableau S α) (v : VariableId) : List RowId :=
  (t.rowList.filter fun (_, row) => row.mentions v).map Prod.fst

/-- Queue a row if it gives its basic variable a value out of range. -/
def queueIfInfeasible (t : Tableau S α) (id : RowId) : Except AccessFault (Tableau S α) :=
  match t.row? id with
  | none => .ok t
  | some row => do
      if ← t.isInfeasible row then
        return { t with infeasible := t.infeasible.push id }
      else
        return t

/-- Replace a variable by its definition everywhere. Rows that end up out of range are queued. -/
def substitute (t : Tableau S α) (v : VariableId) (definition : Row S α) :
    Except AccessFault (Tableau S α) := do
  let touched := t.rowsMentioning v
  let rewritten := { t with rows := t.substituteRows v definition }
  let queued ← touched.foldlM queueIfInfeasible rewritten
  return { queued with
    goal := t.goal.substitute v definition
    artificial := t.artificial.map fun goal => goal.substitute v definition }

/-- Exchange the basic variable of a row for `entering` and eliminate `entering` from all other rows
and from the objectives. -/
def pivot (t : Tableau S α) (entering : VariableId) (id : RowId) :
    Except Failure (Tableau S α × Exchange) := do
  let row ← t.row id
  match row.basic with
  | none => throw (.error (.inconsistent (.rowWithoutBasic id)))
  | some leaving =>
      let solved ← row.pivot entering leaving
      let taken ← (t.setRow id none).define (some leaving) none
      let substituted ← taken.substitute entering solved
      let restored ← (substituted.setRow id (some solved)).define solved.basic (some id)
      return (restored, ⟨id, entering, leaving⟩)

/-- Of the best row so far and a new one, the one with the smaller ratio; the earlier one wins a
tie. -/
def smaller (best : Option (RowId × α)) (id : RowId) (ratio : α) : Option (RowId × α) :=
  match best with
  | none => some (id, ratio)
  | some (_, current) => if ratio < current then some (id, ratio) else best

/-- Weigh one row as the one that limits the increase of an entering variable. -/
def weighLeaving (t : Tableau S α) (entering : VariableId) (best : Option (RowId × α))
    (entry : RowId × Row S α) : Except AccessFault (Option (RowId × α)) := do
  let restricted ← t.hasRestrictedBasic entry.2
  let coefficient := entry.2.coefficient entering
  return if restricted && coefficient < 0 then
      smaller best entry.1 (-entry.2.constant / coefficient)
    else best

/-- The row whose restricted basic variable reaches zero first when the entering variable grows;
ties go to the lowest row. -/
def leavingRow (t : Tableau S α) (entering : VariableId) : Except AccessFault (Option RowId) := do
  let best ← t.rowList.foldlM (t.weighLeaving entering) none
  return best.map Prod.fst

/-- The rows through which a marker could enter the basis, by preference. -/
structure MarkerRows (α : Type) where
  /-- The first row of a pinned variable. -/
  pinned : Option RowId
  /-- A restricted row with a negative coefficient and the smallest ratio. -/
  negative : Option (RowId × α)
  /-- A restricted row with a positive coefficient and the smallest ratio. -/
  positive : Option (RowId × α)
  /-- The first row of an unrestricted variable. -/
  unrestricted : Option RowId

namespace MarkerRows

/-- No row found yet. -/
def none : MarkerRows α := ⟨.none, .none, .none, .none⟩

/-- The preferred row. -/
def choice (m : MarkerRows α) : Option RowId :=
  m.pinned.or (((m.negative.or m.positive).map Prod.fst).or m.unrestricted)

end MarkerRows

/-- Sort one row that mentions the marker into the preferences. Once a row of a pinned variable was
found, no other row matters. -/
def weighMarker (t : Tableau S α) (marker : VariableId) (found : MarkerRows α)
    (entry : RowId × Row S α) : Except AccessFault (MarkerRows α) :=
  let (id, row) := entry
  let coefficient := row.coefficient marker
  if found.pinned.isSome || coefficient == 0 then .ok found
  else
    match row.basic with
    | none => .ok { found with unrestricted := found.unrestricted.or (some id) }
    | some basic => do
        match ← t.registry.kind basic with
        | .constant => return { found with pinned := some id }
        | .unrestricted =>
            return { found with unrestricted := found.unrestricted.or (some id) }
        | _ =>
            if coefficient < 0 then
              return { found with
                negative := smaller found.negative id (-row.constant / coefficient) }
            else
              return { found with
                positive := smaller found.positive id (row.constant / coefficient) }

/-- The row through which a marker enters the basis when its constraint is withdrawn: a row of a
redundant required equation, else a restricted row with a negative coefficient, else one with a
positive coefficient, each with the smallest ratio, else a row of an unrestricted variable.

The row of a redundant equation mentions pinned variables only and has constant zero, so going
through it leaves the constants of all other rows as they are. -/
def markerLeavingRow (t : Tableau S α) (marker : VariableId) : Except AccessFault (Option RowId) :=
  return (← t.rowList.foldlM (t.weighMarker marker) .none).choice

/-- The variable that replaces an artificial variable which is basic at zero: the first slack or
error variable of its row, else its first variable. -/
def zeroLevelEntering (t : Tableau S α) (row : Row S α) :
    Except AccessFault (Option VariableId) := do
  match ← t.registry.firstOfKind VariableKind.isPivotable row.entries with
  | some v => return some v
  | none => return row.entries.head?.map Prod.fst

end Tableau

end LexSimplex
