import LexSimplex.Proofs.Registry
import LexSimplex.Tableau.Optimize
import LexSimplex.Meaning

/-!
# The rows of a tableau by position

A tableau is read through `row?`.  Each operation on the array of rows is described by what it does
to this look-up, and statements about all rows are statements about all positions.
-/

namespace LexSimplex

namespace Tableau

variable {S α : Type} {t : Tableau S α} {id j : RowId} {row : Row S α}

theorem rowId_ext {i j : RowId} (h : i.index = j.index) : i = j := by
  cases i
  cases j
  simpa using h

theorem index_lt_of_row? (h : t.row? id = some row) : id.index < t.rows.size := by
  unfold row? at h
  by_contra hlt
  rw [Array.getElem?_eq_none (Nat.le_of_not_lt hlt)] at h
  simp at h

/-- The listed rows are those found at their positions. -/
theorem mem_rowList {id : RowId} {row : Row S α} : (id, row) ∈ t.rowList ↔ t.row? id = some row := by
  unfold rowList row?
  rw [← Array.getElem?_toList]
  rw [← Option.bind_id_eq_join]
  exact mem_filterMap_zipIdx (fun slot => slot) RowId.mk fun _ _ heq => RowId.mk.inj heq

theorem rowList_pairwise (t : Tableau S α) :
    t.rowList.Pairwise fun entry other => entry.1 ≠ other.1 :=
  pairwise_filterMap_zipIdx (fun slot => slot) RowId.mk fun _ _ heq => RowId.mk.inj heq

theorem row_eq_ok (h : t.row? id = some row) : t.row id = .ok row := by
  unfold Tableau.row
  rw [h]

theorem row?_setRow (hlt : id.index < t.rows.size) (slot : Option (Row S α)) (j : RowId) :
    (t.setRow id slot).row? j = if j = id then slot else t.row? j := by
  unfold row? setRow
  simp only [Array.getElem?_setIfInBounds]
  by_cases hj : j = id
  · subst hj
    simp [hlt]
  · have hindex : id.index ≠ j.index := fun e => hj (rowId_ext e.symm)
    simp [hj, hindex]

@[simp] theorem rows_size_setRow (t : Tableau S α) (id : RowId) (slot : Option (Row S α)) :
    (t.setRow id slot).rows.size = t.rows.size := by
  simp [setRow]

theorem row?_push (t : Tableau S α) (row : Row S α) (j : RowId) :
    ({ t with rows := t.rows.push (some row) } : Tableau S α).row? j =
      if j = ⟨t.rows.size⟩ then some row else t.row? j := by
  unfold row?
  simp only [Array.getElem?_push]
  by_cases hj : j = ⟨t.rows.size⟩
  · subst hj
    simp
  · have hindex : j.index ≠ t.rows.size := fun e => hj (rowId_ext e)
    simp [hj, hindex]

theorem row?_mapRows (t : Tableau S α) (f : Row S α → Row S α) (j : RowId) :
    ({ t with rows := t.rows.map fun slot => slot.map f } : Tableau S α).row? j =
      (t.row? j).map f := by
  unfold row?
  simp only [Array.getElem?_map]
  cases t.rows[j.index]? with
  | none => rfl
  | some slot => rfl

theorem row?_start [Scalar α] (session : SessionId) (j : RowId) :
    (start session : Tableau S α).row? j = none := by
  simp [row?, start]

/-- Whether all rows hold, position by position. -/
theorem holds_iff [Scalar α] [RowStore S α] {t : Tableau S α} {a : Assignment α} :
    t.Holds a ↔ ∀ id row, t.row? id = some row → row.Holds a := by
  unfold Holds
  constructor
  · intro h id row hrow
    exact h (id, row) (mem_rowList.mpr hrow)
  · rintro h ⟨id, row⟩ hmem
    exact h id row (mem_rowList.mp hmem)

end Tableau

end LexSimplex
