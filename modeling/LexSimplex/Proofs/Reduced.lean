import LexSimplex.Proofs.Exact.LinearForm
import LexSimplex.Proofs.Rows
import LexSimplex.Proofs.Storage.Represents

/-!
# Tableaus in reduced form

What the steps of the simplex method rely on, said of any tableau, whether a run leads to it or not:

* `Tableau.Stored`: the storage of every row holds a linear form, in which no coefficient is zero;
* `Tableau.Reduced`: the rows and the definitions in the records name each other, and right-hand
  sides are over live variables that no row defines;
* `Goal.OverNonbasic`: so is an objective;
* `Tableau.ValuesAllowed`: every row gives its basic variable a value that its kind allows;
* `Tableau.RestrictedApart`, `Tableau.PinnedApart`: the row of a restricted variable mentions no
  unrestricted variable, that of a pinned variable mentions pinned variables only;
* `Tableau.BrokenQueued`: a row that gives its basic variable another value waits to be repaired.

All of them but the first are read off the lists of rows and records and can be decided.
-/

namespace LexSimplex

namespace Registry

variable {α : Type}

/-- The kind of a live variable. -/
def kind? (r : Registry α) (v : VariableId) : Option VariableKind := (r.get? v).map Record.kind

/-- The row that defines a live variable. -/
def definition? (r : Registry α) (v : VariableId) : Option RowId := (r.get? v).bind Record.definition

/-- A live variable that no row defines. -/
def Nonbasic (r : Registry α) (v : VariableId) : Prop :=
  (r.get? v).isSome ∧ r.definition? v = none

instance (r : Registry α) (v : VariableId) : Decidable (r.Nonbasic v) :=
  inferInstanceAs (Decidable (_ ∧ _))

theorem nonbasic_iff {r : Registry α} {v : VariableId} :
    r.Nonbasic v ↔ ∃ record, r.get? v = some record ∧ record.definition = none := by
  unfold Nonbasic definition?
  cases r.get? v <;> simp

end Registry

instance (kind : VariableKind) (x : Rat) : Decidable (kind.Allows x) :=
  match kind with
  | .unrestricted => isTrue trivial
  | .constant => inferInstanceAs (Decidable (x = 0))
  | .slack | .error | .unknown => inferInstanceAs (Decidable (0 ≤ x))

/-- An objective over live variables that no row defines. -/
def Goal.OverNonbasic (g : Goal Rat) (registry : Registry Rat) : Prop :=
  ∀ term ∈ g.terms.toList, registry.Nonbasic term.1

instance (g : Goal Rat) (registry : Registry Rat) : Decidable (g.OverNonbasic registry) :=
  inferInstanceAs (Decidable (∀ term ∈ g.terms.toList, registry.Nonbasic term.1))

/-- A row whose storage holds a linear form. -/
def Row.Stored {S : Type} [RowStore S Rat] [LawfulStore S Rat] (row : Row S Rat) : Prop :=
  ∃ form : LinearForm, LawfulStore.Represents row.terms form.terms

namespace Tableau

section Plain

variable {S : Type} [RowStore S Rat] (t : Tableau S Rat)

/-- The kind of the basic variable of a row. -/
def basicKind? (row : Row S Rat) : Option VariableKind := row.basic.bind t.registry.kind?

/-- Rows and records name each other, and no right-hand side mentions a variable that a row
defines. -/
structure Reduced : Prop where
  /-- Every row defines a live variable, whose record names the row. -/
  row_defines : ∀ entry ∈ t.rowList, entry.2.basic.bind t.registry.definition? = some entry.1
  /-- Every record with a definition names a row that defines its variable. -/
  defined_by_row : ∀ entry ∈ t.registry.toList, ∀ id ∈ entry.2.definition,
    (t.row? id).bind Row.basic = some entry.1
  /-- The right-hand sides are over live variables that no row defines. -/
  over_nonbasic : ∀ entry ∈ t.rowList, ∀ term ∈ entry.2.entries, t.registry.Nonbasic term.1

theorem reduced_iff : t.Reduced ↔
    (∀ entry ∈ t.rowList, entry.2.basic.bind t.registry.definition? = some entry.1) ∧
      (∀ entry ∈ t.registry.toList, ∀ id ∈ entry.2.definition,
        (t.row? id).bind Row.basic = some entry.1) ∧
      ∀ entry ∈ t.rowList, ∀ term ∈ entry.2.entries, t.registry.Nonbasic term.1 :=
  ⟨fun h => ⟨h.1, h.2, h.3⟩, fun h => ⟨h.1, h.2.1, h.2.2⟩⟩

instance : Decidable t.Reduced := decidable_of_iff _ t.reduced_iff.symm

/-- Every row gives its basic variable a value that its kind allows: the row of a restricted variable
has a constant that is not negative, that of a pinned variable has constant zero. -/
def ValuesAllowed : Prop :=
  ∀ entry ∈ t.rowList, ∀ kind ∈ t.basicKind? entry.2, kind.Allows entry.2.constant

/-- The row of a restricted variable mentions no unrestricted variable. -/
def RestrictedApart : Prop :=
  ∀ entry ∈ t.rowList, ∀ kind ∈ t.basicKind? entry.2, kind ≠ .unrestricted →
    ∀ term ∈ entry.2.entries, t.registry.kind? term.1 ≠ some .unrestricted

/-- The row of a pinned variable mentions pinned variables only. -/
def PinnedApart : Prop :=
  ∀ entry ∈ t.rowList, t.basicKind? entry.2 = some .constant →
    ∀ term ∈ entry.2.entries, t.registry.kind? term.1 = some .constant

/-- Every row that gives its basic variable a value out of its range is queued. -/
def BrokenQueued : Prop :=
  ∀ entry ∈ t.rowList, ∀ kind ∈ t.basicKind? entry.2, ¬kind.Allows entry.2.constant →
    entry.1 ∈ t.infeasible.rows

instance : Decidable t.ValuesAllowed :=
  inferInstanceAs (Decidable (∀ entry ∈ t.rowList, ∀ kind ∈ t.basicKind? entry.2, _))

instance : Decidable t.RestrictedApart :=
  inferInstanceAs (Decidable (∀ entry ∈ t.rowList, ∀ kind ∈ t.basicKind? entry.2, _))

instance : Decidable t.PinnedApart :=
  inferInstanceAs (Decidable (∀ entry ∈ t.rowList, _))

instance : Decidable t.BrokenQueued :=
  inferInstanceAs (Decidable (∀ entry ∈ t.rowList, ∀ kind ∈ t.basicKind? entry.2, _))

/-- By how much a variable changes for each unit by which `v` grows, all other variables that no row
defines being left as they are. -/
def slope (v w : VariableId) : Rat :=
  match (t.registry.definition? w).bind t.row? with
  | some row => row.coefficient v
  | none => if w = v then 1 else 0

/-- The values that are reached from the current ones when a variable that no row defines grows by
`x`. -/
def raised (v : VariableId) (x : Rat) : Assignment Rat := fun w => t.value w + t.slope v w * x

end Plain

/-- The storage of every row holds a linear form. -/
def Stored {S : Type} [RowStore S Rat] [LawfulStore S Rat] (t : Tableau S Rat) : Prop :=
  ∀ entry ∈ t.rowList, entry.2.Stored

end Tableau

end LexSimplex
