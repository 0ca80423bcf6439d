import LexSimplex.Proofs.Exact.Goal
import LexSimplex.Proofs.Reduced

/-!
# Proper tableaus and their solutions

A tableau is *proper* when it is in reduced form and every row fits the kinds of its variables:

* the rows and the definitions in the records name each other;
* the right-hand sides and the objectives mention live variables without a definition only;
* the row of a restricted variable has a constant that is not negative and mentions no unrestricted
  variable, the row of a pinned variable is zero and mentions pinned variables only;
* no objective mentions an unrestricted variable, and no row waits to be repaired.

What follows from the reduced form alone is said of every reduced tableau.

The variables without a definition are the parameters of the solutions: `complete` extends any
choice of values for them to a solution, in exactly one way.  This turns statements about the rows
into statements about the set of solutions: a variable that no solution depends on occurs in no row
(`Proper.unmentioned`).
-/

namespace LexSimplex

/-- Every range contains zero. -/
theorem VariableKind.allows_zero (kind : VariableKind) : kind.Allows (0 : Rat) := by
  cases kind <;> simp [VariableKind.Allows]

theorem VariableKind.allows_of_nonneg {kind : VariableKind} {x : Rat} (hkind : kind ≠ .constant)
    (hx : 0 ≤ x) : kind.Allows x := by
  cases kind <;> simp_all [VariableKind.Allows]

theorem VariableKind.Allows.nonneg {kind : VariableKind} {x : Rat} (h : kind.Allows x)
    (hkind : kind ≠ .unrestricted) : 0 ≤ x := by
  cases kind <;> simp_all [VariableKind.Allows]

/-- A right-hand side that a basic variable of the given kind may have. -/
structure Row.Fits (kindOf : VariableId → Option VariableKind) (kind : VariableKind)
    (row : Row LinearForm Rat) : Prop where
  constant_nonneg : kind ≠ .unrestricted → 0 ≤ row.constant
  terms_restricted : kind ≠ .unrestricted →
    ∀ v, row.coefficient v ≠ 0 → kindOf v ≠ some .unrestricted
  constant_pinned : kind = .constant → row.constant = 0
  terms_pinned : kind = .constant → ∀ v, row.coefficient v ≠ 0 → kindOf v = some .constant

/-- A right-hand side that fits gives the basic variable a value in its range. -/
theorem Row.Fits.allows {kindOf : VariableId → Option VariableKind} {kind : VariableKind}
    {row : Row LinearForm Rat} (h : row.Fits kindOf kind) : kind.Allows row.constant := by
  cases kind with
  | unrestricted => trivial
  | constant => exact h.constant_pinned rfl
  | slack | error | unknown => exact h.constant_nonneg (by simp)

namespace Tableau

variable {t : Tableau LinearForm Rat} {id : RowId} {row : Row LinearForm Rat} {v w : VariableId}
  {a b : Assignment Rat}

/-- The kind of a live variable. -/
def kindOf (t : Tableau LinearForm Rat) (v : VariableId) : Option VariableKind :=
  (t.registry.get? v).map Record.kind

/-- The row that defines a variable. -/
def definitionOf (t : Tableau LinearForm Rat) (v : VariableId) : Option RowId :=
  (t.registry.get? v).bind Record.definition

/-- A live variable without a definition. -/
def Free (t : Tableau LinearForm Rat) (v : VariableId) : Prop :=
  ∃ record, t.registry.get? v = some record ∧ record.definition = none

/-- An objective over the variables without a definition, none of them unrestricted. -/
structure Admits (t : Tableau LinearForm Rat) (g : Goal Rat) : Prop where
  clean : g.Clean
  free : ∀ v, (g.coefficient? v).isSome → t.Free v
  restricted : ∀ v, (g.coefficient? v).isSome → t.kindOf v ≠ some .unrestricted

/-- A tableau in reduced form whose rows fit the kinds of their variables, as given by `kinds`. -/
structure ProperFor (kinds : VariableId → Option VariableKind) (t : Tableau LinearForm Rat) :
    Prop where
  registry : t.registry.Sound
  holes_nodup : t.freeRows.Nodup
  mem_holes : ∀ id, id ∈ t.freeRows ↔ id.index < t.rows.size ∧ t.row? id = none
  row_basic : ∀ {id row}, t.row? id = some row → ∃ basic record, row.basic = some basic ∧
    t.registry.get? basic = some record ∧ record.definition = some id ∧
      row.Fits kinds record.kind
  row_of_definition : ∀ {v id}, t.definitionOf v = some id →
    ∃ row, t.row? id = some row ∧ row.basic = some v
  terms_free : ∀ {id row v}, t.row? id = some row → row.coefficient v ≠ 0 → t.Free v
  goal : t.Admits t.goal
  artificial : ∀ g, t.artificial = some g → t.Admits g
  settled : t.infeasible = .empty

/-- A tableau in reduced form whose rows fit the kinds of their variables. -/
abbrev Proper (t : Tableau LinearForm Rat) : Prop := t.ProperFor t.kindOf

theorem Free.definitionOf (h : t.Free v) : t.definitionOf v = none := by
  obtain ⟨record, hrecord, hnone⟩ := h
  unfold Tableau.definitionOf
  rw [hrecord]
  exact hnone

theorem Free.checkReleased (h : t.Free v) : t.registry.checkReleased v = .ok () := by
  obtain ⟨record, hrecord, hnone⟩ := h
  exact Registry.checkReleased_eq_ok hrecord hnone

theorem Free.kindOf_isSome (h : t.Free v) : (t.kindOf v).isSome := by
  obtain ⟨record, hrecord, -⟩ := h
  unfold Tableau.kindOf
  rw [hrecord]
  rfl

theorem kindOf_eq {record : Record Rat} (h : t.registry.get? v = some record) :
    t.kindOf v = some record.kind := by
  unfold kindOf
  rw [h]
  rfl

theorem kindOf_of_dead (h : t.registry.get? v = none) : t.kindOf v = none := by
  unfold kindOf
  rw [h]
  rfl

/-- A live variable is not among those that are not live. -/
theorem not_mem_of_live {vs : List VariableId} (h : (t.kindOf v).isSome)
    (hdead : ∀ w ∈ vs, t.registry.get? w = none) : v ∉ vs := by
  intro hmem
  rw [kindOf_of_dead (hdead v hmem)] at h
  simp at h

theorem definitionOf_eq {record : Record Rat} (h : t.registry.get? v = some record) :
    t.definitionOf v = record.definition := by
  unfold definitionOf
  rw [h]
  rfl

/-- The objectives over variables without a definition. -/
theorem overNonbasic_iff {g : Goal Rat} :
    g.OverNonbasic t.registry ↔ ∀ v, (g.coefficient? v).isSome → t.Free v := by
  constructor
  · intro h v hv
    obtain ⟨vector, hvector⟩ := Option.isSome_iff_exists.mp hv
    exact Registry.nonbasic_iff.mp (h (v, vector) (SortedMap.find?_eq_some.mp hvector))
  · intro h entry hentry
    have hvector : g.coefficient? entry.1 = some entry.2 := SortedMap.find?_eq_some.mpr hentry
    exact Registry.nonbasic_iff.mpr (h entry.1 (by rw [hvector]; rfl))

theorem Admits.overNonbasic {g : Goal Rat} (h : t.Admits g) : g.OverNonbasic t.registry :=
  overNonbasic_iff.mpr h.free

/-! ## Reduced form -/

namespace Reduced

theorem row_basic (h : t.Reduced) (hrow : t.row? id = some row) :
    ∃ basic, row.basic = some basic ∧ t.definitionOf basic = some id :=
  Option.bind_eq_some_iff.mp (h.row_defines (id, row) (mem_rowList.mpr hrow))

theorem row_of_definition (h : t.Reduced) (hdefined : t.definitionOf v = some id) :
    ∃ row, t.row? id = some row ∧ row.basic = some v := by
  obtain ⟨record, hrecord, hdefinition⟩ := Option.bind_eq_some_iff.mp hdefined
  exact Option.bind_eq_some_iff.mp
    (h.defined_by_row (v, record) (Registry.mem_toList.mpr hrecord) id hdefinition)

theorem terms_free (h : t.Reduced) (hrow : t.row? id = some row) (hv : row.coefficient v ≠ 0) :
    t.Free v :=
  Registry.nonbasic_iff.mp
    (h.over_nonbasic (id, row) (mem_rowList.mpr hrow) (v, _) (Row.mem_entries.mpr ⟨rfl, hv⟩))

/-- The reduced form, position by position. -/
theorem of_rows (hbasic : ∀ id row, t.row? id = some row →
      ∃ basic, row.basic = some basic ∧ t.definitionOf basic = some id)
    (hdefined : ∀ v id, t.definitionOf v = some id →
      ∃ row, t.row? id = some row ∧ row.basic = some v)
    (hfree : ∀ id row v, t.row? id = some row → row.coefficient v ≠ 0 → t.Free v) :
    t.Reduced where
  row_defines := fun entry hentry =>
    Option.bind_eq_some_iff.mpr (hbasic entry.1 entry.2 (mem_rowList.mp hentry))
  defined_by_row := fun entry hentry id hid =>
    Option.bind_eq_some_iff.mpr (hdefined entry.1 id
      (Option.bind_eq_some_iff.mpr ⟨entry.2, Registry.mem_toList.mp hentry, hid⟩))
  over_nonbasic := by
    intro entry hentry term hterm
    obtain ⟨hcoefficient, hne⟩ := Row.mem_entries.mp hterm
    exact Registry.nonbasic_iff.mpr
      (hfree entry.1 entry.2 term.1 (mem_rowList.mp hentry) (hcoefficient ▸ hne))

theorem definition_of_basic (h : t.Reduced) (hrow : t.row? id = some row)
    (hbasic : row.basic = some v) : t.definitionOf v = some id := by
  obtain ⟨basic, hfound, hdefined⟩ := h.row_basic hrow
  rw [hbasic, Option.some.injEq] at hfound
  exact hfound ▸ hdefined

/-- A variable without a definition is not the basic variable of a row. -/
theorem basic_ne_of_free (h : t.Reduced) (hrow : t.row? id = some row)
    (hbasic : row.basic = some w) (hfree : t.Free v) : w ≠ v := by
  rintro rfl
  have hdefined := h.definition_of_basic hrow hbasic
  rw [hfree.definitionOf] at hdefined
  simp at hdefined

/-- A variable with a definition occurs in no row. -/
theorem coefficient_of_defined (h : t.Reduced) (hrow : t.row? id = some row) {j : RowId}
    (hdefined : t.definitionOf v = some j) : row.coefficient v = 0 := by
  by_contra hne
  rw [(h.terms_free hrow hne).definitionOf] at hdefined
  simp at hdefined

end Reduced

namespace ProperFor

variable {kinds : VariableId → Option VariableKind}

/-- The basic variable of a row is live, the row is its definition and fits its kind. -/
theorem record_of_basic (h : t.ProperFor kinds) (hrow : t.row? id = some row)
    (hbasic : row.basic = some v) : ∃ record, t.registry.get? v = some record ∧
      record.definition = some id ∧ row.Fits kinds record.kind := by
  obtain ⟨basic, record, hfound, hrecord⟩ := h.row_basic hrow
  rw [hbasic, Option.some.injEq] at hfound
  subst hfound
  exact ⟨record, hrecord⟩

theorem reduced (h : t.ProperFor kinds) : t.Reduced := by
  refine .of_rows (fun id row hrow => ?_) (fun v id => h.row_of_definition)
    fun id row v => h.terms_free
  obtain ⟨basic, record, hbasic, hrecord, hdefinition, -⟩ := h.row_basic hrow
  exact ⟨basic, hbasic, (definitionOf_eq hrecord).trans hdefinition⟩

theorem definition_of_basic (h : t.ProperFor kinds) (hrow : t.row? id = some row)
    (hbasic : row.basic = some v) : t.definitionOf v = some id :=
  h.reduced.definition_of_basic hrow hbasic

theorem fits_of_basic (h : t.ProperFor kinds) (hrow : t.row? id = some row)
    (hbasic : row.basic = some v) {kind : VariableKind} (hkind : t.kindOf v = some kind) :
    row.Fits kinds kind := by
  obtain ⟨record, hrecord, -, hfits⟩ := h.record_of_basic hrow hbasic
  rw [kindOf_eq hrecord, Option.some.injEq] at hkind
  exact hkind ▸ hfits

theorem coefficient_of_defined (h : t.ProperFor kinds) (hrow : t.row? id = some row) {j : RowId}
    (hdefined : t.definitionOf v = some j) : row.coefficient v = 0 :=
  h.reduced.coefficient_of_defined hrow hdefined

end ProperFor

/-! ## Solutions -/

/-- The values of all variables, given those of the variables without a definition. -/
def complete (t : Tableau LinearForm Rat) (a : Assignment Rat) : Assignment Rat := fun v =>
  match (t.definitionOf v).bind t.row? with
  | some row => row.eval a
  | none => a v

theorem complete_of_none (h : t.definitionOf v = none) (a : Assignment Rat) :
    t.complete a v = a v := by
  unfold complete
  rw [h]
  rfl

theorem complete_of_row (hdefinition : t.definitionOf v = some id) (hrow : t.row? id = some row)
    (a : Assignment Rat) : t.complete a v = row.eval a := by
  unfold complete
  rw [hdefinition]
  simp only [Option.bind_some, hrow]

/-- The current values are the solution with all parameters at zero. -/
theorem value_eq_complete (t : Tableau LinearForm Rat) : t.value = t.complete fun _ => 0 := by
  funext v
  have hvalue : t.value v = t.valueBy (t.definitionOf v) := rfl
  rw [hvalue]
  unfold valueBy complete
  cases (t.definitionOf v).bind t.row? with
  | none => rfl
  | some row => exact (Row.eval_zero row).symm

/-- An objective over free variables has the same value at a choice of the parameters and at the
solution they extend to. -/
theorem level_complete {g : Goal Rat} (hg : g.OverNonbasic t.registry) (s : Strength)
    (a : Assignment Rat) : g.level s (t.complete a) = g.level s a :=
  Goal.level_congr fun v hv => complete_of_none (overNonbasic_iff.mp hg v hv).definitionOf a

theorem Admits.level_complete {g : Goal Rat} (hg : t.Admits g) (s : Strength) (a : Assignment Rat) :
    g.level s (t.complete a) = g.level s a :=
  Tableau.level_complete hg.overNonbasic s a

namespace Reduced

theorem eval_complete (h : t.Reduced) (hrow : t.row? id = some row) (a : Assignment Rat) :
    row.eval (t.complete a) = row.eval a := by
  refine Row.eval_congr fun v hv => ?_
  exact complete_of_none (h.terms_free hrow hv).definitionOf a

/-- Every choice of the parameters extends to a solution. -/
theorem holds_complete (h : t.Reduced) (a : Assignment Rat) : t.Holds (t.complete a) := by
  rw [holds_iff]
  intro id row hrow
  obtain ⟨basic, hbasic, hdefined⟩ := h.row_basic hrow
  rw [Row.holds_of_basic hbasic, h.eval_complete hrow, complete_of_row hdefined hrow a]

/-- A solution is determined by its parameters. -/
theorem solution_unique (h : t.Reduced) (ha : t.Holds a) (hb : t.Holds b)
    (hagree : ∀ v, t.definitionOf v = none → a v = b v) : a = b := by
  funext v
  cases hdefinition : t.definitionOf v with
  | none => exact hagree v hdefinition
  | some id =>
      obtain ⟨row, hrow, hbasic⟩ := h.row_of_definition hdefinition
      have hrowA := (Row.holds_of_basic hbasic).mp (holds_iff.mp ha id row hrow)
      have hrowB := (Row.holds_of_basic hbasic).mp (holds_iff.mp hb id row hrow)
      rw [hrowA, hrowB]
      refine Row.eval_congr fun w hw => ?_
      exact hagree w (h.terms_free hrow hw).definitionOf

end Reduced

namespace Proper

theorem holds_complete (h : t.Proper) (a : Assignment Rat) : t.Holds (t.complete a) :=
  h.reduced.holds_complete a

theorem holds_value (h : t.Proper) : t.Holds t.value := by
  rw [value_eq_complete]
  exact h.holds_complete _

/-- A variable that can be changed freely in every solution has no definition and occurs in no
row. -/
theorem unmentioned (h : t.Proper)
    (hfree : ∀ a, t.Holds a → ∀ x, t.Holds (Function.update a v x)) :
    t.definitionOf v = none ∧ ∀ id row, t.row? id = some row → row.coefficient v = 0 := by
  have hsolution := h.holds_value
  have hmoved := hfree _ hsolution (t.value v + 1)
  have hundefined : t.definitionOf v = none := by
    cases hdefinition : t.definitionOf v with
    | none => rfl
    | some id =>
        -- The row of the variable would give it two values.
        obtain ⟨row, hrow, hbasic⟩ := h.row_of_definition hdefinition
        have hself := h.coefficient_of_defined hrow hdefinition
        have hbefore := (Row.holds_of_basic hbasic).mp (holds_iff.mp hsolution id row hrow)
        have hafter := (Row.holds_update_iff hbasic hself _).mp (holds_iff.mp hmoved id row hrow)
        linarith
  refine ⟨hundefined, fun id row hrow => ?_⟩
  obtain ⟨basic, -, hbasic, -⟩ := h.row_basic hrow
  have hne : basic ≠ v := by
    rintro rfl
    rw [h.definition_of_basic hrow hbasic] at hundefined
    simp at hundefined
  have hbefore := (Row.holds_of_basic hbasic).mp (holds_iff.mp hsolution id row hrow)
  have hafter := (Row.holds_of_basic hbasic).mp (holds_iff.mp hmoved id row hrow)
  rw [Row.eval_update, Function.update_of_ne hne, hbefore] at hafter
  linarith

end Proper

end Tableau

end LexSimplex
