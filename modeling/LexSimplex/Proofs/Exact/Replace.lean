import LexSimplex.Proofs.Exact.Proper

/-!
# Replacing a variable by its definition

Every change that the solver makes to the rows has one shape: a variable is replaced by a definition
in all rows but one and in the objectives, and that one row is overwritten, by the definition or by
nothing.  A pivot overwrites the row of the leaving variable by the definition of the entering one,
a new row goes to a free position, and a withdrawn row is overwritten by nothing.

`Rewritten` is this shape for the rows and the records, `Replaced` for the whole tableau.  A reduced
tableau stays reduced (`Rewritten.reduced`), a proper one stays proper under conditions on the
definition alone (`Replaced.properFor`), and the solutions are read off the other rows
(`Rewritten.holds_some`, `Replaced.holds_none`).
-/

namespace LexSimplex

namespace Tableau

variable {t next : Tableau LinearForm Rat} {id : RowId} {row definition : Row LinearForm Rat}
  {entering v : VariableId} {slot : Option (Row LinearForm Rat)} {a : Assignment Rat}

/-- `entering` was replaced by its definition in all rows but the one at `id`, which was overwritten
by `slot`, and the records say so. -/
structure Rewritten (t next : Tableau LinearForm Rat) (id : RowId) (entering : VariableId)
    (definition : Row LinearForm Rat) (slot : Option (Row LinearForm Rat)) : Prop where
  rows : ∀ j, next.row? j =
    if j = id then slot else (t.row? j).map fun row => row.substitute entering definition
  records : ∀ v, next.registry.get? v = (t.registry.get? v).map fun record =>
    { record with definition :=
        if v = entering then slot.map fun _ => id
        else if record.definition = some id then none else record.definition }

/-- `entering` was replaced by its definition in all rows but the one at `id`, which was overwritten
by `slot`, and in the objectives; no row was queued. -/
structure Replaced (t next : Tableau LinearForm Rat) (id : RowId) (entering : VariableId)
    (definition : Row LinearForm Rat) (slot : Option (Row LinearForm Rat)) : Prop
    extends Rewritten t next id entering definition slot where
  registry : next.registry.Sound
  session : next.registry.session = t.registry.session
  generation : ∀ v, next.registry.generation? v = t.registry.generation? v
  holes_nodup : next.freeRows.Nodup
  mem_holes : ∀ j, j ∈ next.freeRows ↔ j.index < next.rows.size ∧ next.row? j = none
  goal : next.goal = t.goal.substitute entering definition
  artificial : next.artificial = t.artificial.map fun g => g.substitute entering definition
  infeasible : next.infeasible = t.infeasible

namespace Rewritten

theorem kindOf (hr : Rewritten t next id entering definition slot) (v : VariableId) :
    next.kindOf v = t.kindOf v := by
  unfold Tableau.kindOf
  rw [hr.records v, Option.map_map]
  rfl

theorem definitionOf (hr : Rewritten t next id entering definition slot)
    (hlive : (t.kindOf entering).isSome) (v : VariableId) :
    next.definitionOf v =
      if v = entering then slot.map fun _ => id
      else if t.definitionOf v = some id then none else t.definitionOf v := by
  unfold Tableau.definitionOf
  rw [hr.records v]
  cases hrecord : t.registry.get? v with
  | none =>
      by_cases hv : v = entering
      · subst hv
        rw [Tableau.kindOf, hrecord] at hlive
        simp at hlive
      · simp [hv]
  | some record => rfl

theorem free (hr : Rewritten t next id entering definition slot)
    (h : t.Free v ∨ t.definitionOf v = some id) (hv : v ≠ entering) : next.Free v := by
  obtain ⟨record, hrecord, hdefinition⟩ :
      ∃ record, t.registry.get? v = some record ∧
        (record.definition = none ∨ record.definition = some id) := by
    rcases h with ⟨record, hrecord, hnone⟩ | hdefined
    · exact ⟨record, hrecord, Or.inl hnone⟩
    · unfold Tableau.definitionOf at hdefined
      obtain ⟨record, hrecord, hsome⟩ := Option.bind_eq_some_iff.mp hdefined
      exact ⟨record, hrecord, Or.inr hsome⟩
  refine ⟨_, by rw [hr.records v, hrecord]; rfl, ?_⟩
  rcases hdefinition with hnone | hsome
  · simp [hv, hnone]
  · simp [hv, hsome]

/-- The objectives stay over variables without a definition. -/
theorem overNonbasic (hr : Rewritten t next id entering definition slot) {g : Goal Rat}
    (hclean : g.Clean) (hg : g.OverNonbasic t.registry)
    (hself : definition.coefficient entering = 0)
    (hterms : ∀ v, definition.coefficient v ≠ 0 → t.Free v ∨ t.definitionOf v = some id) :
    (g.substitute entering definition).OverNonbasic next.registry := by
  rw [overNonbasic_iff] at hg ⊢
  intro v hv
  rcases hclean.occurs_substitute hv with ⟨hne, hold⟩ | ⟨-, hnew⟩
  · exact hr.free (Or.inl (hg v hold)) hne
  · refine hr.free (hterms v hnew) ?_
    rintro rfl
    exact hnew hself

/-- The objectives stay over free variables that are not unrestricted. -/
theorem admits (hr : Rewritten t next id entering definition slot) {g : Goal Rat} (hg : t.Admits g)
    (hself : definition.coefficient entering = 0)
    (hterms : ∀ v, definition.coefficient v ≠ 0 → t.Free v ∨ t.definitionOf v = some id)
    (hkinds : (g.coefficient? entering).isSome →
      ∀ v, definition.coefficient v ≠ 0 → t.kindOf v ≠ some .unrestricted) :
    next.Admits (g.substitute entering definition) where
  clean := Goal.clean_substitute hg.clean _ _
  free := overNonbasic_iff.mp (hr.overNonbasic hg.clean hg.overNonbasic hself hterms)
  restricted := by
    intro v hv
    rw [hr.kindOf]
    rcases hg.clean.occurs_substitute hv with ⟨-, hold⟩ | ⟨hentering, hnew⟩
    · exact hg.restricted v hold
    · exact hkinds hentering v hnew

/-- A row afterwards is the definition or a row of another position in which the variable was
replaced. -/
theorem row_cases (hr : Rewritten t next id entering definition slot)
    (hslot : slot = none ∨ slot = some definition) {j : RowId} (hrow : next.row? j = some row) :
    (j = id ∧ row = definition ∧ slot = some definition) ∨
      (j ≠ id ∧ ∃ old, t.row? j = some old ∧ row = old.substitute entering definition) := by
  rw [hr.rows] at hrow
  by_cases hj : j = id
  · rw [if_pos hj] at hrow
    rcases hslot with hnone | hsome
    · rw [hnone] at hrow
      simp at hrow
    · rw [hsome, Option.some.injEq] at hrow
      exact Or.inl ⟨hj, hrow.symm, hsome⟩
  · rw [if_neg hj] at hrow
    obtain ⟨old, hold, rfl⟩ := Option.map_eq_some_iff.mp hrow
    exact Or.inr ⟨hj, old, hold, rfl⟩

theorem row?_of_ne (hr : Rewritten t next id entering definition slot) {j : RowId} (hj : j ≠ id)
    (hrow : t.row? j = some row) :
    next.row? j = some (row.substitute entering definition) := by
  rw [hr.rows, if_neg hj, hrow]
  rfl

/-- A variable that has no definition or the one at `id` is not the basic variable of a row at
another position. -/
theorem basic_ne_entering (h : t.Reduced)
    (hentering : t.Free entering ∨ t.definitionOf entering = some id) {j : RowId} (hj : j ≠ id)
    (hrow : t.row? j = some row) (hbasic : row.basic = some v) : v ≠ entering := by
  rcases hentering with hfree | hdefined
  · exact h.basic_ne_of_free hrow hbasic hfree
  · rintro rfl
    rw [h.definition_of_basic hrow hbasic, Option.some.injEq] at hdefined
    exact hj hdefined

theorem kindOf_entering_isSome (hentering : t.Free entering ∨ t.definitionOf entering = some id) :
    (t.kindOf entering).isSome := by
  rcases hentering with hfree | hdefined
  · exact hfree.kindOf_isSome
  · obtain ⟨record, hrecord, -⟩ := Option.bind_eq_some_iff.mp hdefined
    rw [kindOf_eq hrecord]
    rfl

/-- The records of the basic variables name their rows. -/
theorem row_basic (h : t.Reduced) (hr : Rewritten t next id entering definition slot)
    (hslot : slot = none ∨ slot = some definition) (hbasic : definition.basic = some entering)
    (hentering : t.Free entering ∨ t.definitionOf entering = some id) {j : RowId}
    (hrow : next.row? j = some row) :
    ∃ basic, row.basic = some basic ∧ next.definitionOf basic = some j := by
  have hlive := kindOf_entering_isSome hentering
  rcases hr.row_cases hslot hrow with ⟨rfl, rfl, hsome⟩ | ⟨hj, old, hold, rfl⟩
  · refine ⟨entering, hbasic, ?_⟩
    rw [hr.definitionOf hlive, if_pos rfl, hsome]
    rfl
  · obtain ⟨basic, holdBasic, hdefined⟩ := h.row_basic hold
    have hne := basic_ne_entering h hentering hj hold holdBasic
    refine ⟨basic, (Row.basic_substitute _ _ _).trans holdBasic, ?_⟩
    rw [hr.definitionOf hlive, if_neg hne, hdefined, if_neg (by simpa using hj)]

/-- The definitions in the records name rows of their variables. -/
theorem row_of_definition (h : t.Reduced) (hr : Rewritten t next id entering definition slot)
    (hslot : slot = none ∨ slot = some definition) (hbasic : definition.basic = some entering)
    (hentering : t.Free entering ∨ t.definitionOf entering = some id) {j : RowId}
    (hdefined : next.definitionOf v = some j) : ∃ row, next.row? j = some row ∧ row.basic = some v := by
  rw [hr.definitionOf (kindOf_entering_isSome hentering)] at hdefined
  by_cases hv : v = entering
  · rw [if_pos hv] at hdefined
    rcases hslot with hnone | hsome
    · rw [hnone] at hdefined
      simp at hdefined
    · rw [hsome, Option.map_some, Option.some.injEq] at hdefined
      exact ⟨definition, by rw [hr.rows, if_pos hdefined.symm, hsome], hv ▸ hbasic⟩
  · rw [if_neg hv] at hdefined
    by_cases hgone : t.definitionOf v = some id
    · rw [if_pos hgone] at hdefined
      simp at hdefined
    · rw [if_neg hgone] at hdefined
      obtain ⟨old, hold, holdBasic⟩ := h.row_of_definition hdefined
      have hj : j ≠ id := by
        rintro rfl
        exact hgone hdefined
      exact ⟨_, hr.row?_of_ne hj hold, (Row.basic_substitute _ _ _).trans holdBasic⟩

/-- The rows mention variables without a definition only. -/
theorem terms_free (h : t.Reduced) (hr : Rewritten t next id entering definition slot)
    (hslot : slot = none ∨ slot = some definition) (hself : definition.coefficient entering = 0)
    (hterms : ∀ v, definition.coefficient v ≠ 0 → t.Free v ∨ t.definitionOf v = some id)
    {j : RowId} (hrow : next.row? j = some row) (hv : row.coefficient v ≠ 0) : next.Free v := by
  rcases hr.row_cases hslot hrow with ⟨-, rfl, -⟩ | ⟨-, old, hold, rfl⟩
  · refine hr.free (hterms v hv) ?_
    rintro rfl
    exact hv hself
  · have hne : v ≠ entering := by
      rintro rfl
      rw [Row.coefficient_substitute, if_pos rfl, hself, mul_zero, add_zero] at hv
      exact hv rfl
    -- A variable of the rewritten row comes from the old row or from the definition.
    rw [Row.coefficient_substitute, if_neg hne] at hv
    by_cases hcoefficient : old.coefficient v = 0
    · rw [hcoefficient, zero_add] at hv
      exact hr.free (hterms v (right_ne_zero_of_mul hv)) hne
    · exact hr.free (Or.inl (h.terms_free hold hcoefficient)) hne

/-- Replacing a variable keeps a tableau reduced if the definition mentions free variables only, or the
one that the overwritten row defined. -/
theorem reduced (h : t.Reduced) (hr : Rewritten t next id entering definition slot)
    (hslot : slot = none ∨ slot = some definition) (hbasic : definition.basic = some entering)
    (hentering : t.Free entering ∨ t.definitionOf entering = some id)
    (hself : definition.coefficient entering = 0)
    (hterms : ∀ v, definition.coefficient v ≠ 0 → t.Free v ∨ t.definitionOf v = some id) :
    next.Reduced :=
  .of_rows (fun _ _ => hr.row_basic h hslot hbasic hentering)
    (fun _ _ => hr.row_of_definition h hslot hbasic hentering)
    fun _ _ _ => hr.terms_free h hslot hself hterms

/-- The solutions after a row was overwritten by the definition. -/
theorem holds_some (hr : Rewritten t next id entering definition (some definition))
    (hbasic : definition.basic = some entering) :
    next.Holds a ↔ definition.Holds a ∧ ∀ j row, j ≠ id → t.row? j = some row → row.Holds a := by
  rw [holds_iff]
  constructor
  · intro hall
    have hdefinition : definition.Holds a := hall id definition (by rw [hr.rows, if_pos rfl])
    have hvalue := (Row.holds_of_basic hbasic).mp hdefinition
    refine ⟨hdefinition, fun j row hj hrow => ?_⟩
    exact (Row.holds_substitute hvalue).mp (hall j _ (hr.row?_of_ne hj hrow))
  · rintro ⟨hdefinition, hrest⟩ j row hrow
    have hvalue := (Row.holds_of_basic hbasic).mp hdefinition
    rcases hr.row_cases (Or.inr rfl) hrow with ⟨-, rfl, -⟩ | ⟨hj, old, hold, rfl⟩
    · exact hdefinition
    · exact (Row.holds_substitute hvalue).mpr (hrest j old hj hold)

/-- A row solved for another of its variables says the same. -/
theorem holds_solved (h : t.Reduced) (hrow : t.row? id = some row)
    (hentering : row.coefficient entering ≠ 0)
    (hr : Rewritten t next id entering (row.solved entering) (some (row.solved entering))) :
    next.Holds a ↔ t.Holds a := by
  have hbasic : ∀ leaving, row.basic = some leaving → row.coefficient leaving = 0 :=
    fun leaving hleaving => h.coefficient_of_defined hrow (h.definition_of_basic hrow hleaving)
  rw [hr.holds_some rfl, Row.holds_solved hbasic hentering, holds_iff]
  constructor
  · rintro ⟨hself, hothers⟩ j other hother
    by_cases hj : j = id
    · rw [hj, hrow, Option.some.injEq] at hother
      exact hother ▸ hself
    · exact hothers j other hj hother
  · intro hall
    exact ⟨hall id row hrow, fun j other _ hother => hall j other hother⟩

end Rewritten

namespace Replaced

section Proper

variable {kinds : VariableId → Option VariableKind}

/-- Replacing a variable keeps a tableau proper if the definition mentions free variables only, or
the one that the overwritten row defined, and the rewritten rows fit their kinds. -/
theorem properFor (h : t.ProperFor kinds)
    (hr : Replaced t next id entering definition slot)
    (hslot : slot = none ∨ slot = some definition) (hbasic : definition.basic = some entering)
    (hentering : t.Free entering ∨ t.definitionOf entering = some id)
    (hself : definition.coefficient entering = 0)
    (hterms : ∀ v, definition.coefficient v ≠ 0 → t.Free v ∨ t.definitionOf v = some id)
    (hfits : ∀ j row basic kind, j ≠ id → t.row? j = some row → row.basic = some basic →
      t.kindOf basic = some kind → (row.substitute entering definition).Fits kinds kind)
    (hown : ∀ kind, slot = some definition → t.kindOf entering = some kind →
      definition.Fits kinds kind)
    (hkinds : ∀ g, g = t.goal ∨ t.artificial = some g → (g.coefficient? entering).isSome →
      ∀ v, definition.coefficient v ≠ 0 → t.kindOf v ≠ some .unrestricted) :
    next.ProperFor kinds := by
  have hreduced := hr.reduced h.reduced hslot hbasic hentering hself hterms
  refine {
    registry := hr.registry
    holes_nodup := hr.holes_nodup
    mem_holes := hr.mem_holes
    row_basic := fun {j row} hrow => ?_
    row_of_definition := hreduced.row_of_definition
    terms_free := hreduced.terms_free
    goal := ?_
    artificial := fun g hg => ?_
    settled := by rw [hr.infeasible, h.settled] }
  · obtain ⟨basic, hrowBasic, hdefined⟩ := hreduced.row_basic hrow
    obtain ⟨record, hrecord, hdefinition⟩ := Option.bind_eq_some_iff.mp hdefined
    have hkind : t.kindOf basic = some record.kind := by rw [← hr.kindOf, kindOf_eq hrecord]
    refine ⟨basic, record, hrowBasic, hrecord, hdefinition, ?_⟩
    rcases hr.row_cases hslot hrow with ⟨-, rfl, hsome⟩ | ⟨hj, old, hold, rfl⟩
    · rw [hbasic, Option.some.injEq] at hrowBasic
      exact hown record.kind hsome (hrowBasic ▸ hkind)
    · rw [Row.basic_substitute] at hrowBasic
      exact hfits j old basic record.kind hj hold hrowBasic hkind
  · rw [hr.goal]
    exact hr.admits h.goal hself hterms (hkinds _ (Or.inl rfl))
  · rw [hr.artificial] at hg
    obtain ⟨old, hold, rfl⟩ := Option.map_eq_some_iff.mp hg
    exact hr.admits (h.artificial old hold) hself hterms (hkinds _ (Or.inr hold))

end Proper

/-- The solutions after a row was overwritten by nothing: the other rows hold once the variable is
given the value of its definition. -/
theorem holds_none (h : t.Proper) (hr : Replaced t next id entering definition none)
    (hentering : t.Free entering ∨ t.definitionOf entering = some id) :
    next.Holds a ↔ ∀ j row, j ≠ id → t.row? j = some row →
      row.Holds (Function.update a entering (definition.eval a)) := by
  have hstep : ∀ j row, j ≠ id → t.row? j = some row →
      ((row.substitute entering definition).Holds a ↔
        row.Holds (Function.update a entering (definition.eval a))) := by
    intro j row hj hrow
    obtain ⟨basic, -, hbasic, -⟩ := h.row_basic hrow
    have hne := Rewritten.basic_ne_entering h.reduced hentering hj hrow hbasic
    rw [Row.holds_of_basic ((Row.basic_substitute row definition entering).trans hbasic),
      Row.holds_of_basic hbasic, Row.eval_substitute, Row.eval_update, Function.update_of_ne hne]
  rw [holds_iff]
  constructor
  · intro hall j row hj hrow
    rw [← hstep j row hj hrow]
    exact hall j _ (hr.row?_of_ne hj hrow)
  · intro hall j row hrow
    rcases hr.row_cases (Or.inl rfl) hrow with ⟨-, -, hslot⟩ | ⟨hj, old, hold, rfl⟩
    · simp at hslot
    · exact (hstep j old hj hold).mpr (hall j old hj hold)

end Replaced

end Tableau

end LexSimplex
