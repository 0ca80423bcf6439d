import LexSimplex.Proofs.Exact.Calls
import LexSimplex.Proofs.History
import LexSimplex.Proofs.Transfer.Exact

/-!
# Reduced form

Between calls a solver is in reduced form: the rows and the records of the variables name each
other, basic variables occur on left-hand sides only, nothing mentions a variable that is gone, the
holes among the rows are known, and nothing is left of an insertion through an artificial variable.
This holds after every history with exact scalars, whatever live handles the constraints mention
(`run_reducedForm`).
-/

namespace LexSimplex

open Tableau

/-- The bookkeeping of a solver between calls. -/
structure Solver.ReducedForm {S α : Type} [Scalar α] [RowStore S α] (s : Solver S α) : Prop where
  /-- Every row defines a live variable, whose record names the row. -/
  row_defines : ∀ id row, s.tableau.row? id = some row → ∃ basic record, row.basic = some basic ∧
    s.tableau.registry.get? basic = some record ∧ record.definition = some id
  /-- Every record with a definition names a row that defines its variable. -/
  defined_by_row : ∀ v record id, s.tableau.registry.get? v = some record →
    record.definition = some id → ∃ row, s.tableau.row? id = some row ∧ row.basic = some v
  /-- No basic variable occurs on a right-hand side. -/
  rows_over_nonbasic : ∀ id row basic, s.tableau.row? id = some row → row.basic = some basic →
    ∀ other otherRow, s.tableau.row? other = some otherRow →
      basic ∉ otherRow.entries.map Prod.fst
  /-- No basic variable occurs in the goal. -/
  goal_over_nonbasic : ∀ id row basic, s.tableau.row? id = some row → row.basic = some basic →
    basic ∉ s.tableau.goal.terms.toList.map Prod.fst
  /-- The rows mention live variables only. -/
  rows_live : ∀ id row, s.tableau.row? id = some row → ∀ v ∈ row.entries.map Prod.fst,
    (s.tableau.registry.get? v).isSome
  /-- The goal mentions live variables only. -/
  goal_live : ∀ v ∈ s.tableau.goal.terms.toList.map Prod.fst, (s.tableau.registry.get? v).isSome
  /-- The variables of the present constraints are live. -/
  tags_live : ∀ entry ∈ s.constraints.toList, ∀ v ∈ entry.2.own,
    (s.tableau.registry.get? v).isSome
  /-- No hole is listed twice. -/
  holes_nodup : s.tableau.freeRows.Nodup
  /-- The listed holes are the empty positions among the rows. -/
  mem_holes : ∀ id, id ∈ s.tableau.freeRows ↔
    id.index < s.tableau.rows.size ∧ s.tableau.row? id = none
  /-- There is no artificial objective. -/
  no_objective : s.tableau.artificial = none
  /-- There is no artificial variable. -/
  no_artificial : ∀ v record, s.tableau.registry.get? v = some record → record.kind ≠ .unknown

namespace Solver.Sound

variable {l : Solver LinearForm Rat}

/-- A variable that a row or the goal mentions is live and has no definition. -/
theorem free_of_entry (hs : l.Sound) {id : RowId} {row : Row LinearForm Rat}
    (hrow : l.tableau.row? id = some row) {v : VariableId} (hv : v ∈ row.entries.map Prod.fst) :
    l.tableau.Free v := by
  obtain ⟨entry, hentry, rfl⟩ := List.mem_map.mp hv
  obtain ⟨hcoefficient, hne⟩ := Row.mem_entries.mp hentry
  apply hs.proper.terms_free hrow
  rw [hcoefficient]
  exact hne

theorem free_of_goal (hs : l.Sound) {v : VariableId}
    (hv : v ∈ l.tableau.goal.terms.toList.map Prod.fst) : l.tableau.Free v := by
  obtain ⟨entry, hentry, rfl⟩ := List.mem_map.mp hv
  apply hs.proper.goal.free
  have hfind : l.tableau.goal.coefficient? entry.1 = some entry.2 :=
    SortedMap.find?_eq_some.mpr hentry
  rw [hfind]
  rfl

theorem reducedForm (hs : l.Sound) : l.ReducedForm := by
  have hlive : ∀ v, l.tableau.Free v → (l.tableau.registry.get? v).isSome := by
    rintro v ⟨record, hrecord, -⟩
    rw [hrecord]
    rfl
  have hnonbasic : ∀ id row basic, l.tableau.row? id = some row → row.basic = some basic →
      ¬l.tableau.Free basic := by
    intro id row basic hrow hbasic hfree
    have hdefined := hs.proper.definition_of_basic hrow hbasic
    rw [hfree.definitionOf] at hdefined
    simp at hdefined
  refine {
    row_defines := fun id row hrow => ?_
    defined_by_row := fun v record id hrecord hdefinition => ?_
    rows_over_nonbasic := fun id row basic hrow hbasic other otherRow hother hmem => ?_
    goal_over_nonbasic := fun id row basic hrow hbasic hmem => ?_
    rows_live := fun id row hrow v hv => hlive v (hs.free_of_entry hrow hv)
    goal_live := fun v hv => hlive v (hs.free_of_goal hv)
    tags_live := fun entry hentry v hv => ?_
    holes_nodup := hs.proper.holes_nodup
    mem_holes := hs.proper.mem_holes
    no_objective := hs.artificial
    no_artificial := fun v record hrecord hunknown => ?_ }
  · obtain ⟨basic, record, hbasic, hrecord, hdefinition, -⟩ := hs.proper.row_basic hrow
    exact ⟨basic, record, hbasic, hrecord, hdefinition⟩
  · exact hs.proper.row_of_definition ((definitionOf_eq hrecord).trans hdefinition)
  · exact hnonbasic id row basic hrow hbasic (hs.free_of_entry hother hmem)
  · exact hnonbasic id row basic hrow hbasic (hs.free_of_goal hmem)
  · have hpresent : l.Present entry.2 := ⟨entry.1, SortedMap.find?_eq_some.mpr hentry⟩
    have hkind := (hs.formed entry.2 hpresent).live hv
    unfold Tableau.kindOf at hkind
    rwa [Option.isSome_map] at hkind
  · apply hs.known v
    rw [kindOf_eq hrecord, hunknown]

end Solver.Sound

/-- The reduced form does not depend on the storage of rows. -/
theorem Solver.AsForms.reducedForm {S : Type} [RowStore S Rat] [LawfulStore S Rat]
    {s : Solver S Rat} {l : Solver LinearForm Rat} (h : s.AsForms l) (hl : l.ReducedForm) :
    s.ReducedForm := by
  have hregistry := h.registry
  have hgoal : l.tableau.goal = s.tableau.goal := h.agree (fun s => s.tableau.goal) fun _ _ => rfl
  have hholes : l.tableau.freeRows = s.tableau.freeRows :=
    h.agree (fun s => s.tableau.freeRows) fun _ _ => rfl
  have hsize : l.tableau.rows.size = s.tableau.rows.size :=
    h.agree (fun s => s.tableau.rows.size) fun _ _ => Array.size_map
  refine {
    row_defines := fun id row hrow => ?_
    defined_by_row := fun v record id hrecord hdefinition => ?_
    rows_over_nonbasic := fun id row basic hrow hbasic other otherRow hother => ?_
    goal_over_nonbasic := fun id row basic hrow hbasic => ?_
    rows_live := fun id row hrow => ?_
    goal_live := hregistry ▸ hgoal ▸ hl.goal_live
    tags_live := hregistry ▸ h.constraints ▸ hl.tags_live
    holes_nodup := hholes ▸ hl.holes_nodup
    mem_holes := fun id => ?_
    no_objective := (h.agree (fun s => s.tableau.artificial) fun _ _ => rfl) ▸ hl.no_objective
    no_artificial := hregistry ▸ hl.no_artificial }
  · obtain ⟨form, hform, hbasic, -, -⟩ := h.exists_form hrow
    rw [← hbasic, ← hregistry]
    exact hl.row_defines id form hform
  · rw [← hregistry] at hrecord
    obtain ⟨form, hform, hbasic⟩ := hl.defined_by_row v record id hrecord hdefinition
    obtain ⟨row, hrow, hsame, -, -⟩ := h.exists_row hform
    exact ⟨row, hrow, hsame.trans hbasic⟩
  · obtain ⟨form, hform, hsame, -, -⟩ := h.exists_form hrow
    obtain ⟨otherForm, hotherForm, -, -, hentries⟩ := h.exists_form hother
    rw [← hentries]
    exact hl.rows_over_nonbasic id form basic hform (hsame.trans hbasic) other otherForm hotherForm
  · obtain ⟨form, hform, hsame, -, -⟩ := h.exists_form hrow
    rw [← hgoal]
    exact hl.goal_over_nonbasic id form basic hform (hsame.trans hbasic)
  · obtain ⟨form, hform, -, -, hentries⟩ := h.exists_form hrow
    rw [← hentries, ← hregistry]
    exact hl.rows_live id form hform
  · have hempty : s.tableau.row? id = none ↔ l.tableau.row? id = none := by
      have hsame := h.rows id
      constructor
      · intro hnone
        rw [hnone] at hsame
        exact Option.map_eq_none_iff.mp hsame
      · intro hnone
        rw [hnone] at hsame
        exact Option.map_eq_none_iff.mp hsame.symm
    rw [← hholes, ← hsize, hempty]
    exact hl.mem_holes id

variable {settings : Settings} {session : SessionId} {turns : List (Turn Rat)}
  {s : Solver (Storage Rat) Rat}

/-- After every history of calls a solver is in reduced form. -/
theorem run_reducedForm (hrun : Run settings session turns s) : s.ReducedForm := by
  obtain ⟨l, hforms, has⟩ := hrun.exists_asForms
  exact has.reducedForm hforms.sound.reducedForm

theorem run_reducedForm_layout : layout.2.tableau.rows.size = 4 ∧
    layout.2.tableau.freeRows = [⟨3⟩] ∧ layout.2.ReducedForm :=
  ⟨by decide +kernel, by decide +kernel, run_reducedForm run_layout⟩

end LexSimplex
