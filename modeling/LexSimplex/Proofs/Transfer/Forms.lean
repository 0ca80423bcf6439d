import LexSimplex.Proofs.Exact.Calls
import LexSimplex.Proofs.Exact.Cycling
import LexSimplex.Proofs.Transfer.Walks

/-!
# Tableaus over linear forms

A tableau whose rows are stored as linear forms corresponds to a tableau of linear forms
(`Tableau.Stored.exists_asForms`), whatever its history.  The two give the same answers, and a step
of the one corresponds to the same step of the other.  So the exact arguments about a single step,
like those about runs, are made over linear forms.

The conditions of `LexSimplex.Proofs.Reduced` do not depend on how the rows are stored, and all
tableaus that the calls of a run start their loops from meet them (`Run.regular_opening`).
-/

namespace LexSimplex

/-- A mapped computation that succeeds comes from one that does. -/
theorem ok_of_map {ε β γ : Type} {f : β → γ} {x : Except ε β} {result : γ}
    (h : f <$> x = .ok result) : ∃ value, x = .ok value ∧ f value = result := by
  cases x with
  | error cause => cases h
  | ok value => exact ⟨value, rfl, Except.ok.inj h⟩

theorem error_of_map {ε β γ : Type} {f : β → γ} {x : Except ε β} {cause : ε}
    (h : f <$> x = .error cause) : x = .error cause := by
  cases x with
  | error found =>
      cases h
      rfl
  | ok value => cases h

variable {S : Type} [RowStore S Rat] [LawfulStore S Rat]

/-! ## Rows -/

namespace Row

/-- The storage of the first row represents the linear form of the second, and all else is the
same. -/
def AsForm (row : Row S Rat) (form : Row LinearForm Rat) : Prop :=
  ∃ p : Row (Paired S Rat) Rat, p.mapStore (Paired.toStore S Rat) = row ∧
    p.mapStore (Paired.toMap S Rat) = form.mapStore LinearForm.toMap

theorem Stored.exists_asForm {row : Row S Rat} (h : row.Stored) : ∃ form, row.AsForm form := by
  obtain ⟨form, hform⟩ := h
  exact ⟨⟨row.basic, row.constant, form⟩, ⟨row.basic, row.constant, ⟨row.terms, form.terms, hform⟩⟩,
    rfl, rfl⟩

namespace AsForm

variable {row : Row S Rat} {form : Row LinearForm Rat}

theorem stored (h : row.AsForm form) : row.Stored := by
  obtain ⟨p, rfl, hmap⟩ := h
  have hterms : p.terms.map = form.terms.terms := congrArg Row.terms hmap
  exact ⟨form.terms, hterms ▸ p.terms.represents⟩

/-- What does not look into the storage is the same for both rows. -/
theorem agree (h : row.AsForm form) {β : Type}
    (observe : ∀ {S : Type} [RowStore S Rat], Row S Rat → β)
    (hobserve : ∀ {S T : Type} [RowStore S Rat] [RowStore T Rat] (m : StoreMap S T Rat)
      (row : Row S Rat), observe (row.mapStore m) = observe row) : observe form = observe row := by
  obtain ⟨p, rfl, hmap⟩ := h
  calc observe form = observe (form.mapStore LinearForm.toMap) := (hobserve _ _).symm
    _ = observe (p.mapStore (Paired.toMap S Rat)) := by rw [hmap]
    _ = observe p := hobserve _ _
    _ = observe (p.mapStore (Paired.toStore S Rat)) := (hobserve _ _).symm

theorem basic (h : row.AsForm form) : form.basic = row.basic :=
  h.agree (fun row => row.basic) basic_mapStore

theorem constant (h : row.AsForm form) : form.constant = row.constant :=
  h.agree (fun row => row.constant) constant_mapStore

theorem coefficient (h : row.AsForm form) (v : VariableId) :
    form.coefficient v = row.coefficient v :=
  h.agree (fun row => row.coefficient v) fun m row => coefficient_mapStore m row v

theorem entries (h : row.AsForm form) : form.entries = row.entries :=
  h.agree (fun row => row.entries) entries_mapStore

theorem dualEntering (h : row.AsForm form) (g : Goal Rat) (registry : Registry Rat) :
    g.dualEntering form registry = g.dualEntering row registry :=
  h.agree (fun row => g.dualEntering row registry) fun m row =>
    g.dualEntering_mapStore m row registry

theorem goal_substitute (h : row.AsForm form) (g : Goal Rat) (v : VariableId) :
    g.substitute v form = g.substitute v row :=
  h.agree (fun row => g.substitute v row) fun m row => g.substitute_mapStore m row v

/-- Solving corresponding rows for a variable gives corresponding rows. -/
theorem pivot (h : row.AsForm form) {entering leaving : VariableId} {solved : Row LinearForm Rat}
    (hsolved : form.pivot entering leaving = .ok solved) :
    ∃ result, row.pivot entering leaving = .ok result ∧ result.AsForm solved := by
  obtain ⟨p, rfl, hmap⟩ := h
  -- The pair of the row and its form is solved once, and either part read off.
  have hforms := pivot_mapStore LinearForm.toMap form entering leaving
  rw [← hmap, pivot_mapStore, hsolved] at hforms
  obtain ⟨pair, hpair, hsame⟩ := ok_of_map hforms
  exact ⟨pair.mapStore (Paired.toStore S Rat), by rw [pivot_mapStore, hpair]; rfl, pair, rfl, hsame⟩

end AsForm

end Row

/-! ## Tableaus -/

namespace Tableau

/-- The rows of the second tableau are the linear forms that those of the first one represent, and
all else is the same. -/
def AsForms (t : Tableau S Rat) (l : Tableau LinearForm Rat) : Prop :=
  ∃ p : Tableau (Paired S Rat) Rat, p.mapStore (Paired.toStore S Rat) = t ∧
    p.mapStore (Paired.toMap S Rat) = l.mapStore LinearForm.toMap

/-- Positions of rows that are stored as linear forms correspond to positions of linear forms. -/
theorem exists_forms (slots : List (Option (Row S Rat)))
    (h : ∀ row, some row ∈ slots → row.Stored) :
    ∃ (pairs : List (Option (Row (Paired S Rat) Rat))) (forms : List (Option (Row LinearForm Rat))),
      pairs.map (Option.map (Row.mapStore (Paired.toStore S Rat))) = slots ∧
      pairs.map (Option.map (Row.mapStore (Paired.toMap S Rat))) =
        forms.map (Option.map (Row.mapStore LinearForm.toMap)) := by
  induction slots with
  | nil => exact ⟨[], [], rfl, rfl⟩
  | cons slot slots ih =>
      obtain ⟨pairs, forms, hstore, hmap⟩ := ih fun row hrow => h row (List.mem_cons_of_mem _ hrow)
      cases slot with
      | none => exact ⟨none :: pairs, none :: forms, by simp [hstore], by simp [hmap]⟩
      | some row =>
          obtain ⟨form, pair, hpair, hform⟩ := (h row List.mem_cons_self).exists_asForm
          exact ⟨some pair :: pairs, some form :: forms, by simp [hstore, hpair],
            by simp [hmap, hform]⟩

theorem Stored.exists_asForms {t : Tableau S Rat} (h : t.Stored) : ∃ l, t.AsForms l := by
  have hslots : ∀ row, some row ∈ t.rows.toList → row.Stored := by
    intro row hrow
    obtain ⟨index, hindex⟩ := List.mem_iff_getElem?.mp hrow
    refine h (⟨index⟩, row) (mem_rowList.mpr ?_)
    unfold row?
    rw [← Array.getElem?_toList, hindex]
    rfl
  obtain ⟨pairs, forms, hstore, hmap⟩ := exists_forms t.rows.toList hslots
  refine ⟨⟨t.registry, forms.toArray, t.freeRows, t.goal, t.artificial, t.infeasible⟩,
    ⟨t.registry, pairs.toArray, t.freeRows, t.goal, t.artificial, t.infeasible⟩, ?_, ?_⟩
  · unfold mapStore
    simp only [List.map_toArray, hstore, Array.toArray_toList]
  · unfold mapStore
    simp only [List.map_toArray, hmap]

namespace AsForms

variable {t : Tableau S Rat} {l : Tableau LinearForm Rat}

/-- What does not look into the storage of a row is the same for both tableaus. -/
theorem agree (h : t.AsForms l) {β : Type}
    (observe : ∀ {S : Type} [RowStore S Rat], Tableau S Rat → β)
    (hobserve : ∀ {S T : Type} [RowStore S Rat] [RowStore T Rat] (m : StoreMap S T Rat)
      (t : Tableau S Rat), observe (t.mapStore m) = observe t) : observe l = observe t := by
  obtain ⟨p, rfl, hmap⟩ := h
  calc observe l = observe (l.mapStore LinearForm.toMap) := (hobserve _ _).symm
    _ = observe (p.mapStore (Paired.toMap S Rat)) := by rw [hmap]
    _ = observe p := hobserve _ _
    _ = observe (p.mapStore (Paired.toStore S Rat)) := (hobserve _ _).symm

/-- A row of the first tableau corresponds to one of the second at the same position. -/
theorem exists_form (h : t.AsForms l) {id : RowId} {row : Row S Rat}
    (hrow : t.row? id = some row) : ∃ form, l.row? id = some form ∧ row.AsForm form := by
  obtain ⟨p, rfl, hmap⟩ := h
  rw [row?_mapStore, Option.map_eq_some_iff] at hrow
  obtain ⟨pair, hpair, rfl⟩ := hrow
  have hforms := row?_mapStore LinearForm.toMap l id
  rw [← hmap, row?_mapStore, hpair, Option.map_some, eq_comm, Option.map_eq_some_iff] at hforms
  obtain ⟨form, hform, hsame⟩ := hforms
  exact ⟨form, hform, pair, rfl, hsame.symm⟩

theorem exists_row (h : t.AsForms l) {id : RowId} {form : Row LinearForm Rat}
    (hform : l.row? id = some form) : ∃ row, t.row? id = some row ∧ row.AsForm form := by
  obtain ⟨p, rfl, hmap⟩ := h
  have hpaired := row?_mapStore LinearForm.toMap l id
  rw [← hmap, row?_mapStore, hform, Option.map_some, Option.map_eq_some_iff] at hpaired
  obtain ⟨pair, hpair, hsame⟩ := hpaired
  refine ⟨pair.mapStore (Paired.toStore S Rat), ?_, pair, rfl, hsame⟩
  rw [row?_mapStore, hpair, Option.map_some]

theorem stored (h : t.AsForms l) : t.Stored := by
  rintro ⟨id, row⟩ hmem
  obtain ⟨form, -, hform⟩ := h.exists_form (mem_rowList.mp hmem)
  exact hform.stored

theorem registry (h : t.AsForms l) : l.registry = t.registry :=
  h.agree (fun t => t.registry) fun _ _ => rfl

theorem infeasible (h : t.AsForms l) : l.infeasible = t.infeasible :=
  h.agree (fun t => t.infeasible) fun _ _ => rfl

theorem objective (h : t.AsForms l) (which : Objective) : l.objective which = t.objective which :=
  h.agree (fun t => t.objective which) fun m t => objective_mapStore m t which

theorem holds (h : t.AsForms l) (a : Assignment Rat) : l.Holds a ↔ t.Holds a :=
  Eq.to_iff <| h.agree (fun t => t.Holds a) fun m t => propext (t.holds_mapStore m a)

theorem leavingRow (h : t.AsForms l) (v : VariableId) : l.leavingRow v = t.leavingRow v :=
  h.agree (fun t => t.leavingRow v) fun m t => leavingRow_mapStore m t v

/-- The same pivot leads from corresponding tableaus to corresponding tableaus. -/
theorem pivot (h : t.AsForms l) {entering : VariableId} {id : RowId} {exchange : Exchange}
    {next : Tableau LinearForm Rat} (hpivot : l.pivot entering id = .ok (next, exchange)) :
    ∃ result, t.pivot entering id = .ok (result, exchange) ∧ result.AsForms next := by
  obtain ⟨p, rfl, hmap⟩ := h
  have hforms := pivot_mapStore LinearForm.toMap l id entering
  rw [← hmap, pivot_mapStore, hpivot] at hforms
  obtain ⟨⟨pair, made⟩, hpair, hsame⟩ := ok_of_map hforms
  obtain ⟨hnext, rfl⟩ := Prod.mk.inj hsame
  exact ⟨pair.mapStore (Paired.toStore S Rat), by rw [pivot_mapStore, hpair]; rfl, pair, rfl, hnext⟩

/-- The dual loop takes the same course through corresponding tableaus. -/
theorem dualOptimize (h : t.AsForms l) {limit : Nat} {course : Course (Tableau LinearForm Rat)}
    (hcourse : l.dualOptimize limit = .ok course) :
    ∃ result, t.dualOptimize limit = .ok result ∧ result.final.AsForms course.final ∧
      result.verdict = course.verdict := by
  obtain ⟨p, rfl, hmap⟩ := h
  have hforms := dualOptimize_mapStore LinearForm.toMap l limit
  rw [← hmap, dualOptimize_mapStore, hcourse] at hforms
  obtain ⟨pair, hpair, hsame⟩ := ok_of_map hforms
  refine ⟨pair.map (mapStore (Paired.toStore S Rat)), by rw [dualOptimize_mapStore, hpair]; rfl,
    ⟨pair.final, rfl, congrArg Course.final hsame⟩, ?_⟩
  exact congrArg Course.verdict hsame

theorem dualOptimize_error (h : t.AsForms l) {limit : Nat} {failure : Failure}
    (hfails : l.dualOptimize limit = .error failure) : t.dualOptimize limit = .error failure := by
  obtain ⟨p, rfl, hmap⟩ := h
  have hforms := dualOptimize_mapStore LinearForm.toMap l limit
  rw [← hmap, dualOptimize_mapStore, hfails] at hforms
  rw [dualOptimize_mapStore, error_of_map hforms]
  rfl

theorem value (h : t.AsForms l) : l.value = t.value :=
  h.agree (fun t => t.value) fun m t => funext (t.value_mapStore m)

/-! ### The conditions on tableaus -/

/-- A statement about the variable, the constant and the terms of every row. -/
theorem forall_rows (h : t.AsForms l)
    (P : RowId → Option VariableId → Rat → List (VariableId × Rat) → Prop) :
    (∀ entry ∈ l.rowList, P entry.1 entry.2.basic entry.2.constant entry.2.entries) ↔
      ∀ entry ∈ t.rowList, P entry.1 entry.2.basic entry.2.constant entry.2.entries := by
  constructor
  · rintro hall ⟨id, row⟩ hmem
    obtain ⟨form, hform, has⟩ := h.exists_form (mem_rowList.mp hmem)
    have hp := hall (id, form) (mem_rowList.mpr hform)
    simpa only [has.basic, has.constant, has.entries] using hp
  · rintro hall ⟨id, form⟩ hmem
    obtain ⟨row, hrow, has⟩ := h.exists_row (mem_rowList.mp hmem)
    have hp := hall (id, row) (mem_rowList.mpr hrow)
    simpa only [has.basic, has.constant, has.entries] using hp

theorem reduced (h : t.AsForms l) : l.Reduced ↔ t.Reduced := by
  have hbasic : ∀ id, (l.row? id).bind Row.basic = (t.row? id).bind Row.basic := fun id =>
    h.agree (fun t => (t.row? id).bind Row.basic) fun m t => by
      rw [row?_mapStore]
      cases t.row? id <;> rfl
  simp only [reduced_iff, h.registry, hbasic]
  refine and_congr ?_ (and_congr_right fun _ => ?_)
  · exact h.forall_rows fun id basic _ _ => basic.bind t.registry.definition? = some id
  · exact h.forall_rows fun _ _ _ entries => ∀ term ∈ entries, t.registry.Nonbasic term.1

theorem valuesAllowed (h : t.AsForms l) : l.ValuesAllowed ↔ t.ValuesAllowed := by
  unfold ValuesAllowed basicKind?
  rw [h.registry]
  exact h.forall_rows fun _ basic constant _ =>
    ∀ kind ∈ basic.bind t.registry.kind?, kind.Allows constant

theorem restrictedApart (h : t.AsForms l) : l.RestrictedApart ↔ t.RestrictedApart := by
  unfold RestrictedApart basicKind?
  rw [h.registry]
  exact h.forall_rows fun _ basic _ entries =>
    ∀ kind ∈ basic.bind t.registry.kind?, kind ≠ .unrestricted →
      ∀ term ∈ entries, t.registry.kind? term.1 ≠ some .unrestricted

theorem pinnedApart (h : t.AsForms l) : l.PinnedApart ↔ t.PinnedApart := by
  unfold PinnedApart basicKind?
  rw [h.registry]
  exact h.forall_rows fun _ basic _ entries => basic.bind t.registry.kind? = some .constant →
    ∀ term ∈ entries, t.registry.kind? term.1 = some .constant

theorem brokenQueued (h : t.AsForms l) : l.BrokenQueued ↔ t.BrokenQueued := by
  unfold BrokenQueued basicKind?
  rw [h.registry, h.infeasible]
  exact h.forall_rows fun id basic constant _ =>
    ∀ kind ∈ basic.bind t.registry.kind?, ¬kind.Allows constant → id ∈ t.infeasible.rows

theorem raised (h : t.AsForms l) (v : VariableId) (x : Rat) : l.raised v x = t.raised v x := by
  have hslope : ∀ w, l.slope v w = t.slope v w := fun w =>
    h.agree (fun t => t.slope v w) fun m t => by
      unfold slope
      rw [registry_mapStore]
      cases t.registry.definition? w with
      | none => rfl
      | some id =>
          simp only [Option.bind_some, row?_mapStore]
          cases t.row? id with
          | none => rfl
          | some row => simp only [Option.map_some, Row.coefficient_mapStore]
  funext w
  unfold Tableau.raised
  rw [h.value, hslope]

end AsForms

end Tableau

/-! ## Runs -/

theorem Solver.AsForms.tableau {s : Solver S Rat} {l : Solver LinearForm Rat} (h : s.AsForms l) :
    s.tableau.AsForms l.tableau := by
  obtain ⟨p, rfl, hmap⟩ := h
  exact ⟨p.tableau, rfl, congrArg Solver.tableau hmap⟩

/-- What the steps of the simplex method rely on. -/
structure Tableau.Regular (t : Tableau S Rat) : Prop where
  stored : t.Stored
  reduced : t.Reduced
  valuesAllowed : t.ValuesAllowed
  restrictedApart : t.RestrictedApart
  pinnedApart : t.PinnedApart
  objectives : ∀ which g, t.objective which = .ok g → g.OverNonbasic t.registry ∧ g.Clean

theorem Tableau.AsForms.regular {t : Tableau S Rat} {l : Tableau LinearForm Rat} (h : t.AsForms l)
    (hl : l.Proper) : t.Regular where
  stored := h.stored
  reduced := h.reduced.mp hl.reduced
  valuesAllowed := h.valuesAllowed.mp hl.valuesAllowed
  restrictedApart := h.restrictedApart.mp hl.restrictedApart
  pinnedApart := h.pinnedApart.mp hl.pinnedApart
  objectives := fun which g hg => by
    have hadmits := admits_objective hl ((h.objective which).trans hg)
    exact ⟨h.registry ▸ hadmits.overNonbasic, hadmits.clean⟩

/-- All tableaus that a call goes through correspond to proper ones: the ones that it comes to before
its loops and between them, and those of the loop that is under way, if it runs out of steps that of
phase one. -/
theorem Run.proper_of_walk {settings : Settings} {session : SessionId} {turns : List (Turn Rat)}
    {s : Solver (Storage Rat) Rat} (hrun : Run settings session turns s) (call : Call Rat)
    (limit count : Nat) {t : Tableau (Storage Rat) Rat}
    (hwalk : walk (Tableau.primalStep (SolverM.left (call.opening limit) s).tableau.pursued) count
      (SolverM.left (call.opening limit) s).tableau = some t) :
    ∃ form : Tableau LinearForm Rat, t.AsForms form ∧ form.Proper := by
  obtain ⟨l, hforms, has⟩ := hrun.exists_asForms
  have hopened := has.left (call.opening limit) fun m => call.opening_corresponds m limit
  have hproper : (SolverM.left (call.opening limit) l).tableau.Proper :=
    (SolverM.ends_iff_left (p := (·.tableau.Proper))).mp
      ((Solver.opening_ends hforms.sound call limit).mono fun _ _ h => h.1)
  -- The loop leads through proper tableaus, whichever objective it pursues.
  obtain ⟨form, hform, hreached⟩ := hopened.walk hwalk
  rw [← hopened.pursued] at hform
  obtain ⟨g, hg⟩ := Tableau.exists_objective (SolverM.left (call.opening limit) l).tableau
  exact ⟨form, hreached.tableau, (Tableau.walk_spec hproper hg hform).1⟩

/-- The conditions hold of all tableaus from which the calls after a run start their loops. -/
theorem Run.regular_opening {settings : Settings} {session : SessionId} {turns : List (Turn Rat)}
    {s : Solver (Storage Rat) Rat} (hrun : Run settings session turns s) (call : Call Rat)
    (limit : Nat) : (SolverM.left (call.opening limit) s).tableau.Regular := by
  obtain ⟨form, hform, hproper⟩ := hrun.proper_of_walk call limit 0 rfl
  exact hform.regular hproper

theorem Run.regular {settings : Settings} {session : SessionId} {turns : List (Turn Rat)}
    {s : Solver (Storage Rat) Rat} (hrun : Run settings session turns s) : s.tableau.Regular :=
  hrun.regular_opening .resolve 0

end LexSimplex
