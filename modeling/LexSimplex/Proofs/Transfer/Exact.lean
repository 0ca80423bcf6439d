import LexSimplex.Proofs.Exact.LinearForm
import LexSimplex.Proofs.History
import LexSimplex.Proofs.Storage.Agreement
import LexSimplex.Proofs.Transfer.Calls

/-!
# Solvers over linear forms

With exact scalars a row storage that represents sorted maps holds what a linear form holds.  A
solver on such a storage goes through the same states as one whose rows are linear forms, which is
where the exact arguments are made (`Run.exists_asForms`).  The two are related by a solver whose
rows are pairs of a storage and its map (`Solver.AsForms`); they answer every call alike and agree
on everything that does not look into the storage of a row.
-/

namespace LexSimplex

/-- Forget that no coefficient is zero. -/
def LinearForm.toMap : StoreMap LinearForm (SortedMap VariableId Rat) Rat where
  toFun := terms
  settings := id
  forRow _ _ := rfl
  find? _ _ := rfl
  put _ _ _ := rfl
  erase _ _ := rfl
  toList _ := rfl
  size _ := rfl
  divideBy _ _ := rfl
  negate _ := rfl

section Reading

variable {S T α : Type} [Scalar α] [RowStore S α] [RowStore T α] (m : StoreMap S T α)
  (a : Assignment α)

@[simp] theorem Row.holds_mapStore (row : Row S α) : (row.mapStore m).Holds a ↔ row.Holds a := by
  unfold Row.Holds Row.eval
  rw [Row.basic_mapStore, Row.constant_mapStore, Row.entries_mapStore]

@[simp] theorem Tableau.holds_mapStore (t : Tableau S α) :
    (t.mapStore m).Holds a ↔ t.Holds a := by
  unfold Tableau.Holds
  rw [Tableau.rowList_mapStore, List.forall_mem_map]
  simp only [Row.holds_mapStore]

end Reading

namespace Solver

variable {S : Type} [RowStore S Rat] [LawfulStore S Rat]

/-- The rows of the second solver are the linear forms that those of the first one represent, and
all else is the same. -/
def AsForms (s : Solver S Rat) (l : Solver LinearForm Rat) : Prop :=
  ∃ p : Solver (Paired S Rat) Rat, p.mapStore (Paired.toStore S Rat) = s ∧
    p.mapStore (Paired.toMap S Rat) = l.mapStore LinearForm.toMap

namespace AsForms

variable {s : Solver S Rat} {l : Solver LinearForm Rat}

/-- What does not look into the storage of a row is the same for both solvers. -/
theorem agree (h : s.AsForms l) {β : Type}
    (observe : ∀ {S : Type} [RowStore S Rat], Solver S Rat → β)
    (hobserve : ∀ {S T : Type} [RowStore S Rat] [RowStore T Rat] (m : StoreMap S T Rat)
      (s : Solver S Rat), observe (s.mapStore m) = observe s) : observe l = observe s := by
  obtain ⟨p, rfl, hmap⟩ := h
  calc observe l = observe (l.mapStore LinearForm.toMap) := (hobserve _ _).symm
    _ = observe (p.mapStore (Paired.toMap S Rat)) := by rw [hmap]
    _ = observe p := hobserve _ _
    _ = observe (p.mapStore (Paired.toStore S Rat)) := (hobserve _ _).symm

/-- The two solvers answer a computation that does not look into the storage of a row alike. -/
theorem run (h : s.AsForms l) {β : Type} (x : ∀ {S : Type} [RowStore S Rat], SolverM S Rat β)
    (hx : ∀ {S T : Type} [RowStore S Rat] [RowStore T Rat] (m : StoreMap S T Rat),
      SolverM.Corresponds m id (x : SolverM S Rat β) x) :
    match x.run s with
    | .ok answer s' => ∃ l', x.run l = .ok answer l' ∧ s'.AsForms l'
    | .error failure s' => ∃ l', x.run l = .error failure l' ∧ s'.AsForms l' := by
  obtain ⟨p, rfl, hmap⟩ := h
  have hforms := hx LinearForm.toMap l
  rw [← hmap, hx (Paired.toMap S Rat) p] at hforms
  rw [hx (Paired.toStore S Rat) p]
  cases hp : x.run p with
  | ok answer p' =>
      rw [hp] at hforms
      cases hl : x.run l with
      | ok answer' l' =>
          rw [hl] at hforms
          simp only [id_eq, EStateM.Result.ok.injEq] at hforms
          obtain ⟨rfl, hnext⟩ := hforms
          exact ⟨l', rfl, p', rfl, hnext⟩
      | error failure l' =>
          rw [hl] at hforms
          cases hforms
  | error failure p' =>
      rw [hp] at hforms
      cases hl : x.run l with
      | ok answer l' =>
          rw [hl] at hforms
          cases hforms
      | error failure' l' =>
          rw [hl] at hforms
          simp only [EStateM.Result.error.injEq] at hforms
          obtain ⟨rfl, hnext⟩ := hforms
          exact ⟨l', rfl, p', rfl, hnext⟩

/-- The two solvers give the same answer, if they give one. -/
theorem answers (h : s.AsForms l) {β : Type} (x : ∀ {S : Type} [RowStore S Rat], SolverM S Rat β)
    (hx : ∀ {S T : Type} [RowStore S Rat] [RowStore T Rat] (m : StoreMap S T Rat),
      SolverM.Corresponds m id (x : SolverM S Rat β) x) {answer : Except SolverError β}
    {next : Solver S Rat} (hanswer : SolverM.Answers x s answer next) :
    ∃ l', SolverM.Answers x l answer l' ∧ next.AsForms l' := by
  have hrun := h.run x hx
  unfold SolverM.Answers at hanswer
  cases answer with
  | ok result =>
      rw [hanswer] at hrun
      exact hrun
  | error cause =>
      rw [hanswer] at hrun
      exact hrun

/-- The rows of the second solver have the entries of those of the first. -/
theorem rows (h : s.AsForms l) (id : RowId) :
    (l.tableau.row? id).map (fun row => (row.basic, row.constant, row.entries)) =
      (s.tableau.row? id).map fun row => (row.basic, row.constant, row.entries) :=
  h.agree (fun s => (s.tableau.row? id).map fun row => (row.basic, row.constant, row.entries))
    fun m s => by
      change Option.map _ ((s.tableau.mapStore m).row? id) = _
      rw [Tableau.row?_mapStore, Option.map_map]
      simp only [Function.comp_def, Row.basic_mapStore, Row.constant_mapStore, Row.entries_mapStore]

theorem exists_form (h : s.AsForms l) {id : RowId} {row : Row S Rat}
    (hrow : s.tableau.row? id = some row) : ∃ form, l.tableau.row? id = some form ∧
      form.basic = row.basic ∧ form.constant = row.constant ∧ form.entries = row.entries := by
  have hsame := h.rows id
  rw [hrow] at hsame
  obtain ⟨form, hform, heq⟩ := Option.map_eq_some_iff.mp hsame
  simp only [Prod.mk.injEq] at heq
  exact ⟨form, hform, heq⟩

theorem exists_row (h : s.AsForms l) {id : RowId} {form : Row LinearForm Rat}
    (hform : l.tableau.row? id = some form) : ∃ row, s.tableau.row? id = some row ∧
      row.basic = form.basic ∧ row.constant = form.constant ∧ row.entries = form.entries := by
  have hsame := h.rows id
  rw [hform] at hsame
  obtain ⟨row, hrow, heq⟩ := Option.map_eq_some_iff.mp hsame.symm
  simp only [Prod.mk.injEq] at heq
  exact ⟨row, hrow, heq⟩

theorem constraints (h : s.AsForms l) : l.constraints = s.constraints :=
  h.agree (fun s => s.constraints) fun _ _ => rfl

theorem nextConstraint (h : s.AsForms l) : l.nextConstraint = s.nextConstraint :=
  h.agree (fun s => s.nextConstraint) fun _ _ => rfl

theorem goal (h : s.AsForms l) : l.tableau.goal = s.tableau.goal :=
  h.agree (fun s => s.tableau.goal) fun _ _ => rfl

theorem tag (h : s.AsForms l) : l.tag = s.tag :=
  h.agree (fun s => s.tag) fun _ _ => rfl

theorem accepted (h : s.AsForms l) : l.accepted = s.accepted := by
  unfold Solver.accepted
  rw [h.constraints]

theorem registry (h : s.AsForms l) : l.tableau.registry = s.tableau.registry :=
  h.agree (fun s => s.tableau.registry) fun _ _ => rfl

theorem value (h : s.AsForms l) : l.tableau.value = s.tableau.value :=
  h.agree (fun s => s.tableau.value) fun m s => funext fun v => s.tableau.value_mapStore m v

theorem holds (h : s.AsForms l) (a : Assignment Rat) : l.tableau.Holds a ↔ s.tableau.Holds a :=
  Eq.to_iff <| h.agree (fun s => s.tableau.Holds a) fun m s =>
    propext (s.tableau.holds_mapStore m a)

end AsForms

end Solver

variable {S : Type} [RowStore S Rat] [LawfulStore S Rat] {settings : Settings} {session : SessionId}
  {turns : List (Turn Rat)}

/-- Every run is a run with linear forms for rows. -/
theorem Run.exists_asForms {s : Solver S Rat} (hrun : Run settings session turns s) :
    ∃ l, Run settings session turns l ∧ s.AsForms l := by
  obtain ⟨p, hpaired, rfl⟩ := Run.exists_of_mapStore (Paired.toStore S Rat) hrun
  obtain ⟨l, hforms, hmap⟩ := Run.exists_of_mapStore LinearForm.toMap
    (hpaired.mapStore (Paired.toMap S Rat))
  exact ⟨l, hforms, p, rfl, hmap.symm⟩

end LexSimplex
