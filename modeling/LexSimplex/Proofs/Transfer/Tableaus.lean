import LexSimplex.Proofs.Transfer.Rows
import Mathlib.Control.Basic

/-!
# Pivots and pivot loops in another storage

Every rule that selects a row or a variable, every pivot and the two loops give the same answer in
either storage, and they leave tableaus that correspond.
-/

namespace LexSimplex

variable {S T α : Type} [Scalar α] [RowStore S α] [RowStore T α] (m : StoreMap S T α)

/-- A fold whose steps commute with a map of the states commutes with it. -/
theorem foldlM_map {ε σ τ ι κ : Type} {f : σ → τ} {g : ι → κ} {step : σ → ι → Except ε σ}
    {step' : τ → κ → Except ε τ} (h : ∀ s i, step' (f s) (g i) = f <$> step s i) (xs : List ι)
    (s : σ) : (xs.map g).foldlM step' (f s) = f <$> xs.foldlM step s := by
  induction xs generalizing s with
  | nil => rfl
  | cons x xs ih =>
      rw [List.map_cons, List.foldlM_cons, List.foldlM_cons, h]
      cases hstep : step s x with
      | error failure => rfl
      | ok next => exact ih next

/-- A fold over corresponding lists whose steps give the same answers. -/
theorem foldlM_map_left {ε σ ι κ : Type} {g : ι → κ} {step : σ → ι → Except ε σ}
    {step' : σ → κ → Except ε σ} (h : ∀ s i, step' s (g i) = step s i) (xs : List ι) (s : σ) :
    (xs.map g).foldlM step' s = xs.foldlM step s := by
  have hstep : ∀ s i, step' (id s) (g i) = id <$> step s i := fun s i => by
    rw [id_map]
    exact h s i
  have hfold := foldlM_map hstep xs s
  rwa [id_map] at hfold

namespace Tableau

variable (t : Tableau S α) (id : RowId) (v : VariableId) (row : Row S α)

@[simp] theorem insertRow_mapStore :
    (t.mapStore m).insertRow (row.mapStore m) = mapStore m <$> t.insertRow row := by
  unfold insertRow
  have hsize : (t.mapStore m).rows.size = t.rows.size := by simp [mapStore]
  rw [freeRows_mapStore]
  cases t.freeRows with
  | nil =>
      have hpush : (t.mapStore m).rows.push (some (row.mapStore m)) =
          (t.rows.push (some row)).map fun slot => slot.map (Row.mapStore m) := by
        simp [mapStore]
      simp only
      rw [hpush, hsize]
      exact define_mapStore m ⟨t.registry, t.rows.push (some row), [], t.goal, t.artificial,
        t.infeasible⟩ row.basic _
  | cons hole rest =>
      have hset := setRow_mapStore m t hole (some row)
      rw [Option.map_some] at hset
      simp only
      rw [hset, hsize]
      split
      · exact define_mapStore m { t.setRow hole (some row) with freeRows := rest } row.basic _
      · rfl

/-- A row together with a tableau in another storage. -/
def mapDropped (dropped : Row S α × Tableau S α) : Row T α × Tableau T α :=
  (dropped.1.mapStore m, dropped.2.mapStore m)

@[simp] theorem dropRow_mapStore :
    (t.mapStore m).dropRow id = mapDropped m <$> t.dropRow id := by
  unfold dropRow
  rw [row_mapStore, liftM_map_answer]
  cases t.row id with
  | error cause => rfl
  | ok row =>
      have hset := setRow_mapStore m t id none
      rw [Option.map_none] at hset
      have hdefine := define_mapStore m { t.setRow id none with freeRows := id :: t.freeRows }
        row.basic none
      change (do
        let next ← liftM (({ (t.mapStore m).setRow id none with
          freeRows := id :: t.freeRows } : Tableau T α).define row.basic none)
        pure (row.mapStore m, next) : Except Failure (Row T α × Tableau T α)) =
          mapDropped m <$> (do
            let next ← liftM (({ t.setRow id none with
              freeRows := id :: t.freeRows } : Tableau S α).define row.basic none)
            pure (row, next) : Except Failure (Row S α × Tableau S α))
      rw [hset]
      change (do
        let next ← liftM ((mapStore m { t.setRow id none with
          freeRows := id :: t.freeRows }).define row.basic none)
        pure (row.mapStore m, next) : Except Failure (Row T α × Tableau T α)) = _
      rw [hdefine]
      cases ({ t.setRow id none with
        freeRows := id :: t.freeRows } : Tableau S α).define row.basic none <;> rfl

@[simp] theorem hasRestrictedBasic_mapStore :
    (t.mapStore m).hasRestrictedBasic (row.mapStore m) = t.hasRestrictedBasic row := rfl

@[simp] theorem isInfeasible_mapStore :
    (t.mapStore m).isInfeasible (row.mapStore m) = t.isInfeasible row := rfl

@[simp] theorem isReferenced_mapStore :
    (t.mapStore m).isReferenced v = t.isReferenced v := by
  unfold isReferenced
  simp only [registry_mapStore, goal_mapStore, rowList_mapStore, List.any_map, Function.comp_def,
    Row.contains_mapStore]

/-! ## Pivots -/

@[simp] theorem substituteRows_mapStore (definition : Row S α) :
    (t.mapStore m).substituteRows v (definition.mapStore m) =
      (t.substituteRows v definition).map fun slot => slot.map (Row.mapStore m) := by
  unfold substituteRows mapStore
  rw [Array.map_map, Array.map_map]
  refine congrArg (fun f => t.rows.map f) (funext fun slot => ?_)
  cases slot with
  | none => rfl
  | some row => simp

@[simp] theorem rowsMentioning_mapStore :
    (t.mapStore m).rowsMentioning v = t.rowsMentioning v := by
  unfold rowsMentioning
  simp only [rowList_mapStore, List.filter_map, Function.comp_def, Row.mentions_mapStore,
    List.map_map]

@[simp] theorem queueIfInfeasible_mapStore :
    (t.mapStore m).queueIfInfeasible id = mapStore m <$> t.queueIfInfeasible id := by
  unfold queueIfInfeasible
  rw [row?_mapStore]
  cases t.row? id with
  | none => rfl
  | some row =>
      simp only [Option.map_some, isInfeasible_mapStore]
      cases t.isInfeasible row with
      | error fault => rfl
      | ok answer => cases answer <;> rfl

@[simp] theorem substitute_mapStore (definition : Row S α) :
    (t.mapStore m).substitute v (definition.mapStore m) =
      mapStore m <$> t.substitute v definition := by
  unfold substitute
  have hfold := foldlM_map (f := mapStore m) (g := fun id => id)
    (fun t id => queueIfInfeasible_mapStore m t id) (t.rowsMentioning v)
    { t with rows := t.substituteRows v definition }
  rw [List.map_id'] at hfold
  simp only [rowsMentioning_mapStore, substituteRows_mapStore, goal_mapStore, artificial_mapStore,
    Goal.substitute_mapStore]
  change (do
    let queued ← (t.rowsMentioning v).foldlM queueIfInfeasible
      (mapStore m { t with rows := t.substituteRows v definition })
    pure { queued with
      goal := t.goal.substitute v definition
      artificial := t.artificial.map fun goal => goal.substitute v definition } :
      Except AccessFault (Tableau T α)) = _
  rw [hfold]
  cases (t.rowsMentioning v).foldlM queueIfInfeasible
    { t with rows := t.substituteRows v definition } <;> rfl

/-- A tableau after a pivot in another storage. -/
def mapPivoted (pivoted : Tableau S α × Exchange) : Tableau T α × Exchange :=
  (pivoted.1.mapStore m, pivoted.2)

@[simp] theorem pivot_mapStore :
    (t.mapStore m).pivot v id = mapPivoted m <$> t.pivot v id := by
  unfold pivot
  rw [row_mapStore, liftM_map_answer]
  cases t.row id with
  | error cause => rfl
  | ok row =>
      simp only [Functor.map, Except.map, liftM, monadLift, MonadLift.monadLift, mapError_eq, bind,
        Except.bind]
      rw [Row.basic_mapStore]
      cases row.basic with
      | none => rfl
      | some leaving =>
          simp only
          rw [Row.pivot_mapStore]
          cases row.pivot v leaving with
          | error cause => rfl
          | ok solved =>
              have hset := setRow_mapStore m t id none
              rw [Option.map_none] at hset
              simp only [Functor.map, Except.map]
              rw [hset, define_mapStore]
              cases (t.setRow id none).define (some leaving) none with
              | error fault => rfl
              | ok taken =>
                  simp only [Functor.map, Except.map]
                  rw [substitute_mapStore]
                  cases taken.substitute v solved with
                  | error fault => rfl
                  | ok substituted =>
                      have hrestore := setRow_mapStore m substituted id (some solved)
                      rw [Option.map_some] at hrestore
                      simp only [Functor.map, Except.map]
                      rw [hrestore, Row.basic_mapStore, define_mapStore]
                      cases (substituted.setRow id (some solved)).define solved.basic (some id) <;> rfl

/-! ## Selection rules -/

@[simp] theorem leavingRow_mapStore : (t.mapStore m).leavingRow v = t.leavingRow v := by
  unfold leavingRow
  rw [rowList_mapStore, foldlM_map_left fun best entry => ?_]
  unfold weighLeaving
  simp only [hasRestrictedBasic_mapStore, Row.coefficient_mapStore, Row.constant_mapStore]

@[simp] theorem markerLeavingRow_mapStore :
    (t.mapStore m).markerLeavingRow v = t.markerLeavingRow v := by
  unfold markerLeavingRow
  rw [rowList_mapStore, foldlM_map_left fun found entry => ?_]
  unfold weighMarker
  simp only [Row.coefficient_mapStore, Row.basic_mapStore, Row.constant_mapStore, registry_mapStore]

@[simp] theorem zeroLevelEntering_mapStore :
    (t.mapStore m).zeroLevelEntering (row.mapStore m) = t.zeroLevelEntering row := by
  unfold zeroLevelEntering
  simp only [registry_mapStore, Row.entries_mapStore]

@[simp] theorem repairEntering_mapStore :
    (t.mapStore m).repairEntering (row.mapStore m) = t.repairEntering row := by
  unfold repairEntering
  simp only [Row.constant_mapStore, goal_mapStore, registry_mapStore, Goal.dualEntering_mapStore]

@[simp] theorem objective_mapStore (which : Objective) :
    (t.mapStore m).objective which = t.objective which := by
  cases which <;> rfl

end Tableau

/-! ## Loops -/

section Loops

variable {σ τ : Type}

/-- A step of a loop over other states. -/
def Step.map (f : σ → τ) : Step σ → Step τ
  | .halt state verdict => .halt (f state) verdict
  | .proceed state exchange => .proceed (f state) exchange

/-- A finished loop over other states. -/
def Course.map (f : σ → τ) (course : Course σ) : Course τ :=
  ⟨f course.final, course.exchanges, course.verdict⟩

/-- Loops with corresponding steps take the same course. -/
theorem iterate_map {f : σ → τ} {step : σ → Except Failure (Step σ)}
    {step' : τ → Except Failure (Step τ)} (h : ∀ s, step' (f s) = Step.map f <$> step s)
    (limit : Nat) (s : σ) : iterate step' limit (f s) = Course.map f <$> iterate step limit s := by
  induction limit generalizing s with
  | zero => rfl
  | succ limit ih =>
      rw [iterate_succ, iterate_succ, h]
      cases step s with
      | error failure => rfl
      | ok next =>
          cases next with
          | halt final verdict => rfl
          | proceed next exchange =>
              simp only [Functor.map, Except.map, Step.map, bind, Except.bind]
              rw [ih]
              cases iterate step limit next <;> rfl

end Loops

namespace Tableau

variable (t : Tableau S α) (v : VariableId) (row : Row S α)

theorem primalStep_mapStore (which : Objective) :
    primalStep which (t.mapStore m) = Step.map (mapStore m) <$> primalStep which t := by
  unfold primalStep
  rw [objective_mapStore]
  cases t.objective which with
  | error cause => rfl
  | ok goal =>
      simp only [liftM, monadLift, MonadLift.monadLift, mapError_eq, bind, Except.bind]
      rw [registry_mapStore]
      cases goal.pivotColumn t.registry with
      | error fault => rfl
      | ok column =>
          cases column with
          | none => rfl
          | some entering =>
              simp only
              rw [leavingRow_mapStore]
              cases t.leavingRow entering with
              | error fault => rfl
              | ok limiting =>
                  cases limiting with
                  | none => rfl
                  | some id =>
                      simp only
                      rw [pivot_mapStore]
                      cases t.pivot entering id <;> rfl

@[simp] theorem optimize_mapStore (which : Objective) (limit : Nat) :
    (t.mapStore m).optimize which limit = Course.map (mapStore m) <$> t.optimize which limit :=
  iterate_map (fun t => primalStep_mapStore m t which) limit t

theorem repairStep_mapStore (id : RowId) :
    repairStep (t.mapStore m) id = Step.map (mapStore m) <$> repairStep t id := by
  unfold repairStep
  rw [row?_mapStore]
  cases t.row? id with
  | none => rfl
  | some row =>
      simp only [Option.map_some]
      rw [isInfeasible_mapStore]
      cases t.isInfeasible row with
      | error fault => rfl
      | ok answer =>
          cases answer with
          | false => rfl
          | true =>
              simp only [liftM, monadLift, MonadLift.monadLift, mapError_eq, bind, Except.bind,
                if_true]
              rw [repairEntering_mapStore]
              cases t.repairEntering row with
              | error fault => rfl
              | ok choice =>
                  cases choice with
                  | none => rfl
                  | some entering =>
                      simp only
                      rw [pivot_mapStore]
                      cases t.pivot entering id <;> rfl

theorem dualStep_mapStore :
    dualStep (t.mapStore m) = Step.map (mapStore m) <$> dualStep t := by
  unfold dualStep
  rw [infeasible_mapStore]
  cases t.infeasible.pop with
  | none => rfl
  | some popped => exact repairStep_mapStore m { t with infeasible := popped.2 } popped.1

@[simp] theorem dualOptimize_mapStore (limit : Nat) :
    (t.mapStore m).dualOptimize limit = Course.map (mapStore m) <$> t.dualOptimize limit :=
  iterate_map (dualStep_mapStore m) limit t

/-! ## Lowering -/

@[simp] theorem widthOf_mapStore : (t.mapStore m).widthOf v = t.widthOf v := by
  unfold widthOf
  rw [registry_mapStore]
  cases t.registry.record v with
  | error fault => rfl
  | ok record =>
      simp only [liftM, monadLift, MonadLift.monadLift, mapError_eq, bind, Except.bind]
      cases record.definition with
      | none => rfl
      | some id =>
          simp only
          rw [row_mapStore]
          cases t.row id with
          | error cause => rfl
          | ok row => exact congrArg Except.ok (Row.size_mapStore m row)

@[simp] theorem expectedWidth_mapStore (terms : List (α × VariableId)) :
    (t.mapStore m).expectedWidth terms = t.expectedWidth terms := by
  unfold expectedWidth
  simp only [widthOf_mapStore]

theorem addTerm_mapStore (term : α × VariableId) :
    (t.mapStore m).addTerm (row.mapStore m) term = Row.mapStore m <$> t.addTerm row term := by
  unfold addTerm
  obtain ⟨coefficient, v⟩ := term
  simp only
  cases coefficient == 0 with
  | true => rfl
  | false =>
      simp only [Bool.false_eq_true, if_false]
      rw [registry_mapStore]
      cases t.registry.record v with
      | error fault => rfl
      | ok record =>
          simp only [liftM, monadLift, MonadLift.monadLift, mapError_eq, bind, Except.bind]
          cases record.definition with
          | none => exact congrArg Except.ok (Row.insert_mapStore m row v coefficient)
          | some id =>
              simp only
              rw [row_mapStore]
              cases t.row id with
              | error cause => rfl
              | ok other => exact congrArg Except.ok (Row.addRow_mapStore m row other coefficient)

@[simp] theorem rowOf_mapStore (settings : Settings) (constant : α)
    (terms : List (α × VariableId)) :
    (t.mapStore m).rowOf (m.settings settings) constant terms =
      Row.mapStore m <$> t.rowOf settings constant terms := by
  unfold rowOf
  rw [expectedWidth_mapStore]
  cases t.expectedWidth terms with
  | error failure => rfl
  | ok width =>
      simp only [bind, Except.bind]
      have hfold := foldlM_map (f := Row.mapStore m) (g := fun term => term)
        (fun row term => addTerm_mapStore m t row term) terms
        ⟨none, constant, RowStore.forRow settings width⟩
      rw [List.map_id'] at hfold
      rw [← hfold, ← m.forRow]
      rfl

@[simp] theorem ownSubject_mapStore (vs : List VariableId) :
    (t.mapStore m).ownSubject (row.mapStore m) vs = t.ownSubject row vs := by
  induction vs with
  | nil => rfl
  | cons v vs ih =>
      unfold ownSubject
      rw [registry_mapStore, Row.coefficient_mapStore, ih]

@[simp] theorem onlyPinned_mapStore (entries : List (VariableId × α)) :
    (t.mapStore m).onlyPinned entries = t.onlyPinned entries := by
  induction entries with
  | nil => rfl
  | cons entry entries ih =>
      unfold onlyPinned
      rw [registry_mapStore, ih]

@[simp] theorem chooseSubject_mapStore (tag : Tag α) :
    (t.mapStore m).chooseSubject (row.mapStore m) tag = t.chooseSubject row tag := by
  unfold chooseSubject
  simp only [registry_mapStore, Row.entries_mapStore, ownSubject_mapStore, onlyPinned_mapStore,
    Row.constant_mapStore]
  rfl

end Tableau

end LexSimplex
