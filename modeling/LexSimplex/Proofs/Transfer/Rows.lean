import LexSimplex.Tableau.Optimize
import LexSimplex.Tableau.Lowering

/-!
# Changing the storage of rows

A `StoreMap` takes one row storage to another and commutes with every operation of `RowStore`.
Everything built on rows then commutes with it as well.  This module follows rows, objectives and
tableaus: a function of a tableau is applied after the change of storage with the same result as
before it.  Nothing is assumed about the scalars.
-/

namespace LexSimplex

/-- A map between row storages that commutes with their operations.  The storages may belong to
solvers with different settings. -/
structure StoreMap (S T α : Type) [Scalar α] [RowStore S α] [RowStore T α] where
  toFun : S → T
  settings : Settings → Settings
  forRow : ∀ given width,
    toFun (RowStore.forRow given width) = RowStore.forRow (settings given) width
  find? : ∀ s v, RowStore.find? (toFun s) v = RowStore.find? s v
  put : ∀ s v x, RowStore.put (toFun s) v x = toFun (RowStore.put s v x)
  erase : ∀ s v, RowStore.erase (toFun s) v = toFun (RowStore.erase s v)
  toList : ∀ s, RowStore.toList (toFun s) = RowStore.toList s
  size : ∀ s, RowStore.size (toFun s) = RowStore.size s
  divideBy : ∀ s x, RowStore.divideBy (toFun s) x = toFun (RowStore.divideBy s x)
  negate : ∀ s, RowStore.negate (toFun s) = toFun (RowStore.negate s)

variable {S T α : Type} [Scalar α] [RowStore S α] [RowStore T α] (m : StoreMap S T α)

section Lifting

variable {β γ : Type}

@[simp] theorem liftM_map_access (f : β → γ) (x : Except AccessFault β) :
    (liftM (f <$> x) : Except Failure γ) = f <$> (liftM x : Except Failure β) := by
  cases x <;> rfl

@[simp] theorem liftM_map_answer (f : β → γ) (x : Except SolverError β) :
    (liftM (f <$> x) : Except Failure γ) = f <$> (liftM x : Except Failure β) := by
  cases x <;> rfl

end Lifting

/-! ## Rows -/

namespace Row

/-- A row in another storage. -/
def mapStore (row : Row S α) : Row T α := ⟨row.basic, row.constant, m.toFun row.terms⟩

variable (row other : Row S α) (v : VariableId)

@[simp] theorem basic_mapStore : (row.mapStore m).basic = row.basic := rfl

@[simp] theorem constant_mapStore : (row.mapStore m).constant = row.constant := rfl

@[simp] theorem coefficient_mapStore : (row.mapStore m).coefficient v = row.coefficient v := by
  unfold coefficient RowStore.get mapStore
  rw [m.find?]

@[simp] theorem mentions_mapStore : (row.mapStore m).mentions v = row.mentions v := by
  unfold mentions mapStore
  rw [m.find?]

@[simp] theorem size_mapStore : (row.mapStore m).size = row.size := m.size _

@[simp] theorem isConstant_mapStore : (row.mapStore m).isConstant = row.isConstant := by
  unfold isConstant RowStore.isEmpty mapStore
  rw [m.size]

@[simp] theorem entries_mapStore : (row.mapStore m).entries = row.entries := m.toList _

@[simp] theorem contains_mapStore :
    RowStore.contains (row.mapStore m).terms v = RowStore.contains row.terms v := by
  unfold RowStore.contains RowStore.get mapStore
  rw [m.find?]

theorem assignBasic_mapStore :
    (row.mapStore m).assignBasic v = mapStore m <$> row.assignBasic v := by
  unfold assignBasic
  rw [contains_mapStore]
  split <;> rfl

@[simp] theorem insert_mapStore (x : α) :
    (row.mapStore m).insert v x = (row.insert v x).mapStore m := by
  unfold insert RowStore.add RowStore.get mapStore
  simp only [m.find?, m.put]

@[simp] theorem erase_mapStore : (row.mapStore m).erase v = (row.erase v).mapStore m := by
  unfold erase mapStore
  rw [m.erase]

@[simp] theorem addRow_mapStore (factor : α) :
    (row.mapStore m).addRow (other.mapStore m) factor = (row.addRow other factor).mapStore m := by
  have hfold : ∀ (entries : List (VariableId × α)) (row : Row S α),
      entries.foldl (fun row entry => row.insert entry.1 (entry.2 * factor)) (row.mapStore m) =
        (entries.foldl (fun row entry => row.insert entry.1 (entry.2 * factor)) row).mapStore m := by
    intro entries
    induction entries with
    | nil => exact fun row => rfl
    | cons entry rest ih =>
        intro row
        rw [List.foldl_cons, List.foldl_cons, insert_mapStore, ih]
  unfold addRow
  rw [entries_mapStore]
  exact hfold other.entries { row with constant := row.constant + other.constant * factor }

@[simp] theorem negate_mapStore : (row.mapStore m).negate = row.negate.mapStore m := by
  unfold negate mapStore
  rw [m.negate]

@[simp] theorem solveFor_mapStore :
    (row.mapStore m).solveFor v = mapStore m <$> row.solveFor v := by
  unfold solveFor mapStore
  rw [m.find?]
  cases RowStore.find? row.terms v with
  | none => rfl
  | some coefficient =>
      cases row.basic <;> simp only [m.erase, m.put, m.divideBy] <;> rfl

@[simp] theorem pivot_mapStore (leaving : VariableId) :
    (row.mapStore m).pivot v leaving = mapStore m <$> row.pivot v leaving := by
  unfold pivot
  rw [basic_mapStore, solveFor_mapStore]
  split <;> rfl

@[simp] theorem substitute_mapStore :
    (row.mapStore m).substitute v (other.mapStore m) = (row.substitute v other).mapStore m := by
  unfold substitute
  have hfound : RowStore.find? (row.mapStore m).terms v = RowStore.find? row.terms v :=
    m.find? _ _
  rw [hfound]
  cases RowStore.find? row.terms v with
  | none => rfl
  | some coefficient =>
      simp only
      rw [erase_mapStore, addRow_mapStore]

end Row

/-! ## Objectives -/

namespace Goal

variable (g : Goal α) (row : Row S α)

@[simp] theorem insertRow_mapStore (vector : StrengthVector α) (factor : α) :
    g.insertRow (row.mapStore m) vector factor = g.insertRow row vector factor := by
  unfold insertRow
  rw [Row.entries_mapStore, Row.constant_mapStore]

@[simp] theorem ofRow_mapStore (strength : Strength) :
    ofRow (row.mapStore m) strength = ofRow row strength := insertRow_mapStore m _ _ _ _

@[simp] theorem substitute_mapStore (v : VariableId) :
    g.substitute v (row.mapStore m) = g.substitute v row := by
  unfold substitute
  cases g.coefficient? v with
  | none => rfl
  | some vector => exact insertRow_mapStore m _ _ _ _

@[simp] theorem dualEntering_mapStore (registry : Registry α) :
    g.dualEntering (row.mapStore m) registry = g.dualEntering row registry := by
  unfold dualEntering
  rw [Row.entries_mapStore]

end Goal

/-! ## Tableaus -/

namespace Tableau

/-- A tableau with its rows in another storage. -/
def mapStore (t : Tableau S α) : Tableau T α where
  registry := t.registry
  rows := t.rows.map fun slot => slot.map (Row.mapStore m)
  freeRows := t.freeRows
  goal := t.goal
  artificial := t.artificial
  infeasible := t.infeasible

variable (t : Tableau S α) (id : RowId) (v : VariableId) (row : Row S α)

@[simp] theorem registry_mapStore : (t.mapStore m).registry = t.registry := rfl

@[simp] theorem freeRows_mapStore : (t.mapStore m).freeRows = t.freeRows := rfl

@[simp] theorem goal_mapStore : (t.mapStore m).goal = t.goal := rfl

@[simp] theorem artificial_mapStore : (t.mapStore m).artificial = t.artificial := rfl

@[simp] theorem infeasible_mapStore : (t.mapStore m).infeasible = t.infeasible := rfl

@[simp] theorem start_mapStore (session : SessionId) :
    (start session : Tableau S α).mapStore m = start session := by
  unfold mapStore start
  simp

@[simp] theorem row?_mapStore : (t.mapStore m).row? id = (t.row? id).map (Row.mapStore m) := by
  unfold row? mapStore
  simp only [Array.getElem?_map]
  cases t.rows[id.index]? <;> rfl

@[simp] theorem row_mapStore : (t.mapStore m).row id = Row.mapStore m <$> t.row id := by
  unfold Tableau.row
  rw [row?_mapStore]
  cases t.row? id <;> rfl

@[simp] theorem rowList_mapStore :
    (t.mapStore m).rowList = t.rowList.map fun entry => (entry.1, entry.2.mapStore m) := by
  unfold rowList mapStore
  rw [Array.toList_map, List.zipIdx_map, List.filterMap_map, List.map_filterMap]
  refine congrArg (fun f => List.filterMap f t.rows.toList.zipIdx) (funext fun entry => ?_)
  simp [Function.comp_def]

@[simp] theorem rowCount_mapStore : (t.mapStore m).rowCount = t.rowCount := by
  simp [rowCount, mapStore]

@[simp] theorem valueBy_mapStore (definition : Option RowId) :
    (t.mapStore m).valueBy definition = t.valueBy definition := by
  unfold valueBy
  cases definition with
  | none => rfl
  | some id =>
      simp only [Option.bind_some, row?_mapStore]
      cases t.row? id <;> rfl

@[simp] theorem value_mapStore : (t.mapStore m).value v = t.value v := by
  unfold value
  rw [valueBy_mapStore, registry_mapStore]

@[simp] theorem storeValues_mapStore :
    (t.mapStore m).storeValues = t.storeValues.mapStore m := by
  unfold storeValues
  simp only [valueBy_mapStore, registry_mapStore]
  rfl

@[simp] theorem define_mapStore (v : Option VariableId) (definition : Option RowId) :
    (t.mapStore m).define v definition = mapStore m <$> t.define v definition := by
  unfold define
  cases v with
  | none => rfl
  | some v =>
      simp only [registry_mapStore]
      cases t.registry.setDefinition v definition <;> rfl

@[simp] theorem setRow_mapStore (slot : Option (Row S α)) :
    (t.mapStore m).setRow id (slot.map (Row.mapStore m)) = (t.setRow id slot).mapStore m := by
  unfold setRow mapStore
  simp only [Array.map_setIfInBounds]

end Tableau

end LexSimplex
