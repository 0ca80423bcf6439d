import LexSimplex.Proofs.Transfer.Tableaus
import LexSimplex.Solver.Calls

/-!
# Solvers in another session

The number of a session occurs in the registry and in all handles.  Nothing but the check of a handle
looks at it.  So a solver whose session is renamed makes the same steps: a tableau is rewritten in
the same way (`Tableau.pivot_mapSession` and the other equations), and a call on the renamed solver
ends like the call on the solver itself, provided that the renaming of the call tells the handles of
the current session from the others (`Call.perform_inStep`).
-/

namespace LexSimplex

/-! ## Renaming sessions -/

section Renaming

variable {α : Type} (f : SessionId → SessionId)

def Variable.mapSession (v : Variable) : Variable := { v with session := f v.session }

def ConstraintHandle.mapSession (handle : ConstraintHandle) : ConstraintHandle :=
  { handle with session := f handle.session }

def Expression.mapSession (e : Expression α) : Expression α :=
  { e with terms := e.terms.map fun term => (term.1, term.2.mapSession f) }

def Constraint.mapSession (c : Constraint α) : Constraint α :=
  { c with expression := c.expression.mapSession f }

def Tag.mapSession (tag : Tag α) : Tag α := { tag with constraint := tag.constraint.mapSession f }

/-- Rename the sessions of the handles in an event. -/
def Event.mapSession : Event α → Event α
  | unsatisfiable constraint => unsatisfiable (constraint.mapSession f)
  | contradictory constraint => contradictory (constraint.mapSession f)
  | added number constraint => added number (constraint.mapSession f)
  | removed handle => removed (handle.mapSession f)
  | event => event

/-- Rename the session of the handle in an inconsistency. -/
def Inconsistency.mapSession : Inconsistency → Inconsistency
  | markerInNoRow marker constraint => markerInNoRow marker (constraint.mapSession f)
  | cause => cause

def SolverError.mapSession : SolverError → SolverError
  | inconsistent cause => inconsistent (cause.mapSession f)
  | cause => cause

/-- Rename the sessions of the handles in an answer. -/
def Reply.mapSession : Reply α → Reply α
  | declared v => declared (v.mapSession f)
  | added handle => added (handle.mapSession f)
  | errors vs => errors (vs.map fun v => v.mapSession f)
  | reply => reply

def Registry.mapSession (r : Registry α) : Registry α := { r with session := f r.session }

variable {S : Type}

def Tableau.mapSession (t : Tableau S α) : Tableau S α :=
  { t with registry := t.registry.mapSession f }

/-- Rename the session of a solver, and those of all handles it holds. -/
def Solver.mapSession (s : Solver S α) : Solver S α :=
  { s with
    tableau := s.tableau.mapSession f
    constraints := s.constraints.map (Tag.mapSession f)
    journal := s.journal.map (Event.mapSession f) }

end Renaming

/-! ## Registries -/

namespace Registry

variable {α : Type} (f : SessionId → SessionId) (r : Registry α)

theorem setDefinition_mapSession (id : VariableId) (definition : Option RowId) :
    (r.mapSession f).setDefinition id definition =
      mapSession f <$> r.setDefinition id definition := by
  show (r.record id >>= fun record => pure ((r.mapSession f).setRecord id { record with definition })) =
    mapSession f <$> (r.record id >>= fun record => pure (r.setRecord id { record with definition }))
  cases r.record id <;> rfl

theorem allocate_mapSession (record : Record α) :
    (r.mapSession f).allocate record =
      ((r.allocate record).1.mapSession f, (r.allocate record).2.mapSession f) := by
  obtain ⟨session, slots, free, live⟩ := r
  cases free <;> rfl

theorem releaseId_mapSession (id : VariableId) :
    (r.mapSession f).releaseId id = (r.releaseId id).mapSession f := by
  have hget : (r.mapSession f).get? id = r.get? id := rfl
  unfold releaseId
  rw [hget]
  cases r.get? id <;> rfl

theorem handle?_mapSession (id : VariableId) :
    (r.mapSession f).handle? id = (r.handle? id).map (Variable.mapSession f) := by
  unfold handle?
  show (r.slots[id.index]?.bind fun slot => slot.record.bind fun _ => _) =
    Option.map _ (r.slots[id.index]?.bind fun slot => slot.record.bind fun _ => _)
  cases r.slots[id.index]? with
  | none => rfl
  | some slot =>
      show (slot.record.bind fun _ => _) = Option.map _ (slot.record.bind fun _ => _)
      cases slot.record <;> rfl

theorem firstOfKind_mapSession {β : Type} (test : VariableKind → Bool)
    (entries : List (VariableId × β)) :
    (r.mapSession f).firstOfKind test entries = r.firstOfKind test entries := by
  induction entries with
  | nil => rfl
  | cons entry entries ih =>
      unfold firstOfKind
      rw [ih]
      rfl

/-- A handle is checked alike if its renaming tells the current session from all others. -/
theorem resolve_mapSession {g : SessionId → SessionId}
    (hg : ∀ τ, g τ = f r.session ↔ τ = r.session) (v : Variable) :
    (r.mapSession f).resolve (v.mapSession g) = r.resolve v := by
  unfold resolve
  show (if g v.session ≠ f r.session then _ else _) = _
  simp only [ne_eq, hg]
  rfl

end Registry

/-! ## Tableaus -/

namespace Tableau

variable {S α : Type} (f : SessionId → SessionId) (t : Tableau S α)

theorem define_mapSession (v : Option VariableId) (definition : Option RowId) :
    (t.mapSession f).define v definition = mapSession f <$> t.define v definition := by
  cases v with
  | none => rfl
  | some id =>
      show ((t.registry.mapSession f).setDefinition id definition >>= _) = _
      rw [Registry.setDefinition_mapSession]
      show _ = mapSession f <$> (t.registry.setDefinition id definition >>= _)
      cases t.registry.setDefinition id definition <;> rfl

theorem insertRow_mapSession (row : Row S α) :
    (t.mapSession f).insertRow row = mapSession f <$> t.insertRow row := by
  obtain ⟨registry, rows, holes, goal, artificial, infeasible⟩ := t
  cases holes with
  | nil =>
      exact define_mapSession f ⟨registry, rows.push (some row), [], goal, artificial, infeasible⟩
        row.basic (some ⟨rows.size⟩)
  | cons hole rest =>
      show (if hole.index < rows.size then _ else _) =
        mapSession f <$> (if hole.index < rows.size then _ else _)
      split
      · exact define_mapSession f ⟨registry, rows.setIfInBounds hole.index (some row), rest, goal,
          artificial, infeasible⟩ row.basic (some hole)
      · rfl

theorem dropRow_mapSession (id : RowId) :
    (t.mapSession f).dropRow id = Prod.map (fun row => row) (mapSession f) <$> t.dropRow id := by
  unfold dropRow
  show (liftM (t.row id) >>= _) = _
  cases t.row id with
  | error cause => rfl
  | ok row =>
      have hdefine := define_mapSession f { t.setRow id none with freeRows := id :: t.freeRows }
        row.basic none
      show (liftM ((mapSession f { t.setRow id none with
        freeRows := id :: t.freeRows }).define row.basic none) >>= _ : Except Failure _) =
          Prod.map _ _ <$> (liftM (({ t.setRow id none with
            freeRows := id :: t.freeRows } : Tableau S α).define row.basic none) >>= _)
      rw [hdefine]
      cases ({ t.setRow id none with
        freeRows := id :: t.freeRows } : Tableau S α).define row.basic none <;> rfl

theorem onlyPinned_mapSession (entries : List (VariableId × α)) :
    (t.mapSession f).onlyPinned entries = t.onlyPinned entries := by
  induction entries with
  | nil => rfl
  | cons entry entries ih =>
      unfold onlyPinned
      rw [ih]
      rfl

theorem zeroLevelEntering_mapSession [RowStore S α] (row : Row S α) :
    (t.mapSession f).zeroLevelEntering row = t.zeroLevelEntering row := by
  unfold zeroLevelEntering
  exact congrArg (· >>= _) (Registry.firstOfKind_mapSession f t.registry _ _)

variable [Scalar α]

theorem queueIfInfeasible_mapSession (id : RowId) :
    (t.mapSession f).queueIfInfeasible id = mapSession f <$> t.queueIfInfeasible id := by
  have hrow : (t.mapSession f).row? id = t.row? id := rfl
  unfold queueIfInfeasible
  rw [hrow]
  cases t.row? id with
  | none => rfl
  | some row =>
      show (t.isInfeasible row >>= _) = mapSession f <$> (t.isInfeasible row >>= _)
      cases t.isInfeasible row with
      | error fault => rfl
      | ok answer => cases answer <;> rfl

variable [RowStore S α]

theorem substitute_mapSession (v : VariableId) (definition : Row S α) :
    (t.mapSession f).substitute v definition = mapSession f <$> t.substitute v definition := by
  unfold substitute
  have hfold := foldlM_map (f := mapSession f) (g := fun id => id)
    (fun t id => queueIfInfeasible_mapSession f t id) (t.rowsMentioning v)
    { t with rows := t.substituteRows v definition }
  rw [List.map_id'] at hfold
  show ((t.rowsMentioning v).foldlM queueIfInfeasible
    (mapSession f { t with rows := t.substituteRows v definition }) >>= _) = _
  rw [hfold]
  show _ = mapSession f <$> ((t.rowsMentioning v).foldlM queueIfInfeasible
    { t with rows := t.substituteRows v definition } >>= _)
  cases (t.rowsMentioning v).foldlM queueIfInfeasible
    { t with rows := t.substituteRows v definition } <;> rfl

theorem pivot_mapSession (v : VariableId) (id : RowId) :
    (t.mapSession f).pivot v id = Prod.map (mapSession f) (fun exchange => exchange) <$>
      t.pivot v id := by
  unfold pivot
  show (liftM (t.row id) >>= _) = Prod.map _ _ <$> (liftM (t.row id) >>= _)
  cases t.row id with
  | error cause => rfl
  | ok row =>
      simp only [liftM, monadLift, MonadLift.monadLift, mapError_eq, bind, Except.bind]
      cases row.basic with
      | none => rfl
      | some leaving =>
          simp only
          cases row.pivot v leaving with
          | error cause => rfl
          | ok solved =>
              simp only
              rw [show (t.mapSession f).setRow id none = (t.setRow id none).mapSession f from rfl,
                define_mapSession]
              cases (t.setRow id none).define (some leaving) none with
              | error fault => rfl
              | ok taken =>
                  simp only [Functor.map, Except.map]
                  rw [substitute_mapSession]
                  cases taken.substitute v solved with
                  | error fault => rfl
                  | ok substituted =>
                      simp only [Functor.map, Except.map]
                      rw [show (substituted.mapSession f).setRow id (some solved) =
                        (substituted.setRow id (some solved)).mapSession f from rfl,
                        define_mapSession]
                      cases (substituted.setRow id (some solved)).define solved.basic (some id) <;>
                        rfl

theorem primalStep_mapSession (which : Objective) :
    primalStep which (t.mapSession f) = Step.map (mapSession f) <$> primalStep which t := by
  unfold primalStep
  rw [show (t.mapSession f).objective which = t.objective which by cases which <;> rfl]
  cases t.objective which with
  | error cause => rfl
  | ok goal =>
      simp only [liftM, monadLift, MonadLift.monadLift, mapError_eq, bind, Except.bind]
      rw [show goal.pivotColumn (t.mapSession f).registry = goal.pivotColumn t.registry from rfl]
      cases goal.pivotColumn t.registry with
      | error fault => rfl
      | ok column =>
          cases column with
          | none => rfl
          | some entering =>
              simp only
              rw [show (t.mapSession f).leavingRow entering = t.leavingRow entering from rfl]
              cases t.leavingRow entering with
              | error fault => rfl
              | ok limiting =>
                  cases limiting with
                  | none => rfl
                  | some id =>
                      simp only
                      rw [pivot_mapSession]
                      cases t.pivot entering id <;> rfl

theorem ownSubject_mapSession (row : Row S α) (vs : List VariableId) :
    (t.mapSession f).ownSubject row vs = t.ownSubject row vs := by
  induction vs with
  | nil => rfl
  | cons v vs ih =>
      unfold ownSubject
      rw [ih]
      rfl

theorem chooseSubject_mapSession (row : Row S α) (tag : Tag α) :
    (t.mapSession f).chooseSubject row (tag.mapSession f) = t.chooseSubject row tag := by
  unfold chooseSubject
  rw [show (t.mapSession f).registry = t.registry.mapSession f from rfl,
    Registry.firstOfKind_mapSession, ownSubject_mapSession, onlyPinned_mapSession]
  rfl

theorem optimize_mapSession (which : Objective) (limit : Nat) :
    (t.mapSession f).optimize which limit = Course.map (mapSession f) <$> t.optimize which limit :=
  iterate_map (fun t => primalStep_mapSession f t which) limit t

theorem repairStep_mapSession (id : RowId) :
    repairStep (t.mapSession f) id = Step.map (mapSession f) <$> repairStep t id := by
  unfold repairStep
  rw [show (t.mapSession f).row? id = t.row? id from rfl]
  cases t.row? id with
  | none => rfl
  | some row =>
      simp only
      rw [show (t.mapSession f).isInfeasible row = t.isInfeasible row from rfl]
      cases t.isInfeasible row with
      | error fault => rfl
      | ok answer =>
          cases answer with
          | false => rfl
          | true =>
              simp only [liftM, monadLift, MonadLift.monadLift, mapError_eq, bind, Except.bind,
                if_true]
              rw [show (t.mapSession f).repairEntering row = t.repairEntering row from rfl]
              cases t.repairEntering row with
              | error fault => rfl
              | ok choice =>
                  cases choice with
                  | none => rfl
                  | some entering =>
                      simp only
                      rw [pivot_mapSession]
                      cases t.pivot entering id <;> rfl

theorem dualOptimize_mapSession (limit : Nat) :
    (t.mapSession f).dualOptimize limit = Course.map (mapSession f) <$> t.dualOptimize limit := by
  refine iterate_map (fun t => ?_) limit t
  unfold dualStep
  rw [show (t.mapSession f).infeasible = t.infeasible from rfl]
  cases t.infeasible.pop with
  | none => rfl
  | some popped => exact repairStep_mapSession f { t with infeasible := popped.2 } popped.1

end Tableau

end LexSimplex
