import LexSimplex.Proofs.Loops

/-!
# The parts of a call

A property of computations that passes through sequencing holds of every call that only looks at the
solver (`SolverM.Sequential`).  The other calls do more before they optimise: changes of the solver,
substitutions, rows that are added and dropped, and the loop of phase one.  A property that holds of
these blocks as well and passes through handled failures holds of every part that is made of them
(`SolverM.Closed`).  The parts are traversed here once, for all such properties.

Nothing is assumed about the scalars or the storage of rows.
-/

namespace LexSimplex.SolverM

variable {S α : Type}

/-- A property of computations that passes through sequencing. -/
structure Sequential (P : (β : Type) → SolverM S α β → Prop) : Prop where
  pure : ∀ {β : Type} (x : β), P β (pure x)
  throw : ∀ {β : Type} (failure : Failure), P β (throw failure)
  get : P (Solver S α) get
  bind : ∀ {β γ : Type} {first : SolverM S α γ} {rest : γ → SolverM S α β},
    P γ first → (∀ x, P β (rest x)) → P β (first >>= rest)

/-- A property of computations that passes from the building blocks of calls to what is made of
them. -/
structure Closed [Scalar α] [RowStore S α] (P : (β : Type) → SolverM S α β → Prop) : Prop
    extends Sequential P where
  /-- Only refusals are taken up; other failures are passed on. -/
  tryCatch : ∀ {β : Type} {call : SolverM S α β} {handler : Failure → SolverM S α β},
    P β call → (∀ cause, P β (handler (.error cause))) →
    (∀ failure, (∀ cause, failure ≠ .error cause) → handler failure = MonadExcept.throw failure) →
    P β (tryCatch call handler)
  /-- A change that touches neither the rows to be repaired nor the count of their pivots, and that
  leaves the state as it is or goes back to building. -/
  modify : ∀ {f : Solver S α → Solver S α},
    (∀ s, (f s).tableau.infeasible = s.tableau.infeasible) →
    (∀ s, (f s).counters.dualPivots = s.counters.dualPivots) →
    (∀ s, (f s).state = s.state ∨ (f s).state = .building) → P Unit (modify f)
  /-- The objective of phase one is dropped. -/
  leavePhaseOne : ∀ {β : Type} {rest : Tableau S α → SolverM S α β}, (∀ t, P β (rest t)) →
    P β (do
      let t ← tableau
      setTableau { t with artificial := none }
      rest t)
  /-- The loop of phase one, after its row and its objective were added. -/
  phaseOne : ∀ (row : Row S α) (limit : Nat), P Outcome (do
    update fun t => { t with artificial := some (.ofRow row .equality) }.insertRow row
    optimize .artificial limit)
  adopt : ∀ (subject : VariableId) (row : Row S α), P Unit (adopt subject row)
  eliminate : ∀ (v : VariableId) (row : Row S α), P Unit (update fun t => t.substitute v row)
  dropRow : ∀ id : RowId, P (Row S α) (dropRow id)

/-! ## Looking at a solver -/

namespace Sequential

variable {P : (β : Type) → SolverM S α β → Prop} (h : Sequential P) {β : Type}
include h

theorem lift (x : Except Failure β) : P β (liftM x) := by
  cases x with
  | ok value => exact h.pure value
  | error failure => exact h.throw failure

theorem lift_access (x : Except AccessFault β) : P β (liftM x) := by
  cases x with
  | ok value => exact h.pure value
  | error fault => exact h.throw _

theorem lift_answer (x : Except SolverError β) : P β (liftM x) := by
  cases x with
  | ok value => exact h.pure value
  | error cause => exact h.throw _

theorem tableau : P (Tableau S α) tableau := h.bind h.get fun _ => h.pure _

theorem forM {ι : Type} {f : ι → SolverM S α Unit} (hf : ∀ i, P Unit (f i)) (xs : List ι) :
    P Unit (xs.forM f) := by
  induction xs with
  | nil => exact h.pure ()
  | cons x xs ih => exact h.bind (hf x) fun _ => ih

theorem filterM {ι : Type} {p : ι → SolverM S α Bool} (hp : ∀ i, P Bool (p i)) (xs : List ι) :
    P (List ι) (xs.filterM p) := by
  have haux : ∀ kept : List ι, P (List ι) (List.filterAuxM p xs kept) := by
    induction xs with
    | nil => exact fun kept => h.pure kept
    | cons x xs ih => exact fun kept => h.bind (hp x) fun _ => ih _
  exact h.bind (haux []) fun _ => h.pure _

theorem valueOf [Scalar α] [RowStore S α] (v : Variable) : P α (valueOf v) :=
  h.bind h.tableau fun _ => h.bind (h.lift_answer _) fun _ => h.pure _

theorem errorVariables (handle : ConstraintHandle) :
    P (List Variable) (errorVariables handle) := by
  refine h.bind h.get fun s => h.bind (h.lift_answer _) fun tag => ?_
  refine h.bind (h.filterM (fun v => ?_) tag.own) fun _ => h.pure _
  exact h.bind (h.lift_access _) fun _ => h.pure _

theorem strengthOf (handle : ConstraintHandle) : P (Option Strength) (strengthOf handle) :=
  h.bind h.get fun _ => h.bind (h.lift_answer _) fun _ => h.pure _

end Sequential

namespace Closed

variable [Scalar α] [RowStore S α] {P : (β : Type) → SolverM S α β → Prop} (h : Closed P)
  {β : Type}
include h

/-! ## Changes -/

theorem report (events : List (Event α)) : P Unit (report events) :=
  h.modify (fun _ => rfl) (fun _ => rfl) fun _ => Or.inl rfl

theorem enterBuilding : P Unit (enter .building) :=
  h.modify (fun _ => rfl) (fun _ => rfl) fun _ => Or.inr rfl

theorem count {change : Counters → Counters}
    (hchange : ∀ counters, (change counters).dualPivots = counters.dualPivots) :
    P Unit (count change) :=
  h.modify (fun _ => rfl) (fun s => hchange s.counters) fun _ => Or.inl rfl

theorem modifyGoal (change : Goal α → Goal α) : P Unit (modifyGoal change) :=
  h.modify (fun _ => rfl) (fun _ => rfl) fun _ => Or.inl rfl

theorem setRegistry (registry : Registry α) : P Unit (setRegistry registry) :=
  h.modify (fun _ => rfl) (fun _ => rfl) fun _ => Or.inl rfl

theorem releaseId (id : VariableId) : P Unit (releaseId id) :=
  h.bind h.tableau fun _ => h.bind (h.lift_access _) fun _ => h.setRegistry _

theorem create (name : String) (kind : VariableKind) : P Variable (create name kind) :=
  h.bind h.tableau fun _ => h.bind (h.lift_access _) fun _ => h.bind (h.setRegistry _) fun _ =>
    h.bind (h.report _) fun _ => h.pure _

theorem createError (name : String) (strength : Strength) :
    P Variable (createError name strength) :=
  h.bind h.tableau fun _ => h.bind (h.lift_access _) fun _ => h.bind (h.setRegistry _) fun _ =>
    h.bind (h.report _) fun _ => h.pure _

/-! ## Adding a constraint -/

theorem markInequality (number : ConstraintNumber) (c : Constraint α) (row : Row S α) :
    P (Row S α × Tag α) (markInequality number c row) := by
  refine h.bind (h.create _ _) fun slack => ?_
  cases c.strength with
  | none => exact h.pure _
  | some strength =>
      exact h.bind (h.createError _ _) fun _ => h.bind (h.modifyGoal _) fun _ => h.pure _

theorem markEquation (number : ConstraintNumber) (c : Constraint α) (row : Row S α) :
    P (Row S α × Tag α) (markEquation number c row) := by
  unfold SolverM.markEquation
  cases c.strength with
  | none => exact h.bind (h.create _ _) fun _ => h.pure _
  | some strength =>
      exact h.bind (h.createError _ _) fun _ => h.bind (h.createError _ _) fun _ =>
        h.bind (h.modifyGoal _) fun _ => h.pure _

theorem lower (number : ConstraintNumber) (c : Constraint α) (terms : List (α × VariableId)) :
    P (Row S α × Tag α) (lower number c terms) := by
  refine h.bind h.get fun s => h.bind (h.lift _) fun row => ?_
  cases c.relation with
  | equal => exact h.bind (h.markEquation number c row) fun _ => h.pure _
  | lessOrEqual | greaterOrEqual =>
      exact h.bind (h.markInequality number c row) fun _ => h.pure _

theorem enlist (number : ConstraintNumber) (tag : Tag α) : P Unit (enlist number tag) := by
  unfold SolverM.enlist
  split
  · exact h.throw _
  · exact h.modify (fun _ => rfl) (fun _ => rfl) fun _ => Or.inl rfl

theorem discard (tag : Tag α) : P Unit (discard tag) :=
  h.forM (fun _ => h.bind (h.modifyGoal _) fun _ => h.releaseId _) tag.own

theorem reject (event : Event α) : P β (reject event) :=
  h.bind (h.count fun _ => rfl) fun _ => h.bind (h.report _) fun _ => h.throw _

theorem forgetArtificial (artificial : VariableId) : P Unit (forgetArtificial artificial) :=
  h.bind (h.modify (fun _ => rfl) (fun _ => rfl) fun _ => Or.inl rfl) fun _ => h.releaseId _

theorem replaceArtificial (artificial : VariableId) (row : Row S α) :
    P Unit (replaceArtificial artificial row) := by
  unfold SolverM.replaceArtificial
  split
  · exact h.pure ()
  · refine h.bind h.tableau fun t => h.bind (h.lift_access _) fun choice => ?_
    cases choice with
    | none => exact h.throw _
    | some entering => exact h.bind (h.lift_answer _) fun _ => h.adopt _ _

theorem insertThroughArtificial (row : Row S α) (limit : Nat) :
    P Unit (insertThroughArtificial row limit) := by
  refine h.bind (h.create _ _) fun artificial => h.bind (h.lift_access _) fun row => ?_
  rw [← bind_assoc]
  refine h.bind (h.phaseOne _ limit) fun _ => h.leavePhaseOne fun t => ?_
  refine h.bind (h.lift_access _) fun record => ?_
  cases record.definition with
  | none => exact h.forgetArtificial _
  | some id =>
      refine h.bind (h.dropRow id) fun dropped =>
        iteInduction (motive := P Unit) (fun _ => ?_) fun _ => ?_
      · exact h.bind (h.replaceArtificial _ _) fun _ => h.forgetArtificial _
      · exact h.bind (h.releaseId _) fun _ => h.throw _

theorem enterBasis (row : Row S α) (tag : Tag α) (limit : Nat) :
    P Unit (enterBasis row tag limit) := by
  refine h.bind h.tableau fun t => h.bind (h.lift_access _) fun subject => ?_
  cases subject with
  | «variable» entering => exact h.bind (h.lift_answer _) fun _ => h.adopt _ _
  | contradiction => exact h.bind (h.discard tag) fun _ => h.reject _
  | artificial =>
      refine h.bind (h.count fun _ => rfl) fun _ =>
        h.tryCatch (h.insertThroughArtificial row limit) (fun cause => ?_) fun failure hother => ?_
      · split
        · exact h.bind (h.discard tag) fun _ => h.reject _
        · exact h.bind (h.discard tag) fun _ => h.throw _
        · exact h.throw _
      · split
        · exact absurd rfl (hother _)
        · exact absurd rfl (hother _)
        · rfl

/-- All that is done to add a constraint before the goal is optimised. -/
theorem accept (c : Constraint α) (limit : Nat) : P ConstraintNumber (accept c limit) := by
  refine h.bind h.tableau fun t => h.bind (h.lift_answer _) fun terms => ?_
  refine h.bind h.enterBuilding fun _ => h.bind h.get fun s => ?_
  refine h.bind (h.lower s.nextConstraint c terms) fun lowered => ?_
  refine h.bind (h.enterBasis lowered.1 lowered.2 limit) fun _ => ?_
  refine h.bind (h.enlist s.nextConstraint lowered.2) fun _ => ?_
  exact h.bind (h.count fun _ => rfl) fun _ => h.bind (h.report _) fun _ => h.pure _

/-! ## Removing a constraint -/

theorem removePenalty (v : VariableId) : P Unit (removePenalty v) := by
  refine h.bind h.tableau fun t => h.bind (h.lift_access _) fun record => ?_
  cases record.strength with
  | none => exact h.pure ()
  | some vector =>
      cases record.definition with
      | none => exact h.modifyGoal _
      | some id => exact h.bind (h.lift_answer _) fun _ => h.modifyGoal _

theorem dropMarker (handle : ConstraintHandle) (marker : VariableId) :
    P Unit (dropMarker handle marker) := by
  refine h.bind h.tableau fun t => h.bind (h.lift_access _) fun record => ?_
  cases record.definition with
  | some id => exact h.bind (h.dropRow id) fun _ => h.pure ()
  | none =>
      refine h.bind (h.lift_access _) fun choice => ?_
      cases choice with
      | none => exact h.throw _
      | some id =>
          refine h.bind (h.dropRow id) fun row => ?_
          cases row.basic with
          | none => exact h.throw _
          | some leaving => exact h.bind (h.lift_answer _) fun solved => h.eliminate _ _

theorem releaseUnreferenced (v : VariableId) : P Unit (releaseUnreferenced v) := by
  refine h.bind h.tableau fun _ => h.bind (h.lift_access _) fun _ => ?_
  split
  · exact h.pure ()
  · exact h.releaseId v

/-- All that is done to remove a constraint before the goal is optimised. -/
theorem withdraw (handle : ConstraintHandle) : P Unit (withdraw handle) := by
  refine h.bind h.get fun s => h.bind (h.lift_answer _) fun tag => ?_
  refine h.bind (h.modify (fun _ => rfl) (fun _ => rfl) fun _ => Or.inl rfl) fun _ => ?_
  refine h.bind h.enterBuilding fun _ => h.bind (h.forM h.removePenalty tag.own) fun _ => ?_
  refine h.bind (h.dropMarker handle tag.marker) fun _ => ?_
  refine h.bind (h.forM h.releaseUnreferenced tag.own) fun _ => ?_
  exact h.bind (h.count fun _ => rfl) fun _ => h.report _

/-! ## Variables -/

theorem declare (name : String) (kind : DeclaredKind) : P Variable (declare name kind) :=
  h.bind h.enterBuilding fun _ => h.create _ _

theorem release (v : Variable) : P Unit (release v) := by
  refine h.bind h.get fun s => h.bind (h.lift_answer _) fun id => ?_
  dsimp only
  split
  · exact h.throw _
  · refine h.bind (h.lift_access _) fun _ => ?_
    split
    · exact h.throw _
    · exact h.releaseId id

end Closed

end LexSimplex.SolverM
