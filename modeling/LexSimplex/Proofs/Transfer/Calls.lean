import LexSimplex.Proofs.Loops
import LexSimplex.Proofs.Transfer.Tableaus
import LexSimplex.Solver.Run

/-!
# Calls on a solver with another storage

Solvers whose rows correspond give the same answer to every call and correspond afterwards
(`perform_corresponds`).  So the runs of the two are the same: a run can be carried over to the other
storage (`Run.mapStore`), and every run there comes from one here (`Run.exists_of_mapStore`).
-/

namespace LexSimplex

variable {S T α : Type} [Scalar α] [RowStore S α] [RowStore T α] (m : StoreMap S T α)

/-- A solver with its rows in another storage. -/
def Solver.mapStore (s : Solver S α) : Solver T α where
  settings := m.settings s.settings
  tableau := s.tableau.mapStore m
  constraints := s.constraints
  nextConstraint := s.nextConstraint
  state := s.state
  counters := s.counters
  journal := s.journal

namespace SolverM

variable {β γ δ ε : Type} {f : β → γ} {g : δ → ε}

/-- Two calls give corresponding results and leave corresponding solvers. -/
def Corresponds (f : β → γ) (x : SolverM S α β) (y : SolverM T α γ) : Prop :=
  ∀ s : Solver S α, y.run (s.mapStore m) =
    match x.run s with
    | .ok result next => .ok (f result) (next.mapStore m)
    | .error failure next => .error failure (next.mapStore m)

variable {m}

/-! ## Building blocks -/

theorem corresponds_pure (result : β) :
    Corresponds m f (pure result : SolverM S α β) (pure (f result)) := fun _ => rfl

theorem Corresponds.bind {x : SolverM S α β} {y : SolverM T α γ} {k : β → SolverM S α δ}
    {l : γ → SolverM T α ε} (h : Corresponds m f x y)
    (hrest : ∀ result, Corresponds m g (k result) (l (f result))) :
    Corresponds m g (x >>= k) (y >>= l) := by
  intro s
  change EStateM.bind y l (s.mapStore m) = match EStateM.bind x k s with
    | .ok _ _ => _
    | .error _ _ => _
  unfold EStateM.bind
  have hfirst := h s
  change y (s.mapStore m) = match x s with | .ok _ _ => _ | .error _ _ => _ at hfirst
  rw [hfirst]
  cases x s with
  | ok result next => exact hrest result next
  | error failure next => rfl

/-- The second call of two where the first returns the same on both sides. -/
theorem Corresponds.bind_id {x : SolverM S α β} {y : SolverM T α β} {k : β → SolverM S α δ}
    {l : β → SolverM T α ε} (h : Corresponds m id x y)
    (hrest : ∀ result, Corresponds m g (k result) (l result)) :
    Corresponds m g (x >>= k) (y >>= l) :=
  h.bind hrest

theorem corresponds_throw (failure : Failure) :
    Corresponds m f (throw failure : SolverM S α β) (throw failure) := fun _ => rfl

theorem corresponds_refuse (cause : SolverError) :
    Corresponds m f (refuse cause : SolverM S α β) (refuse cause) := fun _ => rfl

theorem corresponds_get : Corresponds m (Solver.mapStore m) get get := fun _ => rfl

theorem corresponds_modify {h : Solver S α → Solver S α} {h' : Solver T α → Solver T α}
    (hsame : ∀ s, h' (s.mapStore m) = (h s).mapStore m) :
    Corresponds m id (modify h : SolverM S α Unit) (modify h') :=
  fun s => congrArg (EStateM.Result.ok ()) (hsame s)

theorem corresponds_lift {x : Except Failure β} {y : Except Failure γ} (h : y = f <$> x) :
    Corresponds m f (liftM x : SolverM S α β) (liftM y) := by
  subst h
  intro s
  cases x <;> rfl

theorem corresponds_lift_access {x : Except AccessFault β} {y : Except AccessFault γ}
    (h : y = f <$> x) : Corresponds m f (liftM x : SolverM S α β) (liftM y) := by
  subst h
  intro s
  cases x <;> rfl

theorem corresponds_lift_answer {x : Except SolverError β} {y : Except SolverError γ}
    (h : y = f <$> x) : Corresponds m f (liftM x : SolverM S α β) (liftM y) := by
  subst h
  intro s
  cases x <;> rfl

theorem Corresponds.tryCatch {x : SolverM S α β} {y : SolverM T α γ}
    {handle : Failure → SolverM S α β} {handle' : Failure → SolverM T α γ}
    (h : Corresponds m f x y) (hcatch : ∀ failure, Corresponds m f (handle failure) (handle' failure)) :
    Corresponds m f (tryCatch x handle) (tryCatch y handle') := by
  intro s
  change EStateM.tryCatch y handle' (s.mapStore m) = match EStateM.tryCatch x handle s with
    | .ok _ _ => _
    | .error _ _ => _
  unfold EStateM.tryCatch
  have hfirst := h s
  change y (s.mapStore m) = match x s with | .ok _ _ => _ | .error _ _ => _ at hfirst
  rw [hfirst]
  cases x s with
  | ok result next => rfl
  | error failure next => exact hcatch failure next

theorem corresponds_ite {c : Prop} [Decidable c] {x x' : SolverM S α β} {y y' : SolverM T α γ}
    (h : Corresponds m f x y) (h' : Corresponds m f x' y') :
    Corresponds m f (if c then x else x') (if c then y else y') := by
  by_cases hc : c
  · rw [if_pos hc, if_pos hc]
    exact h
  · rw [if_neg hc, if_neg hc]
    exact h'

theorem corresponds_forM {ι : Type} {k : ι → SolverM S α Unit} {l : ι → SolverM T α Unit}
    (h : ∀ i, Corresponds m id (k i) (l i)) (xs : List ι) :
    Corresponds m id (xs.forM k) (xs.forM l) := by
  induction xs with
  | nil => exact corresponds_pure ()
  | cons x xs ih => exact (h x).bind_id fun _ => ih

theorem corresponds_report (events : List (Event α)) :
    Corresponds m id (report events : SolverM S α Unit) (report events) := fun _ => rfl

theorem corresponds_enter (state : State) :
    Corresponds m id (enter state : SolverM S α Unit) (enter state) := fun _ => rfl

theorem corresponds_count (change : Counters → Counters) :
    Corresponds m id (count change : SolverM S α Unit) (count change) := fun _ => rfl

theorem corresponds_tableau : Corresponds m (Tableau.mapStore m) tableau tableau := fun _ => rfl

theorem corresponds_setTableau (t : Tableau S α) :
    Corresponds m id (setTableau t) (setTableau (t.mapStore m)) := fun _ => rfl

theorem corresponds_update {change : Tableau S α → Except Failure (Tableau S α)}
    {change' : Tableau T α → Except Failure (Tableau T α)}
    (h : ∀ t, change' (t.mapStore m) = Tableau.mapStore m <$> change t) :
    Corresponds m id (update change) (update change') :=
  corresponds_tableau.bind fun t => (corresponds_lift (h t)).bind fun next =>
    corresponds_setTableau next

theorem corresponds_modifyGoal (change : Goal α → Goal α) :
    Corresponds m id (modifyGoal change : SolverM S α Unit) (modifyGoal change) := fun _ => rfl

theorem corresponds_same_access (x : Except AccessFault β) :
    Corresponds m id (liftM x : SolverM S α β) (liftM x) :=
  corresponds_lift_access (id_map x).symm

theorem corresponds_setRegistry (registry : Registry α) :
    Corresponds m id (setRegistry registry : SolverM S α Unit) (setRegistry registry) :=
  fun _ => rfl

theorem corresponds_releaseId (id' : VariableId) :
    Corresponds m id (releaseId id' : SolverM S α Unit) (releaseId id') :=
  corresponds_tableau.bind fun _ => (corresponds_same_access _).bind_id fun _ =>
    corresponds_setRegistry _

theorem corresponds_create (name : String) (kind : VariableKind) :
    Corresponds m id (create name kind : SolverM S α Variable) (create name kind) :=
  corresponds_tableau.bind fun _ => (corresponds_same_access _).bind_id fun _ =>
    (corresponds_setRegistry _).bind_id fun _ => (corresponds_report _).bind_id fun _ =>
      corresponds_pure _

theorem corresponds_createError (name : String) (strength : Strength) :
    Corresponds m id (createError name strength : SolverM S α Variable)
      (createError name strength) :=
  corresponds_tableau.bind fun _ => (corresponds_same_access _).bind_id fun _ =>
    (corresponds_setRegistry _).bind_id fun _ => (corresponds_report _).bind_id fun _ =>
      corresponds_pure _

/-! ## Optimising -/

theorem corresponds_follow (course : Course (Tableau S α)) :
    Corresponds m id (follow course) (follow (course.map (Tableau.mapStore m))) := fun _ => rfl

theorem corresponds_optimize (which : Objective) (limit : Nat) :
    Corresponds m id (optimize which limit : SolverM S α Outcome) (optimize which limit) := by
  refine (corresponds_enter _).bind_id fun _ => corresponds_tableau.bind fun t => ?_
  refine (corresponds_lift (Tableau.optimize_mapStore m t which limit)).bind fun course => ?_
  refine (corresponds_follow course).bind_id fun _ => ?_
  exact (corresponds_count _).bind_id fun _ => (corresponds_enter _).bind_id fun _ =>
    corresponds_pure _

theorem corresponds_dualOptimize (limit : Nat) :
    Corresponds m id (dualOptimize limit : SolverM S α Outcome) (dualOptimize limit) := by
  refine corresponds_tableau.bind fun t => ?_
  refine (corresponds_lift (Tableau.dualOptimize_mapStore m t limit)).bind fun course => ?_
  refine (corresponds_follow course).bind_id fun _ => ?_
  exact (corresponds_count _).bind_id fun _ => corresponds_pure _

theorem corresponds_reoptimize (limit : Nat) :
    Corresponds m id (reoptimize limit : SolverM S α Outcome) (reoptimize limit) :=
  (corresponds_dualOptimize limit).bind_id fun _ =>
    (corresponds_optimize _ limit).bind_id fun _ => corresponds_pure _

/-! ## Adding -/

/-- A row together with its tag in another storage. -/
def mapLowered (m : StoreMap S T α) (lowered : Row S α × Tag α) : Row T α × Tag α :=
  (lowered.1.mapStore m, lowered.2)

theorem corresponds_markInequality (number : ConstraintNumber) (c : Constraint α) (row : Row S α) :
    Corresponds m (mapLowered m) (markInequality number c row)
      (markInequality number c (row.mapStore m)) := by
  unfold markInequality
  refine (corresponds_create _ _).bind_id fun slack => ?_
  simp only [Row.insert_mapStore]
  cases c.strength with
  | none => exact corresponds_pure _
  | some strength =>
      exact (corresponds_createError _ _).bind_id fun error =>
        (corresponds_modifyGoal _).bind_id fun _ => corresponds_pure _

theorem corresponds_markEquation (number : ConstraintNumber) (c : Constraint α) (row : Row S α) :
    Corresponds m (mapLowered m) (markEquation number c row)
      (markEquation number c (row.mapStore m)) := by
  unfold markEquation
  cases c.strength with
  | none =>
      simp only [Row.insert_mapStore]
      exact (corresponds_create _ _).bind_id fun pin => corresponds_pure _
  | some strength =>
      simp only [Row.insert_mapStore]
      exact (corresponds_createError _ _).bind_id fun plus =>
        (corresponds_createError _ _).bind_id fun minus =>
          (corresponds_modifyGoal _).bind_id fun _ => corresponds_pure _

theorem corresponds_lower (number : ConstraintNumber) (c : Constraint α)
    (terms : List (α × VariableId)) :
    Corresponds m (mapLowered m) (lower number c terms : SolverM S α (Row S α × Tag α))
      (lower number c terms) := by
  have hchosen : ∀ lowered : Row S α × Tag α, Corresponds m (mapLowered m)
      (pure (if lowered.1.constant < 0 then lowered.1.negate else lowered.1, lowered.2) :
        SolverM S α (Row S α × Tag α))
      (pure (if (lowered.1.mapStore m).constant < 0 then (lowered.1.mapStore m).negate
        else lowered.1.mapStore m, lowered.2)) := by
    intro lowered
    rw [Row.constant_mapStore, Row.negate_mapStore]
    by_cases hneg : lowered.1.constant < 0
    · rw [if_pos hneg, if_pos hneg]
      exact corresponds_pure _
    · rw [if_neg hneg, if_neg hneg]
      exact corresponds_pure _
  unfold lower
  refine corresponds_get.bind fun s => ?_
  refine (corresponds_lift (Tableau.rowOf_mapStore m s.tableau s.settings
    c.expression.constant terms)).bind fun row => ?_
  cases c.relation with
  | equal => exact (corresponds_markEquation number c row).bind hchosen
  | lessOrEqual | greaterOrEqual =>
      exact (corresponds_markInequality number c row).bind hchosen

theorem corresponds_discard (tag : Tag α) :
    Corresponds m id (discard tag : SolverM S α Unit) (discard tag) :=
  corresponds_forM (fun _ => (corresponds_modifyGoal _).bind_id fun _ =>
    corresponds_releaseId _) tag.own

theorem corresponds_adopt (subject : VariableId) (row : Row S α) :
    Corresponds m id (adopt subject row) (adopt subject (row.mapStore m)) := by
  refine corresponds_update fun t => ?_
  rw [Tableau.substitute_mapStore, liftM_map_access]
  cases t.substitute subject row with
  | error fault => rfl
  | ok substituted =>
      change (liftM ((substituted.mapStore m).insertRow (row.mapStore m)) :
        Except Failure (Tableau T α)) = Tableau.mapStore m <$>
          (liftM (substituted.insertRow row) : Except Failure (Tableau S α))
      rw [Tableau.insertRow_mapStore, liftM_map_access]

theorem corresponds_dropRow (id' : RowId) :
    Corresponds m (Row.mapStore m) (dropRow id' : SolverM S α (Row S α)) (dropRow id') := by
  refine corresponds_tableau.bind fun t => ?_
  refine (corresponds_lift (Tableau.dropRow_mapStore m t id')).bind fun dropped => ?_
  exact (corresponds_setTableau dropped.2).bind_id fun _ => corresponds_pure _

theorem corresponds_forgetArtificial (artificial : VariableId) :
    Corresponds m id (forgetArtificial artificial : SolverM S α Unit)
      (forgetArtificial artificial) := by
  refine (corresponds_modify fun s => ?_).bind_id fun _ => corresponds_releaseId _
  have hrows : (s.tableau.mapStore m).rows.map
      (fun slot => slot.map fun row => row.erase artificial) =
        (s.tableau.rows.map fun slot => slot.map fun row => row.erase artificial).map
          fun slot => slot.map (Row.mapStore m) := by
    unfold Tableau.mapStore
    rw [Array.map_map, Array.map_map]
    refine congrArg (fun f => s.tableau.rows.map f) (funext fun slot => ?_)
    cases slot with
    | none => rfl
    | some row => simp
  unfold Solver.mapStore
  simp only
  rw [hrows]
  rfl

theorem corresponds_replaceArtificial (artificial : VariableId) (row : Row S α) :
    Corresponds m id (replaceArtificial artificial row)
      (replaceArtificial artificial (row.mapStore m)) := by
  unfold replaceArtificial
  rw [Row.isConstant_mapStore]
  cases row.isConstant with
  | true => exact corresponds_pure ()
  | false =>
      simp only [Bool.false_eq_true, if_false]
      refine corresponds_tableau.bind fun t => ?_
      rw [Tableau.zeroLevelEntering_mapStore]
      refine (corresponds_same_access _).bind_id fun choice => ?_
      cases choice with
      | none => exact corresponds_refuse _
      | some entering =>
          simp only
          rw [Row.pivot_mapStore]
          exact (corresponds_lift_answer rfl).bind fun solved => corresponds_adopt entering solved

theorem corresponds_insertThroughArtificial (row : Row S α) (limit : Nat) :
    Corresponds m id (insertThroughArtificial row limit)
      (insertThroughArtificial (row.mapStore m) limit) := by
  unfold insertThroughArtificial
  refine (corresponds_create _ _).bind_id fun artificial => ?_
  refine (corresponds_lift_access (Row.assignBasic_mapStore m row artificial.id)).bind fun row => ?_
  refine (corresponds_update fun t => ?_).bind_id fun _ => ?_
  · have hgoal := Goal.ofRow_mapStore m row .equality
    have hinsert := Tableau.insertRow_mapStore m
      { t with artificial := some (.ofRow row .equality) } row
    have hlifted := congrArg (fun x => (liftM x : Except Failure (Tableau T α))) hinsert
    simp only [liftM_map_access] at hlifted
    rw [← hlifted, ← hgoal]
    rfl
  refine (corresponds_optimize _ limit).bind_id fun _ => ?_
  refine corresponds_tableau.bind fun t => ?_
  refine (corresponds_setTableau { t with artificial := none }).bind_id fun _ => ?_
  rw [Tableau.registry_mapStore, Tableau.artificial_mapStore]
  refine (corresponds_same_access _).bind_id fun record => ?_
  cases record.definition with
  | none => exact corresponds_forgetArtificial artificial.id
  | some id' =>
      refine (corresponds_dropRow id').bind fun dropped => ?_
      refine corresponds_ite ?_ ?_
      · exact (corresponds_replaceArtificial artificial.id dropped).bind_id fun _ =>
          corresponds_forgetArtificial artificial.id
      · exact (corresponds_releaseId _).bind_id fun _ => corresponds_refuse _

theorem corresponds_reject (event : Event α) :
    Corresponds m f (reject event : SolverM S α β) (reject event) :=
  (corresponds_count _).bind_id fun _ => (corresponds_report _).bind_id fun _ =>
    corresponds_refuse _

theorem corresponds_enterBasis (row : Row S α) (tag : Tag α) (limit : Nat) :
    Corresponds m id (enterBasis row tag limit) (enterBasis (row.mapStore m) tag limit) := by
  unfold enterBasis
  refine corresponds_tableau.bind fun t => ?_
  rw [Tableau.chooseSubject_mapStore]
  refine (corresponds_same_access _).bind_id fun subject => ?_
  cases subject with
  | «variable» entering =>
      simp only
      rw [Row.solveFor_mapStore]
      exact (corresponds_lift_answer rfl).bind fun solved => corresponds_adopt entering solved
  | contradiction =>
      exact (corresponds_discard tag).bind_id fun _ => corresponds_reject _
  | artificial =>
      refine (corresponds_count _).bind_id fun _ => ?_
      refine (corresponds_insertThroughArtificial row limit).tryCatch fun failure => ?_
      split
      · exact (corresponds_discard tag).bind_id fun _ => corresponds_reject _
      · exact (corresponds_discard tag).bind_id fun _ => corresponds_refuse _
      · exact corresponds_throw _

theorem corresponds_accept (c : Constraint α) (limit : Nat) :
    Corresponds m id (accept c limit : SolverM S α ConstraintNumber) (accept c limit) := by
  unfold accept
  refine corresponds_tableau.bind fun t => ?_
  rw [Tableau.registry_mapStore]
  refine (corresponds_lift_answer (f := id) (id_map _).symm).bind_id fun terms => ?_
  refine (corresponds_enter _).bind_id fun _ => corresponds_get.bind fun s => ?_
  refine (corresponds_lower s.nextConstraint c terms).bind fun lowered => ?_
  refine (corresponds_enterBasis lowered.1 lowered.2 limit).bind_id fun _ => ?_
  refine Corresponds.bind_id ?_ fun _ => ?_
  · unfold enlist
    have hsame : (s.mapStore m).nextConstraint = s.nextConstraint := rfl
    rw [hsame]
    cases s.nextConstraint.next? with
    | none => exact corresponds_throw _
    | some next => exact corresponds_modify fun _ => rfl
  · exact (corresponds_count _).bind_id fun _ => (corresponds_report _).bind_id fun _ =>
      corresponds_pure _

theorem corresponds_add (c : Constraint α) (limit : Nat) :
    Corresponds m id (add c limit : SolverM S α ConstraintHandle) (add c limit) := by
  rw [add_eq_accept, add_eq_accept]
  exact (corresponds_accept c limit).bind_id fun _ => (corresponds_reoptimize limit).bind_id fun _ =>
    corresponds_get.bind fun _ => corresponds_pure _

/-! ## Removing -/

theorem corresponds_removePenalty (v : VariableId) :
    Corresponds m id (removePenalty v : SolverM S α Unit) (removePenalty v) := by
  unfold removePenalty
  refine corresponds_tableau.bind fun t => ?_
  rw [Tableau.registry_mapStore]
  refine (corresponds_same_access _).bind_id fun record => ?_
  cases record.strength with
  | none => exact corresponds_pure ()
  | some vector =>
      cases record.definition with
      | none => exact corresponds_modifyGoal _
      | some id' =>
          simp only
          rw [Tableau.row_mapStore]
          refine (corresponds_lift_answer rfl).bind fun row => ?_
          simp only [Goal.insertRow_mapStore]
          exact corresponds_modifyGoal _

theorem corresponds_dropMarker (handle : ConstraintHandle) (marker : VariableId) :
    Corresponds m id (dropMarker handle marker : SolverM S α Unit) (dropMarker handle marker) := by
  unfold dropMarker
  refine corresponds_tableau.bind fun t => ?_
  rw [Tableau.registry_mapStore]
  refine (corresponds_same_access _).bind_id fun record => ?_
  cases record.definition with
  | some id' =>
      exact (corresponds_dropRow id').bind fun _ => corresponds_pure (f := id) ()
  | none =>
      simp only
      rw [Tableau.markerLeavingRow_mapStore]
      refine (corresponds_same_access _).bind_id fun choice => ?_
      cases choice with
      | none => exact corresponds_refuse _
      | some id' =>
          refine (corresponds_dropRow id').bind fun row => ?_
          rw [Row.basic_mapStore]
          cases row.basic with
          | none => exact corresponds_refuse _
          | some leaving =>
              simp only
              rw [Row.pivot_mapStore]
              refine (corresponds_lift_answer rfl).bind fun solved => ?_
              refine corresponds_update fun t => ?_
              rw [Tableau.substitute_mapStore, liftM_map_access]

theorem corresponds_releaseUnreferenced (v : VariableId) :
    Corresponds m id (releaseUnreferenced v : SolverM S α Unit) (releaseUnreferenced v) := by
  unfold releaseUnreferenced
  refine corresponds_tableau.bind fun t => ?_
  rw [Tableau.isReferenced_mapStore]
  refine (corresponds_same_access _).bind_id fun referenced => ?_
  exact corresponds_ite (corresponds_pure ()) (corresponds_releaseId v)

theorem corresponds_tag (s : Solver S α) (handle : ConstraintHandle) :
    Corresponds m id (liftM (s.tag handle) : SolverM S α (Tag α))
      (liftM ((s.mapStore m).tag handle)) :=
  corresponds_lift_answer (id_map _).symm

theorem corresponds_withdraw (handle : ConstraintHandle) :
    Corresponds m id (withdraw handle : SolverM S α Unit) (withdraw handle) := by
  unfold withdraw
  refine corresponds_get.bind fun s => (corresponds_tag s handle).bind_id fun tag => ?_
  refine Corresponds.bind_id (corresponds_modify fun _ => rfl) fun _ => ?_
  refine (corresponds_enter _).bind_id fun _ => ?_
  refine (corresponds_forM corresponds_removePenalty tag.own).bind_id fun _ => ?_
  refine (corresponds_dropMarker handle tag.marker).bind_id fun _ => ?_
  refine (corresponds_forM corresponds_releaseUnreferenced tag.own).bind_id fun _ => ?_
  exact (corresponds_count _).bind_id fun _ => corresponds_report _

theorem corresponds_remove (handle : ConstraintHandle) (limit : Nat) :
    Corresponds m id (remove handle limit : SolverM S α Unit) (remove handle limit) := by
  rw [remove_eq_withdraw, remove_eq_withdraw]
  exact (corresponds_withdraw handle).bind_id fun _ => (corresponds_reoptimize limit).bind_id fun _ =>
    corresponds_pure ()

/-! ## The other calls -/

theorem corresponds_resolve (limit : Nat) :
    Corresponds m id (resolve limit : SolverM S α Outcome) (resolve limit) := by
  unfold resolve
  refine (corresponds_reoptimize limit).bind_id fun outcome => corresponds_tableau.bind fun t => ?_
  rw [Tableau.storeValues_mapStore]
  refine (corresponds_setTableau t.storeValues).bind_id fun _ => ?_
  refine (corresponds_enter _).bind_id fun _ => (corresponds_count _).bind_id fun _ => ?_
  refine corresponds_get.bind fun s => ?_
  have hreport : (s.mapStore m).tableau.rowCount = s.tableau.rowCount :=
    Tableau.rowCount_mapStore m s.tableau
  rw [hreport]
  exact (corresponds_report _).bind_id fun _ => corresponds_pure outcome

theorem corresponds_release (v : Variable) :
    Corresponds m id (release v : SolverM S α Unit) (release v) := by
  unfold release
  refine corresponds_get.bind fun s => ?_
  refine (corresponds_lift_answer (f := id) (id_map _).symm).bind_id fun id' => ?_
  refine corresponds_ite (corresponds_refuse _) ?_
  have hreferenced : (s.mapStore m).tableau.isReferenced id' = s.tableau.isReferenced id' :=
    Tableau.isReferenced_mapStore m s.tableau id'
  rw [hreferenced]
  refine (corresponds_same_access _).bind_id fun referenced => ?_
  exact corresponds_ite (corresponds_refuse _) (corresponds_releaseId id')

theorem corresponds_valueOf (v : Variable) :
    Corresponds m id (valueOf v : SolverM S α α) (valueOf v) := by
  unfold valueOf
  refine corresponds_tableau.bind fun t => ?_
  rw [Tableau.registry_mapStore]
  refine (corresponds_lift_answer (f := id) (id_map _).symm).bind_id fun id' => ?_
  rw [Tableau.value_mapStore]
  exact corresponds_pure _

theorem corresponds_filterM {ι : Type} {p : ι → SolverM S α Bool} {q : ι → SolverM T α Bool}
    (h : ∀ i, Corresponds m id (p i) (q i)) (xs : List ι) :
    Corresponds m id (xs.filterM p) (xs.filterM q) := by
  have haux : ∀ (xs kept : List ι),
      Corresponds m id (List.filterAuxM p xs kept) (List.filterAuxM q xs kept) := by
    intro xs
    induction xs with
    | nil => exact fun kept => corresponds_pure kept
    | cons x xs ih => exact fun kept => (h x).bind_id fun chosen => ih _
  exact (haux xs []).bind_id fun kept => corresponds_pure _

theorem corresponds_errorVariables (handle : ConstraintHandle) :
    Corresponds m id (errorVariables handle : SolverM S α (List Variable))
      (errorVariables handle) := by
  unfold errorVariables
  refine corresponds_get.bind fun s => (corresponds_tag s handle).bind_id fun tag => ?_
  refine (corresponds_filterM (fun v => ?_) tag.own).bind_id fun errors => corresponds_pure _
  exact (corresponds_same_access _).bind_id fun kind => corresponds_pure _

theorem corresponds_strengthOf (handle : ConstraintHandle) :
    Corresponds m id (strengthOf handle : SolverM S α (Option Strength)) (strengthOf handle) :=
  corresponds_get.bind fun s => (corresponds_tag s handle).bind_id fun _ => corresponds_pure _

theorem corresponds_reset (session : SessionId) :
    Corresponds m id (reset session : SolverM S α Unit) (reset session) := by
  unfold reset
  refine corresponds_get.bind fun s => ?_
  have hreport : (s.mapStore m).tableau.rowCount = s.tableau.rowCount :=
    Tableau.rowCount_mapStore m s.tableau
  rw [hreport]
  refine (corresponds_report _).bind_id fun _ => corresponds_modify fun s => ?_
  unfold Solver.mapStore
  rw [Tableau.start_mapStore]

end SolverM

/-! ## Runs -/

open SolverM in
/-- Solvers whose rows correspond answer every call alike. -/
theorem Call.perform_corresponds (call : Call α) (limit : Nat) :
    Corresponds m id (call.perform limit : SolverM S α (Reply α)) (call.perform limit) := by
  cases call with
  | declare name kind =>
      exact ((corresponds_enter _).bind_id fun _ => corresponds_create name _).bind_id fun _ =>
        corresponds_pure _
  | add c => exact (corresponds_add c limit).bind_id fun _ => corresponds_pure _
  | remove handle => exact (corresponds_remove handle limit).bind_id fun _ => corresponds_pure _
  | resolve => exact (corresponds_resolve limit).bind_id fun _ => corresponds_pure _
  | release v => exact (corresponds_release v).bind_id fun _ => corresponds_pure _
  | reset session => exact (corresponds_reset session).bind_id fun _ => corresponds_pure _
  | valueOf v => exact (corresponds_valueOf v).bind_id fun _ => corresponds_pure _
  | errorVariables handle =>
      exact (corresponds_errorVariables handle).bind_id fun _ => corresponds_pure _
  | strengthOf handle =>
      exact (corresponds_strengthOf handle).bind_id fun _ => corresponds_pure _

open SolverM in
/-- Solvers whose rows correspond open every call alike. -/
theorem Call.opening_corresponds (call : Call α) (limit : Nat) :
    Corresponds m id (call.opening limit : SolverM S α Unit) (call.opening limit) := by
  cases call with
  | add c => exact (corresponds_accept c limit).bind_id fun _ => corresponds_pure ()
  | remove handle => exact corresponds_withdraw handle
  | _ => exact corresponds_pure ()

theorem Solver.start_mapStore (settings : Settings) (session : SessionId) :
    (start settings session : Solver S α).mapStore m = start (m.settings settings) session := by
  unfold mapStore start
  rw [Tableau.start_mapStore]

variable {settings : Settings} {session : SessionId} {turns : List (Turn α)}

/-- A run on one storage is a run on the other. -/
theorem Run.mapStore {s : Solver S α} (hrun : Run settings session turns s) :
    Run (m.settings settings) session turns (s.mapStore m) := by
  induction hrun with
  | start =>
      rw [Solver.start_mapStore]
      exact Run.start
  | @answered turns s next call reply limit hrun hperform ih =>
      have hsame : (call.perform limit).run (s.mapStore m) = .ok reply (next.mapStore m) := by
        rw [call.perform_corresponds m limit s, hperform]
        rfl
      exact ih.answered hsame
  | @refused turns s next call cause limit hrun hperform ih =>
      have hsame : (call.perform limit).run (s.mapStore m) =
          .error (.error cause) (next.mapStore m) := by
        rw [call.perform_corresponds m limit s, hperform]
      exact ih.refused hsame

/-- Every run on the second storage comes from one on the first. -/
theorem Run.exists_of_mapStore {t : Solver T α} (hrun : Run (m.settings settings) session turns t) :
    ∃ s : Solver S α, Run settings session turns s ∧ s.mapStore m = t := by
  induction hrun with
  | start => exact ⟨_, Run.start, Solver.start_mapStore m settings session⟩
  | @answered turns t next call reply limit hrun hperform ih =>
      obtain ⟨s, hrun', rfl⟩ := ih
      have hsame := call.perform_corresponds m limit s
      rw [hperform] at hsame
      cases hperformed : (call.perform limit).run s with
      | ok reply' next' =>
          rw [hperformed] at hsame
          simp only [id_eq, EStateM.Result.ok.injEq] at hsame
          obtain ⟨rfl, rfl⟩ := hsame
          exact ⟨next', hrun'.answered hperformed, rfl⟩
      | error failure next' =>
          rw [hperformed] at hsame
          cases hsame
  | @refused turns t next call cause limit hrun hperform ih =>
      obtain ⟨s, hrun', rfl⟩ := ih
      have hsame := call.perform_corresponds m limit s
      rw [hperform] at hsame
      cases hperformed : (call.perform limit).run s with
      | ok reply' next' =>
          rw [hperformed] at hsame
          cases hsame
      | error failure next' =>
          rw [hperformed] at hsame
          simp only [EStateM.Result.error.injEq] at hsame
          obtain ⟨rfl, rfl⟩ := hsame
          exact ⟨next', hrun'.refused hperformed, rfl⟩

end LexSimplex
