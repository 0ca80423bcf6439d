import LexSimplex.Proofs.Handles
import LexSimplex.Proofs.SortedMap
import LexSimplex.Proofs.Transfer.Likeness
import LexSimplex.Proofs.Transfer.Sessions

/-!
# Calls on a solver in another session

A solver and the same solver with its sessions renamed go through the same steps.  A call that
mentions handles is renamed by a function of its own, which only has to tell the handles of the
current session from all others (`SolverM.Tells`); the two calls are then in step.  Neither of them
leaves the session.
-/

namespace LexSimplex

/-- Two failures are the same up to the session of the handle that one of them mentions. -/
inductive Failure.UpToSession : Failure → Failure → Prop
  | same (failure : Failure) : UpToSession failure failure
  | marker (marker : VariableId) {handle handle' : ConstraintHandle}
      (hnumber : handle'.number = handle.number) :
      UpToSession (.error (.inconsistent (.markerInNoRow marker handle)))
        (.error (.inconsistent (.markerInNoRow marker handle')))

/-- A solver of the session `σ` is like itself with its sessions renamed. -/
def Likeness.inSession {S α : Type} (f : SessionId → SessionId) (σ : SessionId) :
    Likeness S S α where
  solvers s q := q = s.mapSession f ∧ s.tableau.registry.session = σ
  failures := Failure.UpToSession
  refl := .same

/-- A computation on tableaus that commutes with renaming sessions stays in the session: if that is
the only one that is renamed to itself, so is the result. -/
theorem Tableau.session_of_commutes {S α ε β : Type} {t : Tableau S α} {result : β}
    (compute : Tableau S α → Except ε β) {rename : (SessionId → SessionId) → β → β}
    (session : β → SessionId) (hsession : ∀ f result, session (rename f result) = f (session result))
    (hcommutes : ∀ f t, compute (t.mapSession f) = rename f <$> compute t)
    (hresult : compute t = .ok result) : session result = t.registry.session := by
  -- Rename every session to the one of the tableau, which then stays as it is.
  have hsame := hcommutes (fun _ => t.registry.session) t
  have hfixed : t.mapSession (fun _ => t.registry.session) = t := rfl
  rw [hfixed, hresult] at hsame
  have hrenamed : result = rename (fun _ => t.registry.session) result := Except.ok.inj hsame
  calc session result = session (rename (fun _ => t.registry.session) result) :=
        congrArg session hrenamed
    _ = t.registry.session := hsession _ _

namespace SolverM

open Likeness (inSession)

variable {S α : Type} {f : SessionId → SessionId} {σ : SessionId}

/-- A tableau of the session `σ` and the same with its session renamed. -/
def Renamed (f : SessionId → SessionId) (σ : SessionId) (t t' : Tableau S α) : Prop :=
  t' = t.mapSession f ∧ t.registry.session = σ

theorem inStep_report (events : List (Event α)) :
    InStep (inSession f σ) Eq (report events : SolverM S α Unit)
      (report (events.map (Event.mapSession f))) := by
  refine inStep_modify ?_
  rintro s _ ⟨rfl, hs⟩
  refine ⟨?_, hs⟩
  unfold Solver.mapSession
  simp

theorem inStep_enter (state : State) :
    InStep (inSession f σ) Eq (enter state : SolverM S α Unit) (enter state) :=
  inStep_modify fun _ _ ⟨hq, hs⟩ => ⟨by rw [hq]; rfl, hs⟩

theorem inStep_count (change : Counters → Counters) :
    InStep (inSession f σ) Eq (count change : SolverM S α Unit) (count change) :=
  inStep_modify fun _ _ ⟨hq, hs⟩ => ⟨by rw [hq]; rfl, hs⟩

theorem inStep_modifyGoal (change : Goal α → Goal α) :
    InStep (inSession f σ) Eq (modifyGoal change : SolverM S α Unit) (modifyGoal change) :=
  inStep_modify fun _ _ ⟨hq, hs⟩ => ⟨by rw [hq]; rfl, hs⟩

theorem inStep_tableau :
    InStep (inSession f σ) (Renamed f σ) (tableau : SolverM S α (Tableau S α)) tableau := by
  rintro s _ ⟨rfl, hs⟩
  exact ⟨⟨rfl, hs⟩, rfl, hs⟩

theorem inStep_setTableau {t t' : Tableau S α} (h : Renamed f σ t t') :
    InStep (inSession f σ) Eq (setTableau t) (setTableau t') :=
  inStep_modify fun _ _ ⟨hq, _⟩ => ⟨by rw [hq, h.1]; rfl, h.2⟩

theorem inStep_update {change : Tableau S α → Except Failure (Tableau S α)}
    (h : ∀ f t, change (t.mapSession f) = Tableau.mapSession f <$> change t) :
    InStep (inSession f σ) Eq (update change) (update change) := by
  refine inStep_tableau.bind ?_
  rintro t _ ⟨rfl, ht⟩
  refine (inStep_lift (Q := Renamed f σ) (h f t) fun next hnext => ⟨rfl, ?_⟩).bind
    fun _ _ hrenamed => inStep_setTableau hrenamed
  exact (Tableau.session_of_commutes change (fun t => t.registry.session) (fun _ _ => rfl)
    h hnext).trans ht

theorem inStep_releaseId (id : VariableId) :
    InStep (inSession f σ) Eq (releaseId id : SolverM S α Unit) (releaseId id) := by
  refine inStep_tableau.bind ?_
  rintro t _ ⟨rfl, ht⟩
  refine (inStep_same_access (t.registry.checkReleased id)).bind fun _ _ _ => inStep_modify ?_
  rintro s _ ⟨rfl, -⟩
  refine ⟨?_, ?_⟩
  · show ({ s.mapSession f with tableau := { (s.mapSession f).tableau with
      registry := (t.registry.mapSession f).releaseId id } } : Solver S α) = _
    rw [Registry.releaseId_mapSession]
    rfl
  · show (t.registry.releaseId id).session = σ
    rw [← ht]
    unfold Registry.releaseId
    split <;> rfl

/-- The new registry and the new handle are renamed as well. -/
theorem inStep_allocate (record : Record α) (events : VariableId → List (Event α))
    (hevents : ∀ id, (events id).map (Event.mapSession f) = events id) :
    InStep (inSession f σ) (fun v v' => v' = v.mapSession f)
      (do
        let registry := (← tableau).registry
        registry.checkFree
        let allocated := registry.allocate record
        setRegistry allocated.2
        report (events allocated.1.id)
        return allocated.1 : SolverM S α Variable)
      (do
        let registry := (← tableau).registry
        registry.checkFree
        let allocated := registry.allocate record
        setRegistry allocated.2
        report (events allocated.1.id)
        return allocated.1) := by
  refine inStep_tableau.bind ?_
  rintro t _ ⟨rfl, ht⟩
  refine (inStep_same_access t.registry.checkFree).bind fun _ _ _ => ?_
  show InStep _ _ _ (setRegistry ((t.registry.mapSession f).allocate record).2 >>= fun _ =>
    report (events ((t.registry.mapSession f).allocate record).1.id) >>= fun _ =>
      pure ((t.registry.mapSession f).allocate record).1)
  rw [Registry.allocate_mapSession]
  refine InStep.bind (Q := Eq) (inStep_modify ?_) fun _ _ _ => ?_
  · rintro s _ ⟨rfl, -⟩
    refine ⟨rfl, ?_⟩
    show (t.registry.allocate record).2.session = σ
    rw [← ht]
    unfold Registry.allocate
    split <;> rfl
  · have hreport := inStep_report (S := S) (f := f) (σ := σ)
      (events (t.registry.allocate record).1.id)
    rw [hevents] at hreport
    exact hreport.bind fun _ _ _ => inStep_pure rfl

theorem inStep_create [Scalar α] (name : String) (kind : VariableKind) :
    InStep (inSession f σ) (fun v v' => v' = v.mapSession f)
      (create name kind : SolverM S α Variable) (create name kind) :=
  inStep_allocate ⟨name, kind, 0, none, none⟩ (fun id => [.created id name]) fun _ => rfl

theorem inStep_createError [Scalar α] (name : String) (strength : Strength) :
    InStep (inSession f σ) (fun v v' => v' = v.mapSession f)
      (createError name strength : SolverM S α Variable) (createError name strength) :=
  inStep_allocate ⟨name, .error, 0, none, some (.unit strength)⟩ (fun id => [.created id name])
    fun _ => rfl

/-! ## Optimising -/

theorem inStep_follow {course : Course (Tableau S α)}
    (hsession : course.final.registry.session = σ) :
    InStep (inSession f σ) Eq (follow course) (follow (course.map (Tableau.mapSession f))) := by
  refine (inStep_setTableau ⟨rfl, hsession⟩).bind fun _ _ _ => ?_
  have hevents : (course.events : List (Event α)).map (Event.mapSession f) = course.events := by
    unfold Course.events
    rw [List.map_append, List.map_map]
    cases course.verdict <;> rfl
  have hreport := inStep_report (S := S) (f := f) (σ := σ) (course.events : List (Event α))
  rw [hevents] at hreport
  exact hreport

/-- A finished loop leaves a tableau of the session. -/
theorem inStep_course {loop : Tableau S α → Except Failure (Course (Tableau S α))}
    (h : ∀ f t, loop (t.mapSession f) = Course.map (Tableau.mapSession f) <$> loop t)
    {t : Tableau S α} (ht : t.registry.session = σ) :
    InStep (inSession f σ)
      (fun course course' => course' = course.map (Tableau.mapSession f) ∧
        course.final.registry.session = σ)
      (liftM (loop t) : SolverM S α _) (liftM (loop (t.mapSession f))) := by
  refine inStep_lift (h f t) fun course hcourse => ⟨rfl, ?_⟩
  exact (Tableau.session_of_commutes loop (fun course => course.final.registry.session)
    (fun _ _ => rfl) h hcourse).trans ht

variable [Scalar α] [RowStore S α]

theorem inStep_optimize (which : Objective) (limit : Nat) :
    InStep (inSession f σ) Eq (optimize which limit : SolverM S α Outcome)
      (optimize which limit) := by
  refine (inStep_enter _).bind fun _ _ _ => inStep_tableau.bind ?_
  rintro t _ ⟨rfl, ht⟩
  refine (inStep_course (fun f t => Tableau.optimize_mapSession f t which limit) ht).bind ?_
  rintro course _ ⟨rfl, hfinal⟩
  refine (inStep_follow hfinal).bind fun _ _ _ => (inStep_count _).bind fun _ _ _ => ?_
  exact (inStep_enter _).bind fun _ _ _ => inStep_pure rfl

theorem inStep_dualOptimize (limit : Nat) :
    InStep (inSession f σ) Eq (dualOptimize limit : SolverM S α Outcome) (dualOptimize limit) := by
  refine inStep_tableau.bind ?_
  rintro t _ ⟨rfl, ht⟩
  refine (inStep_course (fun f t => Tableau.dualOptimize_mapSession f t limit) ht).bind ?_
  rintro course _ ⟨rfl, hfinal⟩
  refine (inStep_follow hfinal).bind fun _ _ _ => (inStep_count _).bind fun _ _ _ => ?_
  exact inStep_pure rfl

theorem inStep_reoptimize (limit : Nat) :
    InStep (inSession f σ) Eq (reoptimize limit : SolverM S α Outcome) (reoptimize limit) := by
  refine (inStep_dualOptimize limit).bind ?_
  rintro repaired _ rfl
  refine (inStep_optimize _ limit).bind ?_
  rintro optimized _ rfl
  exact inStep_pure rfl

/-! ## Adding -/

/-- The same row with the renamed tag. -/
def RenamedRow (f : SessionId → SessionId) (lowered lowered' : Row S α × Tag α) : Prop :=
  lowered' = (lowered.1, lowered.2.mapSession f)

theorem inStep_markInequality (number : ConstraintNumber) (c : Constraint α) (row : Row S α) :
    InStep (inSession f σ) (RenamedRow f) (markInequality number c row)
      (markInequality number (c.mapSession f) row) := by
  obtain ⟨expression, relation, strength⟩ := c
  refine (inStep_create _ _).bind ?_
  rintro slack _ rfl
  cases strength with
  | none => exact inStep_pure rfl
  | some strength =>
      refine (inStep_createError _ _).bind ?_
      rintro error _ rfl
      exact (inStep_modifyGoal _).bind fun _ _ _ => inStep_pure rfl

theorem inStep_markEquation (number : ConstraintNumber) (c : Constraint α) (row : Row S α) :
    InStep (inSession f σ) (RenamedRow f) (markEquation number c row)
      (markEquation number (c.mapSession f) row) := by
  obtain ⟨expression, relation, strength⟩ := c
  cases strength with
  | none =>
      refine (inStep_create _ _).bind ?_
      rintro pin _ rfl
      exact inStep_pure rfl
  | some strength =>
      refine (inStep_createError _ _).bind ?_
      rintro plus _ rfl
      refine (inStep_createError _ _).bind ?_
      rintro minus _ rfl
      exact (inStep_modifyGoal _).bind fun _ _ _ => inStep_pure rfl

theorem inStep_lower (number : ConstraintNumber) (c : Constraint α)
    (terms : List (α × VariableId)) :
    InStep (inSession f σ) (RenamedRow f) (lower number c terms : SolverM S α (Row S α × Tag α))
      (lower number (c.mapSession f) terms) := by
  have hchosen : ∀ lowered lowered' : Row S α × Tag α, RenamedRow f lowered lowered' →
      InStep (inSession f σ) (RenamedRow f)
        (pure (if lowered.1.constant < 0 then lowered.1.negate else lowered.1, lowered.2) :
          SolverM S α (Row S α × Tag α))
        (pure (if lowered'.1.constant < 0 then lowered'.1.negate else lowered'.1, lowered'.2)) := by
    rintro lowered _ rfl
    exact inStep_pure rfl
  refine inStep_get.bind ?_
  rintro s _ ⟨rfl, -⟩
  refine (inStep_lift (Q := Eq) (id_map (s.tableau.rowOf s.settings c.expression.constant
    terms)).symm fun _ _ => rfl).bind ?_
  rintro row _ rfl
  have hrelation : (c.mapSession f).relation = c.relation := rfl
  rw [hrelation]
  cases c.relation with
  | equal => exact (inStep_markEquation number c row).bind hchosen
  | lessOrEqual | greaterOrEqual => exact (inStep_markInequality number c row).bind hchosen

omit [Scalar α] [RowStore S α] in
theorem inStep_discard (tag : Tag α) :
    InStep (inSession f σ) Eq (discard tag : SolverM S α Unit) (discard (tag.mapSession f)) := by
  unfold discard
  exact inStep_forM (fun v => (inStep_modifyGoal _).bind fun _ _ _ => inStep_releaseId v) tag.own

theorem inStep_adopt (subject : VariableId) (row : Row S α) :
    InStep (inSession f σ) Eq (adopt subject row) (adopt subject row) := by
  refine inStep_update fun f t => ?_
  rw [Tableau.substitute_mapSession]
  cases t.substitute subject row with
  | error fault => rfl
  | ok substituted =>
      show (liftM ((substituted.mapSession f).insertRow row) : Except Failure (Tableau S α)) =
        Tableau.mapSession f <$> (liftM (substituted.insertRow row) : Except Failure (Tableau S α))
      rw [Tableau.insertRow_mapSession]
      cases substituted.insertRow row <;> rfl

omit [Scalar α] [RowStore S α] in
theorem inStep_dropRow (id : RowId) :
    InStep (inSession f σ) Eq (dropRow id : SolverM S α (Row S α)) (dropRow id) := by
  refine inStep_tableau.bind ?_
  rintro t _ ⟨rfl, ht⟩
  refine (inStep_lift (Q := fun dropped dropped' => dropped'.1 = dropped.1 ∧
    Renamed f σ dropped.2 dropped'.2) (Tableau.dropRow_mapSession f t id)
      fun dropped hdropped => ⟨rfl, rfl, ?_⟩).bind ?_
  · exact (Tableau.session_of_commutes (fun t => t.dropRow id)
      (fun dropped => dropped.2.registry.session) (fun _ _ => rfl)
      (fun f t => Tableau.dropRow_mapSession f t id) hdropped).trans ht
  · rintro dropped dropped' ⟨hrow, hrenamed⟩
    exact (inStep_setTableau hrenamed).bind fun _ _ _ => inStep_pure hrow.symm

omit [Scalar α] in
theorem inStep_forgetArtificial (artificial : VariableId) :
    InStep (inSession f σ) Eq (forgetArtificial artificial : SolverM S α Unit)
      (forgetArtificial artificial) := by
  refine InStep.bind (Q := Eq) (inStep_modify ?_) fun _ _ _ => inStep_releaseId artificial
  rintro s _ ⟨rfl, hs⟩
  exact ⟨rfl, hs⟩

theorem inStep_replaceArtificial (artificial : VariableId) (row : Row S α) :
    InStep (inSession f σ) Eq (replaceArtificial artificial row)
      (replaceArtificial artificial row) := by
  refine inStep_ite (inStep_pure rfl) (inStep_tableau.bind ?_)
  rintro t _ ⟨rfl, -⟩
  rw [Tableau.zeroLevelEntering_mapSession]
  refine (inStep_same_access (t.zeroLevelEntering row)).bind ?_
  rintro choice _ rfl
  cases choice with
  | none => exact inStep_refuse _
  | some entering =>
      refine (inStep_same_answer (row.pivot entering artificial)).bind ?_
      rintro solved _ rfl
      exact inStep_adopt entering solved

theorem inStep_insertThroughArtificial (row : Row S α) (limit : Nat) :
    InStep (inSession f σ) Eq (insertThroughArtificial row limit)
      (insertThroughArtificial row limit) := by
  refine (inStep_create _ _).bind ?_
  rintro artificial _ rfl
  refine (inStep_same_access (row.assignBasic artificial.id)).bind ?_
  rintro row _ rfl
  refine (inStep_update fun f t => ?_).bind fun _ _ _ => (inStep_optimize _ limit).bind ?_
  · have hinsert := Tableau.insertRow_mapSession f
      { t with artificial := some (.ofRow row .equality) } row
    have hlifted := congrArg (fun x => (liftM x : Except Failure (Tableau S α))) hinsert
    simp only [liftM_map_access] at hlifted
    exact hlifted
  rintro _ _ -
  refine inStep_tableau.bind ?_
  rintro t _ ⟨rfl, ht⟩
  refine (inStep_setTableau (t := { t with artificial := none }) ⟨rfl, ht⟩).bind fun _ _ _ => ?_
  refine (inStep_same_access (t.registry.record artificial.id)).bind ?_
  rintro record _ rfl
  cases record.definition with
  | none => exact inStep_forgetArtificial artificial.id
  | some id =>
      refine (inStep_dropRow id).bind ?_
      rintro dropped _ rfl
      refine inStep_ite ?_ ?_
      · exact (inStep_replaceArtificial artificial.id dropped).bind fun _ _ _ =>
          inStep_forgetArtificial artificial.id
      · exact (inStep_releaseId artificial.id).bind fun _ _ _ => inStep_refuse _

omit [Scalar α] [RowStore S α] in
theorem inStep_reject {β γ : Type} {Q : β → γ → Prop} (event : Event α) :
    InStep (inSession f σ) Q (reject event : SolverM S α β) (reject (event.mapSession f)) :=
  (inStep_count _).bind fun _ _ _ => (inStep_report [event]).bind fun _ _ _ => inStep_refuse _

theorem inStep_enterBasis (row : Row S α) (tag : Tag α) (limit : Nat) :
    InStep (inSession f σ) Eq (enterBasis row tag limit)
      (enterBasis row (tag.mapSession f) limit) := by
  refine inStep_tableau.bind ?_
  rintro t _ ⟨rfl, -⟩
  rw [Tableau.chooseSubject_mapSession]
  refine (inStep_same_access (t.chooseSubject row tag)).bind ?_
  rintro subject _ rfl
  cases subject with
  | «variable» entering =>
      refine (inStep_same_answer (row.solveFor entering)).bind ?_
      rintro solved _ rfl
      exact inStep_adopt entering solved
  | contradiction =>
      exact (inStep_discard tag).bind fun _ _ _ => inStep_reject (.contradictory tag.constraint)
  | artificial =>
      refine (inStep_count _).bind fun _ _ _ => ?_
      refine (inStep_insertThroughArtificial row limit).tryCatch ?_
      rintro failure _ (_ | ⟨marker, hnumber⟩)
      -- Both handlers take the same branch, also for failures that differ in a session.
      · split
        · exact (inStep_discard tag).bind fun _ _ _ =>
            inStep_reject (.unsatisfiable tag.constraint)
        · exact (inStep_discard tag).bind fun _ _ _ => inStep_refuse _
        · exact inStep_throw (.same _)
      · exact (inStep_discard tag).bind fun _ _ _ => inStep_throw (.marker marker hnumber)

omit [Scalar α] [RowStore S α] in
theorem inStep_enlist (number : ConstraintNumber) (tag : Tag α) :
    InStep (inSession f σ) Eq (enlist number tag : SolverM S α Unit)
      (enlist number (tag.mapSession f)) := by
  unfold enlist
  cases number.next? with
  | none => exact inStep_throw (.same _)
  | some next =>
      refine inStep_modify ?_
      rintro s _ ⟨rfl, hs⟩
      refine ⟨?_, hs⟩
      unfold Solver.mapSession
      simp only [SortedMap.map_insert]

/-- A renaming of handles that tells those of the session `σ` from the others. -/
def Tells (f : SessionId → SessionId) (σ : SessionId) (g : SessionId → SessionId) : Prop :=
  ∀ τ, g τ = f σ ↔ τ = σ

omit [Scalar α] [RowStore S α] in
theorem resolveTerms_mapSession {g : SessionId → SessionId} {r : Registry α}
    (hg : Tells f r.session g) (terms : List (α × Variable)) :
    resolveTerms (r.mapSession f) (terms.map fun term => (term.1, term.2.mapSession g)) =
      resolveTerms r terms := by
  unfold resolveTerms
  induction terms with
  | nil => rfl
  | cons term rest ih =>
      rw [List.map_cons, List.mapM_cons, List.mapM_cons, ih]
      simp only
      rw [Registry.resolve_mapSession f r hg]

omit [Scalar α] [RowStore S α] in
/-- A constraint whose handles are all of the session is renamed alike. -/
theorem mapSession_eq_of_current {g : SessionId → SessionId} {r : Registry α} (hg : Tells f r.session g)
    {c : Constraint α}
    (hcurrent : ∀ term ∈ c.expression.terms, r.resolve term.2 = .ok term.2.id) :
    c.mapSession g = c.mapSession f := by
  have hterms : c.expression.terms.map (fun term => (term.1, term.2.mapSession g)) =
      c.expression.terms.map fun term => (term.1, term.2.mapSession f) := by
    refine List.map_congr_left fun term hterm => ?_
    obtain ⟨hsession, -⟩ := Registry.resolve_eq_ok_iff.mp (hcurrent term hterm)
    unfold Variable.mapSession
    rw [hsession, (hg r.session).mpr rfl]
  unfold Constraint.mapSession Expression.mapSession
  rw [hterms]

theorem inStep_add {g : SessionId → SessionId} (hg : Tells f σ g) (c : Constraint α) (limit : Nat) :
    InStep (inSession f σ) (fun handle handle' => handle' = handle.mapSession f)
      (add c limit : SolverM S α ConstraintHandle) (add (c.mapSession g) limit) := by
  refine inStep_tableau.bind ?_
  rintro t _ ⟨rfl, rfl⟩
  have hresolve : resolveTerms (t.mapSession f).registry (c.mapSession g).expression.terms =
      resolveTerms t.registry c.expression.terms := resolveTerms_mapSession hg _
  rw [hresolve]
  rcases resolveTerms_spec (r := t.registry) c.expression.terms with
    ⟨hterms, hcurrent⟩ | ⟨term, hterm, cause, hterms, -⟩
  · -- Past the check all handles are of the session, and the two renamings agree on them.
    rw [mapSession_eq_of_current hg hcurrent]
    refine (inStep_same_answer _).bind ?_
    rintro terms _ rfl
    refine (inStep_enter _).bind fun _ _ _ => inStep_get.bind ?_
    rintro s _ ⟨rfl, -⟩
    refine (inStep_lower s.nextConstraint c terms).bind ?_
    rintro ⟨row, tag⟩ _ rfl
    refine (inStep_enterBasis row tag limit).bind fun _ _ _ => ?_
    refine (inStep_enlist s.nextConstraint tag).bind fun _ _ _ => (inStep_count _).bind ?_
    rintro _ _ -
    refine (inStep_report [.added s.nextConstraint c]).bind fun _ _ _ => ?_
    refine (inStep_reoptimize limit).bind fun _ _ _ => inStep_get.bind ?_
    rintro last _ ⟨rfl, -⟩
    exact inStep_pure rfl
  · rw [hterms]
    exact fun _ _ hs => ⟨.same _, hs⟩

/-! ## Removing -/

theorem inStep_removePenalty (v : VariableId) :
    InStep (inSession f σ) Eq (removePenalty v : SolverM S α Unit) (removePenalty v) := by
  refine inStep_tableau.bind ?_
  rintro t _ ⟨rfl, -⟩
  refine (inStep_same_access (t.registry.record v)).bind ?_
  rintro record _ rfl
  cases record.strength with
  | none => exact inStep_pure rfl
  | some vector =>
      cases record.definition with
      | none => exact inStep_modifyGoal _
      | some id =>
          refine (inStep_same_answer (t.row id)).bind ?_
          rintro row _ rfl
          exact inStep_modifyGoal _

theorem inStep_dropMarker (handle : ConstraintHandle) (g : SessionId → SessionId)
    (marker : VariableId) :
    InStep (inSession f σ) Eq (dropMarker handle marker : SolverM S α Unit)
      (dropMarker (handle.mapSession g) marker) := by
  refine inStep_tableau.bind ?_
  rintro t _ ⟨rfl, -⟩
  refine (inStep_same_access (t.registry.record marker)).bind ?_
  rintro record _ rfl
  cases record.definition with
  | some id => exact (inStep_dropRow id).bind fun _ _ _ => inStep_pure rfl
  | none =>
      refine (inStep_same_access (t.markerLeavingRow marker)).bind ?_
      rintro choice _ rfl
      cases choice with
      | none => exact inStep_throw (.marker marker rfl)
      | some id =>
          refine (inStep_dropRow id).bind ?_
          rintro row _ rfl
          cases row.basic with
          | none => exact inStep_refuse _
          | some leaving =>
              refine (inStep_same_answer (row.pivot marker leaving)).bind ?_
              rintro solved _ rfl
              refine inStep_update fun f t => ?_
              rw [Tableau.substitute_mapSession, liftM_map_access]

theorem inStep_releaseUnreferenced (v : VariableId) :
    InStep (inSession f σ) Eq (releaseUnreferenced v : SolverM S α Unit)
      (releaseUnreferenced v) := by
  refine inStep_tableau.bind ?_
  rintro t _ ⟨rfl, -⟩
  refine (inStep_same_access (t.isReferenced v)).bind ?_
  rintro referenced _ rfl
  exact inStep_ite (inStep_pure rfl) (inStep_releaseId v)

omit [Scalar α] [RowStore S α] in
/-- The tag behind a handle is renamed with the solver. -/
theorem tag_mapSession {g : SessionId → SessionId} {s : Solver S α}
    (hg : Tells f s.tableau.registry.session g) (handle : ConstraintHandle) :
    (s.mapSession f).tag (handle.mapSession g) = Tag.mapSession f <$> s.tag handle := by
  have hsession : (handle.mapSession g).session = (s.mapSession f).session ↔
      handle.session = s.session := hg handle.session
  have hfind : (s.mapSession f).constraints.find? (handle.mapSession g).number =
      (s.constraints.find? handle.number).map (Tag.mapSession f) := SortedMap.find?_map _ _ _
  unfold Solver.tag
  rw [hfind]
  simp only [ne_eq, hsession]
  split
  · rfl
  · cases s.constraints.find? handle.number <;> rfl

theorem inStep_remove {g : SessionId → SessionId} (hg : Tells f σ g) (handle : ConstraintHandle)
    (limit : Nat) :
    InStep (inSession f σ) Eq (remove handle limit : SolverM S α Unit)
      (remove (handle.mapSession g) limit) := by
  refine inStep_get.bind ?_
  rintro s _ ⟨rfl, rfl⟩
  rw [tag_mapSession hg]
  rcases tag_cases s handle with ⟨tag, hfound, hsession, -⟩ | hunknown
  · have hsame : g s.session = f s.session := (hg _).mpr rfl
    have hhandle : handle.mapSession g = handle.mapSession f := by
      unfold ConstraintHandle.mapSession
      rw [hsession, hsame]
    rw [hfound, hhandle]
    refine (inStep_lift_answer (Q := fun tag tag' => tag' = tag.mapSession f) rfl
      fun _ _ => rfl).bind ?_
    rintro tag _ rfl
    refine InStep.bind (Q := Eq) (inStep_modify ?_) fun _ _ _ => (inStep_enter _).bind ?_
    · rintro s _ ⟨rfl, hs⟩
      refine ⟨?_, hs⟩
      unfold Solver.mapSession
      simp only [SortedMap.map_erase]
      rfl
    rintro _ _ -
    refine (inStep_forM inStep_removePenalty tag.own).bind fun _ _ _ => ?_
    refine (inStep_dropMarker handle f tag.marker).bind fun _ _ _ => ?_
    refine (inStep_forM inStep_releaseUnreferenced tag.own).bind fun _ _ _ => ?_
    refine (inStep_count _).bind fun _ _ _ => (inStep_report [.removed handle]).bind ?_
    rintro _ _ -
    exact (inStep_reoptimize limit).bind fun _ _ _ => inStep_pure rfl
  · rw [hunknown]
    exact fun _ _ hs => ⟨.same _, hs⟩

/-! ## The other calls -/

theorem inStep_resolve (limit : Nat) :
    InStep (inSession f σ) Eq (resolve limit : SolverM S α Outcome) (resolve limit) := by
  refine (inStep_reoptimize limit).bind ?_
  rintro outcome _ rfl
  refine inStep_tableau.bind ?_
  rintro t _ ⟨rfl, ht⟩
  refine (inStep_setTableau (t := t.storeValues) ⟨rfl, ht⟩).bind fun _ _ _ => ?_
  refine (inStep_enter _).bind fun _ _ _ => (inStep_count _).bind fun _ _ _ => inStep_get.bind ?_
  rintro s _ ⟨rfl, -⟩
  have hsize : (s.mapSession f).constraints.size = s.constraints.size :=
    SortedMap.size_map _ _
  rw [hsize]
  refine (inStep_report [.resolved s.constraints.size s.tableau.rowCount outcome
    s.tableau.goal.constant]).bind fun _ _ _ => inStep_pure rfl

theorem inStep_release {g : SessionId → SessionId} (hg : Tells f σ g) (v : Variable) :
    InStep (inSession f σ) Eq (release v : SolverM S α Unit) (release (v.mapSession g)) := by
  refine inStep_get.bind ?_
  rintro s _ ⟨rfl, rfl⟩
  have hresolve : (s.mapSession f).tableau.registry.resolve (v.mapSession g) =
      s.tableau.registry.resolve v := Registry.resolve_mapSession f _ hg v
  rw [hresolve]
  refine (inStep_same_answer _).bind ?_
  rintro id _ rfl
  have htagged : ((s.mapSession f).constraints.toList.any fun entry => entry.2.own.contains id) =
      s.constraints.toList.any fun entry => entry.2.own.contains id := List.any_map
  simp only [htagged]
  refine inStep_ite (inStep_refuse _) ((inStep_same_access (s.tableau.isReferenced id)).bind ?_)
  rintro referenced _ rfl
  exact inStep_ite (inStep_refuse _) (inStep_releaseId id)

omit [RowStore S α] in
theorem inStep_valueOf {g : SessionId → SessionId} (hg : Tells f σ g) (v : Variable) :
    InStep (inSession f σ) Eq (valueOf v : SolverM S α α) (valueOf (v.mapSession g)) := by
  refine inStep_tableau.bind ?_
  rintro t _ ⟨rfl, rfl⟩
  have hresolve : (t.mapSession f).registry.resolve (v.mapSession g) = t.registry.resolve v :=
    Registry.resolve_mapSession f _ hg v
  rw [hresolve]
  refine (inStep_same_answer _).bind ?_
  rintro id _ rfl
  exact inStep_pure rfl

omit [Scalar α] [RowStore S α] in
theorem inStep_errorVariables {g : SessionId → SessionId} (hg : Tells f σ g)
    (handle : ConstraintHandle) :
    InStep (inSession f σ) (fun vs vs' => vs' = vs.map (Variable.mapSession f))
      (errorVariables handle : SolverM S α (List Variable))
      (errorVariables (handle.mapSession g)) := by
  refine inStep_get.bind ?_
  rintro s _ ⟨rfl, rfl⟩
  refine (inStep_lift_answer (Q := fun tag tag' => tag' = tag.mapSession f)
    (tag_mapSession hg handle) fun _ _ => rfl).bind ?_
  rintro tag _ rfl
  refine (inStep_filterM (fun v => (inStep_same_access (s.tableau.registry.kind v)).bind ?_)
    tag.own).bind ?_
  · rintro kind _ rfl
    exact inStep_pure rfl
  · rintro errors _ rfl
    refine inStep_pure ?_
    have hhandles : (s.mapSession f).tableau.registry.handle? = fun id =>
        (s.tableau.registry.handle? id).map (Variable.mapSession f) :=
      funext (Registry.handle?_mapSession f s.tableau.registry)
    rw [hhandles, List.map_filterMap]

omit [Scalar α] [RowStore S α] in
theorem inStep_strengthOf {g : SessionId → SessionId} (hg : Tells f σ g)
    (handle : ConstraintHandle) :
    InStep (inSession f σ) Eq (strengthOf handle : SolverM S α (Option Strength))
      (strengthOf (handle.mapSession g)) := by
  refine inStep_get.bind ?_
  rintro s _ ⟨rfl, rfl⟩
  refine (inStep_lift_answer (Q := fun tag tag' => tag' = tag.mapSession f)
    (tag_mapSession hg handle) fun _ _ => rfl).bind ?_
  rintro tag _ rfl
  exact inStep_pure rfl

end SolverM

end LexSimplex
