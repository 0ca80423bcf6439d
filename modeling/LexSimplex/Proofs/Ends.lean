import LexSimplex.Proofs.Registry
import LexSimplex.Solver.Calls

/-!
# How calls end

A call returns a result or a failure, and it leaves a state either way.  `Ends m s post` says that
the call `m` on the state `s` ends as `post` demands.  One lemma for each building block of a call
moves the statement through the call, so that a call is read from its first step to its last.
-/

namespace LexSimplex

/-- The constraints and the number of the next one are the same. -/
abbrev Solver.SameBooks {S α : Type} (s next : Solver S α) : Prop :=
  next.constraints = s.constraints ∧ next.nextConstraint = s.nextConstraint

namespace Solver.SameBooks

variable {S α : Type} {s next last : Solver S α}

theorem trans (h : SameBooks s next) (h' : SameBooks next last) : SameBooks s last :=
  ⟨h'.1.trans h.1, h'.2.trans h.2⟩

end Solver.SameBooks

/-- A variable that nothing mentions may be released. -/
theorem Tableau.checkReleased_of_isReferenced {S α : Type} [Scalar α] [RowStore S α]
    {t : Tableau S α} {v : VariableId} (h : t.isReferenced v = .ok false) :
    t.registry.checkReleased v = .ok () := by
  unfold isReferenced at h
  unfold Registry.checkReleased
  cases hrecord : t.registry.record v with
  | error fault => rw [hrecord] at h; cases h
  | ok record =>
      rw [hrecord] at h
      have hunused := Except.ok.inj h
      simp only [Bool.or_eq_false_iff, Option.isSome_eq_false_iff] at hunused
      simp [bind, Except.bind, Option.isNone_iff_eq_none.mp hunused.1.1]

namespace SolverM

variable {S α β γ : Type} {s : Solver S α} {post other : Except Failure β → Solver S α → Prop}

/-- A call ends with a result and a state that satisfy `post`. -/
def Ends (m : SolverM S α β) (s : Solver S α) (post : Except Failure β → Solver S α → Prop) :
    Prop :=
  match m.run s with
  | .ok result next => post (.ok result) next
  | .error failure next => post (.error failure) next

/-- A result as `good` demands, without any failure. -/
def Returns (good : β → Solver S α → Prop) : Except Failure β → Solver S α → Prop
  | .ok result, next => good result next
  | .error _, _ => False

/-- A result as `good` demands; the only failure is to run out of steps, in a state as `out`
demands. -/
def ReturnsOr (out : Solver S α → Prop) (good : β → Solver S α → Prop) :
    Except Failure β → Solver S α → Prop
  | .ok result, next => good result next
  | .error .outOfSteps, next => out next
  | .error _, _ => False

theorem Ends.mono {m : SolverM S α β} (h : Ends m s post)
    (himp : ∀ result next, post result next → other result next) : Ends m s other := by
  unfold Ends at h ⊢
  cases hrun : m.run s with
  | ok result next => rw [hrun] at h; exact himp _ _ h
  | error failure next => rw [hrun] at h; exact himp _ _ h

theorem Ends.and {m : SolverM S α β} (h : Ends m s post) (h' : Ends m s other) :
    Ends m s fun result next => post result next ∧ other result next := by
  unfold Ends at *
  cases hrun : m.run s with
  | ok result next => rw [hrun] at h h'; exact ⟨h, h'⟩
  | error failure next => rw [hrun] at h h'; exact ⟨h, h'⟩

/-- A call that cannot fail. -/
theorem Ends.of_returns {m : SolverM S α β} {good : β → Solver S α → Prop}
    (h : Ends m s (Returns good))
    (hgood : ∀ result next, good result next → post (.ok result) next) : Ends m s post := by
  refine h.mono fun result next hresult => ?_
  match result, hresult with
  | .ok x, hx => exact hgood x next hx

/-- A call that can only run out of steps. -/
theorem Ends.of_returnsOr {m : SolverM S α β} {out : Solver S α → Prop}
    {good : β → Solver S α → Prop} (h : Ends m s (ReturnsOr out good))
    (hout : ∀ next, out next → post (.error .outOfSteps) next)
    (hgood : ∀ result next, good result next → post (.ok result) next) : Ends m s post := by
  refine h.mono fun result next hresult => ?_
  match result, hresult with
  | .ok x, hx => exact hgood x next hx
  | .error .outOfSteps, hnext => exact hout next hnext

theorem Ends.of_ok {m : SolverM S α β} (h : Ends m s post) {result : β} {next : Solver S α}
    (hrun : m.run s = .ok result next) : post (.ok result) next := by
  unfold Ends at h
  rw [hrun] at h
  exact h

theorem Ends.of_error {m : SolverM S α β} (h : Ends m s post) {failure : Failure}
    {next : Solver S α} (hrun : m.run s = .error failure next) : post (.error failure) next := by
  unfold Ends at h
  rw [hrun] at h
  exact h

/-! ## Building blocks -/

@[simp] theorem ends_pure {result : β} :
    Ends (pure result : SolverM S α β) s post ↔ post (.ok result) s := Iff.rfl

/-- The second part of a call starts where the first one returned. -/
theorem ends_bind {m : SolverM S α γ} {f : γ → SolverM S α β} :
    Ends (m >>= f) s post ↔ Ends m s fun result next =>
      match result with
      | .ok x => Ends (f x) next post
      | .error failure => post (.error failure) next := by
  unfold Ends
  change (match EStateM.bind m f s with | .ok _ _ => _ | .error _ _ => _) ↔ _
  unfold EStateM.bind
  change _ ↔ (match m s with | .ok _ _ => _ | .error _ _ => _)
  cases m s <;> rfl

/-- A first part that cannot fail. -/
theorem Ends.bind {m : SolverM S α γ} {f : γ → SolverM S α β} {good : γ → Solver S α → Prop}
    (h : Ends m s (Returns good)) (hrest : ∀ x next, good x next → Ends (f x) next post) :
    Ends (m >>= f) s post := by
  rw [ends_bind]
  exact h.of_returns hrest

/-- A first part that can only run out of steps. -/
theorem Ends.bindOr {m : SolverM S α γ} {f : γ → SolverM S α β} {out : Solver S α → Prop}
    {good : γ → Solver S α → Prop} (h : Ends m s (ReturnsOr out good))
    (hout : ∀ next, out next → post (.error .outOfSteps) next)
    (hrest : ∀ x next, good x next → Ends (f x) next post) : Ends (m >>= f) s post := by
  rw [ends_bind]
  exact h.of_returnsOr hout hrest

@[simp] theorem ends_get {post : Except Failure (Solver S α) → Solver S α → Prop} :
    Ends (get : SolverM S α (Solver S α)) s post ↔ post (.ok s) s := Iff.rfl

@[simp] theorem ends_modify {f : Solver S α → Solver S α}
    {post : Except Failure Unit → Solver S α → Prop} :
    Ends (modify f : SolverM S α Unit) s post ↔ post (.ok ()) (f s) := Iff.rfl

@[simp] theorem ends_throw {failure : Failure} :
    Ends (throw failure : SolverM S α β) s post ↔ post (.error failure) s := Iff.rfl

@[simp] theorem ends_refuse {cause : SolverError} :
    Ends (refuse cause : SolverM S α β) s post ↔ post (.error (.error cause)) s := Iff.rfl

@[simp] theorem ends_lift {x : β} :
    Ends (liftM (Except.ok x : Except Failure β) : SolverM S α β) s post ↔ post (.ok x) s := Iff.rfl

@[simp] theorem ends_lift_failed {failure : Failure} :
    Ends (liftM (Except.error failure : Except Failure β) : SolverM S α β) s post ↔
      post (.error failure) s := Iff.rfl

@[simp] theorem ends_lift_access {x : β} :
    Ends (liftM (Except.ok x : Except AccessFault β) : SolverM S α β) s post ↔ post (.ok x) s :=
  Iff.rfl

@[simp] theorem ends_lift_answer {x : β} :
    Ends (liftM (Except.ok x : Except SolverError β) : SolverM S α β) s post ↔ post (.ok x) s :=
  Iff.rfl

@[simp] theorem ends_lift_refused {cause : SolverError} :
    Ends (liftM (Except.error cause : Except SolverError β) : SolverM S α β) s post ↔
      post (.error (.error cause)) s := Iff.rfl

/-- A failed call is taken up where it left the state. -/
theorem ends_tryCatch {m : SolverM S α β} {handle : Failure → SolverM S α β} :
    Ends (tryCatch m handle) s post ↔ Ends m s fun result next =>
      match result with
      | .ok x => post (.ok x) next
      | .error failure => Ends (handle failure) next post := by
  unfold Ends
  change (match EStateM.tryCatch m handle s with | .ok _ _ => _ | .error _ _ => _) ↔ _
  unfold EStateM.tryCatch
  change _ ↔ (match m s with | .ok _ _ => _ | .error _ _ => _)
  cases m s <;> rfl

/-- A call for each element of a list starts with the first element. -/
theorem ends_forM_cons {δ : Type} {x : δ} {xs : List δ} {f : δ → SolverM S α Unit}
    {done : Except Failure Unit → Solver S α → Prop} :
    Ends ((x :: xs).forM f) s done ↔ Ends (f x >>= fun _ => xs.forM f) s done := Iff.rfl

section Steps

variable {done : Except Failure Unit → Solver S α → Prop}

@[simp] theorem ends_report {events : List (Event α)} :
    Ends (report events) s done ↔
      done (.ok ()) { s with journal := s.journal ++ events.toArray } := Iff.rfl

@[simp] theorem ends_enter {state : State} :
    Ends (enter state) s done ↔ done (.ok ()) { s with state } := Iff.rfl

@[simp] theorem ends_count {change : Counters → Counters} :
    Ends (count change) s done ↔ done (.ok ()) { s with counters := change s.counters } := Iff.rfl

@[simp] theorem ends_tableau {post : Except Failure (Tableau S α) → Solver S α → Prop} :
    Ends tableau s post ↔ post (.ok s.tableau) s := Iff.rfl

@[simp] theorem ends_setTableau {t : Tableau S α} :
    Ends (setTableau t) s done ↔ done (.ok ()) { s with tableau := t } := Iff.rfl

@[simp] theorem ends_modifyGoal {change : Goal α → Goal α} :
    Ends (modifyGoal change) s done ↔
      done (.ok ()) { s with tableau := { s.tableau with goal := change s.tableau.goal } } := Iff.rfl

@[simp] theorem ends_setRegistry {registry : Registry α} :
    Ends (setRegistry registry) s done ↔
      done (.ok ()) { s with tableau := { s.tableau with registry } } := Iff.rfl

/-- A variable that may be released. -/
theorem ends_releaseId {id : VariableId} (h : s.tableau.registry.checkReleased id = .ok ()) :
    Ends (releaseId id) s done ↔ done (.ok ())
      { s with tableau := { s.tableau with registry := s.tableau.registry.releaseId id } } := by
  unfold releaseId
  simp only [ends_bind, ends_tableau]
  rw [h]
  exact Iff.rfl

/-- A change of the tableau that succeeds. -/
theorem ends_update {change : Tableau S α → Except Failure (Tableau S α)} {t : Tableau S α}
    (h : change s.tableau = .ok t) :
    Ends (update change) s done ↔ done (.ok ()) { s with tableau := t } := by
  unfold update
  simp only [ends_bind, ends_tableau]
  rw [h]
  exact Iff.rfl

/-- A solved row that was substituted and added. -/
theorem ends_adopt [Scalar α] [RowStore S α] {subject : VariableId} {row : Row S α}
    {t : Tableau S α}
    (h : (do (← s.tableau.substitute subject row).insertRow row) = .ok t) :
    Ends (adopt subject row) s done ↔ done (.ok ()) { s with tableau := t } := by
  refine ends_update ?_
  cases hsubstitute : s.tableau.substitute subject row with
  | error fault => rw [hsubstitute] at h; cases h
  | ok substituted =>
      rw [hsubstitute] at h
      have hinsert : substituted.insertRow row = .ok t := h
      simp only [liftM, monadLift, MonadLift.monadLift, mapError_eq, bind, Except.bind, hinsert]

/-- A row that was dropped. -/
theorem ends_dropRow [Scalar α] [RowStore S α] {id : RowId} {row : Row S α} {t : Tableau S α}
    {post : Except Failure (Row S α) → Solver S α → Prop}
    (h : s.tableau.dropRow id = .ok (row, t)) :
    Ends (dropRow id) s post ↔ post (.ok row) { s with tableau := t } := by
  unfold dropRow
  simp only [ends_bind, ends_tableau]
  rw [h]
  exact Iff.rfl

end Steps

section Creation

variable [Scalar α] {post : Except Failure Variable → Solver S α → Prop}

theorem ends_create {name : String} {kind : VariableKind} (hr : s.tableau.registry.Sound) :
    Ends (create name kind) s post ↔
      post (.ok (s.tableau.registry.create name kind).1)
        { s with
          tableau := { s.tableau with registry := (s.tableau.registry.create name kind).2 }
          journal := s.journal ++
            #[.created (s.tableau.registry.create name kind).1.id name] } := by
  unfold create
  simp only [ends_bind, ends_tableau]
  rw [hr.checkFree]
  exact Iff.rfl

theorem ends_createError {name : String} {strength : Strength} (hr : s.tableau.registry.Sound) :
    Ends (createError name strength) s post ↔
      post (.ok (s.tableau.registry.createError name strength).1)
        { s with
          tableau := { s.tableau with
            registry := (s.tableau.registry.createError name strength).2 }
          journal := s.journal ++
            #[.created (s.tableau.registry.createError name strength).1.id name] } := by
  unfold createError
  simp only [ends_bind, ends_tableau]
  rw [hr.checkFree]
  exact Iff.rfl

end Creation

end SolverM

end LexSimplex
