import LexSimplex.Proofs.Handles
import LexSimplex.Proofs.History
import LexSimplex.Proofs.Parts
import LexSimplex.Proofs.Storage.Agreement
import LexSimplex.Proofs.Transfer.Calls
import LexSimplex.Proofs.Unrefused

/-!
# The states of a solver

A solver is empty, being built, optimising or solved.  Each call sets the state on its own, at
several places, and may come back early.  Still the state says what a caller relies on, after every
call that comes back, be it answered or refused (`state_tells`):

* a solver is never left optimising, as a loop that was started is not refused;
* in a solved solver the stored values are the current ones: a call that changes the rows or brings
  a variable goes back to building first;
* an empty solver has no variables, no rows, no constraints and no goal.

The three parts are carried from call to call by one invariant (`Solver.Orderly`).  Of the scalars
nothing is used but that zero is not less than itself.
-/

namespace LexSimplex

namespace SolverM

/-- A call came back, with an answer or a refusal. -/
def Returned {β : Type} : Except Failure β → Prop
  | .ok _ | .error (.error _) => True
  | .error _ => False

section Reaching

variable {S α β γ : Type} {s : Solver S α} {I J : Solver S α → Prop}

/-- A call leaves a solver as demanded whenever it comes back. -/
def Reaches (call : SolverM S α β) (s : Solver S α) (I : Solver S α → Prop) : Prop :=
  Ends call s fun result next => Returned result → I next

/-- A condition on solvers that a call keeps. -/
def Maintains (I : Solver S α → Prop) (call : SolverM S α β) : Prop :=
  ∀ s, I s → Reaches call s I

theorem Reaches.mono {call : SolverM S α β} (h : Reaches call s I)
    (himp : ∀ next, I next → J next) : Reaches call s J :=
  Ends.mono h fun _ next hnext hback => himp next (hnext hback)

theorem Reaches.bind {first : SolverM S α γ} {rest : γ → SolverM S α β} (hfirst : Reaches first s I)
    (hrest : ∀ x, Maintains I (rest x)) : Reaches (first >>= rest) s I := by
  unfold Reaches
  rw [ends_bind]
  refine Ends.mono hfirst ?_
  rintro (failure | x) next hnext
  · cases failure <;> exact hnext
  · exact hrest x next (hnext trivial)

theorem sequential_maintains (I : Solver S α → Prop) :
    Sequential fun β (call : SolverM S α β) => Maintains I call where
  pure _ _ hs _ := hs
  throw _ _ hs _ := hs
  get _ hs _ := hs
  bind hfirst hrest s hs := (hfirst s hs).bind hrest

/-- A handler that takes up refusals only. -/
theorem Maintains.tryCatch {call : SolverM S α β} {handler : Failure → SolverM S α β}
    (hcall : Maintains I call) (hhandler : ∀ cause, Maintains I (handler (.error cause)))
    (hother : ∀ failure, (∀ cause, failure ≠ .error cause) → handler failure = throw failure) :
    Maintains I (tryCatch call handler) := by
  intro s hs
  unfold Reaches
  rw [ends_tryCatch]
  refine Ends.mono (hcall s hs) ?_
  rintro (failure | x) next hnext
  · show Reaches (handler failure) next I
    cases failure with
    | error cause => exact hhandler cause next (hnext trivial)
    | _ =>
        rw [hother _ (by simp)]
        exact False.elim
  · exact hnext

/-- A loop that is not refused, with what follows its end. -/
theorem reaches_of_unrefused {x : Except Failure γ} {rest : γ → SolverM S α β} (hx : Unrefused x)
    (hrest : ∀ value, Reaches (rest value) s I) : Reaches (liftM x >>= rest) s I := by
  cases x with
  | ok value => exact hrest value
  | error failure =>
      cases failure with
      | error cause => exact absurd rfl (hx cause)
      | _ => exact False.elim

end Reaching

/-! ## Back to building -/

section Building

variable {S α : Type} {s : Solver S α}

/-- The state between the steps of a call that changes the tableau. -/
abbrev Building (s : Solver S α) : Prop := s.state = .building

theorem building_update (change : Tableau S α → Except Failure (Tableau S α)) :
    Maintains Building (update change) := by
  intro s hs
  unfold Reaches update
  simp only [ends_bind, ends_tableau]
  cases change s.tableau <;> exact fun _ => hs

theorem building_dropRow (id : RowId) :
    Maintains Building (dropRow id : SolverM S α (Row S α)) := by
  intro s hs
  unfold Reaches dropRow
  simp only [ends_bind, ends_tableau]
  cases s.tableau.dropRow id <;> exact fun _ => hs

variable [Scalar α] [RowStore S α]

/-- A loop for an objective that is there is left in the state of building. -/
theorem optimize_building (hzero : ¬(0 : α) < 0) {which : Objective}
    (h : s.tableau.Pursues which) (limit : Nat) : Reaches (optimize which limit) s Building := by
  have hloop : Unrefused (s.tableau.optimize which limit) :=
    Tableau.optimize_unrefused hzero h limit
  show Reaches (liftM (s.tableau.optimize which limit) >>= fun course => _)
    { s with state := .optimizing } Building
  exact reaches_of_unrefused hloop fun course _ => rfl

/-- All parts of a call but the dual loop lead from building to building. -/
theorem closed_building (hzero : ¬(0 : α) < 0) :
    Closed fun β (call : SolverM S α β) => Maintains Building call where
  toSequential := sequential_maintains Building
  tryCatch := Maintains.tryCatch
  modify _ _ hstate s hs _ := (hstate s).elim (fun h => h.trans hs) id
  leavePhaseOne hrest s hs := hrest s.tableau _ hs
  phaseOne row limit := by
    intro s _
    unfold Reaches update
    simp only [ends_bind, ends_tableau]
    cases hinsert : { s.tableau with artificial := some (.ofRow row .equality) }.insertRow row with
    | error fault => exact False.elim
    | ok t =>
        refine optimize_building hzero (Tableau.pursues_artificial_iff.mpr ?_) limit
        show t.artificial.isSome
        rw [Tableau.artificial_insertRow hinsert]
        rfl
  adopt _ _ := building_update _
  eliminate _ _ := building_update _
  dropRow := building_dropRow

/-- Optimising again leads to building from any state. -/
theorem reoptimize_building (hzero : ¬(0 : α) < 0) (hsearch : RowStore.Searchable S)
    (s : Solver S α) (limit : Nat) : Reaches (reoptimize limit) s Building := by
  have hloop : Unrefused (s.tableau.dualOptimize limit) :=
    Tableau.dualOptimize_unrefused hsearch s.tableau limit
  unfold reoptimize dualOptimize
  simp only [bind_assoc]
  show Reaches (liftM (s.tableau.dualOptimize limit) >>= fun course => _) s Building
  refine reaches_of_unrefused hloop fun course => ?_
  exact (optimize_building hzero Tableau.pursues_main limit).bind fun _ _ hs _ => hs

/-- A declaration starts by going back to building, from any state. -/
theorem declare_building (hzero : ¬(0 : α) < 0) (name : String) (kind : DeclaredKind) :
    Reaches (declare name kind) s Building :=
  (closed_building hzero).declare name kind { s with state := .building } rfl

/-- An addition whose handles are current is built from any state. -/
theorem accept_building (hzero : ¬(0 : α) < 0) {c : Constraint α} {terms : List (α × VariableId)}
    (h : resolveTerms s.tableau.registry c.expression.terms = .ok terms) (limit : Nat) :
    Reaches (accept c limit) s Building := by
  -- The state is overwritten before anything is changed, so it may as well be building.
  have hstart := (closed_building hzero).accept c limit { s with state := .building } rfl
  unfold Reaches accept at hstart ⊢
  simp only [ends_bind, ends_tableau] at hstart ⊢
  rw [h] at hstart ⊢
  exact hstart

/-- A removal whose handle is known is built from any state. -/
theorem withdraw_building (hzero : ¬(0 : α) < 0) {handle : ConstraintHandle} {tag : Tag α}
    (h : s.tag handle = .ok tag) : Reaches (withdraw handle) s Building := by
  have hstart := (closed_building hzero).withdraw handle { s with state := .building } rfl
  have htag : { s with state := .building }.tag handle = .ok tag := h
  unfold Reaches withdraw at hstart ⊢
  simp only [ends_bind, ends_get] at hstart ⊢
  rw [htag] at hstart
  rw [h]
  exact hstart

end Building

end SolverM

/-! ## What the state tells -/

/-- What can be told from the state between two calls. -/
structure Solver.Orderly {S α : Type} [Scalar α] (s : Solver S α) : Prop where
  idle : s.state ≠ .optimizing
  stored : s.state = .solved → ∀ v record, s.tableau.registry.get? v = some record →
    record.value = s.tableau.value v
  blank : s.state = .empty → (∃ session, s.tableau = .start session) ∧ s.constraints = .empty

namespace Solver.Orderly

variable {S α : Type} [Scalar α] {s : Solver S α}

theorem of_building (h : s.state = .building) : s.Orderly where
  idle := by rw [h]; decide
  stored hsolved := by rw [h] at hsolved; cases hsolved
  blank hempty := by rw [h] at hempty; cases hempty

theorem of_blank (session : SessionId) (hstate : s.state = .empty)
    (htableau : s.tableau = .start session) (hconstraints : s.constraints = .empty) :
    s.Orderly where
  idle := by rw [hstate]; decide
  stored hsolved := by rw [hstate] at hsolved; cases hsolved
  blank _ := ⟨⟨session, htableau⟩, hconstraints⟩

/-- Values that were just stored are the current ones. -/
theorem of_storeValues {t : Tableau S α} (hstate : s.state = .solved)
    (htableau : s.tableau = t.storeValues) : s.Orderly where
  idle := by rw [hstate]; decide
  stored := by
    intro _ v record hrecord
    have hget : s.tableau.registry.get? v = (t.registry.get? v).map fun record =>
        { record with value := t.valueBy record.definition } := by
      rw [htableau]
      exact Registry.get?_mapRecords _ _ v
    have hvalue : s.tableau.value v = t.valueBy record.definition := by
      unfold Tableau.value
      rw [hrecord, htableau]
      rfl
    rw [hget] at hrecord
    obtain ⟨before, -, rfl⟩ := Option.map_eq_some_iff.mp hrecord
    exact hvalue.symm
  blank hempty := by rw [hstate] at hempty; cases hempty

/-- Releasing a variable leaves the values of the others as they are. -/
theorem releaseId (h : s.Orderly) {id : VariableId} (hlive : (s.tableau.registry.get? id).isSome) :
    { s with tableau := { s.tableau with
      registry := s.tableau.registry.releaseId id } }.Orderly where
  idle := h.idle
  stored := by
    intro hsolved v record hrecord
    replace hrecord : (s.tableau.registry.releaseId id).get? v = some record := hrecord
    have hget := Registry.get?_releaseId s.tableau.registry id v
    rw [hrecord] at hget
    split at hget
    next => cases hget
    next =>
      rw [h.stored hsolved v record hget.symm]
      show s.tableau.valueBy _ = s.tableau.valueBy _
      rw [hrecord, ← hget]
  blank := by
    -- There is no variable to be released in an empty solver.
    intro hempty
    obtain ⟨⟨session, hstart⟩, -⟩ := h.blank hempty
    rw [hstart] at hlive
    cases hlive

/-- The storage of the rows does not matter. -/
theorem mapStore {T : Type} [RowStore S α] [RowStore T α] (m : StoreMap S T α) (h : s.Orderly) :
    (s.mapStore m).Orderly where
  idle := h.idle
  stored hsolved v record hrecord :=
    (h.stored hsolved v record hrecord).trans (s.tableau.value_mapStore m v).symm
  blank := by
    intro hempty
    obtain ⟨⟨session, hstart⟩, hnone⟩ := h.blank hempty
    refine ⟨⟨session, ?_⟩, hnone⟩
    show s.tableau.mapStore m = .start session
    rw [hstart, Tableau.start_mapStore]

end Solver.Orderly

open SolverM

section Runs

variable {S α : Type} [Scalar α] [RowStore S α] {s : Solver S α}

/-- A call that comes back leaves an orderly solver. -/
theorem Call.perform_orderly (hzero : ¬(0 : α) < 0) (hsearch : RowStore.Searchable S)
    (call : Call α) (limit : Nat) :
    Maintains Solver.Orderly (call.perform limit : SolverM S α (Reply α)) := by
  intro s h
  have hreads := sequential_maintains (S := S) (α := α) Solver.Orderly
  have hbuilds := closed_building (S := S) hzero
  cases call with
  | declare name kind =>
      have hdeclare := declare_building (s := s) hzero name kind
      exact Reaches.mono (hdeclare.bind fun _ => hbuilds.pure _) fun _ => .of_building
  | add c =>
      cases hresolved : resolveTerms s.tableau.registry c.expression.terms with
      | error cause =>
          refine ends_bind.mpr ((add_of_unresolved hresolved limit).mono ?_)
          rintro _ next ⟨rfl, rfl⟩ _
          exact h
      | ok terms =>
          rw [perform, add_eq_accept]
          simp only [bind_assoc]
          have haccept := accept_building hzero hresolved limit
          refine Reaches.mono (haccept.bind fun _ next _ => ?_) fun _ => .of_building
          refine (reoptimize_building hzero hsearch next limit).bind fun _ => ?_
          exact hbuilds.bind hbuilds.get fun _ => hbuilds.pure _
  | remove handle =>
      cases htag : s.tag handle with
      | error cause =>
          refine ends_bind.mpr ((remove_of_unknown htag limit).mono ?_)
          rintro _ next ⟨rfl, rfl⟩ _
          exact h
      | ok tag =>
          rw [perform, remove_eq_withdraw]
          simp only [bind_assoc]
          have hwithdraw := withdraw_building hzero htag
          refine Reaches.mono (hwithdraw.bind fun _ next _ => ?_) fun _ => .of_building
          exact (reoptimize_building hzero hsearch next limit).bind fun _ => hbuilds.pure _
  | resolve =>
      rw [perform, SolverM.resolve]
      simp only [bind_assoc]
      have hreoptimize := (reoptimize_building hzero hsearch s limit).mono fun _ =>
        Solver.Orderly.of_building
      exact hreoptimize.bind fun _ _ _ _ => .of_storeValues rfl rfl
  | release v =>
      refine ends_bind.mpr ((release_cases v).mono ?_)
      rintro (failure | _) next hnext
      · obtain rfl := hnext.unchanged
        exact fun _ => h
      · obtain ⟨hresolve, -, -, rfl⟩ := hnext
        obtain ⟨-, -, -, hlive⟩ := Registry.resolve_eq_ok_iff.mp hresolve
        exact fun _ => h.releaseId hlive
  | reset session => exact fun _ => .of_blank session rfl rfl rfl
  | valueOf v => exact hreads.bind (hreads.valueOf v) (fun _ => hreads.pure _) s h
  | errorVariables handle =>
      exact hreads.bind (hreads.errorVariables handle) (fun _ => hreads.pure _) s h
  | strengthOf handle => exact hreads.bind (hreads.strengthOf handle) (fun _ => hreads.pure _) s h

variable {settings : Settings} {session : SessionId} {turns : List (Turn α)}

theorem Run.orderly_of_searchable (hzero : ¬(0 : α) < 0) (hsearch : RowStore.Searchable S)
    (hrun : Run settings session turns s) : s.Orderly := by
  induction hrun with
  | start => exact .of_blank session rfl rfl rfl
  | @answered turns s next call reply limit hrun hperform ih =>
      exact Ends.of_ok (call.perform_orderly hzero hsearch limit s ih) hperform trivial
  | @refused turns s next call cause limit hrun hperform ih =>
      exact Ends.of_error (call.perform_orderly hzero hsearch limit s ih) hperform trivial

variable [LawfulStore S α]

/-- Every history of calls that come back leaves an orderly solver. -/
theorem Run.orderly (hzero : ¬(0 : α) < 0) (hrun : Run settings session turns s) : s.Orderly := by
  obtain ⟨pair, hpair, rfl⟩ := Run.exists_of_mapStore (Paired.toStore S α) hrun
  have horderly := hpair.orderly_of_searchable hzero (RowStore.searchable_paired S α)
  exact horderly.mapStore (Paired.toStore S α)

/-- Between calls a solver is not optimising.  If it is solved, every live variable has its current
value stored; if it is empty, there is no variable, no row, no constraint and no goal. -/
theorem state_tells (hzero : ¬(0 : α) < 0) (hrun : Run settings session turns s) :
    s.state ≠ .optimizing ∧
      (s.state = .solved → ∀ entry ∈ s.tableau.registry.toList,
        entry.2.value = s.tableau.value entry.1) ∧
      (s.state = .empty → s.tableau.registry.toList = [] ∧ s.tableau.rowList = [] ∧
        s.constraints.toList = [] ∧ s.tableau.goal = .zero) := by
  have horderly := hrun.orderly hzero
  refine ⟨horderly.idle, fun hsolved entry hentry => ?_, fun hempty => ?_⟩
  · exact horderly.stored hsolved entry.1 entry.2 (Registry.mem_toList.mp hentry)
  · obtain ⟨⟨started, hstart⟩, hnone⟩ := horderly.blank hempty
    rw [hstart, hnone]
    exact ⟨rfl, rfl, rfl, rfl⟩

end Runs

/-- A width that should be 20, resolved in floating point.  The calls after that are refused: the
variable is in use, and there is no second constraint. -/
def resolvedCalls : List (Call Float) :=
  [.declare "width" .unrestricted,
    .add ⟨⟨-20, [(1, width)]⟩, .equal, some .low⟩,
    .resolve,
    .release width,
    .remove ⟨⟨0⟩, ⟨1⟩⟩]

/-- The resolved width with default settings. -/
def resolved : List (Turn Float) × Solver (Storage Float) Float :=
  (Solver.start {} ⟨0⟩).play 9 resolvedCalls

theorem state_tells_resolved :
    (¬(0 : Float) < 0) ∧ Run {} ⟨0⟩ resolved.1 resolved.2 ∧ resolved.2.state = .solved ∧
      resolved.2.tableau.registry.toList.length = 3 ∧
      ∀ entry ∈ resolved.2.tableau.registry.toList,
        entry.2.value = resolved.2.tableau.value entry.1 := by
  have hzero : ¬(0 : Float) < 0 := by decide
  have hrun : Run {} ⟨0⟩ resolved.1 resolved.2 := Run.start.play 9 resolvedCalls
  have hsolved : resolved.2.state = .solved := by decide +kernel
  exact ⟨hzero, hrun, hsolved, by decide +kernel, (state_tells hzero hrun).2.1 hsolved⟩

end LexSimplex
