import LexSimplex.Proofs.Frame
import LexSimplex.Proofs.History
import LexSimplex.Proofs.Parts

/-!
# The queue of rows to repair

A substitution queues exactly the rows that it rewrites and leaves out of range
(`Tableau.mem_infeasible_substitute`).  Only the dual loop takes rows from the queue and counts its
pivots; every other part of a call may add to the queue and leaves the count as it is
(`SolverM.closed_defers`).

So if the queue is empty when a call comes to its dual loop, then no substitution of the call put a
row out of range until then, the loop has nothing to do, and the count stays the same
(`SolverM.reoptimize_defers`, `Call.perform_defers`).

Nothing is assumed about the scalars or the storage of rows.
-/

namespace LexSimplex

theorem Worklist.mem_push {w : Worklist} {id j : RowId} :
    j ∈ (w.push id).rows ↔ j ∈ w.rows ∨ j = id := by
  unfold push
  split
  next hmem =>
    constructor
    · exact Or.inl
    · rintro (h | rfl)
      · exact h
      · exact hmem
  next => simp

/-! ## Tableaus -/

namespace Tableau

variable {S α : Type} {t next : Tableau S α}

theorem infeasible_define {v : Option VariableId} {definition : Option RowId}
    (h : t.define v definition = .ok next) : next.infeasible = t.infeasible := by
  obtain ⟨registry, rfl⟩ := define_parts h
  rfl

theorem infeasible_insertRow {row : Row S α} (h : t.insertRow row = .ok next) :
    next.infeasible = t.infeasible := by
  obtain ⟨registry, rows, holes, rfl⟩ := insertRow_parts h
  rfl

theorem infeasible_dropRow {id : RowId} {row : Row S α} (h : t.dropRow id = .ok (row, next)) :
    next.infeasible = t.infeasible := by
  obtain ⟨registry, rows, holes, rfl⟩ := dropRow_parts h
  rfl

variable [Scalar α]

/-- The row at a position gives its basic variable a value out of range. -/
def OutOfRange (t : Tableau S α) (id : RowId) : Prop :=
  ∃ row, t.row? id = some row ∧ t.isInfeasible row = .ok true

/-- A row is queued if it is out of range, and nothing else changes. -/
theorem queueIfInfeasible_parts {id : RowId} (h : t.queueIfInfeasible id = .ok next) :
    ∃ queue : Worklist, next = { t with infeasible := queue } ∧
      ∀ j, j ∈ queue.rows ↔ j ∈ t.infeasible.rows ∨ (j = id ∧ t.OutOfRange j) := by
  unfold queueIfInfeasible at h
  split at h
  next hrow =>
    cases h
    refine ⟨t.infeasible, rfl, fun j => ?_⟩
    simp only [OutOfRange, iff_self_or, and_imp]
    rintro rfl ⟨row, hfound, -⟩
    rw [hrow] at hfound
    cases hfound
  next row hrow =>
    obtain ⟨answer, hanswer, hnext⟩ := ok_of_bind h
    have hout : t.OutOfRange id ↔ answer = true := by
      unfold OutOfRange
      rw [hrow]
      simp [hanswer]
    cases answer with
    | true =>
        cases hnext
        refine ⟨t.infeasible.push id, rfl, fun j => ?_⟩
        rw [Worklist.mem_push]
        refine or_congr_right ⟨?_, And.left⟩
        rintro rfl
        exact ⟨rfl, hout.mpr rfl⟩
    | false =>
        cases hnext
        refine ⟨t.infeasible, rfl, fun j => ?_⟩
        simp only [iff_self_or, and_imp]
        rintro rfl hj
        exact absurd (hout.mp hj) (by simp)

theorem queueAll_parts {ids : List RowId} (h : ids.foldlM queueIfInfeasible t = .ok next) :
    ∃ queue : Worklist, next = { t with infeasible := queue } ∧
      ∀ j, j ∈ queue.rows ↔ j ∈ t.infeasible.rows ∨ (j ∈ ids ∧ t.OutOfRange j) := by
  induction ids generalizing t with
  | nil =>
      cases h
      exact ⟨next.infeasible, rfl, by simp⟩
  | cons id ids ih =>
      rw [List.foldlM_cons] at h
      obtain ⟨queued, hqueued, hrest⟩ := ok_of_bind h
      obtain ⟨first, rfl, hfirst⟩ := queueIfInfeasible_parts hqueued
      obtain ⟨queue, rfl, hqueue⟩ := ih hrest
      refine ⟨queue, rfl, fun j => ?_⟩
      -- Whether a row is out of range does not depend on the queue.
      have hsame : OutOfRange { t with infeasible := first } j ↔ t.OutOfRange j := Iff.rfl
      rw [hqueue, hfirst, hsame, List.mem_cons, or_and_right, or_assoc]

variable [RowStore S α]

/-- A substitution queues exactly the rows that it rewrites and leaves out of range. -/
theorem mem_infeasible_substitute {v : VariableId} {definition : Row S α}
    (h : t.substitute v definition = .ok next) (j : RowId) :
    j ∈ next.infeasible.rows ↔
      j ∈ t.infeasible.rows ∨ (j ∈ t.rowsMentioning v ∧ next.OutOfRange j) := by
  obtain ⟨queued, hqueued, hnext⟩ := ok_of_bind h
  cases hnext
  obtain ⟨queue, rfl, hqueue⟩ := queueAll_parts hqueued
  exact hqueue j

theorem infeasible_substitute {v : VariableId} {definition : Row S α}
    (h : t.substitute v definition = .ok next) : t.infeasible.rows ⊆ next.infeasible.rows :=
  fun j hj => (mem_infeasible_substitute h j).mpr (Or.inl hj)

theorem infeasible_pivot {entering : VariableId} {id : RowId} {exchange : Exchange}
    (h : t.pivot entering id = .ok (next, exchange)) :
    t.infeasible.rows ⊆ next.infeasible.rows := by
  obtain ⟨leaving, solved, taken, substituted, htaken, hsubstituted, hrestored⟩ := pivot_parts h
  have htakenQueue : taken.infeasible = t.infeasible := (infeasible_define htaken).trans rfl
  have hrestoredQueue : next.infeasible = substituted.infeasible :=
    (infeasible_define hrestored).trans rfl
  rw [hrestoredQueue, ← htakenQueue]
  exact infeasible_substitute hsubstituted

/-- The primal loop does not take rows from the queue. -/
theorem infeasible_optimize {which : Objective} {limit : Nat} {course : Course (Tableau S α)}
    (h : t.optimize which limit = .ok course) :
    t.infeasible.rows ⊆ course.final.infeasible.rows := by
  unfold optimize at h
  induction limit generalizing t course with
  | zero => cases h
  | succ limit ih =>
      rw [iterate_succ] at h
      obtain ⟨step, hstep, h⟩ := ok_of_bind h
      cases step with
      | halt final verdict =>
          cases h
          rw [final_of_primalStep hstep]
          exact List.Subset.refl _
      | proceed next exchange =>
          obtain ⟨rest, hrest, h⟩ := ok_of_bind h
          cases h
          obtain ⟨entering, id, made, hpivot⟩ := pivot_of_primalStep hstep
          have hafter : next.infeasible.rows ⊆ rest.final.infeasible.rows := ih hrest
          exact List.Subset.trans (infeasible_pivot hpivot) hafter

end Tableau

/-! ## Calls -/

/-- Rows that were to be repaired still are, and no pivot of the dual loop was made. -/
structure Solver.Defers {S α : Type} (s next : Solver S α) : Prop where
  queue : s.tableau.infeasible.rows ⊆ next.tableau.infeasible.rows
  dualPivots : next.counters.dualPivots = s.counters.dualPivots

namespace Solver.Defers

variable {S α : Type} {s next last : Solver S α}

theorem refl (s : Solver S α) : s.Defers s := ⟨List.Subset.refl _, rfl⟩

theorem trans (h : s.Defers next) (h' : next.Defers last) : s.Defers last :=
  ⟨List.Subset.trans h.queue h'.queue, h'.dualPivots.trans h.dualPivots⟩

end Solver.Defers

namespace SolverM

variable {S α β γ : Type} {s : Solver S α}

/-- A call leaves the queue to others. -/
def Defers (call : SolverM S α β) : Prop := ∀ s, Ends call s fun _ next => s.Defers next

/-- A first part that leaves the queue to others on one solver at least. -/
theorem ends_bind_defers {first : SolverM S α γ} {rest : γ → SolverM S α β}
    (hfirst : Ends first s fun _ next => s.Defers next) (hrest : ∀ x, Defers (rest x)) :
    Ends (first >>= rest) s fun _ next => s.Defers next := by
  rw [ends_bind]
  refine hfirst.mono ?_
  rintro (failure | x) next hnext
  · exact hnext
  · exact (hrest x next).mono fun _ _ hlast => hnext.trans hlast

theorem Defers.bind {first : SolverM S α γ} {rest : γ → SolverM S α β} (hfirst : Defers first)
    (hrest : ∀ x, Defers (rest x)) : Defers (first >>= rest) :=
  fun s => ends_bind_defers (hfirst s) hrest

theorem Defers.tryCatch {call : SolverM S α β} {handler : Failure → SolverM S α β}
    (hcall : Defers call) (hhandler : ∀ failure, Defers (handler failure)) :
    Defers (tryCatch call handler) := by
  intro s
  rw [ends_tryCatch]
  refine (hcall s).mono ?_
  rintro (failure | x) next hnext
  · exact (hhandler failure next).mono fun _ _ hlast => hnext.trans hlast
  · exact hnext

theorem defers_update {change : Tableau S α → Except Failure (Tableau S α)}
    (h : ∀ t next, change t = .ok next → t.infeasible.rows ⊆ next.infeasible.rows) :
    Defers (update change) := by
  intro s
  unfold update
  simp only [ends_bind, ends_tableau]
  cases hchange : change s.tableau with
  | error failure => exact Solver.Defers.refl s
  | ok next => exact ⟨h _ _ hchange, rfl⟩

theorem defers_dropRow (id : RowId) : Defers (dropRow id : SolverM S α (Row S α)) := by
  intro s
  unfold dropRow
  simp only [ends_bind, ends_tableau]
  cases hdrop : s.tableau.dropRow id with
  | error failure => exact Solver.Defers.refl s
  | ok dropped =>
      refine ⟨?_, rfl⟩
      show s.tableau.infeasible.rows ⊆ dropped.2.infeasible.rows
      rw [Tableau.infeasible_dropRow hdrop]
      exact List.Subset.refl _

variable [Scalar α] [RowStore S α]

theorem defers_optimize (which : Objective) (limit : Nat) :
    Defers (optimize which limit : SolverM S α Outcome) := by
  intro s
  unfold optimize follow
  simp only [ends_bind, ends_enter, ends_tableau]
  cases hloop : s.tableau.optimize which limit with
  | error failure => exact ⟨List.Subset.refl _, rfl⟩
  | ok course => exact ⟨Tableau.infeasible_optimize hloop, rfl⟩

theorem defers_adopt (subject : VariableId) (row : Row S α) : Defers (adopt subject row) := by
  refine defers_update fun t next h => ?_
  obtain ⟨substituted, hsubstituted, h⟩ := ok_of_bind h
  rw [Tableau.infeasible_insertRow (ok_of_lift_access h)]
  exact Tableau.infeasible_substitute (ok_of_lift_access hsubstituted)

/-- All parts of a call but the dual loop leave the queue to others. -/
theorem closed_defers : Closed (@Defers S α) where
  pure _ s := Solver.Defers.refl s
  throw _ s := Solver.Defers.refl s
  get s := Solver.Defers.refl s
  bind := Defers.bind
  tryCatch := by
    intro β call handler hcall hhandler hother
    refine hcall.tryCatch fun failure => ?_
    cases failure with
    | error cause => exact hhandler cause
    | _ =>
        rw [hother _ (by simp)]
        exact fun s => Solver.Defers.refl s
  modify hqueue hcount _ s := ⟨by rw [hqueue]; exact List.Subset.refl _, hcount s⟩
  leavePhaseOne := by
    intro β rest hrest s
    simp only [ends_bind, ends_tableau, ends_setTableau]
    have hkept : s.Defers { s with tableau := { s.tableau with artificial := none } } :=
      ⟨List.Subset.refl _, rfl⟩
    exact (hrest _ _).mono fun _ _ hlast => hkept.trans hlast
  phaseOne row limit := by
    refine (defers_update fun t next h => ?_).bind fun _ => defers_optimize _ limit
    rw [Tableau.infeasible_insertRow (ok_of_lift_access h)]
    exact List.Subset.refl _
  adopt := defers_adopt
  eliminate v row := defers_update fun _ _ h => Tableau.infeasible_substitute (ok_of_lift_access h)
  dropRow := defers_dropRow

/-- Reoptimising defers if there is nothing to repair. -/
theorem reoptimize_defers (hsettled : s.tableau.infeasible = .empty) (limit : Nat) :
    Ends (reoptimize limit) s fun _ next => s.Defers next := by
  -- The dual loop, which alone takes rows from the queue, halts at once.
  unfold reoptimize dualOptimize follow
  simp only [ends_bind, ends_tableau]
  rcases Tableau.dualOptimize_settled hsettled limit with ⟨-, hout⟩ | hcourse
  · rw [hout]
    exact Solver.Defers.refl s
  · rw [hcourse]
    simp only [ends_lift, ends_setTableau, ends_report, ends_count, ends_pure]
    refine (defers_optimize .main limit _).mono ?_
    rintro (failure | outcome) next hnext
    · exact ⟨hnext.queue, hnext.dualPivots⟩
    · exact ⟨hnext.queue, hnext.dualPivots⟩

/-- A call that reoptimises after its first part defers if that part left nothing to repair. -/
theorem reoptimized_defers {first : SolverM S α γ} {rest : γ → Outcome → SolverM S α β}
    {limit : Nat} (hfirst : Defers first) (hrest : ∀ x outcome, Defers (rest x outcome))
    (hsettled : (left first s).tableau.infeasible = .empty) :
    Ends (do
      let x ← first
      let outcome ← reoptimize limit
      rest x outcome) s fun _ next => s.Defers next := by
  have hstart : Ends first s fun _ next => s.Defers next ∧ next.tableau.infeasible = .empty :=
    (hfirst s).and (ends_iff_left.mpr hsettled)
  rw [ends_bind]
  refine hstart.mono ?_
  rintro (failure | x) next ⟨hnext, hempty⟩
  · exact hnext
  · refine (ends_bind_defers (reoptimize_defers hempty limit) (hrest x)).mono ?_
    exact fun _ _ hlast => hnext.trans hlast

end SolverM

namespace Call

open SolverM

variable {S α : Type} [Scalar α] [RowStore S α] {s : Solver S α}

/-- A call makes no pivots of the dual loop if the queue is empty when the call comes to it. -/
theorem perform_defers (call : Call α) (limit : Nat)
    (hsettled : (left (call.opening limit) s).tableau.infeasible = .empty) :
    Ends (call.perform limit) s fun _ next => s.Defers next := by
  have hclosed : Closed (@Defers S α) := closed_defers
  cases call with
  | declare name kind => exact hclosed.bind (hclosed.declare name kind) (fun _ => hclosed.pure _) s
  | add c =>
      rw [perform, add_eq_accept]
      simp only [bind_assoc]
      refine reoptimized_defers (hclosed.accept c limit) (fun _ _ => ?_) ?_
      · exact hclosed.bind hclosed.get fun _ => hclosed.pure _
      · rwa [opening, left_discard] at hsettled
  | remove handle =>
      rw [perform, remove_eq_withdraw]
      simp only [bind_assoc]
      exact reoptimized_defers (hclosed.withdraw handle) (fun _ _ => hclosed.pure _) hsettled
  | resolve =>
      refine ends_bind_defers (ends_bind_defers (reoptimize_defers hsettled limit) fun _ s => ?_)
        fun _ => hclosed.pure _
      -- Storing the values and reporting them leaves the queue and the counter as they are.
      exact ⟨List.Subset.refl _, rfl⟩
  | release v => exact hclosed.bind (hclosed.release v) (fun _ => hclosed.pure _) s
  | reset session =>
      -- A reset empties the queue, which was empty before.
      refine ⟨?_, rfl⟩
      have hempty : s.tableau.infeasible = .empty := hsettled
      rw [hempty]
      exact List.nil_subset _
  | valueOf v => exact hclosed.bind (hclosed.valueOf v) (fun _ => hclosed.pure _) s
  | errorVariables handle =>
      exact hclosed.bind (hclosed.errorVariables handle) (fun _ => hclosed.pure _) s
  | strengthOf handle => exact hclosed.bind (hclosed.strengthOf handle) (fun _ => hclosed.pure _) s

end Call

end LexSimplex
