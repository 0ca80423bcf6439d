import LexSimplex.Proofs.DualRatio
import LexSimplex.Proofs.Exact.Optimality

/-!
# The dual loop brings rows back into range

The loop takes rows from the queue and brings them back into range by pivots, which may put other rows
out of range.  No such row is forgotten: as long as the loop goes on, every row out of range is queued
(`dualStep_spec`).  A row taken from the queue is in range already, or the pivot through it puts it in
range and queues every other row that it puts out of range (`Repairable.exchange`), or the loop gives
up.

Giving up is sound.  A negative row that cannot be repaired has no positive coefficient on a variable
that can enter, so no feasible point makes it larger than its constant (`not_feasible_of_negative`);
the row of a pinned variable has its constant as the value at every feasible point
(`not_feasible_of_pinned`).

Nothing is asked of the objectives.
-/

namespace LexSimplex

/-- A right-hand side none of whose terms is positive is at most its constant. -/
theorem Row.eval_le_constant {row : Row LinearForm Rat} {a : Assignment Rat}
    (h : ∀ v, row.coefficient v ≠ 0 → row.coefficient v * a v ≤ 0) : row.eval a ≤ row.constant := by
  have hentries : ∀ entry ∈ row.entries, entry.2 * a entry.1 ≤ 0 := by
    intro entry hentry
    obtain ⟨hcoefficient, hne⟩ := mem_entries.mp hentry
    rw [← hcoefficient] at hne ⊢
    exact h entry.1 hne
  unfold eval
  revert hentries
  induction row.entries with
  | nil => exact fun _ => le_refl _
  | cons entry rest ih =>
      intro hentries
      have hfirst := hentries entry List.mem_cons_self
      have hrest := ih fun other hother => hentries other (List.mem_cons_of_mem _ hother)
      rw [List.foldr_cons]
      linarith

namespace Tableau

variable {t next : Tableau LinearForm Rat} {id : RowId} {row : Row LinearForm Rat}
  {entering : VariableId} {kind : VariableKind} {a : Assignment Rat}

/-! ## Rows that cannot be repaired -/

theorem Feasible.value_of_row (ha : t.Feasible a) (hrow : t.row? id = some row)
    (hkind : t.BasicOf row kind) : kind.Allows (row.eval a) := by
  obtain ⟨basic, hbasic, hbasicKind⟩ := Option.bind_eq_some_iff.mp hkind
  rw [← (Row.holds_of_basic hbasic).mp (holds_iff.mp ha.holds id row hrow)]
  exact ha.allows basic kind hbasicKind

/-- A negative row without a positive coefficient on a variable that can enter is negative at every
feasible point. -/
theorem not_feasible_of_negative (h : t.Reduced) (hapart : t.RestrictedApart)
    (hrow : t.row? id = some row) (hkind : t.BasicOf row kind) (hrestricted : kind ≠ .unrestricted)
    (hnegative : row.constant < 0)
    (hstuck : ∀ v, t.registry.CanEnter v → row.coefficient v ≤ 0) : ¬t.Feasible a := by
  intro ha
  have hvalue := (ha.value_of_row hrow hkind).nonneg hrestricted
  have hbound : row.eval a ≤ row.constant := by
    refine Row.eval_le_constant fun v hv => ?_
    obtain ⟨termKind, htermKind⟩ :=
      Option.isSome_iff_exists.mp (h.terms_free hrow hv).kindOf_isSome
    have hrange := ha.allows v termKind htermKind
    have hfree : termKind ≠ .unrestricted := by
      rintro rfl
      exact restrictedApart_iff.mp hapart id row kind hrow hkind hrestricted v hv htermKind
    by_cases hpinned : termKind = .constant
    · rw [hpinned] at hrange
      have hzero : a v = 0 := hrange
      rw [hzero, mul_zero]
    · have hcanEnter : t.registry.CanEnter v := by
        refine Registry.canEnter_iff.mpr ⟨termKind, htermKind, ?_⟩
        cases termKind <;> simp_all [VariableKind.canEnter]
      exact mul_nonpos_of_nonpos_of_nonneg (hstuck v hcanEnter) (hrange.nonneg hfree)
  linarith

/-- The row of a pinned variable has its constant as the value at every feasible point. -/
theorem not_feasible_of_pinned (hapart : t.PinnedApart) (hrow : t.row? id = some row)
    (hkind : t.BasicOf row .constant) (hconstant : row.constant ≠ 0) : ¬t.Feasible a := by
  intro ha
  have hvalue : row.eval a = 0 := ha.value_of_row hrow hkind
  have hsame : row.eval a = row.constant := by
    rw [← Row.eval_zero]
    refine Row.eval_congr fun v hv => ?_
    exact ha.allows v .constant (pinnedApart_iff.mp hapart id row hrow hkind v hv)
  exact hconstant (hsame.symm.trans hvalue)

/-! ## One row -/

/-- What the dual loop keeps: the conditions on the rows, and that every row out of range is waiting. -/
structure Repairable (t : Tableau LinearForm Rat) (waiting : List RowId) : Prop where
  reduced : t.Reduced
  restrictedApart : t.RestrictedApart
  pinnedApart : t.PinnedApart
  queued : ∀ j, t.OutOfRange j → j ∈ waiting

theorem Repairable.setQueue {waiting : List RowId} (h : t.Repairable waiting) (queue : Worklist) :
    Repairable { t with infeasible := queue } waiting where
  reduced := ⟨h.reduced.row_defines, h.reduced.defined_by_row, h.reduced.over_nonbasic⟩
  restrictedApart := h.restrictedApart
  pinnedApart := h.pinnedApart
  queued := h.queued

/-- The variable that a row out of range is repaired with, if there is one, and otherwise that there is
no feasible point. -/
theorem Repairable.exists_repairEntering {waiting : List RowId} (h : t.Repairable waiting)
    (hrow : t.row? id = some row) (hkind : t.BasicOf row kind)
    (hbroken : ¬kind.Allows row.constant) :
    ∃ choice, t.repairEntering row = .ok choice ∧ (choice = none → ∀ a, ¬t.Feasible a) ∧
      ∀ entering, choice = some entering → row.constant < 0 ∧ t.registry.CanEnter entering ∧
        0 < row.coefficient entering := by
  have hrestricted : kind ≠ .unrestricted := by
    rintro rfl
    exact hbroken trivial
  unfold repairEntering
  by_cases hnegative : row.constant < 0
  · rw [if_pos hnegative]
    obtain ⟨choice, hchoice, hnone, hsome⟩ := t.goal.exists_dualEntering row
      t.registry fun v hpositive => by
        obtain ⟨record, hrecord, -⟩ := h.reduced.terms_free hrow (ne_of_gt hpositive)
        rw [hrecord]
        rfl
    refine ⟨choice, hchoice, fun hempty a => ?_, fun entering hentering => ?_⟩
    · exact not_feasible_of_negative h.reduced h.restrictedApart hrow hkind hrestricted hnegative
        (hnone hempty)
    · obtain ⟨hcanEnter, hpositive, -⟩ := hsome entering hentering
      exact ⟨hnegative, hcanEnter, hpositive⟩
  · -- A value that is not negative is out of range only for a pinned variable.
    rw [if_neg hnegative]
    obtain rfl : kind = .constant := by
      by_contra hne
      exact hbroken (VariableKind.allows_of_nonneg hne (le_of_not_gt hnegative))
    exact ⟨none, rfl, fun _ a => not_feasible_of_pinned h.pinnedApart hrow hkind hbroken, by simp⟩

/-- The pivot puts the row in range, and every row that it puts out of range is queued. -/
theorem Repairable.exchange (h : t.Repairable (id :: t.infeasible.rows))
    (hrow : t.row? id = some row) (hkind : t.BasicOf row kind) (hrestricted : kind ≠ .unrestricted)
    (hnegative : row.constant < 0) (hcanEnter : t.registry.CanEnter entering)
    (hpositive : 0 < row.coefficient entering) (hr : Exchanged t next id entering row) :
    next.Repairable next.infeasible.rows := by
  obtain ⟨enteringKind, henteringKind, hmayEnter⟩ := Registry.canEnter_iff.mp hcanEnter
  have henteringKind : t.kindOf entering = some enteringKind := henteringKind
  have hunpinned : t.kindOf entering ≠ some .constant := by
    rw [henteringKind, ne_eq, Option.some.injEq]
    exact (canEnter_ne hmayEnter).2
  refine ⟨hr.reduced h.reduced hrow (ne_of_gt hpositive),
    hr.restrictedApart h.restrictedApart hrow hkind hrestricted,
    hr.pinnedApart h.pinnedApart hunpinned, fun j hout => ?_⟩
  obtain ⟨other, otherKind, hother, hotherKind, hbroken⟩ := outOfRange_position.mp hout
  rcases hr.basicOf_cases hother hotherKind with ⟨-, rfl, hsame⟩ | ⟨hj, old, hold, holdKind, rfl⟩
  · -- The solved row has a positive constant.
    rw [henteringKind, Option.some.injEq] at hsame
    refine absurd (VariableKind.allows_of_nonneg ?_ ?_) hbroken
    · exact hsame ▸ (canEnter_ne hmayEnter).2
    · rw [Row.constant_solved, div_neg, ← neg_div]
      exact div_nonneg (by linarith) (le_of_lt hpositive)
  · rw [hr.queue]
    by_cases hmentions : old.coefficient entering = 0
    · -- The row did not change, so that it was queued before.
      rw [Row.substitute_eq_self hmentions] at hbroken
      have hbefore := h.queued j (outOfRange_position.mpr ⟨old, otherKind, hold, holdKind, hbroken⟩)
      exact Or.inl ((List.mem_cons.mp hbefore).resolve_left hj)
    · exact Or.inr ⟨hj, ⟨old, hold, hmentions⟩, hout⟩

/-! ## Steps -/

/-- What the verdict of the dual loop says about the tableau that it started from and the one at which
it ends. -/
def Restored {S : Type} [RowStore S Rat] (t final : Tableau S Rat) : Verdict → Prop
  | .optimal => final.infeasible = .empty ∧ final.ValuesAllowed
  | .infeasible _ => final.BrokenQueued ∧
      ¬∃ a, t.Holds a ∧ ∀ v kind, t.registry.kind? v = some kind → kind.Allows (a v)
  | .unbounded _ => False

/-- A verdict about a tableau is one about all tableaus that agree with it. -/
theorem Agrees.restored {final : Tableau LinearForm Rat} (h : Agrees t next) {verdict : Verdict}
    (hnext : next.Restored final verdict) : t.Restored final verdict := by
  cases verdict with
  | optimal => exact hnext
  | infeasible id =>
      refine ⟨hnext.1, fun ⟨a, ha⟩ => hnext.2 ⟨a, (h.holds a).mpr ha.1, fun v kind hkind => ?_⟩⟩
      exact ha.2 v kind ((h.kindOf v).symm.trans hkind)
  | unbounded entering => exact hnext

theorem Agrees.setQueue (t : Tableau LinearForm Rat) (queue : Worklist) :
    Agrees t { t with infeasible := queue } :=
  ⟨fun _ => Iff.rfl, fun _ => rfl, rfl, fun _ => rfl, fun _ _ _ => rfl, (Agrees.refl t).artificial⟩

/-- What one step of the dual loop does. -/
def RepairOf (t : Tableau LinearForm Rat) : Step (Tableau LinearForm Rat) → Prop
  | .halt final verdict => Agrees t final ∧ t.Restored final verdict
  | .proceed next _ => Agrees t next ∧ next.Repairable next.infeasible.rows

theorem Agrees.repairOf (h : Agrees t next) {step : Step (Tableau LinearForm Rat)}
    (hstep : next.RepairOf step) : t.RepairOf step := by
  cases step with
  | halt final verdict => exact ⟨h.trans hstep.1, h.restored hstep.2⟩
  | proceed last exchange => exact ⟨h.trans hstep.1, hstep.2⟩

/-- A row that is in range or was dropped need not wait any longer. -/
theorem Repairable.skip (h : t.Repairable (id :: t.infeasible.rows)) (hid : ¬t.OutOfRange id) :
    t.RepairOf (.proceed t none) := by
  refine ⟨Agrees.refl t, h.reduced, h.restrictedApart, h.pinnedApart, fun j hout => ?_⟩
  rcases List.mem_cons.mp (h.queued j hout) with rfl | hwaiting
  · exact absurd hout hid
  · exact hwaiting

/-- The loop gives up only if there is no feasible point, and queues the row again. -/
theorem Repairable.giveUp (h : t.Repairable (id :: t.infeasible.rows)) (hstuck : ∀ a, ¬t.Feasible a) :
    t.RepairOf (.halt { t with infeasible := t.infeasible.push id } (.infeasible id)) := by
  refine ⟨Agrees.setQueue t _, brokenQueued_iff.mpr fun j hout => ?_, ?_⟩
  · rw [Worklist.mem_push, or_comm]
    exact List.mem_cons.mp (h.queued j hout)
  · rintro ⟨a, hholds, hallows⟩
    exact hstuck a ⟨hholds, hallows⟩

theorem repairStep_spec (h : t.Repairable (id :: t.infeasible.rows)) :
    ∃ step, repairStep t id = .ok step ∧ t.RepairOf step := by
  unfold repairStep
  cases hrow : t.row? id with
  | none =>
      refine ⟨_, rfl, h.skip ?_⟩
      rintro ⟨row, hfound, -⟩
      rw [hrow] at hfound
      cases hfound
  | some row =>
      obtain ⟨kind, hkind⟩ := h.reduced.exists_basicOf hrow
      simp only [isInfeasible_eq_ok hkind, liftM, monadLift, MonadLift.monadLift, mapError_eq, bind,
        Except.bind]
      by_cases hbroken : kind.Allows row.constant
      · rw [if_neg (by rw [outOfRange_iff, not_not]; exact hbroken)]
        exact ⟨_, rfl, h.skip (by rw [outOfRange_iff_of_row hrow hkind, not_not]; exact hbroken)⟩
      · rw [if_pos (outOfRange_iff.mpr hbroken)]
        obtain ⟨choice, hchoice, hnone, hsome⟩ := h.exists_repairEntering hrow hkind hbroken
        rw [hchoice]
        cases hcase : choice with
        | none => exact ⟨_, rfl, h.giveUp (hnone hcase)⟩
        | some entering =>
            obtain ⟨hnegative, hcanEnter, hpositive⟩ := hsome entering hcase
            have hne : row.coefficient entering ≠ 0 := ne_of_gt hpositive
            obtain ⟨leaving, hbasic, -⟩ := h.reduced.row_basic hrow
            obtain ⟨next, hpivot, hexchanged⟩ := h.reduced.exists_exchange hrow hbasic hne
            have hrestricted : kind ≠ .unrestricted := by
              rintro rfl
              exact hbroken trivial
            simp only [hpivot]
            exact ⟨_, rfl, hexchanged.agrees h.reduced hrow hne,
              h.exchange hrow hkind hrestricted hnegative hcanEnter hpositive hexchanged⟩

/-- A step of the dual loop ends it with a sound verdict, or keeps every row out of range queued. -/
theorem dualStep_spec (h : t.Repairable t.infeasible.rows) :
    ∃ step, dualStep t = .ok step ∧ t.RepairOf step := by
  unfold dualStep Worklist.pop
  cases hqueue : t.infeasible.rows with
  | nil =>
      rw [hqueue] at h
      refine ⟨_, rfl, Agrees.refl t, congrArg Worklist.mk hqueue, ?_⟩
      rw [valuesAllowed_iff]
      intro id row kind hrow hkind
      by_contra hbroken
      simpa using h.queued id ((outOfRange_iff_of_row hrow hkind).mpr hbroken)
  | cons id rest =>
      rw [hqueue] at h
      obtain ⟨step, hstep, hrepair⟩ := repairStep_spec (t := { t with infeasible := ⟨rest⟩ })
        (h.setQueue ⟨rest⟩)
      exact ⟨step, hstep, (Agrees.setQueue t ⟨rest⟩).repairOf hrepair⟩

/-- The dual loop runs out of steps or ends with a sound verdict. -/
theorem dualOptimize_spec (h : t.Repairable t.infeasible.rows) (limit : Nat) :
    t.dualOptimize limit = .error .outOfSteps ∨
      ∃ course, t.dualOptimize limit = .ok course ∧ Agrees t course.final ∧
        t.Restored course.final course.verdict := by
  unfold dualOptimize
  induction limit generalizing t with
  | zero => exact Or.inl rfl
  | succ limit ih =>
      obtain ⟨step, hstep, hrepair⟩ := dualStep_spec h
      rw [iterate_succ, hstep]
      simp only [bind, Except.bind]
      cases step with
      | halt final verdict => exact Or.inr ⟨⟨final, [], verdict⟩, rfl, hrepair⟩
      | proceed next exchange =>
          obtain ⟨hagrees, hnext⟩ := hrepair
          rcases ih hnext with hout | ⟨course, hcourse, hfinal, hrestored⟩
          · exact Or.inl (by simp only [hout])
          · exact Or.inr ⟨{ course with exchanges := exchange.toList ++ course.exchanges },
              by simp only [hcourse]; rfl, hagrees.trans hfinal, hagrees.restored hrestored⟩

theorem AsForms.restored {S : Type} [RowStore S Rat] [LawfulStore S Rat] {t final : Tableau S Rat}
    {l last : Tableau LinearForm Rat} (h : t.AsForms l) (hfinal : final.AsForms last)
    {verdict : Verdict} : l.Restored last verdict ↔ t.Restored final verdict := by
  cases verdict with
  | optimal =>
      unfold Restored
      rw [hfinal.infeasible, hfinal.valuesAllowed]
  | infeasible id =>
      unfold Restored
      rw [hfinal.brokenQueued, h.registry]
      simp only [h.holds]
  | unbounded entering => exact Iff.rfl

end Tableau

/-- The dual loop on a tableau in reduced form, reached by a run or not, in which rows of restricted
variables mention no unrestricted variable, rows of pinned variables mention pinned variables only,
and every row out of range is queued.  It runs out of steps, or it ends at a tableau with the same
solutions: with an optimum when the queue is empty and every row in range, and otherwise because no
solution gives all variables values in their ranges, with every row out of range still queued. -/
theorem dual_loop_restores {t : Tableau (Storage Rat) Rat} (hstored : t.Stored)
    (hreduced : t.Reduced) (hrestricted : t.RestrictedApart) (hpinned : t.PinnedApart)
    (hqueued : t.BrokenQueued) (limit : Nat) :
    t.dualOptimize limit = .error .outOfSteps ∨
      ∃ course, t.dualOptimize limit = .ok course ∧ (∀ a, course.final.Holds a ↔ t.Holds a) ∧
        t.Restored course.final course.verdict := by
  obtain ⟨l, has⟩ := hstored.exists_asForms
  have hrepairable : l.Repairable l.infeasible.rows := {
    reduced := has.reduced.mpr hreduced
    restrictedApart := has.restrictedApart.mpr hrestricted
    pinnedApart := has.pinnedApart.mpr hpinned
    queued := Tableau.brokenQueued_iff.mp (has.brokenQueued.mpr hqueued) }
  rcases Tableau.dualOptimize_spec hrepairable limit with hout | ⟨course, hcourse, hagrees, hrestored⟩
  · exact Or.inl (has.dualOptimize_error hout)
  · obtain ⟨result, hresult, hasFinal, hverdict⟩ := has.dualOptimize hcourse
    refine Or.inr ⟨result, hresult, fun a => ?_, ?_⟩
    · rw [← hasFinal.holds, ← has.holds]
      exact hagrees.holds a
    · rw [hverdict, ← has.restored hasFinal]
      exact hrestored

namespace Tableau

/-- A tableau in which one row was given another constant, as if a bound had moved, and queued. -/
def displaced {S : Type} (t : Tableau S Rat) (id : RowId) (x : Rat) : Tableau S Rat :=
  { t with
    rows := t.rows.modify id.index (Option.map fun row => { row with constant := x })
    infeasible := t.infeasible.push id }

theorem row?_displaced {S : Type} (t : Tableau S Rat) (id j : RowId) (x : Rat) :
    (t.displaced id x).row? j =
      if j = id then (t.row? j).map fun row => { row with constant := x } else t.row? j := by
  unfold displaced row?
  simp only [Array.getElem?_modify]
  by_cases hj : j = id
  · subst hj
    rw [if_pos rfl, if_pos rfl]
    cases t.rows[j.index]? with
    | none => rfl
    | some slot => rfl
  · have hindex : id.index ≠ j.index := fun e => hj (rowId_ext e.symm)
    simp [hj, hindex]

theorem Stored.displaced {S : Type} [RowStore S Rat] [LawfulStore S Rat] {t : Tableau S Rat}
    (h : t.Stored) (id : RowId) (x : Rat) : (t.displaced id x).Stored := by
  rintro ⟨j, row⟩ hmem
  have hrow : (t.displaced id x).row? j = some row := mem_rowList.mp hmem
  rw [row?_displaced] at hrow
  split at hrow
  · -- Only the constant of the row has changed.
    obtain ⟨old, hold, rfl⟩ := Option.map_eq_some_iff.mp hrow
    exact h (j, old) (mem_rowList.mpr hold)
  · exact h (j, row) (mem_rowList.mpr hrow)

end Tableau

/-- In the small layout the row of the error variable is moved to -13.  The slack that repairs it puts
the lower bound out of range, and a second pivot repairs that.  If the row of the lower bound is moved
to -8, nothing can enter through it, and no width fits. -/
theorem dual_loop_restores_layout :
    (∃ course, (layout.2.tableau.displaced ⟨2⟩ (-13)).dualOptimize 9 = .ok course ∧
      course.exchanges.map Exchange.row = [⟨2⟩, ⟨1⟩] ∧ course.final.infeasible = .empty ∧
      course.final.ValuesAllowed) ∧
    ∃ course, (layout.2.tableau.displaced ⟨1⟩ (-8)).dualOptimize 9 = .ok course ∧
      course.final.BrokenQueued ∧
      ¬∃ a, (layout.2.tableau.displaced ⟨1⟩ (-8)).Holds a ∧ ∀ v kind,
        layout.2.tableau.registry.kind? v = some kind → kind.Allows (a v) := by
  have hstored := run_layout.regular.stored
  constructor
  · have hends : ((layout.2.tableau.displaced ⟨2⟩ (-13)).dualOptimize 9).toOption.map
        (fun course => (course.verdict, course.exchanges.map Exchange.row)) =
          some (.optimal, [⟨2⟩, ⟨1⟩]) := by
      decide +kernel
    rcases dual_loop_restores (hstored.displaced ⟨2⟩ (-13)) (by decide +kernel) (by decide +kernel)
      (by decide +kernel) (by decide +kernel) 9 with hout | ⟨course, hcourse, -, hrestored⟩
    · rw [hout] at hends
      cases hends
    · rw [hcourse] at hends
      obtain ⟨hverdict, hrows⟩ := Prod.mk.inj (Option.some.inj hends)
      rw [hverdict] at hrestored
      exact ⟨course, hcourse, hrows, hrestored.1, hrestored.2⟩
  · have hends : ((layout.2.tableau.displaced ⟨1⟩ (-8)).dualOptimize 9).toOption.map
        (fun course => course.verdict) = some (.infeasible ⟨1⟩) := by
      decide +kernel
    rcases dual_loop_restores (hstored.displaced ⟨1⟩ (-8)) (by decide +kernel) (by decide +kernel)
      (by decide +kernel) (by decide +kernel) 9 with hout | ⟨course, hcourse, -, hrestored⟩
    · rw [hout] at hends
      cases hends
    · rw [hcourse] at hends
      rw [show course.verdict = .infeasible ⟨1⟩ from Option.some.inj hends] at hrestored
      exact ⟨course, hcourse, hrestored.1, hrestored.2⟩

end LexSimplex
