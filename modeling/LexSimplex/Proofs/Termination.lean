import LexSimplex.Proofs.Exact.Calls
import LexSimplex.Proofs.Exact.Cycling
import LexSimplex.Proofs.History
import LexSimplex.Proofs.Transfer.Walks

/-!
# Calls that do not come back

Nothing keeps the primal loop from coming back to a tableau it has left, so a call may go on for
ever.  This module says when: with exact scalars a call comes to an end unless one of its primal loops
repeats the same tableaus for ever without moving a variable (`returns_or_cycles`).  That does
happen, also while a soft constraint over declared variables is added (`degenerate_add_runs_on`), and
in phase one while a required constraint is added (`degenerate_phaseOne_runs_on`).
-/

namespace LexSimplex

open Tableau

/-! ## Loops over linear forms -/

namespace Tableau

variable {t : Tableau LinearForm Rat} {which : Objective} {g : Goal Rat} {limit : Nat}

/-- A primal loop runs out of steps only while its walk goes on. -/
theorem walk_of_outOfSteps (h : t.Proper) (hg : t.objective which = .ok g)
    (hout : t.optimize which limit = .error .outOfSteps) :
    (walk (primalStep which) limit t).isSome := by
  unfold optimize at hout
  induction limit generalizing t g with
  | zero => rfl
  | succ limit ih =>
      obtain ⟨step, hstep, hmeaning⟩ := primalStep_spec h hg
      rw [iterate_succ] at hout
      rw [walk_succ]
      rw [hstep] at hout ⊢
      cases step with
      | halt final verdict => cases hout
      | proceed next exchange =>
          obtain ⟨hproper, hagrees, -⟩ := hmeaning
          obtain ⟨g', hg', -⟩ := hagrees.objective hg
          apply ih hproper hg'
          change (iterate (primalStep which) limit next >>= fun course =>
            pure { course with exchanges := exchange.toList ++ course.exchanges }) = _ at hout
          cases hrest : iterate (primalStep which) limit next with
          | ok course =>
              rw [hrest] at hout
              cases hout
          | error failure =>
              rw [hrest] at hout
              cases hout
              rfl

/-- A primal loop from a proper tableau halts or cycles. -/
theorem halts_or_cycles (h : t.Proper) (hg : t.objective which = .ok g) :
    t.Halts which ∨ t.Cycles which := by
  by_cases hhalts : t.Halts which
  · exact Or.inl hhalts
  · exact Or.inr (cycles_of_not_halts h hg hhalts)

end Tableau

/-- If the loop that is under way runs out of steps for all large limits, it cycles. -/
theorem Solver.cycles_of_exhausted {s : Solver LinearForm Rat} {enough : Nat}
    (h : ∀ limit, enough ≤ limit → s.Exhausted limit) :
    s.tableau.Cycles s.tableau.pursued := by
  have hproper := (h enough (Nat.le_refl _)).1
  obtain ⟨g, hg⟩ := s.tableau.exists_objective
  rcases halts_or_cycles hproper hg with ⟨count, hcount⟩ | hcycles
  · -- With that many steps the loop would have come to its end.
    have hout := (h (max enough count) (by omega)).2
    have hgoes := walk_isSome_of_le (walk_of_outOfSteps hproper hg hout)
      (show count ≤ max enough count by omega)
    rw [hcount] at hgoes
    simp at hgoes
  · exact hcycles

/-! ## Calls -/

namespace SolverM

section Comes

variable {S α β : Type}

/-- An answer is the same for all limits from the one with which it was given. -/
theorem Stabilizes.answers {call : Nat → SolverM S α β} (h : Stabilizes call) {s next : Solver S α}
    {answer : Except SolverError β} {limit more : Nat} (hanswer : Answers (call limit) s answer next)
    (hle : limit ≤ more) : Answers (call more) s answer next := by
  have hsteps : ¬RanOut ((call limit).run s) := by
    rw [hanswer]
    cases answer with
    | ok result => exact id
    | error cause => exact fun hout => by cases hout
  exact (h.of_le s limit more hle hsteps).trans hanswer

variable [Scalar α] [RowStore S α]

/-- How a call ends that has as many steps as it needs: with an answer, for want of a number for a
constraint, or not at all because the primal loop that is under way cycles. -/
def EndsOrCycles (s : Solver S α) : EStateM.Result Failure (Solver S α) β → Prop
  | .ok _ _ | .error (.error _) _ => True
  | .error (.access _) _ => False
  | .error .outOfNumbers _ => s.nextConstraint.next? = none
  | .error .outOfSteps next => next.tableau.Cycles next.tableau.pursued

/-- All limits that are large enough let a call come to the same end, or else a primal loop of it
cycles. -/
def ReturnsOrCycles (call : Nat → SolverM S α β) (s : Solver S α) : Prop :=
  ∃ enough result, (∀ limit, enough ≤ limit → (call limit).run s = result) ∧ EndsOrCycles s result

end Comes

variable {s : Solver LinearForm Rat} {β : Type}

/-- A call whose end is the same for all large limits, and which only runs out of steps with a loop
that does. -/
theorem returnsOrCycles_of_ends {call : Nat → SolverM LinearForm Rat β}
    {post : Nat → Except Failure β → Solver LinearForm Rat → Prop} (hstable : Stabilizes call)
    (hends : ∀ limit, Ends (call limit) s (post limit))
    (hsteps : ∀ limit next, post limit (.error .outOfSteps) next → next.Exhausted limit)
    (hnumbers : ∀ limit next, post limit (.error .outOfNumbers) next →
      s.nextConstraint.next? = none)
    (haccess : ∀ limit fault next, ¬post limit (.error (.access fault)) next) :
    ReturnsOrCycles call s := by
  obtain ⟨enough, henough⟩ := hstable.eventually s
  refine ⟨enough, (call enough).run s, henough, ?_⟩
  cases hend : (call enough).run s with
  | ok result next => trivial
  | error failure next =>
      have hfailed := (hends enough).of_error hend
      cases failure with
      | error cause => trivial
      | access fault => exact haccess enough fault next hfailed
      | outOfNumbers => exact hnumbers enough next hfailed
      | outOfSteps =>
          -- Every larger limit is exhausted by the same loop.
          have hout : ∀ limit, enough ≤ limit → next.Exhausted limit := fun limit hle =>
            hsteps limit next ((hends limit).of_error ((henough limit hle).trans hend))
          exact Solver.cycles_of_exhausted hout

theorem add_returnsOrCycles (hs : s.Sound) (c : Constraint Rat) : ReturnsOrCycles (add c) s :=
  returnsOrCycles_of_ends (add_stabilizes c) (add_ends hs c) (fun _ _ h => h) (fun _ _ h => h)
    fun _ _ _ h => h

theorem remove_returnsOrCycles (hs : s.Sound) (handle : ConstraintHandle) :
    ReturnsOrCycles (remove handle) s :=
  returnsOrCycles_of_ends (remove_stabilizes handle) (remove_ends hs handle) (fun _ _ h => h)
    (fun _ _ h => h.elim) fun _ _ _ h => h

theorem resolve_returnsOrCycles (hs : s.Sound) : ReturnsOrCycles resolve s :=
  returnsOrCycles_of_ends resolve_stabilizes (resolve_ends hs) (fun _ _ h => h)
    (fun _ _ h => h.elim) fun _ _ _ h => h

end SolverM

/-! ## Other storages -/

namespace Solver.AsForms

variable {S : Type} [RowStore S Rat] [LawfulStore S Rat] {s : Solver S Rat}
  {l : Solver LinearForm Rat}

/-- A call that comes to an end or cycles over linear forms does so over any storage. -/
theorem returnsOrCycles (h : s.AsForms l) {β : Type}
    (call : ∀ {S : Type} [RowStore S Rat], Nat → SolverM S Rat β)
    (hcall : ∀ {S T : Type} [RowStore S Rat] [RowStore T Rat] (m : StoreMap S T Rat) (limit : Nat),
      SolverM.Corresponds m id (call limit : SolverM S Rat β) (call limit))
    (hstable : SolverM.Stabilizes fun limit => (call limit : SolverM S Rat β))
    (hforms : SolverM.ReturnsOrCycles call l) : SolverM.ReturnsOrCycles call s := by
  -- Both sides have come to their ends at the larger of the two limits.
  obtain ⟨enough, henough⟩ := hstable.eventually s
  obtain ⟨more, result, hmore, hresult⟩ := hforms
  refine ⟨enough, (call enough).run s, henough, ?_⟩
  have hrun := h.run (call (max enough more)) fun m => hcall m _
  rw [henough _ (by omega), hmore _ (by omega)] at hrun
  cases hend : (call enough).run s with
  | ok answer next => trivial
  | error failure next =>
      rw [hend] at hrun
      obtain ⟨l', rfl, has⟩ := hrun
      cases failure with
      | error cause => trivial
      | access fault => exact hresult
      | outOfNumbers =>
          show s.nextConstraint.next? = none
          rw [← h.nextConstraint]
          exact hresult
      | outOfSteps =>
          show next.tableau.Cycles next.tableau.pursued
          rw [← has.pursued, ← has.cycles]
          exact hresult

/-- A call that does not come back over linear forms does not come back over any storage. -/
theorem runs_on (h : s.AsForms l) {β : Type} {which : Objective}
    (call : ∀ {S : Type} [RowStore S Rat], SolverM S Rat β)
    (hcall : ∀ {S T : Type} [RowStore S Rat] [RowStore T Rat] (m : StoreMap S T Rat),
      SolverM.Corresponds m id (call : SolverM S Rat β) call)
    (hends : SolverM.Ends call l fun result next =>
      result = .error .outOfSteps ∧ ¬next.tableau.Halts which) :
    ∃ next, call.run s = .error .outOfSteps next ∧ ¬next.tableau.Halts which := by
  have hrun := h.run call hcall
  cases hend : call.run s with
  | ok result next =>
      rw [hend] at hrun
      obtain ⟨l', hforms, -⟩ := hrun
      have hreturned := hends.of_ok hforms
      simp at hreturned
  | error failure next =>
      rw [hend] at hrun
      obtain ⟨l', hforms, hleft⟩ := hrun
      obtain ⟨hfailure, hgoes⟩ := hends.of_error hforms
      cases hfailure
      exact ⟨next, rfl, fun hhalts => hgoes ((hleft.halts which).mpr hhalts)⟩

end Solver.AsForms

variable {settings : Settings} {session : SessionId} {turns : List (Turn Rat)}
  {s : Solver (Storage Rat) Rat}

/-- From every state that calls can lead to, the loop of the main objective halts or cycles, and
adding a constraint, removing one and resolving come to an end unless one of their loops, that of
phase one included, cycles. -/
theorem returns_or_cycles (hrun : Run settings session turns s) :
    (s.tableau.Halts .main ∨ s.tableau.Cycles .main) ∧
    (∀ c, SolverM.ReturnsOrCycles (SolverM.add c) s) ∧
    (∀ handle, SolverM.ReturnsOrCycles (SolverM.remove handle) s) ∧
    SolverM.ReturnsOrCycles SolverM.resolve s := by
  obtain ⟨l, hforms, has⟩ := hrun.exists_asForms
  refine ⟨?_, fun c => ?_, fun handle => ?_, ?_⟩
  · have hmain : l.tableau.objective .main = .ok l.tableau.goal := rfl
    rw [← has.halts, ← has.cycles]
    exact halts_or_cycles hforms.sound.proper hmain
  · exact has.returnsOrCycles (SolverM.add c) (fun _ limit => SolverM.corresponds_add c limit)
      (SolverM.add_stabilizes c) (SolverM.add_returnsOrCycles hforms.sound c)
  · exact has.returnsOrCycles (SolverM.remove handle)
      (fun _ limit => SolverM.corresponds_remove handle limit)
      (SolverM.remove_stabilizes handle) (SolverM.remove_returnsOrCycles hforms.sound handle)
  · exact has.returnsOrCycles SolverM.resolve (fun _ limit => SolverM.corresponds_resolve limit)
      SolverM.resolve_stabilizes (SolverM.resolve_returnsOrCycles hforms.sound)

/-- A width of at least 11. -/
def wider : Constraint Rat := .required ⟨-11, [(1, width)]⟩ .greaterOrEqual

/-- In the small layout nine steps are enough for all calls that run loops, and none of them cycles:
the layout is resolved with a width of 10, a larger width is turned down, and without the upper bound
the width is 20. -/
theorem returns_or_cycles_layout :
    (SolverM.ReturnsOrCycles SolverM.resolve layout.2 ∧
      SolverM.ReturnsOrCycles (SolverM.add wider) layout.2 ∧
      SolverM.ReturnsOrCycles (SolverM.remove ⟨⟨0⟩, ⟨1⟩⟩) layout.2) ∧
    (∃ next, (∀ limit, 9 ≤ limit →
      (SolverM.resolve limit).run layout.2 = .ok .optimal next) ∧
      next.tableau.value width.id = 10) ∧
    (∃ next, ∀ limit, 9 ≤ limit →
      (SolverM.add wider limit).run layout.2 = .error (.error .unsatisfiable) next) ∧
    ∃ next, (∀ limit, 9 ≤ limit →
      (SolverM.remove ⟨⟨0⟩, ⟨1⟩⟩ limit).run layout.2 = .ok () next) ∧
      next.tableau.value width.id = 20 := by
  have hanswers : SolverM.answer? (SolverM.resolve 9) layout.2 = some (.ok .optimal) ∧
      (SolverM.left (SolverM.resolve 9) layout.2).tableau.value width.id = 10 ∧
      SolverM.answer? (SolverM.add wider 9) layout.2 = some (.error .unsatisfiable) ∧
      SolverM.answer? (SolverM.remove ⟨⟨0⟩, ⟨1⟩⟩ 9) layout.2 = some (.ok ()) ∧
      (SolverM.left (SolverM.remove ⟨⟨0⟩, ⟨1⟩⟩ 9) layout.2).tableau.value width.id = 20 := by
    decide +kernel
  obtain ⟨hresolved, hten, hrefused, hremoved, htwenty⟩ := hanswers
  obtain ⟨-, hadd, hremove, hresolve⟩ := returns_or_cycles run_layout
  refine ⟨⟨hresolve, hadd _, hremove _⟩, ⟨_, fun limit hle => ?_, hten⟩,
    ⟨SolverM.left (SolverM.add wider 9) layout.2, fun limit hle => ?_⟩,
    ⟨_, fun limit hle => ?_, htwenty⟩⟩
  · exact SolverM.resolve_stabilizes.answers (SolverM.answers_left hresolved) hle
  · exact (SolverM.add_stabilizes wider).answers (SolverM.answers_left hrefused) hle
  · exact (SolverM.remove_stabilizes _).answers (SolverM.answers_left hremoved) hle

/-! ## Calls that run on -/

/-- A solver without rows to repair whose loop of the goal does not come to an end. -/
structure Solver.RunsOn {S α : Type} [Scalar α] [RowStore S α] (s : Solver S α) : Prop where
  settled : s.tableau.infeasible = .empty
  endless : ¬s.tableau.Halts .main

namespace SolverM

section RunningOn

variable {S α : Type} [Scalar α] [RowStore S α] {s next : Solver S α}

/-- Reoptimising such a solver does not come back, so that nothing that should follow is done. -/
theorem reoptimize_runs_on {β : Type} (h : s.RunsOn) (limit : Nat)
    (rest : Outcome → SolverM S α β) :
    Ends (reoptimize limit >>= rest) s fun result next =>
      result = .error .outOfSteps ∧ ¬next.tableau.Halts .main := by
  unfold reoptimize dualOptimize optimize
  simp only [ends_bind, ends_tableau]
  rcases dualOptimize_settled h.settled limit with ⟨rfl, hout⟩ | hcourse
  · rw [hout]
    exact ⟨rfl, h.endless⟩
  · have hloop : s.tableau.optimize .main limit = .error .outOfSteps :=
      iterate_of_walk (not_halts.mp h.endless limit)
    rw [hcourse]
    simp only [ends_lift, follow, ends_bind, ends_setTableau, ends_report, ends_count, ends_pure,
      ends_enter]
    rw [hloop]
    exact ⟨rfl, h.endless⟩

/-- A constraint is accepted without a step, and it is the optimisation after that which goes on. -/
theorem add_runs_on {c : Constraint α} {number : ConstraintNumber}
    (haccept : (accept c 0).run s = .ok number next) (h : next.RunsOn) (limit : Nat) :
    Ends (add c limit) s fun result next =>
      result = .error .outOfSteps ∧ ¬next.tableau.Halts .main := by
  have hrun : (accept c limit).run s = .ok number next :=
    (accept_stabilizes c).of_zero haccept limit
  unfold Ends
  rw [add_eq_accept, run_bind_of_ok hrun]
  exact reoptimize_runs_on h limit _

/-- A constraint does not get through phase one, whose loop goes on. -/
theorem add_runs_on_in_phaseOne {c : Constraint α}
    (haccept : (accept c 0).run s = .error .outOfSteps next)
    (hgoes : ¬next.tableau.Halts .artificial) (limit : Nat) :
    Ends (add c limit) s fun result next =>
      result = .error .outOfSteps ∧ ¬next.tableau.Halts .artificial := by
  have hrun : (accept c limit).run s = .error .outOfSteps next :=
    accept_persists c s .outOfSteps next haccept (fun _ => hgoes) limit
  unfold Ends
  rw [add_eq_accept, run_bind_of_error hrun]
  exact ⟨rfl, hgoes⟩

/-- A constraint is withdrawn, and it is the optimisation after that which goes on. -/
theorem remove_runs_on {handle : ConstraintHandle}
    (hwithdraw : (withdraw handle).run s = .ok () next) (h : next.RunsOn) (limit : Nat) :
    Ends (remove handle limit) s fun result next =>
      result = .error .outOfSteps ∧ ¬next.tableau.Halts .main := by
  unfold Ends
  rw [remove_eq_withdraw, run_bind_of_ok hwithdraw]
  exact reoptimize_runs_on h limit _

end RunningOn

end SolverM

/-! ## An addition that does not come back -/

/-- One of the four variables at the corner. -/
def edge (index : Nat) : Variable := ⟨⟨0⟩, ⟨index⟩, 0⟩

/-- Four variables that are not negative, with two required inequalities that both hold with equality
where all of them are zero. -/
def cornerCalls : List (Call Rat) :=
  [.declare "a" .slack, .declare "b" .slack, .declare "c" .slack, .declare "d" .slack,
    .add (.required ⟨0, [(-1/2, edge 0), (11/2, edge 1), (5/2, edge 2), (-9, edge 3)]⟩
      .greaterOrEqual),
    .add (.required ⟨0, [(-1/2, edge 0), (3/2, edge 1), (1/2, edge 2), (-1, edge 3)]⟩
      .greaterOrEqual)]

/-- What should be large, if possible. -/
def cornerWish : Constraint Rat :=
  ⟨⟨-100, [(10, edge 0), (-57, edge 1), (-9, edge 2), (-24, edge 3)]⟩, .greaterOrEqual, some .low⟩

/-- The corner with default settings. -/
def corner (S : Type) [RowStore S Rat] : List (Turn Rat) × Solver S Rat :=
  (Solver.start {} ⟨0⟩).play 9 cornerCalls

/-- The corner after the wish was accepted and before the goal is optimised. -/
def cornerAccepted : Solver LinearForm Rat :=
  SolverM.left (SolverM.accept cornerWish 0) (corner LinearForm).2

/-- The wish is accepted without a pivot and leaves no row to repair, and after six pivots the loop of
the goal is back where it started. -/
theorem cornerAccepted_returns :
    SolverM.answer? (SolverM.accept cornerWish 0) (corner LinearForm).2 = some (.ok ⟨2⟩) ∧
      cornerAccepted.tableau.infeasible = .empty ∧
      walk (primalStep .main) 6 cornerAccepted.tableau = some cornerAccepted.tableau := by
  decide +kernel

/-- Adding the wish does not come back, whatever the limit is. -/
theorem add_cornerWish_ends (limit : Nat) :
    SolverM.Ends (SolverM.add cornerWish limit) (corner LinearForm).2 fun result next =>
      result = .error .outOfSteps ∧ ¬next.tableau.Halts .main := by
  obtain ⟨haccepted, hsettled, hreturns⟩ := cornerAccepted_returns
  have hround : cornerAccepted.RunsOn := ⟨hsettled, not_halts_of_returns (by decide) hreturns⟩
  exact SolverM.add_runs_on (SolverM.answers_left haccepted) hround limit

/-- At the corner a soft constraint over declared variables is added for ever: whatever the limit is,
the call runs out of steps, at a tableau from which the loop of the goal does not come to an end. -/
theorem degenerate_add_runs_on :
    Run {} ⟨0⟩ (corner (Storage Rat)).1 (corner (Storage Rat)).2 ∧
      OnlyDeclared (corner (Storage Rat)).1 ∧
      ∀ limit, ∃ next, (SolverM.add cornerWish limit).run (corner (Storage Rat)).2 =
        .error .outOfSteps next ∧ ¬next.tableau.Halts .main := by
  have has : (corner (Storage Rat)).2.AsForms (corner LinearForm).2 :=
    ((Solver.AsForms.start {} ⟨0⟩).play 9 cornerCalls).2
  refine ⟨Run.start.play 9 cornerCalls, by decide +kernel, fun limit => ?_⟩
  exact has.runs_on (SolverM.add cornerWish limit)
    (fun _ => SolverM.corresponds_add cornerWish limit) (add_cornerWish_ends limit)

/-! ## An addition that does not get through phase one -/

/-- The wish as a requirement. -/
def cornerDemand : Constraint Rat := .required cornerWish.expression .greaterOrEqual

/-- The corner when the loop of phase one starts for the requirement. -/
def cornerDemanded : Solver LinearForm Rat :=
  SolverM.left (SolverM.accept cornerDemand 0) (corner LinearForm).2

/-- Without a step the requirement is not accepted, and after six pivots the loop of phase one is back
where it started. -/
theorem cornerDemanded_returns :
    SolverM.failure? (SolverM.accept cornerDemand 0) (corner LinearForm).2 = some .outOfSteps ∧
      walk (primalStep .artificial) 6 cornerDemanded.tableau = some cornerDemanded.tableau := by
  decide +kernel

/-- Adding the requirement does not come back, whatever the limit is. -/
theorem add_cornerDemand_ends (limit : Nat) :
    SolverM.Ends (SolverM.add cornerDemand limit) (corner LinearForm).2 fun result next =>
      result = .error .outOfSteps ∧ ¬next.tableau.Halts .artificial := by
  obtain ⟨hfails, hreturns⟩ := cornerDemanded_returns
  have hgoes : ¬cornerDemanded.tableau.Halts .artificial :=
    not_halts_of_returns (by decide) hreturns
  exact SolverM.add_runs_on_in_phaseOne (SolverM.run_of_failure? hfails) hgoes limit

/-- At the corner a required constraint is added for ever too: it is the loop of phase one that does
not come to an end. -/
theorem degenerate_phaseOne_runs_on (limit : Nat) :
    ∃ next, (SolverM.add cornerDemand limit).run (corner (Storage Rat)).2 =
      .error .outOfSteps next ∧ ¬next.tableau.Halts .artificial := by
  have has : (corner (Storage Rat)).2.AsForms (corner LinearForm).2 :=
    ((Solver.AsForms.start {} ⟨0⟩).play 9 cornerCalls).2
  exact has.runs_on (SolverM.add cornerDemand limit)
    (fun _ => SolverM.corresponds_add cornerDemand limit) (add_cornerDemand_ends limit)

end LexSimplex
