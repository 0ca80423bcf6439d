import LexSimplex.Proofs.Queue
import LexSimplex.Proofs.Transfer.Forms

/-!
# Nothing to repair

With exact scalars the dual loop never has anything to do.  A row is queued for repair when a
substitution puts it out of range (`Tableau.mem_infeasible_substitute`), and no substitution does: all
tableaus that a call goes through keep their rows in range (`Run.inRange_of_walk`).  So the queue stays
empty, no pivot of the dual loop is ever counted (`Run.dualPivots_eq_zero`), and resolving finds the
optimum (`nothing_to_repair`).
-/

namespace LexSimplex

open Tableau

/-- Every row gives its basic variable a value in range, and no row is queued for repair. -/
structure Tableau.InRange {S α : Type} [Scalar α] (t : Tableau S α) : Prop where
  rows : ∀ id row, t.row? id = some row → t.isInfeasible row = .ok false
  queue : t.infeasible = .empty

theorem Tableau.ProperFor.inRange {t : Tableau LinearForm Rat} (h : t.Proper) : t.InRange where
  rows _ _ hrow := by
    obtain ⟨basic, record, hbasic, hrecord, -, hfits⟩ := h.row_basic hrow
    exact isInfeasible_of_fits hbasic hrecord hfits
  queue := h.settled

theorem Tableau.inRange_mapStore {S T : Type} [RowStore S Rat] [RowStore T Rat]
    (m : StoreMap S T Rat) (t : Tableau S Rat) : (t.mapStore m).InRange ↔ t.InRange := by
  constructor
  · refine fun h => ⟨fun id row hrow => ?_, h.queue⟩
    have hmapped : (t.mapStore m).row? id = some (row.mapStore m) := by
      rw [row?_mapStore, hrow, Option.map_some]
    exact h.rows id _ hmapped
  · refine fun h => ⟨fun id mapped hmapped => ?_, h.queue⟩
    rw [row?_mapStore, Option.map_eq_some_iff] at hmapped
    obtain ⟨row, hrow, rfl⟩ := hmapped
    exact h.rows id row hrow

theorem Tableau.AsForms.inRange {S : Type} [RowStore S Rat] [LawfulStore S Rat]
    {t : Tableau S Rat} {l : Tableau LinearForm Rat} (h : t.AsForms l) :
    l.InRange ↔ t.InRange :=
  Eq.to_iff <| h.agree (fun t => t.InRange) fun m t => propext (t.inRange_mapStore m)

theorem Solver.AsForms.inRange {S : Type} [RowStore S Rat] [LawfulStore S Rat] {s : Solver S Rat}
    {l : Solver LinearForm Rat} (h : s.AsForms l) : l.tableau.InRange ↔ s.tableau.InRange :=
  h.tableau.inRange

/-! ## Runs -/

variable {settings : Settings} {session : SessionId} {turns : List (Turn Rat)}

theorem Run.resolved_optimal {s : Solver LinearForm Rat} (hrun : Run settings session turns s) :
    ∀ turn ∈ turns, turn.call = .resolve → turn = .answered .resolve (.resolved .optimal) := by
  refine (hrun.preserves (P := fun turns _ => ∀ turn ∈ turns, turn.call = .resolve →
    turn = .answered .resolve (.resolved .optimal)) (by simp) ?_).2
  intro turns last s next _ _ heffect hbefore turn hturn hcall
  rw [List.mem_append, List.mem_singleton] at hturn
  rcases hturn with hturn | rfl
  · exact hbefore turn hturn hcall
  · cases turn with
    | refused call cause =>
        cases hcall
        exact heffect.elim
    | answered call reply =>
        cases hcall
        cases reply with
        | resolved outcome =>
            obtain ⟨-, -, rfl⟩ := heffect
            rfl
        | _ => exact heffect.elim

variable {s : Solver (Storage Rat) Rat}

/-- All tableaus that a call goes through are in range: the ones that it comes to before its loops and
between them, and those of the loop that is under way, if it runs out of steps that of phase one. -/
theorem Run.inRange_of_walk (hrun : Run settings session turns s) (call : Call Rat)
    (limit count : Nat) {t : Tableau (Storage Rat) Rat}
    (hwalk : walk (primalStep (SolverM.left (call.opening limit) s).tableau.pursued) count
      (SolverM.left (call.opening limit) s).tableau = some t) : t.InRange := by
  obtain ⟨form, hform, hproper⟩ := hrun.proper_of_walk call limit count hwalk
  exact hform.inRange.mp hproper.inRange

/-- No run makes a pivot of the dual loop. -/
theorem Run.dualPivots_eq_zero (hrun : Run settings session turns s) :
    s.counters.dualPivots = 0 := by
  induction hrun with
  | start => rfl
  | @answered _ _ _ call _ limit hbefore hperform ih =>
      have hopened := (hbefore.inRange_of_walk call limit 0 rfl).queue
      exact ((call.perform_defers limit hopened).of_ok hperform).dualPivots.trans ih
  | @refused _ _ _ call _ limit hbefore hperform ih =>
      have hopened := (hbefore.inRange_of_walk call limit 0 rfl).queue
      exact ((call.perform_defers limit hopened).of_error hperform).dualPivots.trans ih

/-- In every run a resolve that comes back is optimal, no dual pivot is made, and after every call the
rows are in range and none is queued for repair.  The same holds of the tableaus in the course of a
call: of the one that it has come to when it starts a loop, be it that of phase one, and of those
that the pivots of the loop lead to. -/
theorem nothing_to_repair (hrun : Run settings session turns s) :
    (∀ turn ∈ turns, turn.call = .resolve → turn = .answered .resolve (.resolved .optimal)) ∧
    s.counters.dualPivots = 0 ∧ s.tableau.InRange ∧
    ∀ (call : Call Rat) (limit count : Nat) (t : Tableau (Storage Rat) Rat),
      walk (primalStep (SolverM.left (call.opening limit) s).tableau.pursued) count
        (SolverM.left (call.opening limit) s).tableau = some t → t.InRange := by
  obtain ⟨l, hforms, has⟩ := hrun.exists_asForms
  exact ⟨hforms.resolved_optimal, hrun.dualPivots_eq_zero,
    has.inRange.mp hforms.sound.proper.inRange,
    fun call limit count _ => hrun.inRange_of_walk call limit count⟩

/-- In the small layout a width of at least 15 was turned down and the wish for a width of 20 was met
as far as it goes, without anything to repair; nor is there while the upper bound is removed. -/
theorem nothing_to_repair_layout :
    layout.2.counters.dualPivots = 0 ∧ layout.2.tableau.InRange ∧
      Turn.answered .resolve (.resolved .optimal) ∈ layout.1 ∧
      (SolverM.left ((Call.remove ⟨⟨0⟩, ⟨1⟩⟩).opening 9) layout.2).tableau.InRange := by
  obtain ⟨-, hpivots, hrange, hcourse⟩ := nothing_to_repair run_layout
  exact ⟨hpivots, hrange, by decide +kernel, hcourse _ 9 0 _ rfl⟩

end LexSimplex
