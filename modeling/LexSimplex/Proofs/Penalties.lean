import LexSimplex.Proofs.Exact.Calls
import LexSimplex.Proofs.Exact.Cycling
import LexSimplex.Proofs.Transfer.Walks

/-!
# What the goal says

The goal of a solver is never computed anew.  Each pivot substitutes in it, each soft constraint adds
its error variables and takes them out again when it is removed, directly or through the rows that
define them.  Still, on the solutions of the tableau the goal is at each level the sum of the error
variables that the present soft constraints of that level have (`goal_is_penalty`).

The statement is about all solutions and not only about the current values: it says that the goal and
the sum are the same function there.  Pivots keep the solutions, and a constraint that needs phase one
has no error variables, so that it holds after each pivot of either loop as well.
-/

namespace LexSimplex

/-- The variables of a constraint that measure its violation. -/
def Tag.errors {α : Type} (registry : Registry α) (tag : Tag α) : List VariableId :=
  tag.own.filter fun v => (registry.get? v).map Record.kind = some .error

namespace Solver

variable {S α : Type}

/-- The error variables of the present constraints with one strength. -/
def errorsAt (s : Solver S α) (level : Strength) : List VariableId :=
  s.constraints.toList.flatMap fun entry =>
    if entry.2.constraint.strength = some level then entry.2.errors s.tableau.registry else []

/-- On the solutions of the tableau the goal is at each level the sum of the error variables of the
present constraints. -/
def GoalIsPenalty [RowStore S Rat] (s : Solver S Rat) : Prop :=
  ∀ a : Assignment Rat, s.tableau.Holds a → ∀ level,
    (s.tableau.goal.eval a).get level = ((s.errorsAt level).map a).sum

end Solver

open Tableau

/-! ## Linear forms -/

section Forms

variable {s : Solver LinearForm Rat}

/-- The error variables of a soft constraint add up to its shortfall. -/
theorem Tag.Formed.sum_errors {t : Tableau LinearForm Rat} {tag : Tag Rat} (h : tag.Formed t)
    {strength : Strength} (hstrength : tag.constraint.strength = some strength)
    (a : Assignment Rat) : ((tag.errors t.registry).map a).sum = tag.shortfall a := by
  obtain ⟨partner, hpartner, hrole⟩ := h.soft strength hstrength
  have hpartnerKind : (t.registry.get? partner).map Record.kind = some .error := by
    show t.kindOf partner = _
    rw [kindOf_eq_roleOf, hrole]
    rfl
  have hmarkerKind : (t.registry.get? tag.marker).map Record.kind =
      some (markerRole tag.constraint).1 := by
    show t.kindOf tag.marker = _
    rw [kindOf_eq_roleOf, h.marker]
    rfl
  unfold markerRole at hmarkerKind
  rw [hstrength] at hmarkerKind
  unfold errors own shortfall partnerValue
  rw [hpartner]
  simp only [Option.toList_some, List.filter_cons, List.filter_nil, hmarkerKind, hpartnerKind]
  cases tag.constraint.relation with
  | equal => simp
  | lessOrEqual | greaterOrEqual => simp

/-- The penalties of the present constraints add up to the sum of their error variables. -/
theorem Solver.Sound.penalties_eq (hs : s.Sound) (level : Strength) (a : Assignment Rat) :
    s.penalties level a = ((s.errorsAt level).map a).sum := by
  have hpenalty : ∀ entry ∈ s.constraints.toList, entry.2.penalty level a =
      ((if entry.2.constraint.strength = some level then entry.2.errors s.tableau.registry
        else []).map a).sum := by
    intro entry hentry
    have hformed := hs.formed entry.2 ⟨entry.1, SortedMap.find?_eq_some.mpr hentry⟩
    unfold Tag.penalty
    split
    next hstrength => exact (hformed.sum_errors hstrength a).symm
    next => rfl
  -- Both sides are sums over the constraints, of which only those of the level count.
  unfold Solver.penalties SortedMap.weigh SortedMap.weighIn Solver.errorsAt
  rw [List.map_flatMap, List.flatMap_def, List.sum_flatten, List.map_map]
  refine congrArg List.sum (List.map_congr_left fun entry hentry => ?_)
  rw [mul_one]
  exact hpenalty entry hentry

theorem Solver.Sound.goalIsPenalty (hs : s.Sound) : s.GoalIsPenalty := fun a ha level =>
  (hs.goal level a ha).trans (hs.penalties_eq level a)

/-- While a row is on its way into the basis, its constraint is not present, and the goal is still the
penalty of those that are. -/
theorem Solver.Sound.goalIsPenalty_of_suspends {next : Solver LinearForm Rat} (hs : s.Sound)
    (hbooks : s.SameBooks next) (h : Suspends s.tableau next.tableau) : next.GoalIsPenalty := by
  have herrors : ∀ level, next.errorsAt level = s.errorsAt level := by
    intro level
    unfold Solver.errorsAt
    rw [hbooks.1, List.flatMap_def, List.flatMap_def]
    refine congrArg List.flatten (List.map_congr_left fun entry hentry => ?_)
    have hformed := hs.formed entry.2 ⟨entry.1, SortedMap.find?_eq_some.mpr hentry⟩
    have hsame : entry.2.errors next.tableau.registry = entry.2.errors s.tableau.registry := by
      refine List.filter_congr fun v hv => ?_
      have hkind : next.tableau.kindOf v = s.tableau.kindOf v := by
        rw [kindOf_eq_roleOf, h.role v (hformed.live hv), ← kindOf_eq_roleOf]
      exact congrArg (fun kind => decide (kind = some .error)) hkind
    rw [hsame]
  intro a ha level
  rw [herrors]
  exact (h.goal level a ha).trans (hs.goalIsPenalty a (h.holds a ha) level)

/-- No pivot of the loop of the goal disturbs a sound solver. -/
theorem Solver.Sound.walk (hs : s.Sound) {count : Nat} {t : Tableau LinearForm Rat}
    (hwalk : LexSimplex.walk (primalStep .main) count s.tableau = some t) :
    ({ s with tableau := t } : Solver LinearForm Rat).Sound := by
  have hmain : s.tableau.objective .main = .ok s.tableau.goal := rfl
  obtain ⟨hproper, hagrees, -⟩ := walk_spec hs.proper hmain hwalk
  exact hs.agrees ⟨rfl, rfl⟩ hproper hagrees

end Forms

/-! ## Runs -/

theorem Solver.goalIsPenalty_mapStore {S T : Type} [RowStore S Rat] [RowStore T Rat]
    (m : StoreMap S T Rat) (s : Solver S Rat) :
    (s.mapStore m).GoalIsPenalty ↔ s.GoalIsPenalty := by
  refine forall_congr' fun a => imp_congr (holds_mapStore m a s.tableau) ?_
  exact Iff.rfl

variable {settings : Settings} {session : SessionId} {turns : List (Turn Rat)}
  {s : Solver (Storage Rat) Rat}

theorem Solver.AsForms.goalIsPenalty {S : Type} [RowStore S Rat] [LawfulStore S Rat]
    {s : Solver S Rat} {l : Solver LinearForm Rat} (h : s.AsForms l) :
    l.GoalIsPenalty ↔ s.GoalIsPenalty :=
  Eq.to_iff <| h.agree (fun s => s.GoalIsPenalty) fun m s =>
    propext (s.goalIsPenalty_mapStore m)

/-- In every state that calls can lead to, the goal is the penalty of the present soft constraints.
It is so as well in the course of a call: when a constraint has just been brought in, through phase
one or without it, or taken out, and after each pivot that follows, and while a call is in phase one,
after each pivot there. -/
theorem goal_is_penalty (hrun : Run settings session turns s) :
    s.GoalIsPenalty ∧
    (∀ (call : Call Rat) (limit : Nat) (next : Solver (Storage Rat) Rat),
      (call.opening limit).run s = .ok () next →
      ∀ count t, walk (primalStep .main) count next.tableau = some t →
        ({ next with tableau := t } : Solver (Storage Rat) Rat).GoalIsPenalty) ∧
    ∀ (call : Call Rat) (limit : Nat) (next : Solver (Storage Rat) Rat),
      (call.opening limit).run s = .error .outOfSteps next →
      ∀ count t, walk (primalStep next.tableau.pursued) count next.tableau = some t →
        ({ next with tableau := t } : Solver (Storage Rat) Rat).GoalIsPenalty := by
  obtain ⟨l, hforms, has⟩ := hrun.exists_asForms
  have hsound := hforms.sound
  refine ⟨has.goalIsPenalty.mp hsound.goalIsPenalty, fun call limit next hopening count t hwalk => ?_,
    fun call limit next hopening count t hwalk => ?_⟩
  · have hopened := has.run (call.opening limit) fun m => call.opening_corresponds m limit
    rw [hopening] at hopened
    obtain ⟨l', hrun', has'⟩ := hopened
    have hsound' : l'.Sound := ((Solver.opening_ends hsound call limit).of_ok hrun').2.1 rfl
    obtain ⟨form, hform, hreached⟩ := has'.walk hwalk
    exact hreached.goalIsPenalty.mp (hsound'.walk hform).goalIsPenalty
  · -- The pivots of phase one do not change what the goal is on the solutions either.
    have hopened := has.run (call.opening limit) fun m => call.opening_corresponds m limit
    rw [hopening] at hopened
    obtain ⟨l', hrun', has'⟩ := hopened
    obtain ⟨hproper, -, hsuspends⟩ := (Solver.opening_ends hsound call limit).of_error hrun'
    obtain ⟨hbooks, hsuspends⟩ := hsuspends rfl
    obtain ⟨form, hform, hreached⟩ := has'.walk hwalk
    rw [← has'.pursued] at hform
    obtain ⟨g, hg⟩ := exists_objective l'.tableau
    obtain ⟨-, hagrees, -⟩ := walk_spec hproper hg hform
    exact hreached.goalIsPenalty.mp
      (hsound.goalIsPenalty_of_suspends hbooks (hsuspends.agrees hagrees))

/-- A width of at most 5. -/
def narrower : Constraint Rat := .required ⟨-5, [(1, width)]⟩ .lessOrEqual

/-- In the small layout the goal is the penalty of the wish for a width of 20, which has two error
variables, also while the upper bound on the width is being removed, and after the pivot of phase one
that makes room for a smaller bound. -/
theorem goal_is_penalty_layout :
    layout.2.errorsAt .low = [⟨3⟩, ⟨4⟩] ∧ layout.2.GoalIsPenalty ∧
      (SolverM.left ((Call.remove ⟨⟨0⟩, ⟨1⟩⟩).opening 9) layout.2).GoalIsPenalty ∧
      ∃ next t, ((Call.add narrower).opening 0).run layout.2 = .error .outOfSteps next ∧
        walk (primalStep .artificial) 1 next.tableau = some t ∧
        ({ next with tableau := t } : Solver (Storage Rat) Rat).GoalIsPenalty := by
  have hlayout : layout.2.errorsAt .low = [⟨3⟩, ⟨4⟩] ∧
      SolverM.answer? ((Call.remove ⟨⟨0⟩, ⟨1⟩⟩).opening 9) layout.2 = some (.ok ()) ∧
      SolverM.failure? ((Call.add narrower).opening 0) layout.2 = some .outOfSteps ∧
      (SolverM.left ((Call.add narrower).opening 0) layout.2).tableau.pursued = .artificial ∧
      (walk (primalStep .artificial) 1
        (SolverM.left ((Call.add narrower).opening 0) layout.2).tableau).isSome := by
    decide +kernel
  obtain ⟨herrors, hanswer, hfailure, hpursued, hpivot⟩ := hlayout
  obtain ⟨t, hwalk⟩ := Option.isSome_iff_exists.mp hpivot
  obtain ⟨hnow, hcourse, hphaseOne⟩ := goal_is_penalty run_layout
  refine ⟨herrors, hnow, hcourse _ 9 _ (SolverM.answers_left hanswer) 0 _ rfl, _, t,
    SolverM.run_of_failure? hfailure, hwalk, ?_⟩
  exact hphaseOne _ 0 _ (SolverM.run_of_failure? hfailure) 1 t (hpursued ▸ hwalk)

end LexSimplex
