import LexSimplex.Proofs.History
import LexSimplex.Proofs.Loops
import LexSimplex.Proofs.Transfer.Exact

/-!
# Loops and histories in another storage

Where a loop leads and whether it halts or cycles does not depend on how the rows are stored, nor
does the history that a list of calls produces.  So a solver can be followed step by step along the
solver over linear forms (`Solver.AsForms.walk`, `Solver.AsForms.play`).
-/

namespace LexSimplex

open Tableau

section Storages

variable {S T : Type} [RowStore S Rat] [RowStore T Rat] (m : StoreMap S T Rat)

theorem walk_map {σ τ : Type} {f : σ → τ} {step : σ → Except Failure (Step σ)}
    {step' : τ → Except Failure (Step τ)} (h : ∀ s, step' (f s) = Step.map f <$> step s)
    (count : Nat) (s : σ) : walk step' count (f s) = (walk step count s).map f := by
  induction count generalizing s with
  | zero => rfl
  | succ count ih =>
      rw [walk_succ, walk_succ, h]
      cases step s with
      | error failure => rfl
      | ok made =>
          cases made with
          | halt final verdict => rfl
          | proceed next exchange => exact ih next

namespace Tableau

variable (t : Tableau S Rat)

theorem walk_mapStore (which : Objective) (count : Nat) :
    walk (primalStep which) count (t.mapStore m) =
      (walk (primalStep which) count t).map (mapStore m) :=
  walk_map (fun t => primalStep_mapStore m t which) count t

theorem contents_mapStore : (t.mapStore m).contents = t.contents := by
  unfold contents
  simp only [registry_mapStore, goal_mapStore, artificial_mapStore, row?_mapStore, Option.map_map,
    Function.comp_def, Row.basic_mapStore, Row.constant_mapStore, Row.entries_mapStore]

theorem halts_mapStore (which : Objective) : (t.mapStore m).Halts which ↔ t.Halts which := by
  unfold Halts
  simp only [walk_mapStore, Option.map_eq_none_iff]

/-- Whether the primal loop cycles does not depend on the storage of the rows. -/
theorem cycles_mapStore (which : Objective) :
    (t.mapStore m).Cycles which ↔ t.Cycles which := by
  unfold Cycles
  simp only [walk_mapStore, Option.map_eq_some_iff]
  constructor
  · rintro ⟨start, period, hperiod, hall⟩
    refine ⟨start, period, hperiod, fun count hcount => ?_⟩
    obtain ⟨_, _, _, ⟨here, hhere, rfl⟩, ⟨next, hnext, rfl⟩, ⟨again, hagain, rfl⟩, hsame, hvalue⟩ :=
      hall count hcount
    refine ⟨here, next, again, hhere, hnext, hagain, ?_, ?_⟩
    · rwa [contents_mapStore, contents_mapStore] at hsame
    · funext v
      rw [← next.value_mapStore m, hvalue, here.value_mapStore m]
  · rintro ⟨start, period, hperiod, hall⟩
    refine ⟨start, period, hperiod, fun count hcount => ?_⟩
    obtain ⟨here, next, again, hhere, hnext, hagain, hsame, hvalue⟩ := hall count hcount
    refine ⟨_, _, _, ⟨here, hhere, rfl⟩, ⟨next, hnext, rfl⟩, ⟨again, hagain, rfl⟩, ?_, ?_⟩
    · rw [contents_mapStore, contents_mapStore, hsame]
    · funext v
      rw [next.value_mapStore m, hvalue, here.value_mapStore m]

end Tableau

end Storages

namespace Solver.AsForms

variable {S : Type} [RowStore S Rat] [LawfulStore S Rat] {s : Solver S Rat}
  {l : Solver LinearForm Rat}

theorem cycles (h : s.AsForms l) (which : Objective) :
    l.tableau.Cycles which ↔ s.tableau.Cycles which :=
  Eq.to_iff <| h.agree (fun s => s.tableau.Cycles which) fun m s =>
    propext (s.tableau.cycles_mapStore m which)

theorem halts (h : s.AsForms l) (which : Objective) :
    l.tableau.Halts which ↔ s.tableau.Halts which :=
  Eq.to_iff <| h.agree (fun s => s.tableau.Halts which) fun m s =>
    propext (s.tableau.halts_mapStore m which)

theorem pursued (h : s.AsForms l) : l.tableau.pursued = s.tableau.pursued :=
  h.agree (fun s => s.tableau.pursued) fun _ _ => rfl

/-- A computation that does not look into the storage of a row leaves solvers that correspond. -/
theorem left (h : s.AsForms l) {β : Type} (x : ∀ {S : Type} [RowStore S Rat], SolverM S Rat β)
    (hx : ∀ {S T : Type} [RowStore S Rat] [RowStore T Rat] (m : StoreMap S T Rat),
      SolverM.Corresponds m id (x : SolverM S Rat β) x) :
    (SolverM.left x s).AsForms (SolverM.left x l) := by
  have hrun := h.run x hx
  unfold SolverM.left
  cases hend : x.run s with
  | ok answer next =>
      rw [hend] at hrun
      obtain ⟨l', hforms, has⟩ := hrun
      rw [hforms]
      exact has
  | error failure next =>
      rw [hend] at hrun
      obtain ⟨l', hforms, has⟩ := hrun
      rw [hforms]
      exact has

/-- A loop leads to solvers that correspond. -/
theorem walk (h : s.AsForms l) {which : Objective} {count : Nat} {t : Tableau S Rat}
    (hwalk : LexSimplex.walk (primalStep which) count s.tableau = some t) :
    ∃ form, LexSimplex.walk (primalStep which) count l.tableau = some form ∧
      ({ s with tableau := t } : Solver S Rat).AsForms { l with tableau := form } := by
  -- The walk of the pair leads to both.
  obtain ⟨p, rfl, hmap⟩ := h
  have hpaired := walk_mapStore (Paired.toStore S Rat) p.tableau which count
  change LexSimplex.walk (primalStep which) count (p.tableau.mapStore _) = some t at hwalk
  rw [hpaired, Option.map_eq_some_iff] at hwalk
  obtain ⟨pair, hpair, rfl⟩ := hwalk
  have htableau : p.tableau.mapStore (Paired.toMap S Rat) = l.tableau.mapStore LinearForm.toMap :=
    congrArg Solver.tableau hmap
  have hforms := walk_mapStore LinearForm.toMap l.tableau which count
  rw [← htableau, walk_mapStore, hpair, Option.map_some, eq_comm, Option.map_eq_some_iff] at hforms
  obtain ⟨form, hform, hsame⟩ := hforms
  refine ⟨form, hform, { p with tableau := pair }, rfl, ?_⟩
  have hrest := congrArg (fun q => ({ q with tableau := form.mapStore LinearForm.toMap } :
    Solver (SortedMap VariableId Rat) Rat)) hmap
  change _ = ({ l with tableau := form } : Solver LinearForm Rat).mapStore LinearForm.toMap at hrest
  rw [← hrest, hsame]
  rfl

theorem start (settings : Settings) (session : SessionId) :
    (Solver.start settings session : Solver S Rat).AsForms (.start settings session) := by
  refine ⟨.start settings session, start_mapStore _ settings session, ?_⟩
  rw [start_mapStore, start_mapStore]
  rfl

/-- The same calls are answered alike. -/
theorem play (h : s.AsForms l) (limit : Nat) (calls : List (Call Rat)) :
    (l.play limit calls).1 = (s.play limit calls).1 ∧
      (s.play limit calls).2.AsForms (l.play limit calls).2 := by
  induction calls generalizing s l with
  | nil => exact ⟨rfl, h⟩
  | cons call calls ih =>
      have hrun := h.run (call.perform limit) fun m => call.perform_corresponds m limit
      unfold Solver.play
      cases hend : (call.perform limit).run s with
      | ok reply next =>
          rw [hend] at hrun
          obtain ⟨l', hforms, has⟩ := hrun
          rw [hforms]
          obtain ⟨hturns, hlast⟩ := ih has
          exact ⟨congrArg _ hturns, hlast⟩
      | error failure next =>
          rw [hend] at hrun
          obtain ⟨l', hforms, has⟩ := hrun
          rw [hforms]
          cases failure with
          | error cause =>
              obtain ⟨hturns, hlast⟩ := ih has
              exact ⟨congrArg _ hturns, hlast⟩
          | _ => exact ⟨rfl, h⟩

end Solver.AsForms

end LexSimplex
