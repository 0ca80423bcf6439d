import LexSimplex.Proofs.Transfer.Forms

/-!
# Kinds apart

The tests of the simplex method look at a row without asking which kinds of variables stand in it.
They are right since the rows keep the kinds apart: a restricted variable is never expressed by
unrestricted ones, a pinned variable only by pinned ones and without a constant, and no objective
mentions an unrestricted variable (`Tableau.KindsApart`).  Nothing in a call checks this.

It holds in all states that calls lead to and of all tableaus in the course of a call
(`kinds_apart`): no choice of a subject, no removal of a marker and no exchange at level zero brings
the kinds together.  Which live variables the constraints mention does not matter.
-/

namespace LexSimplex

open Tableau

/-- The rows and the objectives keep variables of different kinds apart. -/
structure Tableau.KindsApart {S : Type} [RowStore S Rat] (t : Tableau S Rat) : Prop where
  /-- Every row defines a live variable, so that what follows speaks of all rows. -/
  basic_live : ∀ entry ∈ t.rowList, (t.basicKind? entry.2).isSome
  restricted : t.RestrictedApart
  pinned : t.PinnedApart
  pinned_zero : ∀ entry ∈ t.rowList, t.basicKind? entry.2 = some .constant → entry.2.constant = 0
  /-- The goal mentions no unrestricted variable, nor does the objective of phase one. -/
  objectives : ∀ which g, t.objective which = .ok g →
    ∀ term ∈ g.terms.toList, t.registry.kind? term.1 ≠ some .unrestricted

/-- In reduced form the basic variable of a row has a record. -/
theorem Tableau.Reduced.basicKind?_isSome {S : Type} [RowStore S Rat] {t : Tableau S Rat}
    (h : t.Reduced) {entry : RowId × Row S Rat} (hentry : entry ∈ t.rowList) :
    (t.basicKind? entry.2).isSome := by
  obtain ⟨basic, hbasic, hdefinition⟩ := Option.bind_eq_some_iff.mp (h.row_defines entry hentry)
  obtain ⟨record, hrecord, -⟩ := Option.bind_eq_some_iff.mp hdefinition
  unfold basicKind? Registry.kind?
  rw [hbasic, Option.bind_some, hrecord]
  rfl

theorem Tableau.Admits.kind?_ne {t : Tableau LinearForm Rat} {g : Goal Rat} (h : t.Admits g)
    {term : VariableId × StrengthVector Rat} (hterm : term ∈ g.terms.toList) :
    t.registry.kind? term.1 ≠ some .unrestricted := by
  have hvector : g.coefficient? term.1 = some term.2 := SortedMap.find?_eq_some.mpr hterm
  exact h.restricted term.1 (by rw [hvector]; rfl)

/-- A tableau that corresponds to a proper one keeps the kinds apart. -/
theorem Tableau.AsForms.kindsApart {S : Type} [RowStore S Rat] [LawfulStore S Rat]
    {t : Tableau S Rat} {l : Tableau LinearForm Rat} (h : t.AsForms l) (hl : l.Proper) :
    t.KindsApart where
  basic_live _ hentry := (h.regular hl).reduced.basicKind?_isSome hentry
  restricted := (h.regular hl).restrictedApart
  pinned := (h.regular hl).pinnedApart
  pinned_zero := fun entry hentry hkind => (h.regular hl).valuesAllowed entry hentry .constant hkind
  objectives := by
    intro which g hg term hterm
    have hadmits : l.Admits g := admits_objective hl ((h.objective which).trans hg)
    rw [← h.registry]
    exact hadmits.kind?_ne hterm

variable {settings : Settings} {session : SessionId} {turns : List (Turn Rat)}
  {s : Solver (Storage Rat) Rat}

/-- In every state that calls lead to, and in the course of every call that can follow, the rows and
the objectives keep the kinds of variables apart. -/
theorem kinds_apart (hrun : Run settings session turns s) :
    s.tableau.KindsApart ∧
    ∀ (call : Call Rat) (limit count : Nat) (t : Tableau (Storage Rat) Rat),
      walk (primalStep (SolverM.left (call.opening limit) s).tableau.pursued) count
        (SolverM.left (call.opening limit) s).tableau = some t → t.KindsApart := by
  have hcourse : ∀ (call : Call Rat) (limit count : Nat) (t : Tableau (Storage Rat) Rat),
      walk (primalStep (SolverM.left (call.opening limit) s).tableau.pursued) count
        (SolverM.left (call.opening limit) s).tableau = some t → t.KindsApart := by
    intro call limit count t hwalk
    obtain ⟨form, hform, hproper⟩ := hrun.proper_of_walk call limit count hwalk
    exact hform.kindsApart hproper
  -- To resolve, nothing is done before the loop starts.
  exact ⟨hcourse .resolve 0 0 _ rfl, hcourse⟩

/-- A width that must be 10 and is asked for twice, the second time in half units, with a wish for a
width of 20. -/
def twiceRequiredCalls : List (Call Rat) :=
  [.declare "width" .unrestricted,
    .add (.required ⟨-10, [(1, width)]⟩ .equal),
    .add (.required ⟨-20, [(2, width)]⟩ .equal),
    .add ⟨⟨-20, [(1, width)]⟩, .equal, some .low⟩]

/-- The three requests with default settings. -/
def twiceRequired : List (Turn Rat) × Solver (Storage Rat) Rat :=
  (Solver.start {} ⟨0⟩).play 9 twiceRequiredCalls

/-- The second request pins a variable that is basic then.  It is expressed by the variable that the
first one pins, and stays apart from the width also while the first request is removed. -/
theorem kinds_apart_twiceRequired :
    ((twiceRequired.2.tableau.row? ⟨1⟩).map fun row =>
      (twiceRequired.2.tableau.basicKind? row, row.constant, row.entries)) =
        some (some .constant, 0, [(⟨1⟩, 2)]) ∧
    twiceRequired.2.tableau.registry.kind? ⟨1⟩ = some .constant ∧
    twiceRequired.2.tableau.KindsApart ∧
      (SolverM.left ((Call.remove ⟨⟨0⟩, ⟨0⟩⟩).opening 9) twiceRequired.2).tableau.KindsApart := by
  have hrun : Run {} ⟨0⟩ twiceRequired.1 twiceRequired.2 := Run.start.play 9 twiceRequiredCalls
  obtain ⟨hnow, hcourse⟩ := kinds_apart hrun
  exact ⟨by decide +kernel, by decide +kernel, hnow, hcourse _ 9 0 _ rfl⟩

end LexSimplex
