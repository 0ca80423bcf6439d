import LexSimplex.Proofs.Exact.Optimum
import LexSimplex.Proofs.History
import LexSimplex.Proofs.Transfer.Exact

/-!
# Constraints that are turned down

A constraint over declared variables is turned down exactly if it is required and contradicts the
constraints present (`add_unsatisfiable_iff`).  What is left then has the same constraints, variables
and solutions as before the call (`rejected_keeps_solutions`), but not always the same values: when
phase one has pivoted before it gave up, the current solution has moved to another vertex, and nothing
moves it back (`rejection_moves_value`).
-/

namespace LexSimplex

open Tableau

/-- A solver over linear forms gives the same answer to an addition. -/
theorem Solver.AsForms.add_answers {S : Type} [RowStore S Rat] [LawfulStore S Rat]
    {s next : Solver S Rat} {l : Solver LinearForm Rat} (h : s.AsForms l) {c : Constraint Rat}
    {limit : Nat} {answer : Except SolverError ConstraintHandle}
    (hanswer : SolverM.Answers (SolverM.add c limit) s answer next) :
    ∃ l', SolverM.Answers (SolverM.add c limit) l answer l' ∧ next.AsForms l' :=
  h.answers (SolverM.add c limit) (fun _ => SolverM.corresponds_add c limit) hanswer

variable {settings : Settings} {session : SessionId} {turns : List (Turn Rat)}
  {s next : Solver (Storage Rat) Rat} {c : Constraint Rat} {limit : Nat}

/-- If adding a constraint over declared variables comes back, it fails exactly if the constraint is
required and no admissible values satisfy it together with the constraints present.  There is no
other way to fail, so that a soft constraint is never turned down. -/
theorem add_unsatisfiable_iff (hrun : Run settings session turns s) (honly : OnlyDeclared turns)
    (hterms : ∀ term ∈ c.expression.terms, term.2 ∈ (declaredIn turns).map Prod.fst)
    {answer : Except SolverError ConstraintHandle}
    (hanswer : SolverM.Answers (SolverM.add c limit) s answer next) :
    (answer = .error .unsatisfiable ↔
      c.strength = none ∧ ∀ a, ¬Admissible (c :: s.accepted) (declaredIn turns) a) ∧
    ∀ cause, answer = .error cause → cause = .unsatisfiable := by
  obtain ⟨l, hforms, has⟩ := hrun.exists_asForms
  obtain ⟨l', hanswer', -⟩ := has.add_answers hanswer
  have hends := (hforms.accounts honly).add_ends hforms.sound hterms limit
  rw [has.accepted] at hends
  cases answer with
  | ok handle =>
      obtain ⟨a, ha⟩ := hends.of_ok hanswer'
      refine ⟨⟨fun habsurd => by simp at habsurd, fun hnone => ?_⟩, by simp⟩
      exact absurd ha (hnone.2 a)
  | error cause =>
      obtain ⟨rfl, hrejected⟩ := hends.of_error hanswer'
      refine ⟨⟨fun _ => hrejected, fun _ => rfl⟩, fun cause hcause => ?_⟩
      rw [Except.error.injEq] at hcause
      exact hcause.symm

/-- In the small layout a width of at least 11 is turned down as well. -/
theorem add_unsatisfiable_iff_layout :
    SolverM.answer? (SolverM.add (.required ⟨-11, [(1, width)]⟩ .greaterOrEqual) 9) layout.2 =
        some (.error .unsatisfiable) ∧
      ∀ a, ¬Admissible (.required ⟨-11, [(1, width)]⟩ .greaterOrEqual :: layout.2.accepted)
        (declaredIn layout.1) a := by
  have hanswer : SolverM.answer?
      (SolverM.add (.required ⟨-11, [(1, width)]⟩ .greaterOrEqual) 9) layout.2 =
        some (.error .unsatisfiable) := by decide +kernel
  have hiff := (add_unsatisfiable_iff run_layout onlyDeclared_layout (by decide +kernel)
    (SolverM.answers_left hanswer)).1
  exact ⟨hanswer, (hiff.mp rfl).2⟩

/-! ## What a rejected constraint leaves -/

/-- Handles are current in one solver if they are in another one with the same variables. -/
theorem Solver.Keeps.resolve_iff {s next : Solver LinearForm Rat} (h : s.Keeps next)
    (v : Variable) : next.tableau.registry.resolve v = .ok v.id ↔
      s.tableau.registry.resolve v = .ok v.id := by
  have hlive : (next.tableau.registry.get? v.id).isSome = (s.tableau.registry.get? v.id).isSome := by
    have hrole := congrArg Option.isSome (h.role v.id)
    unfold roleOf at hrole
    rwa [Option.isSome_map, Option.isSome_map] at hrole
  rw [Registry.resolve_eq_ok_iff, Registry.resolve_eq_ok_iff, h.session, hlive]
  constructor
  · rintro ⟨hsession, hid, hgeneration, hrecord⟩
    rw [h.generation v.id (by rwa [kindOf, Option.isSome_map])] at hgeneration
    exact ⟨hsession, hid, hgeneration, hrecord⟩
  · rintro ⟨hsession, hid, hgeneration, hrecord⟩
    rw [← h.generation v.id (by rwa [kindOf, Option.isSome_map])] at hgeneration
    exact ⟨hsession, hid, hgeneration, hrecord⟩

/-- A constraint that is turned down leaves the constraints, the live variables with their kinds, the
solutions of the rows and the goal on them as they were, and the values still satisfy all rows. -/
theorem rejected_keeps_solutions (hrun : Run settings session turns s)
    (hrejected : SolverM.Answers (SolverM.add c limit) s (.error .unsatisfiable) next) :
    next.constraints = s.constraints ∧ next.nextConstraint = s.nextConstraint ∧
    (∀ v : Variable, next.tableau.registry.resolve v = .ok v.id ↔
      s.tableau.registry.resolve v = .ok v.id) ∧
    (∀ v, (next.tableau.registry.get? v).map Record.kind =
      (s.tableau.registry.get? v).map Record.kind) ∧
    (∀ a, next.tableau.Holds a ↔ s.tableau.Holds a) ∧
    (∀ a, s.tableau.Holds a → next.tableau.goal.eval a = s.tableau.goal.eval a) ∧
    s.tableau.Holds next.tableau.value := by
  obtain ⟨l, hforms, has⟩ := hrun.exists_asForms
  obtain ⟨l', hanswer, has'⟩ := has.add_answers hrejected
  obtain ⟨hbooks, hsound, hnarrows, -⟩ := (SolverM.add_ends hforms.sound c limit).of_error hanswer
  have hkeeps := Solver.Keeps.of_narrows hbooks hnarrows
  rw [← has.constraints, ← has'.constraints, ← has.nextConstraint, ← has'.nextConstraint,
    ← has.registry, ← has'.registry, ← has.goal, ← has'.goal, ← has'.value]
  simp only [← has.holds, ← has'.holds]
  refine ⟨hbooks.1, hbooks.2, hkeeps.resolve_iff, hnarrows.kindOf, hkeeps.holds, fun a ha => ?_,
    (hkeeps.holds _).mp hsound.proper.holds_value⟩
  apply StrengthVector.ext_get
  intro level
  exact hnarrows.goal level a ((hkeeps.holds a).mpr ha)

/-- The small layout with the bounds of the width alone. -/
def bounds : List (Turn Rat) × Solver (Storage Rat) Rat :=
  (Solver.start {} ⟨0⟩).play 9 (layoutCalls.take 3)

theorem run_bounds : Run {} ⟨0⟩ bounds.1 bounds.2 := Run.start.play 9 (layoutCalls.take 3)

/-- A width of at least 20. -/
def tooWide : Constraint Rat := .required ⟨-20, [(1, width)]⟩ .greaterOrEqual

/-- What is left when the width cannot be 20. -/
theorem rejected_keeps_solutions_bounds :
    SolverM.answer? (SolverM.add tooWide 9) bounds.2 = some (.error .unsatisfiable) ∧
      (SolverM.left (SolverM.add tooWide 9) bounds.2).constraints = bounds.2.constraints ∧
      bounds.2.tableau.Holds (SolverM.left (SolverM.add tooWide 9) bounds.2).tableau.value := by
  have hanswer : SolverM.answer? (SolverM.add tooWide 9) bounds.2 =
      some (.error .unsatisfiable) := by
    decide +kernel
  obtain ⟨hconstraints, -, -, -, -, -, hholds⟩ :=
    rejected_keeps_solutions run_bounds (SolverM.answers_left hanswer)
  exact ⟨hanswer, hconstraints, hholds⟩

/-- The width is 0 before a width of at least 20 is turned down, and 10 afterwards. -/
theorem rejection_moves_value :
    Run {} ⟨0⟩ bounds.1 bounds.2 ∧ OnlyDeclared bounds.1 ∧
      SolverM.answer? (SolverM.valueOf width) bounds.2 = some (.ok 0) ∧
      SolverM.answer? (SolverM.add tooWide 9) bounds.2 = some (.error .unsatisfiable) ∧
      SolverM.answer? (SolverM.valueOf width) (SolverM.left (SolverM.add tooWide 9) bounds.2) =
        some (.ok 10) := by
  refine ⟨run_bounds, ?_, ?_, ?_, ?_⟩ <;> decide +kernel

end LexSimplex
