import LexSimplex.Proofs.Inventory
import LexSimplex.Proofs.Solutions

/-!
# Which variables can be released

To release a variable a solver looks for it in its rows and in its goal, which pivots have rewritten
many times since the constraints were added.  With exact scalars this tells whether the constraints
depend on the variable.  As long as they mention declared variables only, a declared variable is in
use exactly if some present constraint depends on it: terms that cancel do not count, nor does a
constraint that was removed, and no variable drops out of the rows by cancellation between them
(`release_iff_independent`).
-/

namespace LexSimplex

open Tableau

/-- Whether a variable that no constraint brought is released depends on the tableau alone. -/
theorem SolverM.release_run {S α : Type} [Scalar α] [RowStore S α] {s : Solver S α} {v : Variable}
    {used : Bool} (hlive : s.tableau.registry.resolve v = .ok v.id)
    (hapart : ∀ entry ∈ s.constraints.toList, v.id ∉ entry.2.own)
    (hused : s.tableau.isReferenced v.id = .ok used) :
    (release v).run s = if used then .error (.error (.variableInUse v.id)) s else
      .ok () { s with tableau := { s.tableau with
        registry := s.tableau.registry.releaseId v.id } } := by
  have htagged : (s.constraints.toList.any fun entry => entry.2.own.contains v.id) = false :=
    List.any_eq_false.mpr fun entry hentry => by simpa using hapart entry hentry
  show (liftM (s.tableau.registry.resolve v) >>= _ : SolverM S α Unit).run s = _
  rw [hlive]
  show (if (s.constraints.toList.any fun entry => entry.2.own.contains v.id) = true then _
    else liftM (s.tableau.isReferenced v.id) >>= _ : SolverM S α Unit).run s = _
  rw [htagged, hused]
  cases used with
  | true => rfl
  | false =>
      show (liftM (s.tableau.registry.checkReleased v.id) >>= _ : SolverM S α Unit).run s = _
      rw [checkReleased_of_isReferenced hused]
      rfl

namespace Solver.Accounts

variable {s : Solver LinearForm Rat} {declared : List (Variable × DeclaredKind)}

/-- A declared variable is used by the tableau exactly if a constraint depends on it. -/
theorem unused_iff (h : s.Accounts declared) (hs : s.Sound) {entry : Variable × DeclaredKind}
    (hentry : entry ∈ declared) :
    s.tableau.Unused entry.1.id ↔
      ∀ tag, s.Present tag → tag.constraint.expression.netCoefficient entry.1.id = 0 := by
  have hapart := h.apart entry hentry
  constructor
  · intro hunused tag htag
    exact Reflects.netCoefficient_unused h.holds hs hunused htag (hapart tag htag)
  · intro hnet
    -- What no equation and no penalty depends on occurs neither in a row nor in the goal.
    exact (hs.proper.unused_iff_idle hs.artificial).mpr (h.idle_of_unrelated hs hapart hnet)

/-- The search through rows and goal finds a declared variable if a constraint depends on it, and only
then. -/
theorem isReferenced_iff (h : s.Accounts declared) (hs : s.Sound)
    {entry : Variable × DeclaredKind} (hentry : entry ∈ declared) :
    ∃ used, s.tableau.isReferenced entry.1.id = .ok used ∧
      (used = false ↔ ∀ c ∈ s.accepted, c.expression.netCoefficient entry.1.id = 0) := by
  obtain ⟨-, -, -, hlive⟩ := Registry.resolve_eq_ok_iff.mp (h.current entry hentry)
  obtain ⟨record, hrecord⟩ := Option.isSome_iff_exists.mp hlive
  obtain ⟨used, hused, hiff⟩ := isReferenced_eq_ok hrecord hs.artificial
  refine ⟨used, hused, hiff.trans ((h.unused_iff hs hentry).trans ?_)⟩
  constructor
  · intro hall c hc
    obtain ⟨tag, htag, rfl⟩ := mem_accepted.mp hc
    exact hall tag htag
  · exact fun hall tag htag => hall tag.constraint (mem_accepted.mpr ⟨tag, htag, rfl⟩)

end Solver.Accounts

variable {settings : Settings} {session : SessionId} {turns : List (Turn Rat)}
  {s : Solver (Storage Rat) Rat}

/-- After every history whose constraints mention declared variables only, a variable that stands
declared is released if no present constraint depends on it, all terms that mention it taken
together.  Otherwise it is refused as in use, and nothing changes. -/
theorem release_iff_independent (hrun : Run settings session turns s) (honly : OnlyDeclared turns)
    {entry : Variable × DeclaredKind} (hentry : entry ∈ declaredIn turns) :
    (SolverM.answer? (SolverM.release entry.1) s = some (.ok ()) ↔
      ∀ c ∈ s.accepted, c.expression.netCoefficient entry.1.id = 0) ∧
    (¬(∀ c ∈ s.accepted, c.expression.netCoefficient entry.1.id = 0) →
      (SolverM.release entry.1).run s = .error (.error (.variableInUse entry.1.id)) s) := by
  obtain ⟨l, hforms, has⟩ := hrun.exists_asForms
  have haccounts := hforms.accounts honly
  obtain ⟨used, hused, hiff⟩ := haccounts.isReferenced_iff hforms.sound hentry
  rw [has.accepted] at hiff
  have hsearch : s.tableau.isReferenced entry.1.id = .ok used :=
    (has.agree (fun s => s.tableau.isReferenced entry.1.id) fun m s =>
      s.tableau.isReferenced_mapStore m _).symm.trans hused
  have hlive : s.tableau.registry.resolve entry.1 = .ok entry.1.id :=
    has.registry ▸ haccounts.current entry hentry
  have hapart : ∀ other ∈ s.constraints.toList, entry.1.id ∉ other.2.own := by
    intro other hother
    rw [← has.constraints] at hother
    exact haccounts.apart entry hentry other.2 (Solver.present_iff.mpr ⟨other, hother, rfl⟩)
  have hrelease := SolverM.release_run hlive hapart hsearch
  unfold SolverM.answer?
  rw [hrelease, ← hiff]
  cases used <;> simp

/-- The second variable of the layout below. -/
def height : Variable := ⟨⟨0⟩, ⟨1⟩, 0⟩

/-- A constraint that mentions the width twice, so that only the height counts. -/
def cancellingCalls : List (Call Rat) :=
  [.declare "width" .unrestricted,
    .declare "height" .unrestricted,
    .add (.required ⟨-5, [(1, width), (1, height), (-1, width)]⟩ .greaterOrEqual)]

/-- The two variables and their constraint with default settings. -/
def cancelling : List (Turn Rat) × Solver (Storage Rat) Rat :=
  (Solver.start {} ⟨0⟩).play 9 cancellingCalls

/-- Of the two variables that the constraint mentions the width can be released. -/
theorem release_iff_independent_cancelling :
    SolverM.answer? (SolverM.release width) cancelling.2 = some (.ok ()) ∧
      (SolverM.release height).run cancelling.2 =
        .error (.error (.variableInUse height.id)) cancelling.2 := by
  have hrun : Run {} ⟨0⟩ cancelling.1 cancelling.2 := Run.start.play 9 cancellingCalls
  have honly : OnlyDeclared cancelling.1 := by decide +kernel
  have hwidth : (width, DeclaredKind.unrestricted) ∈ declaredIn cancelling.1 := by decide +kernel
  have hheight : (height, DeclaredKind.unrestricted) ∈ declaredIn cancelling.1 := by
    decide +kernel
  exact ⟨(release_iff_independent hrun honly hwidth).1.mpr (by decide +kernel),
    (release_iff_independent hrun honly hheight).2 (by decide +kernel)⟩

end LexSimplex
