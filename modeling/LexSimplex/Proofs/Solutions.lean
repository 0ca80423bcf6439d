import LexSimplex.Proofs.Exact.Optimum
import LexSimplex.Proofs.History
import LexSimplex.Proofs.Transfer.Exact

/-!
# What a solver stands for

The three statements a layout relies on, for every history of calls with exact scalars whose
constraints mention declared variables only:

* the rows say what the equations of the present constraints say, no more and no less
  (`rows_iff_equations`);
* the current values satisfy the required constraints and the ranges of all variables, at any time
  (`values_feasible`);
* after a constraint was added or removed and after resolving, no admissible values violate the soft
  constraints less, and how much they are violated does not depend on the history
  (`values_optimal`).

They are read off a run over linear forms, where `Accounts` ties the rows to the constraints.  The
constraints that are present are what the history of calls and answers leaves (`Run.listed`).
-/

namespace LexSimplex

open Tableau

variable {settings : Settings} {session : SessionId} {turns : List (Turn Rat)}
  {s : Solver (Storage Rat) Rat}

/-- The constraints that are present, each with its own variables. -/
theorem Solver.present_iff {l : Solver LinearForm Rat} {tag : Tag Rat} :
    l.Present tag ↔ ∃ entry ∈ l.constraints.toList, entry.2 = tag := by
  constructor
  · rintro ⟨number, hfind⟩
    exact ⟨(number, tag), SortedMap.find?_eq_some.mp hfind, rfl⟩
  · rintro ⟨entry, hentry, rfl⟩
    exact ⟨entry.1, SortedMap.find?_eq_some.mpr hentry⟩

/-! ## The constraints that a history leaves -/

section Present

variable {S α : Type}

/-- The constraints that are present after a turn, each with its handle, given those before it. -/
def Turn.presentAfter (before : List (ConstraintHandle × Constraint α)) :
    Turn α → List (ConstraintHandle × Constraint α)
  | answered (.add c) (.added handle) => before ++ [(handle, c)]
  | answered (.remove handle) _ => before.filter fun entry => entry.1 ≠ handle
  | answered (.reset _) _ => []
  | _ => before

/-- The constraints that a history leaves, each with its handle: those that were added since the last
reset and not removed since, in the order in which they were added. -/
def presentIn (turns : List (Turn α)) : List (ConstraintHandle × Constraint α) :=
  turns.foldl Turn.presentAfter []

theorem presentIn_concat (turns : List (Turn α)) (turn : Turn α) :
    presentIn (turns ++ [turn]) = turn.presentAfter (presentIn turns) :=
  List.foldl_concat ..

/-- The constraints that are present, each with its handle. -/
def Solver.listed (s : Solver S α) : List (ConstraintHandle × Constraint α) :=
  s.constraints.toList.map fun entry => (⟨s.session, entry.1⟩, entry.2.constraint)

theorem Solver.accepted_eq_listed (s : Solver S α) : s.accepted = s.listed.map Prod.snd := by
  unfold accepted listed
  rw [List.map_map]
  rfl

theorem Solver.listed_congr {T : Type} {s : Solver S α} {next : Solver T α}
    (hconstraints : next.constraints = s.constraints) (hsession : next.session = s.session) :
    next.listed = s.listed := by
  unfold listed
  rw [hconstraints, hsession]

end Present

namespace Solver

variable {l next : Solver LinearForm Rat} {tag : Tag Rat} {turn : Turn Rat}

/-- An accepted constraint comes after the others, since numbers are handed out in order. -/
theorem Accepts.listed (h : l.Accepts next tag) (hl : l.Sound) :
    next.listed = l.listed ++ [(⟨l.session, l.nextConstraint⟩, tag.constraint)] := by
  have hnext : next.constraints.toList = l.constraints.toList ++ [(l.nextConstraint, tag)] := by
    rw [h.constraints]
    refine SortedMap.toList_insert_of_absent (List.append_nil _).symm (fun entry hentry => ?_)
      (List.forall_mem_nil _)
    exact hl.numbered (SortedMap.find?_eq_some.mpr hentry)
  have hsession : next.session = l.session := h.session
  unfold Solver.listed
  rw [hnext, hsession, List.map_append]
  rfl

/-- A constraint that was withdrawn is taken off the list. -/
theorem Withdraws.listed {handle : ConstraintHandle} (h : l.Withdraws next handle.number tag)
    (hhandle : handle.session = l.session) :
    next.listed = l.listed.filter fun entry => entry.1 ≠ handle := by
  have hsession : next.session = l.session := h.session
  unfold Solver.listed
  rw [hsession, List.filter_map, h.constraints]
  refine congrArg (List.map _) (List.filter_congr fun entry _ => ?_)
  obtain ⟨session, number⟩ := handle
  obtain rfl : session = l.session := hhandle
  rw [Bool.eq_iff_iff]
  simp [SortedMap.rank_eq_iff]

/-- A turn changes the list of constraints as its call and its answer tell. -/
theorem Effect.listed (h : l.Effect next turn) (hl : l.Sound) :
    next.listed = turn.presentAfter l.listed := by
  match turn, h with
  | .answered (.declare _ _) (.declared _), hdeclares =>
      exact listed_congr hdeclares.books.1 hdeclares.session
  | .answered (.add _) (.added _), ⟨_, hconstraint, haccepts, _, hhandle⟩ =>
      rw [haccepts.listed hl, hconstraint, hhandle]
      rfl
  | .answered (.remove _) .done, ⟨_, htag, hwithdraws, _⟩ =>
      exact hwithdraws.listed (SolverM.tag_eq_ok_iff.mp htag).1
  | .answered .resolve (.resolved _), ⟨hkeeps, _⟩ =>
      exact listed_congr hkeeps.books.1 hkeeps.session
  | .answered (.release _) .done, hreleases =>
      exact listed_congr hreleases.books.1 hreleases.session
  | .answered (.reset _) .done, hrestarts =>
      unfold Solver.listed
      rw [hrestarts.2.1]
      rfl
  | .answered (.valueOf _) (.value _), hsame => exact hsame.1 ▸ rfl
  | .answered (.errorVariables _) (.errors _), hsame
  | .answered (.strengthOf _) (.strength _), hsame => exact hsame ▸ rfl
  | .refused _ _, hrefused =>
      have hkeeps := Effect.refused hrefused
      exact listed_congr hkeeps.books.1 hkeeps.session

end Solver

/-- The constraints of a solver are those that its history leaves: what was answered determines them,
with their handles and in their order. -/
theorem Run.listed (hrun : Run settings session turns s) :
    s.listed = presentIn turns ∧ s.accepted = (presentIn turns).map Prod.snd := by
  obtain ⟨l, hforms, has⟩ := hrun.exists_asForms
  have hlisted : l.listed = presentIn turns := by
    refine (hforms.preserves (P := fun turns l => l.listed = presentIn turns) rfl ?_).2
    intro turns turn before next hbefore _ heffect ih
    rw [heffect.listed hbefore, ih, presentIn_concat]
  have hsession : s.session = l.session := congrArg Registry.session has.registry.symm
  have hsame : s.listed = presentIn turns := by
    rw [← hlisted]
    exact Solver.listed_congr has.constraints.symm hsession
  exact ⟨hsame, by rw [Solver.accepted_eq_listed, hsame]⟩

/-! ## Solutions -/

/-- The rows of a solver hold exactly where the equations of its constraints hold: the expression of
each constraint with its own variables added is zero.  A constraint has a second variable exactly if
it is soft. -/
theorem rows_iff_equations (hrun : Run settings session turns s) (honly : OnlyDeclared turns) :
    (∀ entry ∈ s.constraints.toList,
      entry.2.partner.isSome = entry.2.constraint.strength.isSome) ∧
    ∀ a : Assignment Rat,
      s.tableau.Holds a ↔ ∀ entry ∈ s.constraints.toList, entry.2.Holds a := by
  obtain ⟨l, hforms, has⟩ := hrun.exists_asForms
  have haccounts := hforms.accounts honly
  rw [← has.constraints]
  constructor
  · intro entry hentry
    have hpresent : l.Present entry.2 := Solver.present_iff.mpr ⟨entry, hentry, rfl⟩
    exact Bool.eq_iff_iff.mpr (hforms.sound.formed entry.2 hpresent).partner_isSome
  · intro a
    rw [← has.holds, haccounts.holds]
    constructor
    · intro hall entry hentry
      exact hall entry.2 (Solver.present_iff.mpr ⟨entry, hentry, rfl⟩)
    · intro hall tag htag
      obtain ⟨entry, hentry, rfl⟩ := Solver.present_iff.mp htag
      exact hall entry hentry

theorem rows_iff_equations_layout : layout.2.constraints.size = 3 ∧
    ∀ a : Assignment Rat, layout.2.tableau.Holds a ↔
      ∀ entry ∈ layout.2.constraints.toList, entry.2.Holds a :=
  ⟨by decide +kernel, (rows_iff_equations run_layout onlyDeclared_layout).2⟩

/-! ## Feasibility -/

/-- At any time the values that can be asked for satisfy the required constraints that are present;
slack and error variables are not negative, and pinned variables are zero. -/
theorem values_feasible (hrun : Run settings session turns s) (honly : OnlyDeclared turns) :
    (∀ v : Variable, s.tableau.registry.resolve v = .ok v.id →
      (SolverM.valueOf v).run s = .ok (s.tableau.value v.id) s) ∧
    (∀ c ∈ s.accepted, c.strength = none → c.Holds s.tableau.value) ∧
    ∀ v record, s.tableau.registry.get? v = some record →
      (record.kind = .slack ∨ record.kind = .error → 0 ≤ s.tableau.value v) ∧
      (record.kind = .constant → s.tableau.value v = 0) := by
  obtain ⟨l, hforms, has⟩ := hrun.exists_asForms
  have hfeasible := hforms.sound.proper.feasible_value
  have hadmissible := (hforms.accounts honly).admissible hforms.sound hfeasible
  rw [has.accepted, has.value] at hadmissible
  rw [has.value] at hfeasible
  refine ⟨fun v hlive => SolverM.valueOf_run hlive, hadmissible.required, fun v record hrecord => ?_⟩
  have hkind : l.tableau.kindOf v = some record.kind := kindOf_eq (has.registry ▸ hrecord)
  have hallows := hfeasible.allows v record.kind hkind
  constructor
  · rintro (hslack | herror)
    · rw [hslack] at hallows
      exact hallows
    · rw [herror] at hallows
      exact hallows
  · intro hconstant
    rw [hconstant] at hallows
    exact hallows

theorem values_feasible_layout : layout.2.tableau.value width.id = 10 ∧
    ∀ c ∈ layout.2.accepted, c.strength = none → c.Holds layout.2.tableau.value :=
  ⟨by decide +kernel, (values_feasible run_layout onlyDeclared_layout).2.1⟩

/-! ## Optima -/

/-- Whether a turn leaves the solver optimised: a constraint was added or removed, or the solver was
resolved. -/
def Turn.Settles : Turn Rat → Prop
  | .answered (.add _) _ | .answered (.remove _) _ | .answered .resolve _ => True
  | .refused .resolve _ => True
  | _ => False

/-- After a turn that settles a solver its goal cannot be improved. -/
theorem Run.settled {l : Solver LinearForm Rat} {turn : Turn Rat}
    (hrun : Run settings session (turns ++ [turn]) l) (hsettles : turn.Settles) : l.Settled := by
  obtain ⟨before, -, heffect⟩ := hrun.last
  cases turn with
  | answered call reply =>
      cases call with
      | add c =>
          cases reply with
          | added => exact heffect.elim fun _ hadded => hadded.2.2.1
          | _ => exact heffect.elim
      | remove handle =>
          cases reply with
          | done => exact heffect.elim fun _ hremoved => hremoved.2.2
          | _ => exact heffect.elim
      | resolve =>
          cases reply with
          | resolved => exact heffect.2.1
          | _ => exact heffect.elim
      | _ => exact hsettles.elim
  | refused call cause =>
      cases call with
      | resolve => exact heffect.elim
      | _ => exact hsettles.elim

/-- Once a constraint was added or removed or the solver was resolved, the current values are
admissible and no admissible values violate the constraints less, compared from the highest level
down.  How much they violate them depends on the constraints alone: a solver with the same
constraints over variables of the same kinds, after whatever history, violates them as much. -/
theorem values_optimal {turn : Turn Rat} (hrun : Run settings session (turns ++ [turn]) s)
    (honly : OnlyDeclared (turns ++ [turn])) (hsettles : turn.Settles) :
    Admissible s.accepted (declaredIn (turns ++ [turn])) s.tableau.value ∧
    (∀ a, Admissible s.accepted (declaredIn (turns ++ [turn])) a →
      (Constraint.violations s.accepted a).compare
        (Constraint.violations s.accepted s.tableau.value) ≠ .lt) ∧
    ∀ (settings' : Settings) (session' : SessionId) (turns' : List (Turn Rat)) (turn' : Turn Rat)
      (s' : Solver (Storage Rat) Rat), Run settings' session' (turns' ++ [turn']) s' →
      OnlyDeclared (turns' ++ [turn']) → turn'.Settles → s.accepted.Perm s'.accepted →
      (∀ entry ∈ declaredIn (turns ++ [turn]), ∀ entry' ∈ declaredIn (turns' ++ [turn']),
        entry.1.id = entry'.1.id → Constraint.DependOn s.accepted entry.1.id →
          entry.2 = entry'.2) →
      Constraint.violations s.accepted s.tableau.value =
        Constraint.violations s'.accepted s'.tableau.value := by
  obtain ⟨l, hforms, has⟩ := hrun.exists_asForms
  have haccounts := hforms.accounts honly
  have hsound := hforms.sound
  have hsettled := hforms.settled hsettles
  rw [← has.accepted, ← has.value]
  refine ⟨haccounts.admissible hsound hsound.proper.feasible_value,
    fun a ha => haccounts.optimal hsound hsettled ha, ?_⟩
  intro settings' session' turns' turn' s' hrun' honly' hsettles' hsame hkinds
  obtain ⟨l', hforms', has'⟩ := hrun'.exists_asForms
  rw [← has'.accepted] at hsame
  rw [← has'.accepted, ← has'.value]
  exact haccounts.violations_unique hsound hsettled (hforms'.accounts honly') hforms'.sound
    (hforms'.settled hsettles') hsame hkinds

/-- The wish for a width of 20 is missed by 10, and no admissible width comes closer. -/
theorem values_optimal_layout :
    (layout.1.getLast? = some (.answered .resolve (.resolved .optimal)) ∧
      layout.2.accepted = [.required ⟨0, [(1, width)]⟩ .greaterOrEqual,
        .required ⟨-10, [(1, width)]⟩ .lessOrEqual, ⟨⟨-20, [(1, width)]⟩, .equal, some .low⟩] ∧
      Constraint.violations layout.2.accepted layout.2.tableau.value =
        .ofFn fun level => if level = .low then 10 else 0) ∧
    ∀ a, Admissible layout.2.accepted [(width, .unrestricted)] a →
      (Constraint.violations layout.2.accepted a).compare
        (Constraint.violations layout.2.accepted layout.2.tableau.value) ≠ .lt := by
  have hlast : layout.1 = layout.1.dropLast ++ [.answered .resolve (.resolved .optimal)] := by
    decide +kernel
  have hdeclared : declaredIn layout.1 = [(width, .unrestricted)] := by decide +kernel
  have hrun := run_layout
  have honly := onlyDeclared_layout
  rw [hlast] at hrun honly
  refine ⟨by decide +kernel, ?_⟩
  rw [← hdeclared, hlast]
  exact (values_optimal hrun honly trivial).2.1

end LexSimplex
