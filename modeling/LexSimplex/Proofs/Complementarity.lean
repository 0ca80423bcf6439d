import LexSimplex.Proofs.Exact.Declared
import LexSimplex.Proofs.Handles
import LexSimplex.Proofs.Loops
import LexSimplex.Proofs.Penalties

/-!
# Error variables measure violations

The two variables of a soft constraint enter its equation with opposite signs, and no other equation
mentions them.  So they can be raised together by any amount without leaving the solutions
(`Accounts.holds_raise`).  A solution is determined by the variables without a row, hence one of the
two has no row and is zero (`Accounts.one_zero`), in every state and not only in an optimal one.

Since neither is negative, the error variables of the constraint add up to its violation and no more
(`errors_measure_violation`).
-/

namespace LexSimplex

open Tableau

namespace Tag

variable {tag other : Tag Rat} {a : Assignment Rat} {partner : VariableId}

/-- The two variables of a soft constraint raised by one. -/
def raise (tag : Tag Rat) (partner : VariableId) (a : Assignment Rat) : Assignment Rat :=
  Function.update (Function.update a tag.marker (a tag.marker + 1)) partner (a partner + 1)

/-- The equation of a constraint balances its two variables. -/
theorem residual_raise (hpartner : tag.partner = some partner) (hne : partner ≠ tag.marker)
    (hnet : ∀ v ∈ tag.own, tag.constraint.expression.netCoefficient v = 0) :
    tag.residual (tag.raise partner a) = tag.residual a := by
  have hmarker : tag.raise partner a tag.marker = a tag.marker + 1 := by
    unfold raise
    rw [Function.update_of_ne hne.symm, Function.update_self]
  have hvalue : tag.raise partner a partner = a partner + 1 := Function.update_self ..
  have heval : tag.constraint.expression.eval (tag.raise partner a) =
      tag.constraint.expression.eval a := by
    unfold raise
    rw [Expression.eval_update, Expression.eval_update,
      hnet partner (mem_own.mpr (Or.inr hpartner)), hnet tag.marker List.mem_cons_self]
    ring
  rw [residual_eq, residual_eq, heval, hmarker]
  unfold partnerValue
  rw [hpartner]
  simp only
  rw [hvalue]
  ring

/-- The equation of a constraint does not see the variables of another one. -/
theorem residual_raise_of_disjoint (hpartner : tag.partner = some partner)
    (hdisjoint : ∀ v ∈ tag.own, v ∉ other.own)
    (hnet : ∀ v ∈ tag.own, other.constraint.expression.netCoefficient v = 0) :
    other.residual (tag.raise partner a) = other.residual a := by
  have hown : partner ∈ tag.own := mem_own.mpr (Or.inr hpartner)
  unfold raise
  rw [residual_update_of_not_mem (hdisjoint partner hown), hnet partner hown,
    residual_update_of_not_mem (hdisjoint tag.marker List.mem_cons_self),
    hnet tag.marker List.mem_cons_self]
  ring

/-- On a solution with one of the two variables at zero and neither negative, the error variables
are the violation. -/
theorem shortfall_eq_violation (hpartner : tag.partner = some partner) (hholds : tag.Holds a)
    (hown : ∀ v ∈ tag.own, 0 ≤ a v) (hzero : a tag.marker = 0 ∨ a partner = 0) :
    tag.shortfall a = tag.constraint.violation a := by
  have hmarker := hown tag.marker List.mem_cons_self
  have hvalue := hown partner (mem_own.mpr (Or.inr hpartner))
  unfold Holds residual partnerValue at hholds
  unfold shortfall Constraint.violation partnerValue
  rw [hpartner] at hholds ⊢
  cases hrelation : tag.constraint.relation with
  | equal =>
      rw [hrelation] at hholds
      simp only at hholds ⊢
      rcases hzero with hzero | hzero <;> split <;> linarith
  | lessOrEqual =>
      rw [hrelation] at hholds
      simp only [Constraint.excess] at hholds ⊢
      rcases hzero with hzero | hzero <;> split <;> linarith
  | greaterOrEqual =>
      rw [hrelation] at hholds
      simp only [Constraint.excess] at hholds ⊢
      rcases hzero with hzero | hzero <;> split <;> linarith

end Tag

namespace Solver

variable {s : Solver LinearForm Rat} {declared : List (Variable × DeclaredKind)} {tag : Tag Rat}
  {a : Assignment Rat} {partner : VariableId}

namespace Accounts

/-- The two variables of a soft constraint can be raised together. -/
theorem holds_raise (h : s.Accounts declared) (hs : s.Sound) (htag : s.Present tag)
    (hpartner : tag.partner = some partner) (ha : s.tableau.Holds a) :
    s.tableau.Holds (tag.raise partner a) := by
  have hne : partner ≠ tag.marker := by
    rintro rfl
    exact (hs.formed tag htag).partner_ne hpartner
  refine (h.holds _).mpr fun other hother => ?_
  have hbefore : other.residual a = 0 := (h.holds a).mp ha other hother
  have hnet : ∀ v ∈ tag.own, other.constraint.expression.netCoefficient v = 0 :=
    fun v hv => h.netCoefficient_own hother htag hv
  show other.residual _ = 0
  by_cases hsame : tag = other
  · subst hsame
    rw [Tag.residual_raise hpartner hne hnet, hbefore]
  · have hdisjoint : ∀ v ∈ tag.own, v ∉ other.own :=
      fun v hv hvother => hsame (hs.eq_of_mem_own htag hother hv hvother)
    rw [Tag.residual_raise_of_disjoint hpartner hdisjoint hnet, hbefore]

/-- Of the two variables of a soft constraint one is zero. -/
theorem one_zero (h : s.Accounts declared) (hs : s.Sound) (htag : s.Present tag)
    (hpartner : tag.partner = some partner) :
    s.tableau.value tag.marker = 0 ∨ s.tableau.value partner = 0 := by
  have hfree : s.tableau.definitionOf tag.marker = none ∨ s.tableau.definitionOf partner = none := by
    by_contra hboth
    rw [not_or] at hboth
    -- If both had a row, raising them would give a second solution with the same parameters.
    have hsolution := hs.proper.holds_value
    have hraised := h.holds_raise hs htag hpartner hsolution
    have hsame : s.tableau.value = tag.raise partner s.tableau.value := by
      refine hs.proper.reduced.solution_unique hsolution hraised fun v hv => ?_
      have hmarker : v ≠ tag.marker := fun heq => hboth.1 (heq ▸ hv)
      have hother : v ≠ partner := fun heq => hboth.2 (heq ▸ hv)
      unfold Tag.raise
      rw [Function.update_of_ne hother, Function.update_of_ne hmarker]
    have hvalue := congrFun hsame partner
    unfold Tag.raise at hvalue
    rw [Function.update_self] at hvalue
    linarith
  have hzero : ∀ v, s.tableau.definitionOf v = none → s.tableau.value v = 0 := by
    intro v hv
    rw [value_eq_complete, complete_of_none hv]
  exact hfree.imp (hzero _) (hzero _)

/-- At the current values the error variables of a soft constraint are its violation. -/
theorem shortfall_value (h : s.Accounts declared) (hs : s.Sound) (htag : s.Present tag)
    (hsoft : tag.constraint.strength.isSome) :
    tag.shortfall s.tableau.value = tag.constraint.violation s.tableau.value := by
  have hformed := hs.formed tag htag
  obtain ⟨partner, hpartner⟩ := Option.isSome_iff_exists.mp (hformed.partner_isSome.mpr hsoft)
  have hfeasible := hs.proper.feasible_value
  exact Tag.shortfall_eq_violation hpartner ((h.holds _).mp hfeasible.holds tag htag)
    (fun v hv => hformed.own_nonneg hfeasible hv) (h.one_zero hs htag hpartner)

end Accounts

end Solver

/-! ## Asking for the error variables -/

namespace SolverM

variable {S α : Type} {s : Solver S α}

/-- A choice made for each element of a list, where each decision is known and changes nothing. -/
theorem filterM_run {ι : Type} {f : ι → SolverM S α Bool} {keep : ι → Bool} {xs : List ι}
    (hf : ∀ x ∈ xs, (f x).run s = .ok (keep x) s) :
    (xs.filterM f).run s = .ok (xs.filter keep) s := by
  have haux : ∀ kept : List ι, (List.filterAuxM f xs kept).run s =
      .ok ((xs.filter keep).reverse ++ kept) s := by
    induction xs with
    | nil => exact fun kept => rfl
    | cons x xs ih =>
        intro kept
        have hrest := ih fun y hy => hf y (List.mem_cons_of_mem _ hy)
        rw [List.filterAuxM, run_bind_of_ok (hf x List.mem_cons_self), hrest, List.filter_cons]
        cases keep x <;> simp
  rw [List.filterM, run_bind_of_ok (haux []), List.append_nil, List.reverse_reverse]
  rfl

/-- The error variables of a present constraint, as handles. -/
theorem errorVariables_run {handle : ConstraintHandle} {tag : Tag α}
    (htag : s.tag handle = .ok tag)
    (hlive : ∀ v ∈ tag.own, (s.tableau.registry.get? v).isSome) :
    (errorVariables handle).run s = .ok ((tag.errors s.tableau.registry).filterMap
      s.tableau.registry.handle?) s := by
  have hkind : ∀ v ∈ tag.own,
      (do return (← s.tableau.registry.kind v) = .error : SolverM S α Bool).run s =
        .ok (decide ((s.tableau.registry.get? v).map Record.kind = some .error)) s := by
    intro v hv
    obtain ⟨record, hrecord⟩ := Option.isSome_iff_exists.mp (hlive v hv)
    rw [Registry.kind_eq_ok hrecord, hrecord]
    simp only [Option.map_some, Option.some.injEq]
    rfl
  have hget : (get : SolverM S α (Solver S α)).run s = .ok s s := rfl
  have hfound : (liftM (s.tag handle) : SolverM S α (Tag α)).run s = .ok tag s := by
    rw [htag]
    rfl
  unfold errorVariables
  rw [run_bind_of_ok hget, run_bind_of_ok hfound, run_bind_of_ok (filterM_run hkind)]
  rfl

end SolverM

/-- The handles of live variables stand for these variables. -/
theorem Registry.map_id_handles {α : Type} {r : Registry α} {ids : List VariableId}
    (hlive : ∀ id ∈ ids, (r.get? id).isSome) :
    (ids.filterMap r.handle?).map Variable.id = ids := by
  induction ids with
  | nil => rfl
  | cons id ids ih =>
      obtain ⟨v, hhandle, hid, -⟩ := exists_handle (hlive id List.mem_cons_self)
      rw [List.filterMap_cons_some hhandle, List.map_cons, hid,
        ih fun other hother => hlive other (List.mem_cons_of_mem _ hother)]

/-! ## Runs -/

variable {settings : Settings} {session : SessionId} {turns : List (Turn Rat)}
  {s : Solver (Storage Rat) Rat}

/-- In every state that calls can lead to, the error variables of a soft constraint that is present
can be asked for and have values, and these add up to the violation of the constraint at the current
values. -/
theorem errors_measure_violation (hrun : Run settings session turns s)
    (honly : OnlyDeclared turns) {handle : ConstraintHandle} {tag : Tag Rat}
    (htag : s.tag handle = .ok tag) (hsoft : tag.constraint.strength.isSome) :
    ∃ errors, (SolverM.errorVariables handle).run s = .ok errors s ∧
      (∀ v ∈ errors, (SolverM.valueOf v).run s = .ok (s.tableau.value v.id) s) ∧
      (errors.map fun v => s.tableau.value v.id).sum =
        tag.constraint.violation s.tableau.value := by
  obtain ⟨l, hforms, has⟩ := hrun.exists_asForms
  have hsound := hforms.sound
  have hpresent : l.Present tag :=
    ⟨handle.number, by rw [has.constraints, (SolverM.tag_eq_ok_iff.mp htag).2]⟩
  have hlive : ∀ v ∈ tag.own, (s.tableau.registry.get? v).isSome := by
    intro v hv
    have hkind := (hsound.formed tag hpresent).live hv
    rwa [kindOf, Option.isSome_map, has.registry] at hkind
  have herrors : ∀ v ∈ tag.errors s.tableau.registry, (s.tableau.registry.get? v).isSome :=
    fun v hv => hlive v (List.mem_of_mem_filter hv)
  refine ⟨_, SolverM.errorVariables_run htag hlive, fun v hv => ?_, ?_⟩
  · obtain ⟨id, hid, hhandle⟩ := List.mem_filterMap.mp hv
    obtain ⟨found, hfound, -, hcurrent⟩ := Registry.exists_handle (herrors id hid)
    rw [hhandle, Option.some.injEq] at hfound
    exact SolverM.valueOf_run (hfound ▸ hcurrent)
  · obtain ⟨strength, hstrength⟩ := Option.isSome_iff_exists.mp hsoft
    have hsum := (hsound.formed tag hpresent).sum_errors hstrength l.tableau.value
    rw [(hforms.accounts honly).shortfall_value hsound hpresent hsoft, has.value,
      has.registry] at hsum
    rw [← hsum]
    nth_rewrite 2 [← Registry.map_id_handles herrors]
    rw [List.map_map]
    rfl

/-- In the small layout the width is 10, and the wish for a width of 20 is short of 10. -/
theorem errors_measure_violation_layout :
    SolverM.answer? (SolverM.errorVariables ⟨⟨0⟩, ⟨2⟩⟩) layout.2 =
      some (.ok [⟨⟨0⟩, ⟨3⟩, 0⟩, ⟨⟨0⟩, ⟨4⟩, 0⟩]) ∧
    ∃ errors, (SolverM.errorVariables ⟨⟨0⟩, ⟨2⟩⟩).run layout.2 = .ok errors layout.2 ∧
      (errors.map fun v => layout.2.tableau.value v.id).sum = 10 := by
  have htag : layout.2.tag ⟨⟨0⟩, ⟨2⟩⟩ =
      .ok ⟨⟨⟨-20, [(1, width)]⟩, .equal, some .low⟩, ⟨3⟩, some ⟨4⟩⟩ := by decide +kernel
  have hviolation : (⟨⟨-20, [(1, width)]⟩, .equal, some .low⟩ : Constraint Rat).violation
      layout.2.tableau.value = 10 := by decide +kernel
  obtain ⟨errors, hanswer, -, hsum⟩ :=
    errors_measure_violation run_layout onlyDeclared_layout htag rfl
  exact ⟨by decide +kernel, errors, hanswer, hsum.trans hviolation⟩

end LexSimplex
