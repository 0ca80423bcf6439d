import LexSimplex.Proofs.Frame
import LexSimplex.Proofs.Rows
import LexSimplex.Proofs.Storage.Represents

/-!
# Loops that are not refused

A pivot is refused for a row that is not there, a row without a basic variable and a row that does
not mention the entering variable.  Neither loop asks for such a pivot, whatever the scalars: the
primal one takes a row in which the entering variable has a negative coefficient
(`Tableau.leavingRow_spec`), the dual one a variable that is listed in the row to repair
(`Tableau.repairEntering_spec`).  So a loop comes to its verdict or does not come back at all
(`Tableau.optimize_unrefused`, `Tableau.dualOptimize_unrefused`).

Two facts are used: zero is not less than itself, and what a row lists can be looked up in it.  The
second one holds of every lawful storage together with its map (`RowStore.searchable_paired`).
-/

namespace LexSimplex

/-- A computation is not refused: it succeeds, or the call that makes it does not come back. -/
def Unrefused {β : Type} (x : Except Failure β) : Prop := ∀ cause, x ≠ .error (.error cause)

section Unrefused

variable {β γ : Type}

theorem unrefused_ok (value : β) : Unrefused (.ok value) := fun _ h => by cases h

theorem unrefused_access (x : Except AccessFault β) : Unrefused (liftM x : Except Failure β) := by
  intro cause h
  cases x <;> cases h

theorem unrefused_answer {x : Except SolverError β} {value : β} (h : x = .ok value) :
    Unrefused (liftM x : Except Failure β) := by
  rw [h]
  exact unrefused_ok value

theorem Unrefused.bind {x : Except Failure γ} {f : γ → Except Failure β} (hx : Unrefused x)
    (hf : ∀ value, x = .ok value → Unrefused (f value)) : Unrefused (x >>= f) := by
  cases x with
  | ok value => exact hf value rfl
  | error failure =>
      intro cause h
      cases h
      exact hx cause rfl

/-- A loop is not refused if none of its steps is. -/
theorem iterate_unrefused {σ : Type} {step : σ → Except Failure (Step σ)} {I : σ → Prop}
    (hstep : ∀ state, I state → Unrefused (step state))
    (hkeep : ∀ state next exchange, I state → step state = .ok (.proceed next exchange) → I next)
    {state : σ} (h : I state) (limit : Nat) : Unrefused (iterate step limit state) := by
  induction limit generalizing state with
  | zero => exact fun _ hout => by cases hout
  | succ limit ih =>
      rw [iterate_succ]
      refine (hstep state h).bind fun now hnow => ?_
      cases now with
      | halt final verdict => exact unrefused_ok _
      | proceed next exchange =>
          exact (ih (hkeep state next exchange h hnow)).bind fun _ _ => unrefused_ok _

end Unrefused

/-- What a choice among the elements of a list ends with is what it started with, or it was taken
from one of them. -/
theorem foldlM_cases {ε β ι : Type} {step : β → ι → Except ε β} {P : ι → β → Prop}
    (hstep : ∀ {best entry chosen}, step best entry = .ok chosen → chosen = best ∨ P entry chosen)
    {entries : List ι} {best chosen : β} (h : entries.foldlM step best = .ok chosen) :
    chosen = best ∨ ∃ entry ∈ entries, P entry chosen := by
  induction entries generalizing best with
  | nil =>
      cases h
      exact Or.inl rfl
  | cons entry entries ih =>
      rw [List.foldlM_cons] at h
      obtain ⟨middle, hmiddle, hrest⟩ := ok_of_bind h
      rcases ih hrest with rfl | ⟨other, hother, hchosen⟩
      · exact (hstep hmiddle).imp_right fun hentry => ⟨entry, List.mem_cons_self, hentry⟩
      · exact Or.inr ⟨other, List.mem_cons_of_mem _ hother, hchosen⟩

/-- The variable chosen so far is kept, or the one that is weighed replaces it. -/
theorem Goal.weighRatio_cases {α : Type} [Scalar α] {g : Goal α} {registry : Registry α}
    {best chosen : Option (VariableId × StrengthVector α)} {entry : VariableId × α}
    (h : g.weighRatio registry best entry = .ok chosen) :
    chosen = best ∨ chosen.map Prod.fst = some entry.1 := by
  unfold weighRatio at h
  split at h
  next =>
    cases h
    exact Or.inl rfl
  next =>
    obtain ⟨kind, -, h⟩ := ok_of_bind h
    cases h
    split
    next =>
      unfold better
      split
      · exact Or.inr rfl
      · split
        · exact Or.inr rfl
        · exact Or.inl rfl
    next => exact Or.inl rfl

/-- What a storage lists can be looked up in it. -/
def RowStore.Searchable (S : Type) {α : Type} [RowStore S α] : Prop :=
  ∀ (store : S) (v : VariableId) (x : α), (v, x) ∈ toList store → (find? store v).isSome

theorem RowStore.searchable_paired (S α : Type) [Scalar α] [RowStore S α] [LawfulStore S α] :
    Searchable (Paired S α) := by
  intro pair v x hlisted
  have hmem : (v, x) ∈ pair.map.toList := LawfulStore.toList pair.represents ▸ hlisted
  have hfound : find? pair v = some x :=
    (LawfulStore.find? pair.represents v).trans (SortedMap.find?_eq_some.mpr hmem)
  rw [hfound]
  rfl

namespace Tableau

variable {S α : Type} {t next : Tableau S α} {entering : VariableId} {id : RowId}

theorem artificial_insertRow {row : Row S α} (h : t.insertRow row = .ok next) :
    next.artificial = t.artificial := by
  obtain ⟨registry, rows, holes, rfl⟩ := insertRow_parts h
  rfl

/-- There is an objective to minimise. -/
def Pursues (t : Tableau S α) (which : Objective) : Prop := ∃ goal, t.objective which = .ok goal

theorem pursues_main : t.Pursues .main := ⟨t.goal, rfl⟩

theorem pursues_artificial_iff : t.Pursues .artificial ↔ t.artificial.isSome := by
  unfold Pursues objective
  cases t.artificial with
  | none => simp
  | some goal => simp

theorem basic_of_restricted {row : Row S α} (h : t.hasRestrictedBasic row = .ok true) :
    ∃ leaving, row.basic = some leaving := by
  unfold hasRestrictedBasic at h
  split at h
  next => cases h
  next leaving hbasic => exact ⟨leaving, hbasic⟩

variable [Scalar α]

theorem basic_of_infeasible {row : Row S α} (h : t.isInfeasible row = .ok true) :
    ∃ leaving, row.basic = some leaving := by
  unfold isInfeasible at h
  split at h
  next => cases h
  next leaving hbasic => exact ⟨leaving, hbasic⟩

variable [RowStore S α]

theorem artificial_substitute {v : VariableId} {definition : Row S α}
    (h : t.substitute v definition = .ok next) :
    next.artificial = t.artificial.map fun goal => goal.substitute v definition := by
  obtain ⟨queued, -, hnext⟩ := ok_of_bind h
  cases hnext
  rfl

/-- A pivot rewrites the objective of phase one and does not drop it. -/
theorem artificial_pivot {exchange : Exchange} (h : t.pivot entering id = .ok (next, exchange)) :
    next.artificial.isSome = t.artificial.isSome := by
  obtain ⟨leaving, solved, taken, substituted, htaken, hsubstituted, hrestored⟩ := pivot_parts h
  obtain ⟨before, rfl⟩ := define_parts htaken
  obtain ⟨after, rfl⟩ := define_parts hrestored
  show substituted.artificial.isSome = _
  rw [artificial_substitute hsubstituted, Option.isSome_map]
  rfl

theorem Pursues.pivot {which : Objective} {exchange : Exchange} (h : t.Pursues which)
    (hpivot : t.pivot entering id = .ok (next, exchange)) : next.Pursues which := by
  cases which with
  | main => exact pursues_main
  | artificial => rwa [pursues_artificial_iff, artificial_pivot hpivot, ← pursues_artificial_iff]

/-- Nothing is refused when a row with a basic variable is solved for a variable it mentions. -/
theorem pivot_unrefused {row : Row S α} {leaving : VariableId} (hrow : t.row? id = some row)
    (hbasic : row.basic = some leaving) (hmentions : row.mentions entering = true) :
    Unrefused (t.pivot entering id) := by
  obtain ⟨coefficient, hcoefficient⟩ := Option.isSome_iff_exists.mp hmentions
  obtain ⟨solved, hsolved⟩ : ∃ solved, row.pivot entering leaving = .ok solved := by
    unfold Row.pivot Row.solveFor
    rw [if_pos hbasic, hcoefficient]
    exact ⟨_, rfl⟩
  refine (unrefused_answer (row_eq_ok hrow)).bind fun found hfound => ?_
  rw [row_eq_ok hrow] at hfound
  cases hfound
  simp only [hbasic]
  refine (unrefused_answer hsolved).bind fun _ _ => (unrefused_access _).bind fun _ _ => ?_
  refine (unrefused_access _).bind fun _ _ => (unrefused_access _).bind fun _ _ => ?_
  exact unrefused_ok _

/-! ## The primal loop -/

/-- A row is weighed only if its basic variable is restricted and its coefficient negative. -/
theorem weighLeaving_cases {best chosen : Option (RowId × α)} {entry : RowId × Row S α}
    (h : t.weighLeaving entering best entry = .ok chosen) :
    chosen = best ∨ chosen.map Prod.fst = some entry.1 ∧
      t.hasRestrictedBasic entry.2 = .ok true ∧ entry.2.coefficient entering < 0 := by
  obtain ⟨restricted, hrestricted, h⟩ := ok_of_bind h
  cases h
  split
  next hweighed =>
    rw [Bool.and_eq_true, decide_eq_true_eq] at hweighed
    obtain ⟨rfl, hnegative⟩ := hweighed
    unfold smaller
    split
    · exact Or.inr ⟨rfl, hrestricted, hnegative⟩
    · split
      · exact Or.inr ⟨rfl, hrestricted, hnegative⟩
      · exact Or.inl rfl
  next => exact Or.inl rfl

/-- The row that limits an entering variable has a basic variable and mentions the entering one. -/
theorem leavingRow_spec (hzero : ¬(0 : α) < 0) (h : t.leavingRow entering = .ok (some id)) :
    ∃ row leaving, t.row? id = some row ∧ row.basic = some leaving ∧
      row.mentions entering = true := by
  obtain ⟨best, hbest, hid⟩ := ok_of_bind h
  replace hid : best.map Prod.fst = some id := Except.ok.inj hid
  rcases foldlM_cases weighLeaving_cases hbest with rfl | ⟨⟨found, row⟩, hrow, hfound, hchosen⟩
  · cases hid
  · rw [hid, Option.some.injEq] at hfound
    subst hfound
    obtain ⟨hrestricted, hnegative⟩ := hchosen
    obtain ⟨leaving, hbasic⟩ := basic_of_restricted hrestricted
    refine ⟨row, leaving, mem_rowList.mp hrow, hbasic, ?_⟩
    -- A variable that is not mentioned has coefficient zero, which is not negative.
    by_contra hmissing
    unfold Row.mentions at hmissing
    rw [Bool.not_eq_true, Option.isSome_eq_false_iff, Option.isNone_iff_eq_none] at hmissing
    unfold Row.coefficient RowStore.get at hnegative
    rw [hmissing] at hnegative
    exact hzero hnegative

theorem primalStep_unrefused (hzero : ¬(0 : α) < 0) {which : Objective} (h : t.Pursues which) :
    Unrefused (t.primalStep which) := by
  obtain ⟨goal, hgoal⟩ := h
  refine (unrefused_answer hgoal).bind fun _ _ => (unrefused_access _).bind fun column _ => ?_
  cases column with
  | none => exact unrefused_ok _
  | some entering =>
      refine (unrefused_access _).bind fun limiting hlimiting => ?_
      cases limiting with
      | none => exact unrefused_ok _
      | some id =>
          obtain ⟨row, leaving, hrow, hbasic, hmentions⟩ :=
            leavingRow_spec hzero (ok_of_lift_access hlimiting)
          exact (pivot_unrefused hrow hbasic hmentions).bind fun _ _ => unrefused_ok _

/-- The primal loop is not refused at any step. -/
theorem optimize_unrefused (hzero : ¬(0 : α) < 0) {which : Objective} (h : t.Pursues which)
    (limit : Nat) : Unrefused (t.optimize which limit) := by
  refine iterate_unrefused (I := fun t => t.Pursues which) ?_ ?_ h limit
  · exact fun state hstate => primalStep_unrefused hzero hstate
  · intro state next exchange hstate hstep
    obtain ⟨entering, id, made, hpivot⟩ := pivot_of_primalStep hstep
    exact hstate.pivot hpivot

/-! ## The dual loop -/

/-- The variable that enters through a row to be repaired is mentioned there. -/
theorem repairEntering_spec (hsearch : RowStore.Searchable S) {row : Row S α}
    (h : t.repairEntering row = .ok (some entering)) : row.mentions entering = true := by
  unfold repairEntering at h
  split at h
  next =>
    obtain ⟨best, hbest, hentering⟩ := ok_of_bind h
    replace hentering : best.map Prod.fst = some entering := Except.ok.inj hentering
    rcases foldlM_cases Goal.weighRatio_cases hbest with rfl | ⟨⟨v, x⟩, hlisted, hchosen⟩
    · cases hentering
    · rw [hentering, Option.some.injEq] at hchosen
      subst hchosen
      exact hsearch row.terms entering x hlisted
  next => cases h

theorem repairStep_unrefused (hsearch : RowStore.Searchable S) : Unrefused (t.repairStep id) := by
  unfold repairStep
  split
  next => exact unrefused_ok _
  next row hrow =>
    refine (unrefused_access _).bind fun waits hwaits => ?_
    cases waits with
    | false => exact unrefused_ok _
    | true =>
        obtain ⟨leaving, hbasic⟩ := basic_of_infeasible (ok_of_lift_access hwaits)
        refine (unrefused_access _).bind fun choice hchoice => ?_
        cases choice with
        | none => exact unrefused_ok _
        | some entering =>
            have hmentions := repairEntering_spec hsearch (ok_of_lift_access hchoice)
            exact (pivot_unrefused hrow hbasic hmentions).bind fun _ _ => unrefused_ok _

/-- The dual loop is not refused at any step. -/
theorem dualOptimize_unrefused (hsearch : RowStore.Searchable S) (t : Tableau S α) (limit : Nat) :
    Unrefused (t.dualOptimize limit) := by
  refine iterate_unrefused (I := fun _ => True) (fun state _ => ?_) (fun _ _ _ _ _ => trivial)
    trivial limit
  unfold dualStep
  split
  · exact unrefused_ok _
  · exact repairStep_unrefused hsearch

end Tableau

end LexSimplex
