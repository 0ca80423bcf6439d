import LexSimplex.Proofs.Exact.Optimality
import LexSimplex.Proofs.Frame
import LexSimplex.Proofs.Loops
import Mathlib.Data.Fintype.Option
import Mathlib.Data.Fintype.Pi
import Mathlib.Data.Fintype.Pigeonhole

/-!
# Loops that do not end

A reduced tableau is determined by its frame, its solutions and the rows its variables are defined by
(`row?_eq`, and `eq_of_definitionOf` for a proper one).  A frame leaves finitely many ways to define
variables by rows, so a primal loop that goes on for ever comes back to a tableau it has left, and
then repeats itself.

No step makes the objective worse, and a step that leaves it as it is moves no variable
(`primalStep_moves`).  Within a repetition the objective cannot have become better either, so every
step of it is degenerate (`cycles_of_not_halts`).
-/

namespace LexSimplex

open Strength (Nonneg)

/-! ## Syntax from meaning -/

theorem LinearForm.ext_coefficient {f g : LinearForm}
    (h : ∀ v, f.coefficient v = g.coefficient v) : f = g := by
  have hterms : f.terms = g.terms := by
    apply SortedMap.ext_find?
    intro v
    show RowStore.find? f v = RowStore.find? g v
    cases hfind : RowStore.find? g v with
    | none => rw [find?_eq_none, h v, ← find?_eq_none, hfind]
    | some x =>
        rw [find?_eq_some, h v]
        exact find?_eq_some.mp hfind
  cases f
  cases g
  cases hterms
  rfl

/-- Rows for the same variable with the same value everywhere are equal. -/
theorem Row.ext_eval {row other : Row LinearForm Rat} (hbasic : row.basic = other.basic)
    (h : ∀ a, row.eval a = other.eval a) : row = other := by
  have hconstant : row.constant = other.constant := by
    have hzero := h fun _ => 0
    rwa [eval_zero, eval_zero] at hzero
  have hterms : row.terms = other.terms := by
    apply LinearForm.ext_coefficient
    intro v
    have hone := h (Function.update (fun _ => 0) v 1)
    rw [eval_update, eval_update, eval_zero, eval_zero, hconstant] at hone
    show row.coefficient v = other.coefficient v
    linarith
  cases row
  cases other
  simp_all

/-- Objectives with the same value everywhere are equal. -/
theorem Goal.ext_level {g other : Goal Rat} (hg : g.Clean) (hother : other.Clean)
    (h : ∀ s a, g.level s a = other.level s a) : g = other := by
  have hconstant : g.constant = other.constant := by
    apply StrengthVector.ext_get
    intro s
    have hzero := h s fun _ => 0
    rwa [level_zero, level_zero] at hzero
  have hrate : ∀ s v, g.rate s v = other.rate s v := by
    intro s v
    have hone := h s (Function.update (fun _ => 0) v 1)
    rw [level_update, level_update, h s] at hone
    linarith
  have hterms : g.terms = other.terms := by
    apply SortedMap.ext_find?
    intro v
    show g.coefficient? v = other.coefficient? v
    cases hvector : other.coefficient? v with
    | none =>
        rw [hg.coefficient?_eq_none]
        intro s
        rw [hrate, rate_eq_zero_of_none hvector]
    | some vector =>
        cases hfound : g.coefficient? v with
        | none =>
            -- All rates would be zero, and then the other objective would not mention it either.
            have hnone : other.coefficient? v = none := by
              rw [hother.coefficient?_eq_none]
              intro s
              rw [← hrate, rate_eq_zero_of_none hfound]
            rw [hvector] at hnone
            simp at hnone
        | some found =>
            rw [Option.some.injEq]
            apply StrengthVector.ext_get
            intro s
            rw [← rate_eq_get hfound, ← rate_eq_get hvector, hrate]
  cases g
  cases other
  simp_all

namespace Tableau

variable {t next : Tableau LinearForm Rat} {g : Goal Rat} {which : Objective} {v : VariableId}

/-! ## A tableau is determined by its basis -/

section Basis

variable (hdefinition : ∀ v, next.definitionOf v = t.definitionOf v) (h : t.Reduced)
  (h' : next.Reduced) (hholds : ∀ a, next.Holds a ↔ t.Holds a)

include hdefinition h h' hholds

/-- The same variables are free if the same variables have a definition. -/
theorem complete_eq (a : Assignment Rat) : next.complete a = t.complete a := by
  apply h.solution_unique ((hholds _).mp (h'.holds_complete a)) (h.holds_complete a)
  intro v hv
  rw [complete_of_none ((hdefinition v).trans hv), complete_of_none hv]

theorem row?_eq_some {id : RowId} {row : Row LinearForm Rat} (hrow : t.row? id = some row) :
    next.row? id = some row := by
  obtain ⟨basic, hbasic, hdefined⟩ := h.row_basic hrow
  obtain ⟨other, hother, hotherBasic⟩ :=
    h'.row_of_definition ((hdefinition basic).trans hdefined)
  rw [hother, Option.some.injEq]
  apply Row.ext_eval (hotherBasic.trans hbasic.symm)
  intro a
  rw [← complete_of_row hdefined hrow, ← complete_of_row ((hdefinition basic).trans hdefined) hother,
    complete_eq hdefinition h h' hholds]

theorem row?_eq (id : RowId) : next.row? id = t.row? id := by
  cases hfound : t.row? id with
  | some row => exact row?_eq_some hdefinition h h' hholds hfound
  | none =>
      cases hother : next.row? id with
      | none => rfl
      | some row =>
          have hsame := row?_eq_some (fun v => (hdefinition v).symm) h' h
            (fun a => (hholds a).symm) hother
          rw [hfound] at hsame
          simp at hsame

theorem goal_eq {other : Goal Rat} (hclean : g.Clean) (hg : g.OverNonbasic t.registry)
    (hotherClean : other.Clean) (hother : other.OverNonbasic next.registry)
    (hlevel : ∀ s a, t.Holds a → other.level s a = g.level s a) : other = g := by
  apply Goal.ext_level hotherClean hclean
  intro s a
  rw [← level_complete hother, complete_eq hdefinition h h' hholds,
    hlevel s _ (h.holds_complete a), level_complete hg]

end Basis

/-- Proper tableaus in one frame that say the same and define the same variables by the same rows are
equal. -/
theorem eq_of_definitionOf (h : t.Proper) (h' : next.Proper) (hagrees : Agrees t next)
    (hframe : Frame t next) (hdefinition : ∀ v, next.definitionOf v = t.definitionOf v) :
    next = t := by
  have hrow := row?_eq hdefinition h.reduced h'.reduced hagrees.holds
  have hrows : next.rows = t.rows := by
    apply Array.ext_getElem?
    intro i
    have hat := hrow ⟨i⟩
    unfold row? at hat
    simp only at hat
    by_cases hlt : i < t.rows.size
    · have hlt' : i < next.rows.size := by rw [hframe.size]; exact hlt
      rw [Array.getElem?_eq_getElem hlt, Array.getElem?_eq_getElem hlt'] at hat ⊢
      exact congrArg some hat
    · have hge : t.rows.size ≤ i := Nat.le_of_not_lt hlt
      have hge' : next.rows.size ≤ i := hframe.size ▸ hge
      rw [Array.getElem?_eq_none hge', Array.getElem?_eq_none hge]
  have hobjective : ∀ g other, t.Admits g → next.Admits other →
      (∀ s a, t.Holds a → other.level s a = g.level s a) → other = g :=
    fun g other hg hother => goal_eq hdefinition h.reduced h'.reduced hagrees.holds hg.clean
      hg.overNonbasic hother.clean hother.overNonbasic
  have hgoal : next.goal = t.goal := hobjective _ _ h.goal h'.goal hagrees.goal
  have hartificial : next.artificial = t.artificial := by
    cases hsome : t.artificial with
    | none => exact hagrees.artificial_none hsome
    | some g =>
        obtain ⟨other, hother, hlevel⟩ := hagrees.artificial_some hsome
        rw [hother, hobjective g other (h.artificial g hsome) (h'.artificial other hother) hlevel]
  have hregistry : next.registry = t.registry :=
    Registry.eq_of_undefined hframe.registry hdefinition
  have hinfeasible : next.infeasible = t.infeasible := h'.settled.trans h.settled.symm
  have hholes := hframe.holes
  cases next
  cases t
  simp_all

/-! ## One step -/

/-- What a step of the primal loop that goes on does to a proper tableau. -/
theorem primalStep_proceeds (h : t.Proper) (hg : t.objective which = .ok g)
    {exchange : Option Exchange} (hstep : primalStep which t = .ok (.proceed next exchange)) :
    next.Proper ∧ Agrees t next ∧ ∃ entering, t.Improves g entering ∧
      ∀ v, v ≠ entering → t.definitionOf v = none → next.definitionOf v = none := by
  obtain ⟨step, hstep', hmeaning⟩ := primalStep_spec h hg
  rw [hstep, Except.ok.injEq] at hstep'
  subst hstep'
  exact hmeaning

/-- After a pivot the values are those at which the entering variable alone has left zero. -/
theorem value_of_enters (h : t.Proper) (h' : next.Proper) (hagrees : Agrees t next)
    {entering : VariableId}
    (hothers : ∀ v, v ≠ entering → t.definitionOf v = none → next.definitionOf v = none) :
    next.value = t.complete (Function.update (fun _ => 0) entering (next.value entering)) := by
  apply h.reduced.solution_unique ((hagrees.holds _).mp h'.holds_value) (h.holds_complete _)
  intro v hfree
  rw [complete_of_none hfree]
  by_cases hv : v = entering
  · rw [hv, Function.update_self]
  · rw [Function.update_of_ne hv, value_eq_complete, complete_of_none (hothers v hv hfree)]

/-- A step of the primal loop does not make the objective worse, and it moves no variable unless it
makes the objective better. -/
theorem primalStep_moves (h : t.Proper) (hg : t.objective which = .ok g)
    {exchange : Option Exchange} (hstep : primalStep which t = .ok (.proceed next exchange)) :
    Nonneg (fun s => g.level s t.value - g.level s next.value) ∧
      ((∀ s, g.level s next.value = g.level s t.value) → next.value = t.value) := by
  obtain ⟨h', hagrees, entering, himproves, hothers⟩ := primalStep_proceeds h hg hstep
  obtain ⟨kind, vector, hkind, hcanEnter, hvector, hnegative⟩ := himproves
  have hadmits := admits_objective h hg
  have hvalue := value_of_enters h h' hagrees hothers
  have hdifference : ∀ s, g.level s t.value - g.level s next.value =
      -vector.get s * next.value entering := by
    intro s
    rw [hvalue, hadmits.level_complete, Goal.level_update, ← hvalue, level_value hadmits,
      Goal.level_zero, Goal.rate_eq_get hvector]
    ring
  have hnot : ¬Nonneg vector.get := StrengthVector.isNegative_iff.mp hnegative
  constructor
  · -- The entering variable grows from zero, and its vector is negative.
    have hallowed : kind.Allows (next.value entering) :=
      h'.feasible_value.allows entering kind (by rw [hagrees.kindOf, hkind])
    have hgrows : 0 ≤ next.value entering := hallowed.nonneg (canEnter_ne hcanEnter).1
    simpa only [hdifference] using (Strength.Nonneg.neg_of_not hnot).mul hgrows
  · intro hsame
    -- If it grew, the objective would change at the leading level of its vector.
    have hstays : next.value entering = 0 := by
      by_contra hne
      apply hnot
      apply Strength.nonneg_of_forall
      intro s
      have hproduct : -vector.get s * next.value entering = 0 := by
        rw [← hdifference, hsame, sub_self]
      rcases mul_eq_zero.mp hproduct with hzero | hzero
      · rw [neg_eq_zero.mp hzero]
      · exact absurd hzero hne
    rw [hvalue, hstays, value_eq_complete]
    congr 1
    exact Function.update_eq_self entering _

/-! ## Walks -/

section Walks

variable {here : Tableau LinearForm Rat} {count : Nat}

/-- A walk of the primal loop through proper tableaus. -/
theorem walk_spec (h : t.Proper) (hg : t.objective which = .ok g)
    (hwalk : walk (primalStep which) count t = some here) :
    here.Proper ∧ Agrees t here ∧ Frame t here := by
  induction count generalizing t g with
  | zero =>
      cases hwalk
      exact ⟨h, Agrees.refl _, Frame.refl _⟩
  | succ count ih =>
      rw [walk_succ] at hwalk
      split at hwalk
      next next exchange hstep =>
        obtain ⟨h', hagrees, -⟩ := primalStep_proceeds h hg hstep
        obtain ⟨g', hg', -⟩ := hagrees.objective hg
        obtain ⟨hproper, hrest, hframe⟩ := ih h' hg' hwalk
        exact ⟨hproper, hagrees.trans hrest, (Frame.primalStep hstep).trans hframe⟩
      next => cases hwalk

/-- The objective at the start of a walk does not become worse along it. -/
theorem level_walk (h : t.Proper) (hg : t.objective which = .ok g)
    (hwalk : walk (primalStep which) count t = some here) :
    Nonneg fun s => g.level s t.value - g.level s here.value := by
  induction count generalizing t g with
  | zero =>
      cases hwalk
      exact Strength.nonneg_of_forall fun s => by rw [sub_self]
  | succ count ih =>
      rw [walk_succ] at hwalk
      split at hwalk
      next next exchange hstep =>
        obtain ⟨h', hagrees, -⟩ := primalStep_proceeds h hg hstep
        obtain ⟨g', hg', hlevel⟩ := hagrees.objective hg
        obtain ⟨hproper, hrest, -⟩ := walk_spec h' hg' hwalk
        have hfirst := (primalStep_moves h hg hstep).1
        have hothers := ih h' hg' hwalk
        -- The objective after the step has the value of the first one at all solutions.
        have hnext := (hagrees.holds _).mp h'.holds_value
        have hhere := (hagrees.holds _).mp ((hrest.holds _).mp hproper.holds_value)
        simp only [hlevel _ _ hnext, hlevel _ _ hhere] at hothers
        have hsum := hfirst.add hothers
        simpa only [sub_add_sub_cancel] using hsum
      next => cases hwalk

/-- A step after which the loop comes back moves no variable. -/
theorem value_of_returns (h : t.Proper) (hg : t.objective which = .ok g)
    {exchange : Option Exchange} (hstep : primalStep which t = .ok (.proceed next exchange))
    (hreturns : walk (primalStep which) count next = some t) : next.value = t.value := by
  obtain ⟨h', hagrees, -⟩ := primalStep_proceeds h hg hstep
  obtain ⟨g', hg', hlevel⟩ := hagrees.objective hg
  obtain ⟨hdescends, hmoves⟩ := primalStep_moves h hg hstep
  -- What the objective gains in the step is not lost on the way back.
  have hreturn := level_walk h' hg' hreturns
  have hnext := (hagrees.holds _).mp h'.holds_value
  simp only [hlevel _ _ hnext, hlevel _ _ h.holds_value] at hreturn
  apply hmoves
  intro s
  have hzero := hdescends.antisymm (by simpa only [neg_sub] using hreturn) s
  linarith

/-- The rows that define the variables, as a table of fixed size. -/
def definitions (t here : Tableau LinearForm Rat) :
    Fin t.registry.slots.size → Option (Fin t.rows.size) := fun i =>
  (here.definitionOf ⟨i⟩).bind fun id =>
    if hlt : id.index < t.rows.size then some ⟨id.index, hlt⟩ else none

/-- In the frame of a tableau the table says which row defines a variable. -/
theorem definitionOf_eq_definitions (h : here.Proper) (hframe : Frame t here) (v : VariableId) :
    here.definitionOf v = if hlt : v.index < t.registry.slots.size then
      (t.definitions here ⟨v.index, hlt⟩).map fun i => ⟨i⟩ else none := by
  split
  next hlt =>
    unfold definitions
    cases hdefinition : here.definitionOf v with
    | none => rfl
    | some id =>
        obtain ⟨row, hrow, -⟩ := h.row_of_definition hdefinition
        have hbound : id.index < t.rows.size := hframe.size ▸ index_lt_of_row? hrow
        simp [hbound]
  next hge =>
    -- A variable beyond the slots of the registry is not live.
    cases hrecord : here.registry.get? v with
    | none =>
        unfold definitionOf
        rw [hrecord]
        rfl
    | some record =>
        have hlt := Registry.index_lt_of_get? hrecord
        rw [hframe.slots_size] at hlt
        exact absurd hlt hge

/-- Where two tableaus of a walk have the same table, the walk has come back. -/
theorem eq_of_definitions {again : Tableau LinearForm Rat} {more : Nat} (h : t.Proper)
    (hg : t.objective which = .ok g) (hhere : walk (primalStep which) count t = some here)
    (hagain : walk (primalStep which) more here = some again)
    (hsame : t.definitions again = t.definitions here) : again = here := by
  obtain ⟨hproper, hagrees, hframe⟩ := walk_spec h hg hhere
  obtain ⟨g', hg', -⟩ := hagrees.objective hg
  obtain ⟨hproper', hagrees', hframe'⟩ := walk_spec hproper hg' hagain
  apply eq_of_definitionOf hproper hproper' hagrees' hframe'
  intro v
  rw [definitionOf_eq_definitions hproper hframe,
    definitionOf_eq_definitions hproper' (hframe.trans hframe'), hsame]

/-- A loop that goes on for ever comes back to a tableau, since there are finitely many tables. -/
theorem exists_repetition (h : t.Proper) (hg : t.objective which = .ok g)
    (hgoes : ∀ count, (walk (primalStep which) count t).isSome) :
    ∃ start period, 0 < period ∧
      walk (primalStep which) (start + period) t = walk (primalStep which) start t := by
  choose at' hat using fun count => Option.isSome_iff_exists.mp (hgoes count)
  obtain ⟨i, j, hne, hsame⟩ :=
    Finite.exists_ne_map_eq_of_infinite fun count => t.definitions (at' count)
  have hback : ∀ first later, first < later →
      t.definitions (at' first) = t.definitions (at' later) →
      ∃ start period, 0 < period ∧
        walk (primalStep which) (start + period) t = walk (primalStep which) start t := by
    intro first later hlt htables
    obtain ⟨period, rfl⟩ := Nat.exists_eq_add_of_le (Nat.le_of_lt hlt)
    refine ⟨first, period, by omega, ?_⟩
    have hrest := hat (first + period)
    rw [walk_add, hat first, Option.bind_some] at hrest
    rw [hat, hat, eq_of_definitions h hg (hat first) hrest htables.symm]
  rcases Nat.lt_or_gt_of_ne hne with hlt | hgt
  · exact hback i j hlt hsame
  · exact hback j i hgt hsame.symm

/-- A primal loop that does not come to an end cycles. -/
theorem cycles_of_not_halts (h : t.Proper) (hg : t.objective which = .ok g)
    (hgoes : ¬t.Halts which) : t.Cycles which := by
  rw [not_halts] at hgoes
  obtain ⟨start, period, hperiod, hback⟩ := exists_repetition h hg hgoes
  refine ⟨start, period, hperiod, fun count hcount => ?_⟩
  obtain ⟨here, hhere⟩ := Option.isSome_iff_exists.mp (hgoes count)
  obtain ⟨next, hnext⟩ := Option.isSome_iff_exists.mp (hgoes (count + 1))
  have hagain : walk (primalStep which) (count + period) t = some here := by
    obtain ⟨more, rfl⟩ := Nat.exists_eq_add_of_le hcount
    rw [show start + more + period = start + period + more by omega, walk_add, hback, ← walk_add,
      hhere]
  refine ⟨here, next, here, hhere, hnext, hagain, rfl, ?_⟩
  obtain ⟨hproper, hagrees, -⟩ := walk_spec h hg hhere
  obtain ⟨g', hg', -⟩ := hagrees.objective hg
  obtain ⟨exchange, hstep⟩ : ∃ exchange, primalStep which here = .ok (.proceed next exchange) := by
    rw [walk_add, hhere, Option.bind_some] at hnext
    exact step_of_walk_one hnext
  -- The rest of the cycle leads from the next tableau back to this one.
  have hreturns : walk (primalStep which) (period - 1) next = some here := by
    rw [show count + period = count + 1 + (period - 1) by omega, walk_add, hnext,
      Option.bind_some] at hagain
    exact hagain
  exact value_of_returns hproper hg' hstep hreturns

end Walks

end Tableau

end LexSimplex
