import LexSimplex.Proofs.Exact.Range

/-!
# Pivot loops on proper tableaus

A pivot rewrites a tableau without changing what it says: `Agrees` collects what stays.  The primal
loop keeps a proper tableau proper and in agreement with the one it started from
(`primalStep_spec` for a step, `optimize_spec` for the whole loop), and it halts because no variable
improves the objective or because no row limits one that does.
-/

namespace LexSimplex

namespace Tableau

variable {t next : Tableau LinearForm Rat} {id : RowId} {row definition : Row LinearForm Rat}
  {entering leaving v : VariableId} {slot : Option (Row LinearForm Rat)} {a : Assignment Rat}

/-- The kind of a live variable and the levels at which it is penalised. -/
def roleOf (t : Tableau LinearForm Rat) (v : VariableId) :
    Option (VariableKind × Option (StrengthVector Rat)) :=
  (t.registry.get? v).map fun record => (record.kind, record.strength)

theorem kindOf_eq_roleOf (t : Tableau LinearForm Rat) (v : VariableId) :
    t.kindOf v = (t.roleOf v).map Prod.fst := by
  unfold kindOf roleOf
  rw [Option.map_map]
  rfl

/-- Two tableaus over the same variables with the same solutions, on which the objectives agree. -/
structure Agrees (t next : Tableau LinearForm Rat) : Prop where
  holds : ∀ a, next.Holds a ↔ t.Holds a
  role : ∀ v, next.roleOf v = t.roleOf v
  session : next.registry.session = t.registry.session
  generation : ∀ v, next.registry.generation? v = t.registry.generation? v
  goal : ∀ s a, t.Holds a → next.goal.level s a = t.goal.level s a
  artificial : match t.artificial, next.artificial with
    | some g, some g' => ∀ s a, t.Holds a → g'.level s a = g.level s a
    | none, none => True
    | _, _ => False

namespace Agrees

theorem refl (t : Tableau LinearForm Rat) : Agrees t t where
  holds := fun _ => Iff.rfl
  role := fun _ => rfl
  session := rfl
  generation := fun _ => rfl
  goal := fun _ _ _ => rfl
  artificial := by cases t.artificial <;> simp

theorem trans {last : Tableau LinearForm Rat} (h : Agrees t next) (h' : Agrees next last) :
    Agrees t last where
  holds := fun a => (h'.holds a).trans (h.holds a)
  role := fun v => (h'.role v).trans (h.role v)
  session := h'.session.trans h.session
  generation := fun v => (h'.generation v).trans (h.generation v)
  goal := fun s a ha => (h'.goal s a ((h.holds a).mpr ha)).trans (h.goal s a ha)
  artificial := by
    have hfirst := h.artificial
    have hsecond := h'.artificial
    cases hold : t.artificial <;> cases hmiddle : next.artificial <;>
      cases hnew : last.artificial <;> simp_all
    intro s a ha
    rw [hsecond s a ((h.holds a).mpr ha), hfirst s a ha]

theorem kindOf (h : Agrees t next) (v : VariableId) : next.kindOf v = t.kindOf v := by
  rw [kindOf_eq_roleOf, kindOf_eq_roleOf, h.role]

theorem artificial_none (h : Agrees t next) (hnone : t.artificial = none) :
    next.artificial = none := by
  have hkept := h.artificial
  rw [hnone] at hkept
  cases hnext : next.artificial with
  | none => rfl
  | some g => rw [hnext] at hkept; exact hkept.elim

theorem artificial_some (h : Agrees t next) {g : Goal Rat} (hsome : t.artificial = some g) :
    ∃ g', next.artificial = some g' ∧ ∀ s a, t.Holds a → g'.level s a = g.level s a := by
  have hkept := h.artificial
  rw [hsome] at hkept
  cases hnext : next.artificial with
  | none => rw [hnext] at hkept; exact hkept.elim
  | some g' => rw [hnext] at hkept; exact ⟨g', rfl, hkept⟩

end Agrees

/-- Where the definition holds, replacing the variable does not change an objective. -/
theorem level_substitute {g : Goal Rat} (hvalue : a entering = definition.eval a) (s : Strength) :
    (g.substitute entering definition).level s a = g.level s a := by
  rw [Goal.level_substitute, hvalue]
  ring

namespace Rewritten

theorem roleOf (hr : Rewritten t next id entering definition slot) (v : VariableId) :
    next.roleOf v = t.roleOf v := by
  unfold Tableau.roleOf
  rw [hr.records v, Option.map_map]
  rfl

/-- A row solved for another of its variables says the same. -/
theorem agrees (h : t.Reduced) (hrow : t.row? id = some row) (hentering : row.coefficient entering ≠ 0)
    (hr : Rewritten t next id entering (row.solved entering) (some (row.solved entering)))
    (hsession : next.registry.session = t.registry.session)
    (hgeneration : ∀ v, next.registry.generation? v = t.registry.generation? v)
    (hgoal : next.goal = t.goal.substitute entering (row.solved entering))
    (hartificial : next.artificial =
      t.artificial.map fun g => g.substitute entering (row.solved entering)) : Agrees t next := by
  have hbasic : ∀ leaving, row.basic = some leaving → row.coefficient leaving = 0 :=
    fun leaving hleaving =>
      h.coefficient_of_defined hrow (h.definition_of_basic hrow hleaving)
  have hvalue : ∀ a, t.Holds a → a entering = (row.solved entering).eval a := by
    intro a ha
    have hsolved := (Row.holds_solved hbasic hentering).mpr (holds_iff.mp ha id row hrow)
    exact (Row.holds_of_basic (Row.basic_solved row entering)).mp hsolved
  refine ⟨fun a => hr.holds_solved h hrow hentering, hr.roleOf, hsession, hgeneration,
    fun s a ha => ?_, ?_⟩
  · rw [hgoal]
    exact level_substitute (hvalue a ha) s
  · rw [hartificial]
    cases t.artificial with
    | none => trivial
    | some g => exact fun s a ha => level_substitute (hvalue a ha) s

end Rewritten

/-- An exchange changes no solution, and no value of an objective at a solution. -/
theorem Exchanged.agrees (h : t.Reduced) (hrow : t.row? id = some row)
    (hentering : row.coefficient entering ≠ 0) (hr : Exchanged t next id entering row) :
    Agrees t next :=
  hr.toRewritten.agrees h hrow hentering hr.frame.session hr.frame.generation hr.goal hr.artificial

namespace Replaced

theorem proper_of (hr : Replaced t next id entering definition slot)
    (h : next.ProperFor t.kindOf) : next.Proper := by
  unfold Proper
  rw [funext hr.kindOf]
  exact h

theorem agrees (h : t.Proper) (hrow : t.row? id = some row) (hentering : row.coefficient entering ≠ 0)
    (hr : Replaced t next id entering (row.solved entering) (some (row.solved entering))) :
    Agrees t next :=
  hr.toRewritten.agrees h.reduced hrow hentering hr.session hr.generation hr.goal hr.artificial

end Replaced

/-! ## The primal loop -/

theorem canEnter_ne {kind : VariableKind} (h : kind.canEnter = true) :
    kind ≠ .unrestricted ∧ kind ≠ .constant := by
  cases kind <;> simp_all [VariableKind.canEnter]

/-- Pivoting through the row that limits the entering variable first keeps a tableau proper. -/
theorem exists_improve (h : t.Proper) {kind : VariableKind} (hkind : t.kindOf entering = some kind)
    (hcanEnter : kind.canEnter = true) (hrow : t.row? id = some row)
    (hlimits : t.Limits entering (id, row))
    (hleast : ∀ j other, t.row? j = some other → t.Limits entering (j, other) →
      -row.constant / row.coefficient entering ≤ -other.constant / other.coefficient entering) :
    ∃ next exchange, t.pivot entering id = .ok (next, exchange) ∧ next.Proper ∧ Agrees t next ∧
      ∀ v, v ≠ entering → t.definitionOf v = none → next.definitionOf v = none := by
  have hunpinned : t.kindOf entering ≠ some .constant := by
    rw [hkind, ne_eq, Option.some.injEq]
    exact (canEnter_ne hcanEnter).2
  have hne : row.coefficient entering ≠ 0 := ne_of_lt hlimits.2
  obtain ⟨leaving, record, hbasic, hrecord, hdefinition, -⟩ := h.row_basic hrow
  have hfits : ∀ j other basic kind, j ≠ id → t.row? j = some other → other.basic = some basic →
      t.kindOf basic = some kind →
        (other.substitute entering (row.solved entering)).Fits t.kindOf kind :=
    fun j other basic kind _ hother hotherBasic hkind =>
      fits_of_ratio h hunpinned hrow hlimits hleast hother hotherBasic hkind
  obtain ⟨next, hpivot, hreplaced⟩ := exists_pivot h hrow hbasic hne hfits
  have hself : row.basic ≠ some entering := by
    rw [hbasic, ne_eq, Option.some.injEq]
    rintro rfl
    exact hne (h.coefficient_of_defined hrow (h.definition_of_basic hrow hbasic))
  have hsolved := fits_solved_of_limits h hunpinned hrow hlimits hkind
  refine ⟨next, _, hpivot, hreplaced.proper_of (hreplaced.properFor h (Or.inr rfl) rfl
    (Or.inl (h.terms_free hrow hne)) (Row.coefficient_solved_self hself) ?_ hfits ?_ ?_),
    hreplaced.agrees h hrow hne, fun v hv hnone => ?_⟩
  · intro v hv
    rcases Row.coefficient_solved_ne_zero hv with hleaving | ⟨-, hterm⟩
    · exact Or.inr (h.definition_of_basic hrow hleaving)
    · exact Or.inl (h.terms_free hrow hterm)
  · intro found _ hfound
    rw [hkind, Option.some.injEq] at hfound
    exact hfound ▸ hsolved
  · exact fun g _ _ => hsolved.terms_restricted (canEnter_ne hcanEnter).1
  · rw [hreplaced.definitionOf (by rw [hkind]; rfl), if_neg hv, hnone]
    simp

/-- What a verdict of the primal loop says about a tableau and its objective. -/
def Decided (t : Tableau LinearForm Rat) (g : Goal Rat) : Verdict → Prop
  | .optimal => ∀ v, ¬t.Improves g v
  | .unbounded entering => t.Improves g entering ∧
      ∀ id row, t.row? id = some row → ¬t.Limits entering (id, row)
  | .infeasible _ => False

/-- What one step of the primal loop does to a proper tableau.  A variable that improves the objective
may get a definition, no other one does. -/
def StepOf (t : Tableau LinearForm Rat) (g : Goal Rat) : Step (Tableau LinearForm Rat) → Prop
  | .halt final verdict => final = t ∧ t.Decided g verdict
  | .proceed next _ => next.Proper ∧ Agrees t next ∧ ∃ entering, t.Improves g entering ∧
      ∀ v, v ≠ entering → t.definitionOf v = none → next.definitionOf v = none

theorem objective_artificial_iff {g : Goal Rat} :
    t.objective .artificial = .ok g ↔ t.artificial = some g := by
  unfold objective
  cases t.artificial <;> simp

theorem admits_objective (h : t.Proper) {which : Objective} {g : Goal Rat}
    (hg : t.objective which = .ok g) : t.Admits g := by
  cases which with
  | main =>
      obtain rfl : t.goal = g := Except.ok.inj hg
      exact h.goal
  | artificial => exact h.artificial g (objective_artificial_iff.mp hg)

theorem primalStep_spec (h : t.Proper) {which : Objective} {g : Goal Rat}
    (hg : t.objective which = .ok g) :
    ∃ step, primalStep which t = .ok step ∧ t.StepOf g step := by
  obtain ⟨column, hcolumn, hsome, hnone⟩ := exists_pivotColumn (admits_objective h hg).overNonbasic
  unfold primalStep
  rw [hg]
  simp only [liftM, monadLift, MonadLift.monadLift, mapError_eq, bind, Except.bind]
  rw [hcolumn]
  cases hcase : column with
  | none => exact ⟨.halt t .optimal, rfl, rfl, hnone hcase⟩
  | some entering =>
      have himproves := hsome entering hcase
      obtain ⟨limiting, hlimiting, hunlimited, hlimited⟩ := exists_leavingRow h.reduced entering
      simp only
      rw [hlimiting]
      cases hrowCase : limiting with
      | none => exact ⟨.halt t (.unbounded entering), rfl, rfl, himproves, hunlimited hrowCase⟩
      | some id =>
          obtain ⟨row, hrow, hlimits, hleast⟩ := hlimited id hrowCase
          have ⟨kind, _, hkind, hcanEnter, _, _⟩ := himproves
          obtain ⟨next, exchange, hpivot, hproper, hagrees, hothers⟩ :=
            exists_improve h hkind hcanEnter hrow hlimits hleast
          simp only
          rw [hpivot]
          exact ⟨.proceed next (some exchange), rfl, hproper, hagrees, entering, himproves, hothers⟩

/-- The objective of a tableau in agreement with another one. -/
theorem Agrees.objective (hagrees : Agrees t next) {which : Objective} {g : Goal Rat}
    (hg : t.objective which = .ok g) :
    ∃ g', next.objective which = .ok g' ∧ ∀ s a, t.Holds a → g'.level s a = g.level s a := by
  cases which with
  | main =>
      obtain rfl : t.goal = g := Except.ok.inj hg
      exact ⟨next.goal, rfl, hagrees.goal⟩
  | artificial =>
      obtain ⟨g', hg', hlevel⟩ := hagrees.artificial_some (objective_artificial_iff.mp hg)
      exact ⟨g', objective_artificial_iff.mpr hg', hlevel⟩

/-- The primal loop runs out of steps or ends at a proper tableau in agreement with the first, with
a verdict about its objective. -/
theorem optimize_spec (h : t.Proper) {which : Objective} {g : Goal Rat}
    (hg : t.objective which = .ok g) (limit : Nat) :
    t.optimize which limit = .error .outOfSteps ∨
      ∃ course, t.optimize which limit = .ok course ∧ course.final.Proper ∧
        Agrees t course.final ∧
        ∃ g', course.final.objective which = .ok g' ∧
          (∀ s a, t.Holds a → g'.level s a = g.level s a) ∧ course.final.Decided g' course.verdict := by
  unfold optimize
  induction limit generalizing t g with
  | zero => exact Or.inl rfl
  | succ limit ih =>
      obtain ⟨step, hstep, hmeaning⟩ := primalStep_spec h hg
      rw [iterate_succ]
      rw [hstep]
      simp only [bind, Except.bind]
      cases step with
      | halt final verdict =>
          obtain ⟨rfl, hdecided⟩ := hmeaning
          exact Or.inr ⟨⟨final, [], verdict⟩, rfl, h, Agrees.refl final, g, hg,
            fun _ _ _ => rfl, hdecided⟩
      | proceed next exchange =>
          obtain ⟨hproper, hagrees, -⟩ := hmeaning
          obtain ⟨middle, hmiddle, hmiddleLevel⟩ := hagrees.objective hg
          rcases ih hproper hmiddle with hout | ⟨course, hcourse, hfinal, hrest, g', hg', hlevel, hend⟩
          · exact Or.inl (by simp only [hout])
          · refine Or.inr ⟨{ course with exchanges := exchange.toList ++ course.exchanges },
              by simp only [hcourse]; rfl, hfinal, hagrees.trans hrest, g', hg', ?_, hend⟩
            intro s a ha
            rw [hlevel s a ((hagrees.holds a).mpr ha), hmiddleLevel s a ha]

end Tableau

end LexSimplex
