import LexSimplex.Proofs.Exact.Subjects
import LexSimplex.Proofs.Exact.Variables

/-!
# Inserting and withdrawing rows

What becomes of the solutions of a tableau when a row is inserted or withdrawn:

* `Narrows`: an equation is added, and only the solutions that satisfy it remain;
* `Projects`: a variable is set free, and every point remains that is a solution for some value of
  it.

A row that is solved for a justified subject narrows the solutions to those with value zero
(`exists_enter`).  Dropping the row of a variable sets this variable free (`exists_drop`), and so
does a marker that is brought into a preferred row which is then dropped (`exists_withdrawMarker`).
-/

namespace LexSimplex

namespace Tableau

variable {t next : Tableau LinearForm Rat} {id : RowId} {row definition : Row LinearForm Rat}
  {entering marker v : VariableId} {slot : Option (Row LinearForm Rat)} {a : Assignment Rat}

/-- An equation was added: the solutions are those that satisfy it, and on them the goal is the
same. -/
structure Narrows (t next : Tableau LinearForm Rat) (equation : Assignment Rat → Prop) : Prop where
  holds : ∀ a, next.Holds a ↔ t.Holds a ∧ equation a
  role : ∀ v, next.roleOf v = t.roleOf v
  session : next.registry.session = t.registry.session
  generation : ∀ v, (t.kindOf v).isSome → next.registry.generation? v = t.registry.generation? v
  goal : ∀ s a, next.Holds a → next.goal.level s a = t.goal.level s a

/-- A variable was set free: the solutions are the points that are solutions for some value of it,
and the goal has the value it had there. -/
structure Projects (t next : Tableau LinearForm Rat) (v : VariableId) : Prop where
  holds : ∀ a, next.Holds a ↔ ∃ x, t.Holds (Function.update a v x)
  role : ∀ v, next.roleOf v = t.roleOf v
  session : next.registry.session = t.registry.session
  generation : ∀ v, next.registry.generation? v = t.registry.generation? v
  goal : ∀ s a x, t.Holds (Function.update a v x) →
    next.goal.level s a = t.goal.level s (Function.update a v x)

theorem Narrows.kindOf {equation : Assignment Rat → Prop} (h : Narrows t next equation)
    (v : VariableId) : next.kindOf v = t.kindOf v := by
  rw [kindOf_eq_roleOf, kindOf_eq_roleOf, h.role]

theorem Narrows.refl (t : Tableau LinearForm Rat) : Narrows t t fun _ => True :=
  ⟨fun _ => (and_true _).symm.to_iff, fun _ => rfl, rfl, fun _ _ => rfl, fun _ _ _ => rfl⟩

theorem Projects.kindOf {w : VariableId} (h : Projects t next w) (v : VariableId) :
    next.kindOf v = t.kindOf v := by
  rw [kindOf_eq_roleOf, kindOf_eq_roleOf, h.role]

/-! ## New rows -/

/-- A definition at a free position adds its equation. -/
theorem Replaced.narrows (hr : Replaced t next id entering definition (some definition))
    (hempty : t.row? id = none) (hbasic : definition.basic = some entering) :
    Narrows t next definition.Holds := by
  have hholds : ∀ a, next.Holds a ↔ t.Holds a ∧ definition.Holds a := by
    intro a
    rw [hr.holds_some hbasic, holds_iff, and_comm]
    refine and_congr_left fun _ => ?_
    constructor
    · intro hothers j other hother
      refine hothers j other ?_ hother
      rintro rfl
      rw [hempty] at hother
      simp at hother
    · exact fun hall j other _ hother => hall j other hother
  refine ⟨hholds, hr.roleOf, hr.session, fun v _ => hr.generation v, fun s a ha => ?_⟩
  have hdefinition := (Row.holds_of_basic hbasic).mp ((hholds a).mp ha).2
  rw [hr.goal]
  exact Tableau.level_substitute hdefinition s

/-- A solved row whose replacement keeps all rows in range enters the basis. -/
theorem exists_enter_of_fits {kinds : VariableId → Option VariableKind} (h : t.ProperFor kinds)
    (hbasic : definition.basic = some entering) (hentering : t.Free entering)
    (hself : definition.coefficient entering = 0)
    (hterms : ∀ w, definition.coefficient w ≠ 0 → t.Free w)
    (hfits : ∀ j other basic kind, t.row? j = some other → other.basic = some basic →
      t.kindOf basic = some kind → (other.substitute entering definition).Fits kinds kind)
    (hown : ∀ kind, t.kindOf entering = some kind → definition.Fits kinds kind)
    (hkinds : ∀ g, t.Admits g → (g.coefficient? entering).isSome →
      ∀ w, definition.coefficient w ≠ 0 → t.kindOf w ≠ some .unrestricted)
    (hartificial : t.artificial = none) :
    ∃ next, (do (← t.substitute entering definition).insertRow definition) = .ok next ∧
      next.ProperFor kinds ∧ Narrows t next definition.Holds ∧ next.artificial = none ∧
      ∀ v, v ≠ entering → t.Free v → next.Free v := by
  obtain ⟨next, id, hadopt, hempty, hreplaced⟩ := exists_adopt h hbasic hentering hfits
  refine ⟨next, hadopt, hreplaced.properFor h (Or.inr rfl) hbasic (Or.inl hentering) hself
    (fun w hw => Or.inl (hterms w hw))
    (fun j other basic kind _ hother hotherBasic hkind =>
      hfits j other basic kind hother hotherBasic hkind)
    (fun kind _ hkind => hown kind hkind) ?_, hreplaced.narrows hempty hbasic, ?_,
    fun v hv hfree => hreplaced.free (Or.inl hfree) hv⟩
  · rintro g (rfl | hg)
    · exact hkinds t.goal h.goal
    · exact hkinds g (h.artificial g hg)
  · rw [hreplaced.artificial, hartificial]
    rfl

/-- A row that is not solved yet holds where its right-hand side is zero. -/
theorem holds_solved_iff (hbasic : row.basic = none) (hentering : row.coefficient entering ≠ 0) :
    (row.solved entering).Holds a ↔ row.eval a = 0 := by
  rw [Row.holds_solved (fun leaving hleaving => by rw [hbasic] at hleaving; simp at hleaving)
    hentering]
  unfold Row.Holds
  rw [hbasic]
  exact eq_comm

/-- If a new row is solved for a justified subject, every row fits the kind of its variable, and the
objectives stay free of unrestricted variables. -/
theorem fits_of_justified (h : t.Proper) {tag : Tag Rat} (hbasic : row.basic = none)
    (hconstant : 0 ≤ row.constant)
    (hfresh : ∀ w ∈ tag.own, ∀ j other, t.row? j = some other → other.coefficient w = 0)
    (hmarker : row.coefficient tag.marker ≠ 0)
    (hsubject : t.Justifies row tag (.variable entering)) :
    row.coefficient entering ≠ 0 ∧
      (∀ j other basic kind, t.row? j = some other → other.basic = some basic →
        t.kindOf basic = some kind →
          (other.substitute entering (row.solved entering)).Fits t.kindOf kind) ∧
      (∀ kind, t.kindOf entering = some kind → (row.solved entering).Fits t.kindOf kind) ∧
      ∀ g, t.Admits g → (g.coefficient? entering).isSome →
        (row.solved entering).Restricted t.kindOf := by
  -- Another row keeps fitting, whatever is replaced, if it does not mention the subject.
  have hunmentioned : entering ∈ tag.own → ∀ j other basic kind, t.row? j = some other →
      other.basic = some basic → t.kindOf basic = some kind →
        (other.substitute entering (row.solved entering)).Fits t.kindOf kind := by
    intro hmem j other basic kind hother hotherBasic hkind
    rw [Row.substitute_eq_self (hfresh entering hmem j other hother)]
    exact h.fits_of_basic hother hotherBasic hkind
  have hnoBasic : ∀ P : VariableId → Prop, ∀ basic, row.basic = some basic → P basic := by
    intro P basic hsome
    rw [hbasic] at hsome
    simp at hsome
  rcases hsubject with ⟨hkind, hne⟩ | ⟨hrestricted, hmem, hnegative, kind, hkind, hpivotable⟩ |
    ⟨hpinned, hzero, hentering⟩
  · refine ⟨hne, fun j other basic kind hother hotherBasic hotherKind =>
      fits_of_unrestricted h hkind hother hotherBasic hotherKind, fun found hfound => ?_,
      fun g hg hoccurs => absurd hkind (hg.restricted entering hoccurs)⟩
    rw [hkind, Option.some.injEq] at hfound
    exact hfound ▸ Row.fits_unrestricted _
  · have hsolved := Row.Restricted.solved hrestricted entering (hnoBasic _)
    have hunpinned : kind ≠ .constant := by
      rintro rfl
      simp [VariableKind.isPivotable] at hpivotable
    refine ⟨ne_of_lt hnegative, hunmentioned hmem, fun found hfound => ?_, fun _ _ _ => hsolved⟩
    rw [hkind, Option.some.injEq] at hfound
    subst hfound
    refine Row.fits_of_restricted ?_ hsolved hunpinned
    rw [Row.constant_solved]
    exact div_nonneg hconstant (by linarith)
  · subst hentering
    have hsolved := Row.Pinned.solved hpinned tag.marker (hnoBasic _)
    refine ⟨hmarker, hunmentioned List.mem_cons_self, fun found _ => ?_,
      fun _ _ _ => hsolved.restricted⟩
    refine Row.fits_of_pinned ?_ hsolved
    rw [Row.constant_solved, hzero, zero_div]

/-- A new row that is solved for a justified subject narrows the solutions to those where its
right-hand side is zero. -/
theorem exists_enter (h : t.Proper) {tag : Tag Rat} (hbasic : row.basic = none)
    (hterms : ∀ w, row.coefficient w ≠ 0 → t.Free w) (hconstant : 0 ≤ row.constant)
    (hfresh : ∀ w ∈ tag.own, ∀ j other, t.row? j = some other → other.coefficient w = 0)
    (hmarker : row.coefficient tag.marker ≠ 0) (hartificial : t.artificial = none)
    (hsubject : t.Justifies row tag (.variable entering)) :
    row.coefficient entering ≠ 0 ∧
      ∃ next, (do (← t.substitute entering (row.solved entering)).insertRow (row.solved entering)) =
          .ok next ∧
        next.Proper ∧ Narrows t next (fun a => row.eval a = 0) ∧ next.artificial = none := by
  obtain ⟨hne, hfits, hown, hkinds⟩ :=
    fits_of_justified h hbasic hconstant hfresh hmarker hsubject
  refine ⟨hne, ?_⟩
  have hself : row.basic ≠ some entering := by
    rw [hbasic]
    simp
  have hsolvedTerms : ∀ w, (row.solved entering).coefficient w ≠ 0 → t.Free w := by
    intro w hw
    rcases Row.coefficient_solved_ne_zero hw with hleaving | ⟨-, hterm⟩
    · rw [hbasic] at hleaving
      simp at hleaving
    · exact hterms w hterm
  obtain ⟨next, hadopt, hproper, hnarrows, hnone, -⟩ :=
    exists_enter_of_fits h rfl (hterms entering hne) (Row.coefficient_solved_self hself)
      hsolvedTerms hfits hown hkinds hartificial
  refine ⟨next, hadopt, ?_, ?_, hnone⟩
  · unfold Proper
    rw [funext hnarrows.kindOf]
    exact hproper
  · have hequation : (row.solved entering).Holds = fun a => row.eval a = 0 := by
      funext a
      exact propext (holds_solved_iff hbasic hne)
    exact hequation ▸ hnarrows

/-! ## Withdrawn rows -/

/-- Overwriting the row that determines a variable by nothing sets the variable free. -/
theorem Replaced.projects (h : t.Proper) (hr : Replaced t next id entering definition none)
    (hentering : t.Free entering ∨ t.definitionOf entering = some id)
    (hrow : t.row? id = some row) (hbasic : definition.basic = some entering)
    (hself : definition.coefficient entering = 0)
    (hsame : ∀ a, row.Holds a ↔ definition.Holds a) : Projects t next entering := by
  have hvalue : ∀ a x, row.Holds (Function.update a entering x) ↔ x = definition.eval a := by
    intro a x
    rw [hsame, Row.holds_update_iff hbasic hself]
  refine ⟨fun a => ?_, hr.roleOf, hr.session, hr.generation, fun s a x hx => ?_⟩
  · rw [hr.holds_none h hentering]
    constructor
    · intro hothers
      refine ⟨definition.eval a, holds_iff.mpr fun j other hother => ?_⟩
      by_cases hj : j = id
      · rw [hj, hrow, Option.some.injEq] at hother
        exact hother ▸ (hvalue a _).mpr rfl
      · exact hothers j other hj hother
    · rintro ⟨x, hx⟩ j other _ hother
      have hdetermined := (hvalue a x).mp (holds_iff.mp hx id row hrow)
      rw [← hdetermined]
      exact holds_iff.mp hx j other hother
  · have hdetermined := (hvalue a x).mp (holds_iff.mp hx id row hrow)
    rw [hr.goal, Goal.level_substitute, Goal.level_update, hdetermined]

/-- The row of a variable was dropped, and nothing mentions the variable any more. -/
structure Dropped (t next : Tableau LinearForm Rat) (v : VariableId) : Prop where
  proper : next.Proper
  projects : Projects t next v
  artificial : next.artificial = t.artificial
  free : next.Free v
  unused : next.Unused v
  kept : ∀ w, w ≠ v → t.Free w → next.Free w

/-- Dropping the row of a variable sets it free. -/
theorem exists_drop (h : t.Proper) (hrow : t.row? id = some row) (hbasic : row.basic = some v) :
    ∃ next, t.dropRow id = .ok (row, next) ∧ Dropped t next v := by
  have hdefined := h.definition_of_basic hrow hbasic
  have hself : row.coefficient v = 0 := h.coefficient_of_defined hrow hdefined
  have hobjectives : ∀ g, t.Admits g → g.coefficient? v = none := by
    intro g hg
    by_contra hsome
    rw [(hg.free v (Option.isSome_iff_ne_none.mpr hsome)).definitionOf] at hdefined
    simp at hdefined
  obtain ⟨next, hdrop, hvacated, hreplaced⟩ := exists_dropRow h hrow hbasic
  obtain ⟨record, hrecord, hdefinition, -⟩ := h.record_of_basic hrow hbasic
  have hfree : next.Free v :=
    ⟨_, by rw [hvacated.records, hrecord]; rfl, by simp [hdefinition]⟩
  refine ⟨next, hdrop, {
    proper := hreplaced.proper_of (hreplaced.properFor h (Or.inl rfl) hbasic (Or.inr hdefined) hself
      (fun w hw => Or.inl (h.terms_free hrow hw)) ?_ (by simp) ?_)
    projects := hreplaced.projects h (Or.inr hdefined) hrow hbasic hself fun _ => Iff.rfl
    artificial := hvacated.artificial
    free := hfree
    unused := ⟨hfree.definitionOf, ?_, ?_, ?_⟩
    kept := fun w hw hfreeW => hreplaced.free (Or.inl hfreeW) hw }⟩
  · intro j other basic kind _ hother hotherBasic hkind
    rw [Row.substitute_eq_self (h.coefficient_of_defined hother hdefined)]
    exact h.fits_of_basic hother hotherBasic hkind
  · rintro g hg hoccurs
    have hadmits : t.Admits g := by
      rcases hg with rfl | hg
      · exact h.goal
      · exact h.artificial g hg
    rw [hobjectives g hadmits] at hoccurs
    simp at hoccurs
  · intro j other hother
    rw [hvacated.rows] at hother
    by_cases hj : j = id
    · rw [if_pos hj] at hother
      simp at hother
    · rw [if_neg hj] at hother
      exact h.coefficient_of_defined hother hdefined
  · rw [hvacated.goal]
    exact hobjectives _ h.goal
  · intro g hg
    rw [hvacated.artificial] at hg
    exact hobjectives g (h.artificial g hg)

/-- A marker is brought into its preferred row, which is then dropped. -/
theorem exists_withdrawMarker (h : t.Proper) (hrow : t.row? id = some row)
    (hne : row.coefficient marker ≠ 0) (hpreferred : t.Preferred marker row)
    (hgoal : t.BasicOf row .unrestricted → t.goal.coefficient? marker = none)
    (hartificial : t.artificial = none) :
    ∃ leaving dropped next, row.basic = some leaving ∧ t.dropRow id = .ok (row, dropped) ∧
      dropped.substitute marker (row.solved marker) = .ok next ∧ next.Proper ∧
      Projects t next marker ∧ next.artificial = none := by
  obtain ⟨kind, hkind, hrowFits⟩ := h.exists_basicOf hrow
  obtain ⟨leaving, -, hbasic, -⟩ := h.row_basic hrow
  have hfits : ∀ j other basic kind, j ≠ id → t.row? j = some other → other.basic = some basic →
      t.kindOf basic = some kind →
        (other.substitute marker (row.solved marker)).Fits t.kindOf kind :=
    fun j other basic kind _ hother hotherBasic hotherKind =>
      fits_of_preferred h hrow hpreferred hother hotherBasic hotherKind
  obtain ⟨dropped, next, hdrop, hsubstitute, hreplaced⟩ := exists_withdraw h hrow hbasic hne hfits
  have hbasicTerms : ∀ leaving, row.basic = some leaving → row.coefficient leaving = 0 :=
    fun leaving hleaving => h.coefficient_of_defined hrow (h.definition_of_basic hrow hleaving)
  have hself : row.basic ≠ some marker := fun hmarker => hne (hbasicTerms marker hmarker)
  refine ⟨leaving, dropped, next, hbasic, hdrop, hsubstitute,
    hreplaced.proper_of (hreplaced.properFor h (Or.inl rfl) rfl (Or.inl (h.terms_free hrow hne))
      (Row.coefficient_solved_self hself) ?_ hfits (by simp) ?_),
    hreplaced.projects h (Or.inl (h.terms_free hrow hne)) hrow rfl
      (Row.coefficient_solved_self hself) fun a => (Row.holds_solved hbasicTerms hne).symm, ?_⟩
  · intro v hv
    rcases Row.coefficient_solved_ne_zero hv with hleaving | ⟨-, hterm⟩
    · exact Or.inr (h.definition_of_basic hrow hleaving)
    · exact Or.inl (h.terms_free hrow hterm)
  · rintro g (rfl | hg) hoccurs
    · by_cases hfree : kind = .unrestricted
      · rw [hgoal (hfree ▸ hkind)] at hoccurs
        simp at hoccurs
      · refine Row.Restricted.solved (hrowFits.terms_restricted hfree) _ fun basic hrowBasic => ?_
        rw [BasicOf, hrowBasic, Option.bind_some] at hkind
        rw [hkind, ne_eq, Option.some.injEq]
        exact hfree
    · rw [hartificial] at hg
      simp at hg
  · rw [hreplaced.artificial, hartificial]
    rfl

/-- If only rows of unrestricted variables mention the marker, an objective that is determined by
the restricted variables other than the marker does not mention it. -/
theorem absent_of_preferred (h : t.Proper)
    (hpreferred : t.Preferred marker row) (hunrestricted : t.BasicOf row .unrestricted)
    {g : Goal Rat} (hg : t.Admits g)
    (hlevel : ∀ s a b, t.Holds a → t.Holds b →
      (∀ v kind, t.kindOf v = some kind → kind ≠ .unrestricted → v ≠ marker → a v = b v) →
        g.level s a = g.level s b) : g.coefficient? marker = none := by
  -- No row of a restricted variable mentions the marker.
  have hrows : ∀ j other kind, t.row? j = some other → t.BasicOf other kind →
      kind ≠ .unrestricted → other.coefficient marker = 0 := by
    rcases hpreferred with hpinned | ⟨hpinned, ⟨⟨kind, hkind, hrestricted, -⟩, -⟩ |
      ⟨-, ⟨⟨kind, hkind, hrestricted, -⟩, -⟩ | ⟨hbounded, -⟩⟩⟩
    · exact absurd (hunrestricted.unique hpinned) (by simp)
    · exact absurd (hkind.unique hunrestricted) hrestricted
    · exact absurd (hkind.unique hunrestricted) hrestricted
    · intro j other kind hother hkind hrestricted
      by_cases hconst : kind = .constant
      · exact hpinned j other hother (hconst ▸ hkind)
      · exact hbounded j other hother ⟨kind, hkind, hrestricted, hconst⟩
  rw [hg.clean.coefficient?_eq_none]
  intro s
  -- Moving the marker alone from one solution to another shows its rate.
  have hsame := hlevel s (t.complete fun _ => 0)
    (t.complete (Function.update (fun _ => 0) marker 1)) (h.holds_complete _) (h.holds_complete _) ?_
  · rw [hg.level_complete, hg.level_complete, Goal.level_update] at hsame
    linarith
  · intro v kind hkind hrestricted hv
    cases hdefinition : t.definitionOf v with
    | none =>
        rw [complete_of_none hdefinition, complete_of_none hdefinition, Function.update_of_ne hv]
    | some j =>
        obtain ⟨other, hother, hbasic⟩ := h.row_of_definition hdefinition
        rw [complete_of_row hdefinition hother, complete_of_row hdefinition hother,
          Row.eval_update, hrows j other kind hother (by rw [BasicOf, hbasic]; exact hkind)
            hrestricted]
        ring

end Tableau

end LexSimplex
