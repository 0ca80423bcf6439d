import LexSimplex.Proofs.Exact.Insertion
import LexSimplex.Proofs.Exact.Optimality

/-!
# Inserting a row through an artificial variable

The row is made the definition of a new variable, whose value is then minimised.

* `exists_artificial` starts: the solutions are those of the old tableau, with the artificial
  variable at the value of the row;
* `phaseOne_decides` judges: the minimum is zero exactly when a feasible point satisfies the row;
* `exists_replace` and `forget` finish: the artificial variable is set to zero and removed, which
  adds the equation of the row.
-/

namespace LexSimplex

namespace Tableau

variable {t next : Tableau LinearForm Rat} {id : RowId} {row definition : Row LinearForm Rat}
  {entering v w : VariableId} {a : Assignment Rat} {kinds : VariableId → Option VariableKind}

/-! ## Removing a variable -/

/-- A tableau after a variable without a definition was erased and released. -/
def forget (t : Tableau LinearForm Rat) (v : VariableId) : Tableau LinearForm Rat :=
  { t with
    rows := t.rows.map fun slot => slot.map fun row => row.erase v
    goal := t.goal.erase v
    registry := t.registry.releaseId v }

/-- A variable was set to zero and removed. -/
structure Forgets (t next : Tableau LinearForm Rat) (v : VariableId) : Prop where
  holds : ∀ a, next.Holds a ↔ t.Holds (Function.update a v 0)
  role : ∀ w, next.roleOf w = if w = v then none else t.roleOf w
  session : next.registry.session = t.registry.session
  generation : ∀ w, w ≠ v → (t.kindOf w).isSome →
    next.registry.generation? w = t.registry.generation? w
  goal : ∀ s a, next.Holds a → next.goal.level s a = t.goal.level s (Function.update a v 0)

theorem row?_forget (t : Tableau LinearForm Rat) (v : VariableId) (j : RowId) :
    (t.forget v).row? j = (t.row? j).map fun row => row.erase v :=
  row?_mapRows t _ j

theorem get?_forget (t : Tableau LinearForm Rat) (v w : VariableId) :
    (t.forget v).registry.get? w = if w = v then none else t.registry.get? w :=
  Registry.get?_releaseId t.registry v w

theorem kindOf_forget (t : Tableau LinearForm Rat) (hw : w ≠ v) :
    (t.forget v).kindOf w = t.kindOf w := by
  unfold kindOf
  rw [get?_forget, if_neg hw]

theorem Free.forget (hw : t.Free w) (hne : w ≠ v) : (t.forget v).Free w := by
  obtain ⟨record, hrecord, hnone⟩ := hw
  exact ⟨record, by rw [get?_forget, if_neg hne, hrecord], hnone⟩

theorem Admits.forget {g : Goal Rat} (hg : t.Admits g) (v : VariableId) :
    (t.forget v).Admits (g.erase v) := by
  refine ⟨Goal.clean_erase hg.clean v, fun w hw => ?_, fun w hw => ?_⟩
  · obtain ⟨hne, hold⟩ := Goal.isSome_erase.mp hw
    exact (hg.free w hold).forget hne
  · obtain ⟨hne, hold⟩ := Goal.isSome_erase.mp hw
    rw [kindOf_forget t hne]
    exact hg.restricted w hold

/-- Erasing a variable without a definition sets it to zero. -/
theorem forgets_forget (h : t.ProperFor kinds) (hfree : t.Free v) : Forgets t (t.forget v) v := by
  refine ⟨fun a => ?_, fun w => ?_, Registry.session_releaseId _ _,
    fun w hw _ => Registry.generation?_releaseId _ hw, fun s a _ => ?_⟩
  · have hrow : ∀ j row, t.row? j = some row →
        ((row.erase v).Holds a ↔ row.Holds (Function.update a v 0)) := by
      intro j row hrow
      obtain ⟨basic, -, hbasic, -⟩ := h.row_basic hrow
      have hne := h.reduced.basic_ne_of_free hrow hbasic hfree
      rw [Row.holds_of_basic ((Row.basic_erase row v).trans hbasic), Row.holds_of_basic hbasic,
        Row.eval_erase, Row.eval_update, Function.update_of_ne hne]
      have hvalue : row.eval a - row.coefficient v * a v =
          row.eval a + row.coefficient v * (0 - a v) := by ring
      rw [hvalue]
    rw [holds_iff, holds_iff]
    constructor
    · intro hall j row hj
      exact (hrow j row hj).mp (hall j _ (by rw [row?_forget, hj]; rfl))
    · intro hall j erased hj
      rw [row?_forget] at hj
      obtain ⟨row, hold, rfl⟩ := Option.map_eq_some_iff.mp hj
      exact (hrow j row hold).mpr (hall j row hold)
  · unfold roleOf
    rw [get?_forget]
    split <;> rfl
  · change (t.goal.erase v).level s a = _
    rw [Goal.level_erase, Goal.level_update]
    ring

theorem proper_forget (h : t.ProperFor kinds) (hfree : t.Free v)
    (hkinds : ∀ w, w ≠ v → kinds w = t.kindOf w) (hartificial : t.artificial = none) :
    (t.forget v).Proper := by
  refine {
    registry := Registry.sound_releaseId h.registry v
    holes_nodup := h.holes_nodup
    mem_holes := ?_
    row_basic := ?_
    row_of_definition := ?_
    terms_free := ?_
    goal := h.goal.forget v
    artificial := fun g hg => by
      rw [show (t.forget v).artificial = none from hartificial] at hg
      simp at hg
    settled := h.settled }
  · intro j
    rw [row?_forget, Option.map_eq_none_iff]
    have hsize : (t.forget v).rows.size = t.rows.size := by simp [forget]
    rw [hsize]
    exact h.mem_holes j
  · intro j erased hj
    rw [row?_forget] at hj
    obtain ⟨row, hold, rfl⟩ := Option.map_eq_some_iff.mp hj
    obtain ⟨basic, record, hbasic, hrecord, hdefinition, hfits⟩ := h.row_basic hold
    have hne := h.reduced.basic_ne_of_free hold hbasic hfree
    refine ⟨basic, record, hbasic, by rw [get?_forget, if_neg hne, hrecord], hdefinition,
      hfits.of_terms rfl fun w hw => ?_⟩
    obtain ⟨hwv, hrow⟩ := Row.coefficient_erase_ne_zero.mp hw
    exact ⟨hrow, by rw [kindOf_forget t hwv, hkinds w hwv]⟩
  · intro w j hdefined
    unfold Tableau.definitionOf at hdefined
    rw [get?_forget] at hdefined
    by_cases hwv : w = v
    · rw [if_pos hwv] at hdefined
      simp at hdefined
    · rw [if_neg hwv] at hdefined
      obtain ⟨row, hrow, hbasic⟩ := h.row_of_definition hdefined
      exact ⟨row.erase v, by rw [row?_forget, hrow]; rfl, hbasic⟩
  · intro j erased w hj hw
    rw [row?_forget] at hj
    obtain ⟨row, hold, rfl⟩ := Option.map_eq_some_iff.mp hj
    obtain ⟨hwv, hrow⟩ := Row.coefficient_erase_ne_zero.mp hw
    exact (h.terms_free hold hrow).forget hwv

/-! ## Replacing the artificial variable -/

section Artificial

variable {artificial : VariableId}

/-- A variable was set to zero if it was set free and then set to zero, and the points where it is
zero were kept in between. -/
theorem Forgets.of_projects {last final : Tableau LinearForm Rat}
    {equation : Assignment Rat → Prop} (hprojects : Projects t next v)
    (hnarrows : Narrows next last equation) (hforgets : Forgets last final v)
    (hzero : ∀ a, last.Holds (Function.update a v 0) ↔ t.Holds (Function.update a v 0)) :
    Forgets t final v := by
  refine ⟨fun a => (hforgets.holds a).trans (hzero a), fun w => ?_,
    hforgets.session.trans (hnarrows.session.trans hprojects.session), fun w hw hlive => ?_,
    fun s a ha => ?_⟩
  · rw [hforgets.role, hnarrows.role, hprojects.role]
  · have hnextLive : (next.kindOf w).isSome := by rw [hprojects.kindOf]; exact hlive
    rw [hforgets.generation w hw (by rw [hnarrows.kindOf]; exact hnextLive),
      hnarrows.generation w hnextLive, hprojects.generation]
  · have hlast := (hforgets.holds a).mp ha
    have hgoal := hprojects.goal s (Function.update a v 0) 0
      (by rw [Function.update_idem]; exact (hzero a).mp hlast)
    rw [hforgets.goal s a ha, hnarrows.goal s _ hlast, hgoal, Function.update_idem]

/-- What is lost when the basic variable of a row is set free is the equation of the row. -/
theorem Projects.holds_row (hprojects : Projects t next v) (hrow : t.row? id = some row)
    (hbasic : row.basic = some v) (hself : row.coefficient v = 0) :
    next.Holds a ∧ row.Holds a ↔ t.Holds a := by
  rw [hprojects.holds]
  constructor
  · rintro ⟨⟨x, hx⟩, hequation⟩
    -- The row leaves one value for its variable, which is the one that the point has.
    have hdetermined := (Row.holds_update_iff hbasic hself x).mp (holds_iff.mp hx id row hrow)
    rwa [hdetermined, ← (Row.holds_of_basic hbasic).mp hequation, Function.update_eq_self] at hx
  · intro ha
    exact ⟨⟨a v, by rwa [Function.update_eq_self]⟩, holds_iff.mp ha id row hrow⟩

/-- A row that sets the artificial variable to zero is dropped. -/
theorem forgets_of_constant (h : t.Proper) (hrow : t.row? id = some row)
    (hbasic : row.basic = some artificial) (hzero : row.constant = 0)
    (hconstant : row.isConstant = true) (hdropped : Dropped t next artificial) :
    Forgets t (next.forget artificial) artificial := by
  have hself := h.coefficient_of_defined hrow (h.definition_of_basic hrow hbasic)
  have hvalue : ∀ a, row.eval a = 0 := by
    intro a
    rw [← Row.eval_zero] at hzero
    rw [← hzero]
    exact Row.eval_congr fun v hv => absurd (Row.isConstant_iff.mp hconstant v) hv
  have hforgets := forgets_forget hdropped.proper hdropped.free
  refine Forgets.of_projects hdropped.projects (Narrows.refl next) hforgets fun a => ?_
  have hholds : row.Holds (Function.update a artificial 0) :=
    (Row.holds_update_iff hbasic hself 0).mpr (hvalue a).symm
  rw [← hdropped.projects.holds_row hrow hbasic hself, and_iff_left hholds]

/-- The kinds of the variables, with one variable counted as pinned. -/
def pinning (t : Tableau LinearForm Rat) (v : VariableId) : VariableId → Option VariableKind :=
  Function.update t.kindOf v (some .constant)

@[simp] theorem pinning_self (t : Tableau LinearForm Rat) (v : VariableId) :
    t.pinning v v = some .constant :=
  Function.update_self _ _ _

theorem pinning_of_ne (hw : w ≠ v) : t.pinning v w = t.kindOf w :=
  Function.update_of_ne hw _ _

/-- A variable that is not used may count as pinned. -/
theorem Proper.pinning (h : t.Proper) (hunused : t.Unused v) : t.ProperFor (t.pinning v) := by
  refine h.congr fun j other w hother hw => pinning_of_ne ?_
  rintro rfl
  exact hw (hunused.rows j other hother)

theorem restricted_pinning (h : row.Restricted t.kindOf) : row.Restricted (t.pinning v) := by
  intro w hw
  by_cases hwv : w = v
  · simp [hwv]
  · rw [pinning_of_ne hwv]
    exact h w hw

/-- A pinned variable of a row of known, restricted variables is chosen to enter the basis only if all
variables of the row are pinned. -/
theorem pinned_of_chosen (hrestricted : row.Restricted t.kindOf)
    (hterms : ∀ w, row.coefficient w ≠ 0 → t.Free w)
    (hknown : ∀ w, row.coefficient w ≠ 0 → t.kindOf w ≠ some .unknown)
    (hchoice : (∃ kind, t.kindOf entering = some kind ∧ kind.isPivotable) ∨
      ∀ w kind, row.coefficient w ≠ 0 → t.kindOf w = some kind → kind.isPivotable = false)
    (hconst : t.kindOf entering = some .constant) : row.Pinned t.kindOf := by
  have hnone := hchoice.resolve_left fun ⟨kind, hfound, hpivotable⟩ => by
    rw [hconst, Option.some.injEq] at hfound
    subst hfound
    simp [VariableKind.isPivotable] at hpivotable
  intro w hw
  obtain ⟨kind, hkind⟩ := Option.isSome_iff_exists.mp (hterms w hw).kindOf_isSome
  have hpivotable := hnone w kind hw hkind
  have hunknown := hknown w hw
  have hunrestricted := hrestricted w hw
  rw [hkind] at hunknown hunrestricted ⊢
  cases kind <;> simp_all [VariableKind.isPivotable]

/-- The row of a variable, solved for a pinned variable that was chosen, mentions pinned variables
only, when the one it was the row of counts as pinned. -/
theorem pinned_solved (hbasic : row.basic = some v) (hself : row.coefficient v = 0)
    (hrestricted : row.Restricted t.kindOf) (hterms : ∀ w, row.coefficient w ≠ 0 → t.Free w)
    (hknown : ∀ w, row.coefficient w ≠ 0 → t.kindOf w ≠ some .unknown)
    (hchoice : (∃ kind, t.kindOf entering = some kind ∧ kind.isPivotable) ∨
      ∀ w kind, row.coefficient w ≠ 0 → t.kindOf w = some kind → kind.isPivotable = false)
    (hne : entering ≠ v) (hconst : t.pinning v entering = some .constant) :
    (row.solved entering).Pinned (t.pinning v) := by
  rw [pinning_of_ne hne] at hconst
  have hall := pinned_of_chosen hrestricted hterms hknown hchoice hconst
  have hallPinning : row.Pinned (t.pinning v) := by
    intro w hw
    refine (pinning_of_ne ?_).trans (hall w hw)
    rintro rfl
    exact hw hself
  refine hallPinning.solved _ fun basic hrowBasic => ?_
  obtain rfl := Option.some.inj (hrowBasic.symm.trans hbasic)
  exact pinning_self t basic

/-- An artificial variable that is basic at zero is exchanged for another variable of its row and
removed. -/
theorem exists_replace (h : t.Proper) (hartificial : t.artificial = none)
    (hrow : t.row? id = some row) (hbasic : row.basic = some artificial)
    (hkind : t.kindOf artificial = some .unknown)
    (honly : ∀ w, t.kindOf w = some .unknown → w = artificial) (hzero : row.constant = 0)
    (hnonconstant : row.isConstant = false) (hdropped : Dropped t next artificial) :
    ∃ entering last, next.zeroLevelEntering row = .ok (some entering) ∧
      row.pivot entering artificial = .ok (row.solved entering) ∧
      (do (← next.substitute entering (row.solved entering)).insertRow (row.solved entering)) =
        .ok last ∧ last.Free artificial ∧
      (last.forget artificial).Proper ∧ last.artificial = none ∧
      Forgets t (last.forget artificial) artificial := by
  have hprojects := hdropped.projects
  have hself := h.coefficient_of_defined hrow (h.definition_of_basic hrow hbasic)
  have hne : ∀ w, row.coefficient w ≠ 0 → w ≠ artificial := by
    rintro w hw rfl
    exact hw hself
  have hleaving : ∀ w, row.basic = some w → w = artificial := fun w hw =>
    Option.some.inj (hw.symm.trans hbasic)
  have hterms : ∀ w, row.coefficient w ≠ 0 → next.Free w :=
    fun w hw => hdropped.kept w (hne w hw) (h.terms_free hrow hw)
  obtain ⟨entering, hentering, hcoefficient, hchoice⟩ :=
    exists_zeroLevelEntering hterms hnonconstant
  have henteringNe := hne entering hcoefficient
  have hrestricted : row.Restricted next.kindOf := by
    intro w hw
    rw [hprojects.kindOf]
    exact (h.fits_of_basic hrow hbasic hkind).terms_restricted (by simp) w hw
  have hsolvedRestricted : (row.solved entering).Restricted next.kindOf := by
    refine hrestricted.solved _ fun basic hrowBasic => ?_
    rw [hleaving basic hrowBasic, hprojects.kindOf, hkind]
    simp
  have hsolvedZero : (row.solved entering).constant = 0 := by
    rw [Row.constant_solved, hzero, zero_div]
  have hpinned : next.pinning artificial entering = some .constant →
      (row.solved entering).Pinned (next.pinning artificial) :=
    pinned_solved hbasic hself hrestricted hterms
      (fun w hw hunknown => hne w hw (honly w (by rw [← hprojects.kindOf, hunknown]))) hchoice
      henteringNe
  have hsolvedTerms : ∀ w, (row.solved entering).coefficient w ≠ 0 → next.Free w := by
    intro w hw
    rcases Row.coefficient_solved_ne_zero hw with hrowBasic | ⟨-, hterm⟩
    · exact hleaving w hrowBasic ▸ hdropped.free
    · exact hterms w hterm
  have hown : ∀ kind, next.kindOf entering = some kind →
      (row.solved entering).Fits (next.pinning artificial) kind := by
    intro kind hfound
    by_cases hconst : kind = .constant
    · exact Row.fits_of_pinned hsolvedZero
        (hpinned (by rw [pinning_of_ne henteringNe, hfound, hconst]))
    · exact Row.fits_of_restricted hsolvedZero.ge (restricted_pinning hsolvedRestricted) hconst
  -- For the purpose of this exchange the artificial variable counts as pinned.
  have hnextFor := hdropped.proper.pinning hdropped.unused
  obtain ⟨last, hadopt, hlastProper, hnarrows, hlastArtificial, hlastFree⟩ :=
    exists_enter_of_fits hnextFor (Row.basic_solved row entering)
      (hterms entering hcoefficient)
      (Row.coefficient_solved_self fun hrowBasic => henteringNe (hleaving entering hrowBasic))
      hsolvedTerms
      (fun j other basic kind hother hotherBasic hotherKind =>
        fits_of_level (hnextFor.fits_of_basic hother hotherBasic hotherKind) hsolvedZero
          (restricted_pinning hsolvedRestricted) hpinned)
      hown (fun _ _ _ => hsolvedRestricted) (hdropped.artificial.trans hartificial)
  have hlast := hlastFree artificial henteringNe.symm hdropped.free
  refine ⟨entering, last, hentering, Row.pivot_eq_ok hbasic hcoefficient, hadopt, hlast,
    proper_forget hlastProper hlast (fun w hw => by rw [pinning_of_ne hw, hnarrows.kindOf])
      hlastArtificial, hlastArtificial,
    Forgets.of_projects hprojects hnarrows (forgets_forget hlastProper hlast) fun a => ?_⟩
  rw [hnarrows.holds, Row.holds_solved (fun w hw => hleaving w hw ▸ hself) hcoefficient]
  exact hprojects.holds_row hrow hbasic hself

/-! ## The artificial objective -/

/-- A tableau in which a new variable stands for the value of a row. -/
structure Stands (t next : Tableau LinearForm Rat) (row : Row LinearForm Rat)
    (artificial : VariableId) : Prop where
  new : t.registry.get? artificial = none
  unmentioned : row.coefficient artificial = 0
  holds : ∀ a, next.Holds a ↔ t.Holds a ∧ a artificial = row.eval a
  role : ∀ w, next.roleOf w = if w = artificial then some (.unknown, none) else t.roleOf w
  session : next.registry.session = t.registry.session
  generation : ∀ w, (t.kindOf w).isSome → next.registry.generation? w = t.registry.generation? w
  goal : ∀ s a, next.Holds a → next.goal.level s a = t.goal.level s a

/-- The solutions do not depend on a variable that is not live. -/
theorem Proper.holds_update_of_dead (h : t.Proper) (hdead : t.registry.get? v = none) (x : Rat) :
    t.Holds (Function.update a v x) ↔ t.Holds a := by
  refine h.holds_congr fun w hw => Function.update_of_ne ?_ _ _
  rintro rfl
  rw [kindOf_of_dead hdead] at hw
  simp at hw

theorem Proper.level_update_of_dead (h : t.Proper) (hdead : t.registry.get? v = none) (x : Rat)
    (s : Strength) : t.goal.level s (Function.update a v x) = t.goal.level s a := by
  rw [Goal.level_update, Goal.rate_eq_zero_of_none (h.unused_of_dead hdead).goal]
  ring

namespace Stands

theorem agrees {last : Tableau LinearForm Rat} (h : Stands t next row artificial)
    (hagrees : Agrees next last) : Stands t last row artificial where
  new := h.new
  unmentioned := h.unmentioned
  holds := fun a => (hagrees.holds a).trans (h.holds a)
  role := fun w => (hagrees.role w).trans (h.role w)
  session := hagrees.session.trans h.session
  generation := fun w hw => (hagrees.generation w).trans (h.generation w hw)
  goal := fun s a ha => by
    have hnext := (hagrees.holds a).mp ha
    rw [hagrees.goal s a hnext, h.goal s a hnext]

theorem setArtificial (h : Stands t next row artificial) (objective : Option (Goal Rat)) :
    Stands t { next with artificial := objective } row artificial :=
  ⟨h.new, h.unmentioned, h.holds, h.role, h.session, h.generation, h.goal⟩

theorem kindOf_self (h : Stands t next row artificial) :
    next.kindOf artificial = some .unknown := by
  rw [kindOf_eq_roleOf, h.role, if_pos rfl]
  rfl

theorem kindOf_of_ne (h : Stands t next row artificial) (hw : w ≠ artificial) :
    next.kindOf w = t.kindOf w := by
  rw [kindOf_eq_roleOf, h.role, if_neg hw, kindOf_eq_roleOf]

theorem ne_of_live (h : Stands t next row artificial) (hw : (t.kindOf w).isSome) :
    w ≠ artificial := by
  rintro rfl
  unfold Tableau.kindOf at hw
  rw [h.new] at hw
  simp at hw

/-- A feasible point of the old tableau becomes one of the new tableau. -/
theorem feasible (h : Stands t next row artificial) (ht : t.Proper) (ha : t.Feasible a)
    (hrow : 0 ≤ row.eval a) :
    next.Feasible (Function.update a artificial (row.eval a)) := by
  refine ⟨(h.holds _).mpr ⟨(ht.holds_update_of_dead h.new _).mpr ha.holds, ?_⟩, fun w kind hkind => ?_⟩
  · rw [Function.update_self, Row.eval_update, h.unmentioned, zero_mul, add_zero]
  · by_cases hw : w = artificial
    · subst hw
      rw [h.kindOf_self, Option.some.injEq] at hkind
      rw [Function.update_self, ← hkind]
      exact hrow
    · rw [Function.update_of_ne hw]
      exact ha.allows w kind (by rw [← h.kindOf_of_ne hw, hkind])

/-- Setting the artificial variable to zero adds the equation of the row. -/
theorem narrows {last : Tableau LinearForm Rat} (h : Stands t next row artificial)
    (ht : t.Proper) (hforgets : Forgets next last artificial) :
    Narrows t last fun a => row.eval a = 0 := by
  have hholds : ∀ a, last.Holds a ↔ t.Holds a ∧ row.eval a = 0 := by
    intro a
    rw [hforgets.holds, h.holds, ht.holds_update_of_dead h.new, Function.update_self,
      Row.eval_update, h.unmentioned, zero_mul, add_zero]
    exact and_congr_right fun _ => eq_comm
  refine ⟨hholds, fun w => ?_, hforgets.session.trans h.session, fun w hw => ?_, fun s a ha => ?_⟩
  · rw [hforgets.role, h.role]
    by_cases hw : w = artificial
    · rw [if_pos hw, hw, roleOf, h.new, Option.map_none]
    · rw [if_neg hw, if_neg hw]
  · have hne := h.ne_of_live hw
    rw [hforgets.generation w hne (by rw [h.kindOf_of_ne hne]; exact hw), h.generation w hw]
  · rw [hforgets.goal s a ha, h.goal s _ ((hforgets.holds a).mp ha), ht.level_update_of_dead h.new]

/-- Setting the artificial variable free gives back the old solutions. -/
theorem restores {last : Tableau LinearForm Rat} (h : Stands t next row artificial) (ht : t.Proper)
    (hprojects : Projects next last artificial) :
    Narrows t { last with registry := last.registry.releaseId artificial } fun _ => True := by
  have hexists : ∀ a, last.Holds a ↔ t.Holds a := by
    intro a
    rw [hprojects.holds]
    constructor
    · rintro ⟨x, hx⟩
      exact (ht.holds_update_of_dead h.new x).mp ((h.holds _).mp hx).1
    · intro ha
      refine ⟨row.eval a, (h.holds _).mpr ⟨(ht.holds_update_of_dead h.new _).mpr ha, ?_⟩⟩
      rw [Function.update_self, Row.eval_update, h.unmentioned, zero_mul, add_zero]
  refine ⟨fun a => (hexists a).trans (and_true _).symm.to_iff, fun w => ?_,
    (Registry.session_releaseId _ _).trans (hprojects.session.trans h.session), fun w hw => ?_,
    fun s a ha => ?_⟩
  · change ((last.registry.releaseId artificial).get? w).map _ = _
    rw [Registry.get?_releaseId]
    by_cases hw : w = artificial
    · rw [if_pos hw, hw, roleOf, h.new, Option.map_none]
    · have hrole := h.role w
      rw [if_neg hw] at hrole ⊢
      exact (hprojects.role w).trans hrole
  · have hne := h.ne_of_live hw
    exact (Registry.generation?_releaseId _ hne).trans
      ((hprojects.generation w).trans (h.generation w hw))
  · have hlast : last.Holds a := ha
    obtain ⟨x, hx⟩ := (hprojects.holds a).mp hlast
    change last.goal.level s a = _
    rw [hprojects.goal s a x hx, h.goal s _ hx, ht.level_update_of_dead h.new]

end Stands

/-- A row is on its way into the basis: some of the solutions are left, and neither the roles that the
variables had nor the goal on these solutions have changed. -/
structure Suspends (t next : Tableau LinearForm Rat) : Prop where
  holds : ∀ a, next.Holds a → t.Holds a
  role : ∀ v, (t.kindOf v).isSome → next.roleOf v = t.roleOf v
  goal : ∀ s a, next.Holds a → next.goal.level s a = t.goal.level s a

theorem Stands.suspends (h : Stands t next row artificial) : Suspends t next where
  holds := fun a ha => ((h.holds a).mp ha).1
  role := fun v hv => by rw [h.role, if_neg (h.ne_of_live hv)]
  goal := h.goal

theorem Suspends.agrees {last : Tableau LinearForm Rat} (h : Suspends t next)
    (hagrees : Agrees next last) : Suspends t last where
  holds := fun a ha => h.holds a ((hagrees.holds a).mp ha)
  role := fun v hv => (hagrees.role v).trans (h.role v hv)
  goal := fun s a ha => by
    have hnext := (hagrees.holds a).mp ha
    rw [hagrees.goal s a hnext, h.goal s a hnext]

/-- The objective that minimises a row does not mention a variable that the row does not mention. -/
theorem coefficient?_ofRow {s : Strength} (h : row.coefficient v = 0)
    (hclean : (Goal.ofRow row s).Clean) :
    (Goal.ofRow row s).coefficient? v = none := by
  rw [hclean.coefficient?_eq_none]
  intro level
  unfold Goal.ofRow
  rw [Goal.rate_insertRow, Goal.rate_eq_zero_of_none (by simp [Goal.zero, Goal.coefficient?]), h]
  ring

/-- A restricted row over variables without a definition may be minimised. -/
theorem admits_ofRow (hterms : ∀ w, row.coefficient w ≠ 0 → t.Free w)
    (hrestricted : row.Restricted t.kindOf) (s : Strength) : t.Admits (.ofRow row s) := by
  have hzero : t.Admits .zero :=
    ⟨Goal.clean_zero, fun w hw => by simp [Goal.zero, Goal.coefficient?] at hw,
      fun w hw => by simp [Goal.zero, Goal.coefficient?] at hw⟩
  exact hzero.insertRow hterms hrestricted _ _

/-- A new variable stands for a row when it was created and the equation of the row was added. -/
theorem Creates.stands {opened : Tableau LinearForm Rat} {record : Record Rat}
    {objective : Option (Goal Rat)} (h : Creates t opened artificial record)
    (hrole : (record.kind, record.strength) = (.unknown, none))
    (hgoal : opened.goal = t.goal) (hholds : ∀ a, opened.Holds a ↔ t.Holds a)
    (hunmentioned : row.coefficient artificial = 0)
    (hnarrows : Narrows { opened with artificial := objective } next
      fun a => a artificial = row.eval a) : Stands t next row artificial where
  new := h.dead
  unmentioned := hunmentioned
  holds := fun a => (hnarrows.holds a).trans (and_congr_left fun _ => hholds a)
  role := fun w => (hnarrows.role w).trans (hrole ▸ h.roleOf w)
  session := hnarrows.session.trans h.session
  generation := fun w hw => by
    have hne := h.ne_of_live hw
    have hlive : (opened.kindOf w).isSome := by
      rw [h.kindOf_of_ne hne]
      exact hw
    exact (hnarrows.generation w hlive).trans (h.generation w hne)
  goal := fun s a ha => (hnarrows.goal s a ha).trans (by rw [hgoal])

/-- A new variable is made to stand for a restricted row with a constant that is not negative. -/
theorem exists_artificial (h : t.Proper) (hterms : ∀ w, row.coefficient w ≠ 0 → t.Free w)
    (hrestricted : row.Restricted t.kindOf) (hconstant : 0 ≤ row.constant) (name : String) :
    let created := t.registry.create name .unknown
    let definition : Row LinearForm Rat := { row with basic := some created.1.id }
    ∃ next g, ({ t with
        registry := created.2
        artificial := some (.ofRow definition .equality) } :
          Tableau LinearForm Rat).insertRow definition = .ok next ∧ next.Proper ∧
      Stands t next row created.1.id ∧ next.artificial = some g ∧
      ∀ s a, next.Holds a → g.level s a = if s = .equality then a created.1.id else 0 := by
  intro created definition
  let fresh : Record Rat := ⟨name, .unknown, 0, none, none⟩
  let opened : Tableau LinearForm Rat := { t with registry := created.2 }
  have hcreates : Creates t opened created.1.id fresh := h.creates fresh
  have hopened : opened.Proper := h.created fresh rfl
  have hunused := h.unused_of_dead hcreates.dead
  have hlive : ∀ w, row.coefficient w ≠ 0 → w ≠ created.1.id := fun w hw =>
    hcreates.ne_of_live (hterms w hw).kindOf_isSome
  have hunmentioned : row.coefficient created.1.id = 0 := by
    by_contra hne
    exact hlive _ hne rfl
  have hopenedTerms : ∀ w, definition.coefficient w ≠ 0 → opened.Free w :=
    fun w hw => hcreates.free (hterms w hw)
  have hopenedRestricted : definition.Restricted opened.kindOf := by
    intro w hw
    rw [hcreates.kindOf_of_ne (hlive w hw)]
    exact hrestricted w hw
  -- The objective is the row itself, so it does not mention the new variable either.
  have hobjective := admits_ofRow hopenedTerms hopenedRestricted .equality
  have habsent : (Goal.ofRow definition .equality).coefficient? created.1.id = none :=
    coefficient?_ofRow hunmentioned hobjective.clean
  let started : Tableau LinearForm Rat :=
    { opened with artificial := some (.ofRow definition .equality) }
  have hstarted : started.Proper := hopened.setArtificial fun g hg => by
    obtain rfl := Option.some.inj hg
    exact hobjective
  have hselfFree : opened.Free created.1.id := hcreates.free_self rfl
  have hdefinition : definition.basic = some created.1.id := rfl
  obtain ⟨next, id, hinsert, hempty, hreplaced⟩ :=
    exists_insertRow (t := started) hstarted hdefinition hselfFree
      hunused.rows hunused.goal fun g hg => by
        obtain rfl := Option.some.inj hg
        exact habsent
  have hproper : next.Proper := by
    refine hreplaced.proper_of (hreplaced.properFor hstarted (Or.inr rfl) rfl (Or.inl hselfFree)
      hunmentioned (fun w hw => Or.inl (hopenedTerms w hw)) ?_ ?_ ?_)
    · intro j other basic kind _ hother hotherBasic hkind
      rw [Row.substitute_eq_self (hunused.rows j other hother)]
      exact hstarted.fits_of_basic hother hotherBasic hkind
    · intro kind _ hkind
      obtain rfl : VariableKind.unknown = kind :=
        Option.some.inj (hcreates.kindOf_self.symm.trans hkind)
      exact Row.fits_of_restricted hconstant hopenedRestricted (by simp)
    · exact fun _ _ _ => hopenedRestricted
  have hstands : Stands t next row created.1.id :=
    hcreates.stands rfl rfl (fun _ => Iff.rfl) hunmentioned (hreplaced.narrows hempty rfl)
  refine ⟨next, Goal.ofRow definition .equality, hinsert, hproper, hstands, ?_, fun s a ha => ?_⟩
  · rw [hreplaced.artificial]
    change some ((Goal.ofRow definition .equality).substitute created.1.id definition) = _
    rw [goal_substitute_of_absent habsent]
  · rw [Goal.level_ofRow, ((hstands.holds a).mp ha).2]
    rfl

/-- The minimum of the artificial variable is zero exactly when a feasible point satisfies the
row. -/
theorem phaseOne_decides (ht : t.Proper) (h : next.Proper) (hstands : Stands t next row artificial)
    {g : Goal Rat} (hg : next.artificial = some g)
    (hlevel : ∀ s a, next.Holds a → g.level s a = if s = .equality then a artificial else 0)
    {verdict : Verdict} (hdecided : next.Decided g verdict) :
    (g.constant.isZero = true ↔ next.value artificial = 0) ∧
      (next.value artificial ≠ 0 → ∀ a, t.Feasible a → row.eval a ≠ 0) := by
  have hadmits := h.artificial g hg
  have hnonneg : ∀ s a, next.Feasible a → 0 ≤ g.level s a := by
    intro s a ha
    rw [hlevel s a ha.holds]
    split
    · exact (ha.allows artificial .unknown hstands.kindOf_self)
    · exact le_refl 0
  have hoptimal : ∀ v, ¬next.Improves g v := by
    cases verdict with
    | optimal => exact hdecided
    | infeasible => exact hdecided.elim
    | unbounded entering =>
        obtain ⟨s, a, ha, hnegative⟩ :=
          exists_negative_of_unbounded h hadmits hdecided.1 hdecided.2
        exact absurd (hnonneg s a ha) (not_le_of_gt hnegative)
  have hconstant : ∀ s, g.constant.get s = if s = .equality then next.value artificial else 0 := by
    intro s
    rw [← level_value hadmits, hlevel s _ h.holds_value]
  refine ⟨?_, fun hvalue a ha hrow => hvalue ?_⟩
  · rw [StrengthVector.isZero_iff]
    constructor
    · intro hall
      have hself := hall .equality
      rwa [hconstant, if_pos rfl] at hself
    · intro hvalue s
      rw [hconstant, hvalue]
      split <;> rfl
  · -- A feasible point of the row has level zero, and no level is below the minimum.
    have hfeasible := hstands.feasible ht ha hrow.ge
    have hbest := optimal_of_decided hadmits hoptimal hfeasible .equality fun r hr => ?_
    · simp only at hbest
      rw [hlevel _ _ hfeasible.holds, hlevel _ _ h.holds_value, if_pos rfl, if_pos rfl,
        Function.update_self, hrow] at hbest
      have hrange := h.feasible_value.allows artificial .unknown hstands.kindOf_self
      have hvalueNonneg : 0 ≤ next.value artificial := hrange
      linarith
    · cases r <;> simp [Strength.level] at hr

end Artificial

end Tableau

end LexSimplex
