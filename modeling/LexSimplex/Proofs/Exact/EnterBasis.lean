import LexSimplex.Proofs.Exact.Marking

/-!
# Bringing a row into the basis

A lowered row is solved for a subject, or it goes through an artificial variable.  If this succeeds,
the equation of the constraint is added; if it does not, no feasible point satisfies the row, and
discarding the variables of the constraint gives back what was there before (`enterBasis_ends`).
-/

namespace LexSimplex

namespace Tableau

variable {t next : Tableau LinearForm Rat} {v : VariableId} {vs : List VariableId}
  {a : Assignment Rat}

/-- An assignment with some variables set to zero. -/
def zeroed (a : Assignment Rat) (vs : List VariableId) : Assignment Rat :=
  fun v => if v ∈ vs then 0 else a v

/-- Some variables were set to zero and removed. -/
structure Discards (t next : Tableau LinearForm Rat) (vs : List VariableId) : Prop where
  holds : ∀ a, next.Holds a ↔ t.Holds (zeroed a vs)
  role : ∀ w, next.roleOf w = if w ∈ vs then none else t.roleOf w
  session : next.registry.session = t.registry.session
  generation : ∀ w, w ∉ vs → next.registry.generation? w = t.registry.generation? w
  goal : ∀ s a, next.goal.level s a = t.goal.level s (zeroed a vs)

theorem zeroed_cons (a : Assignment Rat) (v : VariableId) (vs : List VariableId) :
    zeroed a (v :: vs) = Function.update (zeroed a vs) v 0 := by
  funext w
  unfold zeroed
  by_cases hw : w = v
  · subst hw
    simp
  · rw [Function.update_of_ne hw]
    simp [hw]

/-- A variable that no row mentions is taken out of the goal and released. -/
theorem proper_discard (h : t.Proper) (hartificial : t.artificial = none) (hfree : t.Free v)
    (hrows : ∀ j row, t.row? j = some row → row.coefficient v = 0) :
    ({ t with goal := t.goal.erase v, registry := t.registry.releaseId v } :
      Tableau LinearForm Rat).Proper := by
  have herased := h.setGoal (h.goal.erase v)
  refine Proper.released (t := { t with goal := t.goal.erase v }) herased
    ⟨hfree.definitionOf, hrows, ?_, fun g hg => ?_⟩
  · change (t.goal.erase v).coefficient? v = none
    rw [Goal.coefficient?_erase, if_pos rfl]
  · rw [show ({ t with goal := t.goal.erase v } : Tableau LinearForm Rat).artificial = none from
      hartificial] at hg
    simp at hg

/-- Discarding one more variable. -/
theorem Discards.cons (hfree : t.Free v)
    (h : t.Proper) (hrows : ∀ j row, t.row? j = some row → row.coefficient v = 0)
    (hrest : Discards { t with goal := t.goal.erase v, registry := t.registry.releaseId v } next vs) :
    Discards t next (v :: vs) := by
  refine ⟨fun a => ?_, fun w => ?_, hrest.session.trans (Registry.session_releaseId _ _),
    fun w hw => ?_, fun s a => ?_⟩
  · rw [hrest.holds, zeroed_cons, h.holds_update hfree.definitionOf hrows]
    rfl
  · rw [hrest.role]
    by_cases hmem : w ∈ vs
    · rw [if_pos hmem, if_pos (List.mem_cons_of_mem _ hmem)]
    · rw [if_neg hmem]
      change ((t.registry.releaseId v).get? w).map _ = _
      rw [Registry.get?_releaseId]
      by_cases hw : w = v
      · rw [if_pos hw, if_pos (hw ▸ List.mem_cons_self)]
        rfl
      · rw [if_neg hw, if_neg (by rw [List.mem_cons, not_or]; exact ⟨hw, hmem⟩)]
        rfl
  · rw [List.mem_cons, not_or] at hw
    rw [hrest.generation w hw.2]
    exact Registry.generation?_releaseId _ hw.1
  · rw [hrest.goal, zeroed_cons, Goal.level_update]
    change (t.goal.erase v).level s _ = _
    rw [Goal.level_erase]
    ring

section Lowered

variable {opened : Tableau LinearForm Rat} {c : Constraint Rat} {row : Row LinearForm Rat}
  {tag : Tag Rat}

/-- As long as the solutions are those from before a constraint was lowered, no row mentions its
variables. -/
theorem Lowered.unmentioned (h : Lowered t opened c row tag) (ht : t.Proper) (hnext : next.Proper)
    (hnarrows : Narrows opened next fun _ => True) (hv : v ∈ tag.own) :
    next.Free v ∧ ∀ j other, next.row? j = some other → other.coefficient v = 0 := by
  have hholds : ∀ a, next.Holds a ↔ t.Holds a := by
    intro a
    rw [hnarrows.holds, and_true, h.holds]
  obtain ⟨hundefined, hrows⟩ := hnext.unmentioned (v := v) fun a ha x => by
    rw [hholds, ht.holds_update_of_dead (h.new v hv), ← hholds]
    exact ha
  have hlive : (next.kindOf v).isSome := by
    rw [hnarrows.kindOf]
    exact (h.free v hv).kindOf_isSome
  obtain ⟨kind, hkind⟩ := Option.isSome_iff_exists.mp hlive
  obtain ⟨record, hrecord, -⟩ := Option.map_eq_some_iff.mp hkind
  refine ⟨⟨record, hrecord, ?_⟩, hrows⟩
  rwa [definitionOf_eq hrecord] at hundefined

/-- A constraint whose row is solved for none of its own variables is required: a soft one has two
that may become basic, and their coefficients are opposed. -/
theorem Lowered.required (h : Lowered t opened c row tag)
    (hown : ∀ v ∈ tag.own, ∀ kind, opened.kindOf v = some kind → kind.isPivotable →
      0 ≤ row.coefficient v) : c.strength = none := by
  by_contra hsoft
  obtain ⟨strength, hstrength⟩ := Option.ne_none_iff_exists'.mp hsoft
  obtain ⟨partner, hpartner, hrole⟩ := h.formed.soft strength (h.constraint ▸ hstrength)
  have hmarker : 0 ≤ row.coefficient tag.marker := by
    refine hown tag.marker List.mem_cons_self (Tag.markerRole tag.constraint).1 ?_ ?_
    · rw [kindOf_eq_roleOf, h.formed.marker]
      rfl
    · unfold Tag.markerRole
      rw [h.constraint, hstrength]
      cases c.relation <;> rfl
  have hother : 0 ≤ row.coefficient partner := by
    refine hown partner (Tag.mem_own.mpr (Or.inr hpartner)) .error ?_ rfl
    rw [kindOf_eq_roleOf, hrole]
    rfl
  rw [h.opposed partner hpartner] at hother
  exact h.marker (le_antisymm (neg_nonneg.mp hother) hmarker)

/-- While the row of a required constraint is on its way into the basis, so is the constraint. -/
theorem Lowered.suspends (h : Lowered t opened c row tag) (hrequired : c.strength = none)
    (hsuspends : Suspends opened next) : Suspends t next where
  holds := fun a ha => (h.holds a).mp (hsuspends.holds a ha)
  role := fun v hv => by
    have hmem := h.others v (not_mem_of_live hv h.new)
    rw [hsuspends.role v (by rw [kindOf_eq_roleOf, hmem, ← kindOf_eq_roleOf]; exact hv), hmem]
  goal := fun level a ha => by
    have hpenalty : tag.penalty level a = 0 := by
      unfold Tag.penalty
      rw [h.constraint, hrequired, if_neg (by simp)]
    rw [hsuspends.goal level a ha, h.goal, hpenalty, add_zero]

/-- Discarding the variables of a lowered constraint gives back what was there before. -/
theorem Lowered.restores {last : Tableau LinearForm Rat} (h : Lowered t opened c row tag)
    (ht : t.Proper) (hnarrows : Narrows opened next fun _ => True)
    (hdiscards : Discards next last tag.own) : Narrows t last fun _ => True := by
  have hzeroed : ∀ a, t.Holds (zeroed a tag.own) ↔ t.Holds a := by
    intro a
    exact ht.holds_congr fun v hv => if_neg (not_mem_of_live hv h.new)
  have hlevel : ∀ level a, t.goal.level level (zeroed a tag.own) = t.goal.level level a := by
    intro level a
    exact Goal.level_congr fun v hv =>
      if_neg (not_mem_of_live (ht.goal.free v hv).kindOf_isSome h.new)
  have hpenalty : ∀ level a, tag.penalty level (zeroed a tag.own) = 0 := by
    intro level a
    have hzero : tag.penalty level (zeroed a tag.own) = tag.penalty level fun _ => 0 :=
      Tag.penalty_congr (fun v hv => if_pos hv) level
    rw [hzero]
    unfold Tag.penalty Tag.shortfall Tag.partnerValue
    cases tag.constraint.relation <;> cases tag.partner <;> simp
  have hholds : ∀ a, last.Holds a ↔ t.Holds a := by
    intro a
    rw [hdiscards.holds, hnarrows.holds, and_true, h.holds, hzeroed]
  refine ⟨fun a => (hholds a).trans (and_true _).symm.to_iff, fun w => ?_,
    hdiscards.session.trans (hnarrows.session.trans h.session), fun w hw => ?_, fun level a ha => ?_⟩
  · rw [hdiscards.role]
    by_cases hmem : w ∈ tag.own
    · rw [if_pos hmem, roleOf, h.new w hmem, Option.map_none]
    · rw [if_neg hmem, hnarrows.role, h.others w hmem]
  · have hmem := not_mem_of_live hw h.new
    have hopened : (opened.kindOf w).isSome := by
      rw [kindOf_eq_roleOf, h.others w hmem, ← kindOf_eq_roleOf]
      exact hw
    rw [hdiscards.generation w hmem, hnarrows.generation w hopened, h.generation w hw]
  · have hnext := (hdiscards.holds a).mp ha
    rw [hdiscards.goal, hnarrows.goal level _ hnext, h.goal, hpenalty, hlevel, add_zero]

/-- A row of pinned variables has the value of its constant at every feasible point. -/
theorem Feasible.eval_pinned (ha : t.Feasible a) (hpinned : row.Pinned t.kindOf) :
    row.eval a = row.constant := by
  rw [← Row.eval_zero]
  refine Row.eval_congr fun v hv => ?_
  exact ha.allows v .constant (hpinned v hv)

end Lowered

end Tableau

namespace SolverM

open Tableau

variable {s : Solver LinearForm Rat}

/-- Variables that no row mentions are discarded. -/
theorem discardAll_ends (vs : List VariableId) (hnodup : vs.Nodup) (h : s.tableau.Proper)
    (hartificial : s.tableau.artificial = none) (hfree : ∀ v ∈ vs, s.tableau.Free v)
    (hrows : ∀ v ∈ vs, ∀ j row, s.tableau.row? j = some row → row.coefficient v = 0) :
    Ends (vs.forM fun v => do
        modifyGoal fun goal => goal.erase v
        releaseId v) s
      (Returns fun _ next => s.SameBooks next ∧ next.tableau.Proper ∧
        next.tableau.artificial = none ∧ Discards s.tableau next.tableau vs) := by
  induction vs generalizing s with
  | nil =>
      refine ⟨⟨rfl, rfl⟩, h, hartificial, ?_⟩
      have hzeroed : ∀ a, zeroed a [] = a := fun a => by funext w; simp [zeroed]
      exact ⟨fun a => by rw [hzeroed], fun w => by simp, rfl, fun _ _ => rfl,
        fun level a => by rw [hzeroed]⟩
  | cons v vs ih =>
      obtain ⟨hv, hvs⟩ := List.nodup_cons.mp hnodup
      let middle : Solver LinearForm Rat := { s with tableau := { s.tableau with
        goal := s.tableau.goal.erase v
        registry := s.tableau.registry.releaseId v } }
      have hmiddle : middle.tableau.Proper :=
        proper_discard h hartificial (hfree v List.mem_cons_self) (hrows v List.mem_cons_self)
      have hstep := ih (s := middle) hvs hmiddle hartificial (fun w hw => ?_)
        fun w hw => hrows w (List.mem_cons_of_mem _ hw)
      · rw [ends_forM_cons]
        simp only [ends_bind, ends_modifyGoal]
        refine (ends_releaseId ?_).mpr ?_
        · exact (hfree v List.mem_cons_self).checkReleased
        refine hstep.mono fun result next hresult => ?_
        cases result with
        | error failure => exact hresult.elim
        | ok _ =>
            obtain ⟨hbooks, hnext, hnone, hdiscards⟩ := hresult
            exact ⟨hbooks, hnext, hnone,
              Discards.cons (hfree v List.mem_cons_self) h (hrows v List.mem_cons_self) hdiscards⟩
      · have hne : w ≠ v := by
          rintro rfl
          exact hv hw
        obtain ⟨record, hrecord, hnone⟩ := hfree w (List.mem_cons_of_mem _ hw)
        refine ⟨record, ?_, hnone⟩
        change (s.tableau.registry.releaseId v).get? w = _
        rw [Registry.get?_releaseId, if_neg hne, hrecord]

/-- How an insertion through an artificial variable ends: the equation of the row is added, or no
feasible point satisfies it and everything is as before. -/
def Inserted (limit : Nat) (s : Solver LinearForm Rat) (row : Row LinearForm Rat) :
    Except Failure Unit → Solver LinearForm Rat → Prop
  | .ok _, next => s.SameBooks next ∧ next.tableau.Proper ∧ next.tableau.artificial = none ∧
      Narrows s.tableau next.tableau fun a => row.eval a = 0
  | .error (.error .unsatisfiable), next => s.SameBooks next ∧ next.tableau.Proper ∧
      next.tableau.artificial = none ∧ Narrows s.tableau next.tableau (fun _ => True) ∧
      ∀ a, s.tableau.Feasible a → row.eval a ≠ 0
  | .error .outOfSteps, next => next.Exhausted limit ∧ s.SameBooks next ∧
      Suspends s.tableau next.tableau
  | .error _, _ => False

/-- An artificial variable without a definition is erased and released. -/
theorem ends_forgetArtificial {artificial : VariableId}
    {done : Except Failure Unit → Solver LinearForm Rat → Prop}
    (hfree : s.tableau.Free artificial) :
    Ends (forgetArtificial artificial) s done ↔
      done (.ok ()) { s with tableau := s.tableau.forget artificial } := by
  unfold forgetArtificial
  simp only [ends_bind, ends_modify]
  exact ends_releaseId hfree.checkReleased

/-- After the row of an artificial variable at zero was dropped, the variable is replaced and
removed. -/
theorem replaceArtificial_ends {t : Tableau LinearForm Rat} {id : RowId} {artificial : VariableId}
    {row : Row LinearForm Rat} (h : t.Proper) (hnone : t.artificial = none)
    (hrow : t.row? id = some row) (hbasic : row.basic = some artificial)
    (hkind : t.kindOf artificial = some .unknown)
    (honly : ∀ w, t.kindOf w = some .unknown → w = artificial) (hzero : row.constant = 0)
    (hdropped : Dropped t s.tableau artificial) :
    Ends (do
        replaceArtificial artificial row
        forgetArtificial artificial) s (Returns fun _ next => s.SameBooks next ∧
      next.tableau.Proper ∧ next.tableau.artificial = none ∧
      Forgets t next.tableau artificial) := by
  have hdroppedNone : s.tableau.artificial = none := hdropped.artificial.trans hnone
  unfold replaceArtificial
  cases hconstant : row.isConstant with
  | true =>
      simp only [if_true, ends_bind, ends_pure]
      exact (ends_forgetArtificial hdropped.free).mpr ⟨⟨rfl, rfl⟩,
        proper_forget hdropped.proper hdropped.free (fun _ _ => rfl) hdroppedNone, hdroppedNone,
        forgets_of_constant h hrow hbasic hzero hconstant hdropped⟩
  | false =>
      obtain ⟨entering, last, hentering, hpivot, hadopt, hfree, hlast, hlastNone, hforgets⟩ :=
        exists_replace h hnone hrow hbasic hkind honly hzero hconstant hdropped
      simp only [Bool.false_eq_true, if_false, ends_bind, ends_tableau]
      rw [hentering]
      simp only [ends_lift_access, ends_bind]
      rw [hpivot]
      simp only [ends_lift_answer]
      rw [ends_adopt hadopt]
      exact (ends_forgetArtificial hfree).mpr ⟨⟨rfl, rfl⟩, hlast, hlastNone, hforgets⟩

/-- An artificial variable that is basic after phase one is taken out of the basis.  If it is zero,
another variable of its row takes its place; otherwise no feasible point satisfies the row that it
stands for. -/
theorem withdrawArtificial_ends {after : Solver LinearForm Rat} {row : Row LinearForm Rat}
    {artificial : VariableId} {id : RowId} {reachedZero : Bool} (h : s.tableau.Proper)
    (hknown : ∀ w, s.tableau.kindOf w ≠ some .unknown) (hbooks : s.SameBooks after)
    (hafter : after.tableau.Proper) (hnone : after.tableau.artificial = none)
    (hstands : Stands s.tableau after.tableau row artificial)
    (hdefined : after.tableau.definitionOf artificial = some id)
    (hreached : reachedZero = true ↔ after.tableau.value artificial = 0)
    (hinfeasible : after.tableau.value artificial ≠ 0 →
      ∀ a, s.tableau.Feasible a → row.eval a ≠ 0) (limit : Nat) :
    Ends (do
        let row ← dropRow id
        if reachedZero then
          replaceArtificial artificial row
          forgetArtificial artificial
        else
          releaseId artificial
          refuse .unsatisfiable) after (Inserted limit s row) := by
  obtain ⟨basicRow, hrow, hbasic⟩ := hafter.row_of_definition hdefined
  have hvalue : after.tableau.value artificial = basicRow.constant := by
    rw [value_eq_complete, complete_of_row hdefined hrow, Row.eval_zero]
  obtain ⟨dropped, hdrop, hdropped⟩ := exists_drop hafter hrow hbasic
  simp only [ends_bind]
  rw [ends_dropRow hdrop]
  simp only
  by_cases hzero : reachedZero = true
  · rw [if_pos hzero]
    have hconstantZero : basicRow.constant = 0 := by rw [← hvalue, hreached.mp hzero]
    have honly : ∀ w, after.tableau.kindOf w = some .unknown → w = artificial := by
      intro w hw
      by_contra hne
      rw [hstands.kindOf_of_ne hne] at hw
      exact hknown w hw
    have hreplace := replaceArtificial_ends (s := { after with tableau := dropped }) hafter hnone
      hrow hbasic hstands.kindOf_self honly hconstantZero hdropped
    refine hreplace.of_returns ?_
    rintro _ next ⟨hbooks', hproper, hnextNone, hforgets⟩
    exact ⟨hbooks.trans hbooks', hproper, hnextNone, hstands.narrows h hforgets⟩
  · rw [if_neg hzero]
    have hpositive : after.tableau.value artificial ≠ 0 := fun hv => hzero (hreached.mpr hv)
    simp only [ends_bind]
    refine (ends_releaseId hdropped.free.checkReleased).mpr ?_
    exact ⟨hbooks, hdropped.proper.released hdropped.unused, hdropped.artificial.trans hnone,
      hstands.restores h hdropped.projects, hinfeasible hpositive⟩

theorem insertThroughArtificial_ends (h : s.tableau.Proper)
    (hknown : ∀ w, s.tableau.kindOf w ≠ some .unknown)
    {row : Row LinearForm Rat} (hterms : ∀ w, row.coefficient w ≠ 0 → s.tableau.Free w)
    (hrestricted : row.Restricted s.tableau.kindOf) (hconstant : 0 ≤ row.constant) (limit : Nat) :
    Ends (insertThroughArtificial row limit) s (Inserted limit s row) := by
  -- A new variable is made to stand for the value of the row.
  let artificial := (s.tableau.registry.create "artificial" .unknown).1.id
  obtain ⟨opened, g, hinsert, hopened, hstands, hg, hlevel⟩ :=
    exists_artificial h hterms hrestricted hconstant "artificial"
  have hassign := Row.assignBasic_eq_ok hstands.unmentioned
  unfold insertThroughArtificial
  simp only [ends_bind]
  rw [ends_create h.registry]
  dsimp only
  rw [hassign, ends_lift_access]
  dsimp only
  rw [ends_update (t := opened) (by rw [hinsert]; rfl)]
  simp only
  have hobjective : opened.objective .artificial = .ok g := objective_artificial_iff.mpr hg
  -- Phase one minimises it, and its verdict says whether the row can be satisfied.
  rw [← ends_bind]
  refine (optimize_ends (s := { s with
    tableau := opened
    journal := _ }) hopened hobjective (pursued_artificial hg) limit).bindOr
      (fun _ hout => ⟨hout.1, hout.2.1, hout.2.2 ▸ hstands.suspends⟩) ?_
  rintro outcome after ⟨hbooks, hafter, hagrees, g', verdict, hg', hlevel', hdecided, -⟩
  have hafterStands := hstands.agrees hagrees
  have hafterArtificial : after.tableau.artificial = some g' := objective_artificial_iff.mp hg'
  have hafterLevel : ∀ level a, after.tableau.Holds a →
      g'.level level a = if level = .equality then a artificial else 0 := by
    intro level a ha
    have hold := (hagrees.holds a).mp ha
    rw [hlevel' level a hold, hlevel level a hold]
  obtain ⟨hzero, hinfeasible⟩ :=
    phaseOne_decides h hafter hafterStands hafterArtificial hafterLevel hdecided
  obtain ⟨record, hrecord, -⟩ := Option.map_eq_some_iff.mp hafterStands.kindOf_self
  -- Its objective is dropped, and then the variable itself.
  let settled : Tableau LinearForm Rat := { after.tableau with artificial := none }
  have hsettled : settled.Proper := hafter.setArtificial fun _ hsome => by simp at hsome
  have hsettledStands : Stands s.tableau settled row artificial := hafterStands.setArtificial none
  have hbooksSettled : s.SameBooks { after with tableau := settled } := hbooks
  simp only [ends_tableau, ends_setTableau]
  rw [Registry.record_eq_ok hrecord, hafterArtificial]
  simp only [ends_lift_access]
  cases hdefinition : record.definition with
  | none =>
      have hfree : settled.Free artificial := ⟨record, hrecord, hdefinition⟩
      refine (ends_forgetArtificial ?_).mpr ?_
      · exact hfree
      exact ⟨hbooksSettled, proper_forget hsettled hfree (fun _ _ => rfl) rfl, rfl,
        hsettledStands.narrows h (forgets_forget hsettled hfree)⟩
  | some id =>
      have hdefined : settled.definitionOf artificial = some id :=
        (definitionOf_eq hrecord).trans hdefinition
      exact withdrawArtificial_ends h hknown hbooksSettled hsettled rfl hsettledStands hdefined
        hzero hinfeasible limit

/-- How bringing a row into the basis ends: its equation is added to the lowered tableau, or no
feasible point satisfies it and what was there before the lowering is there again. -/
def Entered (limit : Nat) (t : Tableau LinearForm Rat) (s : Solver LinearForm Rat)
    (row : Row LinearForm Rat) :
    Except Failure Unit → Solver LinearForm Rat → Prop
  | .ok _, next => s.SameBooks next ∧ next.tableau.Proper ∧ next.tableau.artificial = none ∧
      Narrows s.tableau next.tableau fun a => row.eval a = 0
  | .error (.error .unsatisfiable), next => s.SameBooks next ∧ next.tableau.Proper ∧
      next.tableau.artificial = none ∧ Narrows t next.tableau (fun _ => True) ∧
      ∀ a, s.tableau.Feasible a → row.eval a ≠ 0
  | .error .outOfSteps, next => next.Exhausted limit ∧ s.SameBooks next ∧ Suspends t next.tableau
  | .error _, _ => False

section Entering

variable {t : Tableau LinearForm Rat} {c : Constraint Rat} {row : Row LinearForm Rat} {tag : Tag Rat}

/-- Discarding a constraint whose row cannot be satisfied. -/
theorem discard_ends {now : Solver LinearForm Rat} (h : t.Proper)
    (hlowered : Lowered t s.tableau c row tag) (hnow : now.tableau.Proper)
    (hnone : now.tableau.artificial = none)
    (hnarrows : Narrows s.tableau now.tableau fun _ => True) :
    Ends (discard tag) now (Returns fun _ next => now.SameBooks next ∧ next.tableau.Proper ∧
      next.tableau.artificial = none ∧ Narrows t next.tableau fun _ => True) := by
  have hown := fun v (hv : v ∈ tag.own) => hlowered.unmentioned h hnow hnarrows hv
  refine (discardAll_ends tag.own hlowered.formed.nodup hnow hnone (fun v hv => (hown v hv).1)
    fun v hv => (hown v hv).2).mono fun result next hresult => ?_
  match result, hresult with
  | .ok _, ⟨hbooks, hproper, hnextNone, hdiscards⟩ =>
      exact ⟨hbooks, hproper, hnextNone, hlowered.restores h hnarrows hdiscards⟩

theorem enterBasis_ends (h : t.Proper) (hlowered : Lowered t s.tableau c row tag)
    (hnone : t.artificial = none) (hknown : ∀ w, s.tableau.kindOf w ≠ some .unknown) (limit : Nat) :
    Ends (enterBasis row tag limit) s (Entered limit t s row) := by
  have hnoneNow : s.tableau.artificial = none := hlowered.artificial.trans hnone
  obtain ⟨subject, hsubject, hjustified⟩ :=
    exists_chooseSubject hlowered.terms hlowered.free
  -- Both ways to find a contradiction end with the same clean-up.
  have hrejected : ∀ (now : Solver LinearForm Rat) (event : Event Rat), s.SameBooks now →
      now.tableau.Proper → now.tableau.artificial = none →
      Narrows s.tableau now.tableau (fun _ => True) →
      (∀ a, s.tableau.Feasible a → row.eval a ≠ 0) →
      Ends (do
        discard tag
        reject event) now (Entered limit t s row) := by
    intro now event hbooks hnow hnowNone hnarrows hinfeasible
    refine (discard_ends h hlowered hnow hnowNone hnarrows).bind ?_
    rintro _ next ⟨hbooks', hnext, hnextNone, hnarrows'⟩
    exact ⟨hbooks.trans hbooks', hnext, hnextNone, hnarrows', hinfeasible⟩
  unfold enterBasis
  simp only [ends_bind, ends_tableau]
  rw [hsubject]
  simp only [ends_lift_access]
  cases subject with
  | «variable» entering =>
      obtain ⟨hne, next, hadopt, hproper, hnarrows, hnextNone⟩ :=
        exists_enter hlowered.proper hlowered.basic hlowered.terms hlowered.nonneg hlowered.fresh
          hlowered.marker hnoneNow hjustified
      simp only [ends_bind]
      rw [Row.solveFor_eq_ok hne]
      simp only [ends_lift_answer]
      rw [ends_adopt hadopt]
      exact ⟨⟨rfl, rfl⟩, hproper, hnextNone, hnarrows⟩
  | contradiction =>
      obtain ⟨hpinned, hconstant⟩ := hjustified
      refine hrejected s _ ⟨rfl, rfl⟩ hlowered.proper hnoneNow ?_ fun a ha => ?_
      · exact Narrows.refl s.tableau
      · rw [ha.eval_pinned hpinned]
        exact hconstant
  | artificial =>
      simp only [ends_bind, ends_count]
      rw [ends_tryCatch]
      let counted : Solver LinearForm Rat :=
        { s with counters := { s.counters with artificial := s.counters.artificial + 1 } }
      refine (insertThroughArtificial_ends (s := counted) hlowered.proper hknown
        hlowered.terms hjustified.1 hlowered.nonneg limit).mono ?_
      rintro (failure | _) now hnow
      · cases failure with
        | error cause =>
            cases cause with
            | unsatisfiable =>
                obtain ⟨hbooks, hproper, hnowNone, hnarrows, hinfeasible⟩ := hnow
                exact hrejected now _ hbooks hproper hnowNone hnarrows hinfeasible
            | _ => exact hnow.elim
        | access => exact hnow.elim
        | outOfSteps =>
            obtain ⟨hout, hbooks, hsuspends⟩ := hnow
            exact ⟨hout, hbooks, hlowered.suspends (hlowered.required hjustified.2) hsuspends⟩
        | outOfNumbers => exact hnow.elim
      · exact hnow

end Entering

end SolverM

end LexSimplex
