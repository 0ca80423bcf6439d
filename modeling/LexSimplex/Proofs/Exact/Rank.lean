import LexSimplex.Proofs.Exact.Optimum
import Mathlib.LinearAlgebra.Dimension.Constructions
import Mathlib.LinearAlgebra.Dimension.Finite

/-!
# As many rows as constraints

The solutions of a tableau can be described in two ways.  The variables without a row may be chosen
freely and determine the rest.  If the constraints mention declared variables only, the variables
that mark no constraint may be chosen freely as well, since the equation of each constraint can be
solved for its marker; and they determine the rest too.  Two such sets of parameters have the same
size (`card_le_of_determined`, used in both directions), hence so have the basic variables and the
markers: there is one row for each constraint (`Accounts.rowCount_eq`).

The argument is about the set of solutions, so it does not follow the rows through insertions,
pivots and removals.
-/

namespace LexSimplex

/-- If the members of a space of assignments can be prescribed off `basics` and are determined by
their values off `marks`, there are no more marks than basics. -/
theorem card_le_of_determined {ι : Type} [DecidableEq ι] {W : Submodule ℚ (ι → ℚ)}
    {basics marks : Finset ι} (hextend : ∀ a : ι → ℚ, ∃ w ∈ W, ∀ v ∉ basics, w v = a v)
    (hdetermined : ∀ w ∈ W, (∀ v ∉ marks, w v = 0) → w = 0) : marks.card ≤ basics.card := by
  -- For each mark that is not basic there is a member that is one there and zero at all others.
  choose w hw hoff using fun v : ↥(marks \ basics) => hextend (Pi.single v.1 1)
  have hat : ∀ v v' : ↥(marks \ basics), w v v'.1 = (Pi.single v.1 1 : ι → ℚ) v'.1 :=
    fun v v' => hoff v v'.1 (Finset.mem_sdiff.mp v'.2).2
  have hindependent : LinearIndependent ℚ fun (v : ↥(marks \ basics)) (b : ↥(basics \ marks)) =>
      w v b.1 := by
    rw [Fintype.linearIndependent_iff]
    intro g hg v
    -- A combination that vanishes at the basics that are no marks vanishes off the marks.
    have hzero : ∑ u, g u • w u = 0 := by
      refine hdetermined _ (W.sum_mem fun u _ => W.smul_mem _ (hw u)) fun i hi => ?_
      rw [Finset.sum_apply]
      by_cases hbasic : i ∈ basics
      · have hi := congrFun hg ⟨i, Finset.mem_sdiff.mpr ⟨hbasic, hi⟩⟩
        rwa [Finset.sum_apply] at hi
      · refine Finset.sum_eq_zero fun u _ => ?_
        have hne : i ≠ u.1 := by
          rintro rfl
          exact hi (Finset.mem_sdiff.mp u.2).1
        rw [Pi.smul_apply, hoff u i hbasic, Pi.single_eq_of_ne hne, smul_zero]
    have hvalue := congrFun hzero v.1
    rw [Finset.sum_apply, Finset.sum_eq_single v] at hvalue
    · rwa [Pi.smul_apply, hat, Pi.single_eq_same, smul_eq_mul, mul_one] at hvalue
    · intro u _ hu
      have hne : v.1 ≠ u.1 := fun heq => hu (Subtype.ext heq.symm)
      rw [Pi.smul_apply, hat, Pi.single_eq_of_ne hne, smul_zero]
    · exact fun habsent => absurd (Finset.mem_univ v) habsent
  have hcard := hindependent.fintype_card_le_finrank
  rw [Module.finrank_fintype_fun_eq_card, Fintype.card_coe, Fintype.card_coe] at hcard
  exact Finset.card_sdiff_le_card_sdiff_iff.mp hcard

/-! ## Directions -/

theorem LinearForm.total_add (f : LinearForm) (a b : Assignment Rat) :
    f.total (a + b) = f.total a + f.total b := by
  unfold total SortedMap.weigh SortedMap.weighIn
  rw [← List.sum_map_add]
  refine congrArg List.sum (List.map_congr_left fun entry _ => ?_)
  rw [Pi.add_apply, mul_add]

theorem LinearForm.total_smul (f : LinearForm) (c : Rat) (a : Assignment Rat) :
    f.total (c • a) = c * f.total a := by
  unfold total SortedMap.weigh SortedMap.weighIn
  rw [← List.sum_map_mul_left]
  refine congrArg List.sum (List.map_congr_left fun entry _ => ?_)
  rw [Pi.smul_apply, smul_eq_mul]
  ring

namespace Row

variable (row : Row LinearForm Rat) (a b : Assignment Rat)

theorem left_add : row.left (a + b) = row.left a + row.left b := by
  unfold left
  cases row.basic with
  | none => exact (add_zero 0).symm
  | some basic => rfl

theorem left_smul (c : Rat) : row.left (c • a) = c * row.left a := by
  unfold left
  cases row.basic with
  | none => exact (mul_zero c).symm
  | some basic => rfl

end Row

namespace Tableau

variable {t : Tableau LinearForm Rat} {a b w : Assignment Rat}

/-- The directions in which one can go from a solution without leaving the solutions. -/
def directions (t : Tableau LinearForm Rat) : Submodule ℚ (Assignment Rat) where
  carrier := { w | ∀ id row, t.row? id = some row → row.left w = row.terms.total w }
  zero_mem' := by
    intro id row _
    have hleft := row.left_smul 0 0
    have htotal := row.terms.total_smul 0 0
    rw [zero_smul, zero_mul] at hleft htotal
    rw [hleft, htotal]
  add_mem' := by
    intro w w' hw hw' id row hrow
    rw [Row.left_add, LinearForm.total_add, hw id row hrow, hw' id row hrow]
  smul_mem' := by
    intro c w hw id row hrow
    rw [Row.left_smul, LinearForm.total_smul, hw id row hrow]

/-- A direction leads from a solution to a solution. -/
theorem holds_add (ha : t.Holds a) (hw : w ∈ t.directions) : t.Holds (a + w) := by
  rw [holds_iff] at ha ⊢
  intro id row hrow
  have hsolution := ha id row hrow
  rw [Row.holds_iff, Row.eval_eq] at hsolution ⊢
  rw [Row.left_add, LinearForm.total_add, hsolution, hw id row hrow, add_assoc]

/-- Two solutions differ by a direction. -/
theorem sub_mem_directions (ha : t.Holds a) (hb : t.Holds b) : b - a ∈ t.directions := by
  rw [holds_iff] at ha hb
  intro id row hrow
  have hfirst := ha id row hrow
  have hsecond := hb id row hrow
  rw [Row.holds_iff, Row.eval_eq] at hfirst hsecond
  have hleft := row.left_add (b - a) a
  have htotal := row.terms.total_add (b - a) a
  rw [sub_add_cancel] at hleft htotal
  linarith

/-! ## Counting rows -/

/-- The positions are the rows and the holes. -/
theorem ProperFor.rowCount_eq {kinds : VariableId → Option VariableKind} (h : t.ProperFor kinds) :
    t.rowCount = t.rowList.length := by
  have hnodup : (t.rowList.map Prod.fst ++ t.freeRows).Nodup := by
    refine List.Nodup.append (List.pairwise_map.mpr t.rowList_pairwise) h.holes_nodup ?_
    intro id hrow hhole
    obtain ⟨⟨found, row⟩, hmem, rfl⟩ := List.mem_map.mp hrow
    have hempty := ((h.mem_holes found).mp hhole).2
    rw [mem_rowList.mp hmem] at hempty
    cases hempty
  have hperm : (t.rowList.map Prod.fst ++ t.freeRows).Perm
      ((List.range t.rows.size).map RowId.mk) := by
    refine (List.perm_ext_iff_of_nodup hnodup (List.nodup_range.map fun i j hij => ?_)).mpr ?_
    · exact RowId.mk.inj hij
    intro id
    rw [List.mem_append, List.mem_map, h.mem_holes, List.mem_map]
    constructor
    · rintro (⟨⟨found, row⟩, hmem, rfl⟩ | ⟨hlt, -⟩)
      · exact ⟨found.index, List.mem_range.mpr (index_lt_of_row? (mem_rowList.mp hmem)), rfl⟩
      · exact ⟨id.index, List.mem_range.mpr hlt, rfl⟩
    · rintro ⟨index, hlt, rfl⟩
      cases hrow : t.row? ⟨index⟩ with
      | none => exact Or.inr ⟨List.mem_range.mp hlt, rfl⟩
      | some row => exact Or.inl ⟨(⟨index⟩, row), mem_rowList.mpr hrow, rfl⟩
  have hlength := hperm.length_eq
  rw [List.length_append, List.length_map, List.length_map, List.length_range] at hlength
  unfold rowCount
  omega

/-- The variables that have a row. -/
def basics (t : Tableau LinearForm Rat) : Finset VariableId :=
  (t.rowList.filterMap fun entry => entry.2.basic).toFinset

theorem Proper.mem_basics (h : t.Proper) {v : VariableId} :
    v ∈ t.basics ↔ t.definitionOf v ≠ none := by
  unfold basics
  rw [List.mem_toFinset, List.mem_filterMap]
  constructor
  · rintro ⟨⟨id, row⟩, hmem, hbasic⟩
    rw [h.definition_of_basic (mem_rowList.mp hmem) hbasic]
    simp
  · intro hdefined
    obtain ⟨id, hid⟩ := Option.ne_none_iff_exists'.mp hdefined
    obtain ⟨row, hrow, hbasic⟩ := h.row_of_definition hid
    exact ⟨(id, row), mem_rowList.mpr hrow, hbasic⟩

theorem Proper.card_basics (h : t.Proper) : t.basics.card = t.rowCount := by
  have hsome : ∀ entry ∈ t.rowList, entry.2.basic.isSome := by
    rintro ⟨id, row⟩ hmem
    obtain ⟨basic, -, hbasic, -⟩ := h.row_basic (mem_rowList.mp hmem)
    exact Option.isSome_iff_exists.mpr ⟨basic, hbasic⟩
  have hnodup : (t.rowList.filterMap fun entry => entry.2.basic).Nodup := by
    refine List.pairwise_filterMap.mpr (t.rowList_pairwise.imp_of_mem ?_)
    rintro ⟨id, row⟩ ⟨id', row'⟩ hmem hmem' hne basic hbasic basic' hbasic' rfl
    have hdefined := h.definition_of_basic (mem_rowList.mp hmem) hbasic
    rw [h.definition_of_basic (mem_rowList.mp hmem') hbasic'] at hdefined
    exact hne (Option.some.inj hdefined).symm
  unfold basics
  rw [List.toFinset_card_of_nodup hnodup, List.filterMap_length_eq_length.mpr hsome, h.rowCount_eq]

/-- The variables without a row can be chosen freely. -/
theorem Proper.exists_direction (h : t.Proper) (a : Assignment Rat) :
    ∃ w ∈ t.directions, ∀ v ∉ t.basics, w v = a v := by
  refine ⟨t.complete a - t.complete 0,
    sub_mem_directions (h.holds_complete 0) (h.holds_complete a), fun v hv => ?_⟩
  rw [h.mem_basics, not_not] at hv
  rw [Pi.sub_apply, complete_of_none hv, complete_of_none hv, Pi.zero_apply, sub_zero]

/-- The variables without a row determine a direction. -/
theorem Proper.eq_zero_of_direction (h : t.Proper) (hw : w ∈ t.directions)
    (hoff : ∀ v ∉ t.basics, w v = 0) : w = 0 := by
  have hsame := h.reduced.solution_unique h.holds_value (holds_add h.holds_value hw) fun v hv => by
    rw [Pi.add_apply, hoff v (by rw [h.mem_basics, not_not]; exact hv), add_zero]
  exact left_eq_add.mp hsame

end Tableau

/-! ## Counting constraints -/

namespace Solver

open Tableau

variable {s : Solver LinearForm Rat} {declared : List (Variable × DeclaredKind)} {tag : Tag Rat}
  {v : VariableId} {a w : Assignment Rat}

/-- The markers of the present constraints. -/
def markers (s : Solver LinearForm Rat) : Finset VariableId :=
  (s.constraints.toList.map fun entry => entry.2.marker).toFinset

theorem mem_markers : v ∈ s.markers ↔ ∃ tag, s.Present tag ∧ tag.marker = v := by
  unfold markers
  rw [List.mem_toFinset, List.mem_map]
  constructor
  · rintro ⟨entry, hmem, rfl⟩
    exact ⟨entry.2, ⟨entry.1, SortedMap.find?_eq_some.mpr hmem⟩, rfl⟩
  · rintro ⟨tag, ⟨number, hfound⟩, rfl⟩
    exact ⟨(number, tag), SortedMap.find?_eq_some.mp hfound, rfl⟩

theorem Sound.card_markers (hs : s.Sound) : s.markers.card = s.constraints.size := by
  have hnodup : (s.constraints.toList.map fun entry => entry.2.marker).Nodup := by
    refine List.pairwise_map.mpr (s.constraints.ascending.imp_of_mem ?_)
    rintro ⟨number, tag⟩ ⟨number', tag'⟩ hmem hmem' hlt heq
    have hsame := hs.disjoint (SortedMap.find?_eq_some.mpr hmem) (SortedMap.find?_eq_some.mpr hmem')
      tag.marker List.mem_cons_self (heq ▸ List.mem_cons_self)
    rw [hsame] at hlt
    exact Nat.lt_irrefl _ hlt
  unfold markers
  rw [List.toFinset_card_of_nodup hnodup, List.length_map]
  rfl

/-- The variables that mark no constraint determine a direction. -/
theorem Sound.eq_zero_of_direction (hs : s.Sound) (hw : w ∈ s.tableau.directions)
    (hoff : ∀ v ∉ s.markers, w v = 0) : w = 0 := by
  have hsolution := hs.proper.holds_value
  have hsame := hs.determined _ _ hsolution (holds_add hsolution hw) fun v hv => by
    have hfree : v ∉ s.markers := fun hmem => by
      obtain ⟨tag, htag, hmarker⟩ := mem_markers.mp hmem
      exact hv tag htag hmarker
    rw [Pi.add_apply, hoff v hfree, add_zero]
  exact left_eq_add.mp hsame

/-- An assignment with the markers changed so that the equations hold. -/
def marked (s : Solver LinearForm Rat) (a : Assignment Rat) : Assignment Rat := fun v =>
  match s.owner? v with
  | some tag => if v = tag.marker then tag.partnerValue a + tag.balance a else a v
  | none => a v

theorem marked_marker (hs : s.Sound) (htag : s.Present tag) :
    s.marked a tag.marker = tag.partnerValue a + tag.balance a := by
  unfold marked
  rw [owner?_of_mem hs htag List.mem_cons_self]
  exact if_pos rfl

theorem marked_of_not_mem (hv : v ∉ s.markers) : s.marked a v = a v := by
  unfold marked
  cases howner : s.owner? v with
  | none => rfl
  | some tag =>
      have htag : s.Present tag := present_of_mem (List.mem_of_find?_eq_some howner)
      refine if_neg fun hmarker => hv (mem_markers.mpr ⟨tag, htag, hmarker.symm⟩)

/-- The equation of each constraint can be solved for its marker. -/
theorem Accounts.holds_marked (h : s.Accounts declared) (hs : s.Sound) (a : Assignment Rat) :
    s.tableau.Holds (s.marked a) := by
  refine (h.holds _).mpr fun tag htag => ?_
  have heval : tag.constraint.expression.eval (s.marked a) = tag.constraint.expression.eval a := by
    refine Expression.eval_congr fun v hv => marked_of_not_mem fun hmem => hv ?_
    obtain ⟨other, hother, rfl⟩ := mem_markers.mp hmem
    exact h.netCoefficient_own htag hother List.mem_cons_self
  have hpartner : tag.partnerValue (s.marked a) = tag.partnerValue a := by
    unfold Tag.partnerValue
    cases hcase : tag.partner with
    | none => rfl
    | some partner =>
        refine marked_of_not_mem fun hmem => ?_
        obtain ⟨other, hother, rfl⟩ := mem_markers.mp hmem
        obtain rfl := hs.eq_of_mem_own htag hother (Tag.mem_own.mpr (Or.inr hcase))
          List.mem_cons_self
        exact (hs.formed tag htag).partner_ne hcase
  unfold Tag.Holds
  rw [Tag.residual_eq, heval, hpartner, marked_marker hs htag, add_sub_cancel_left]
  unfold Tag.balance
  rw [← mul_assoc, mul_neg, Tag.markerSign_mul_self]
  ring

/-- The variables that mark no constraint can be chosen freely. -/
theorem Accounts.exists_direction (h : s.Accounts declared) (hs : s.Sound) (a : Assignment Rat) :
    ∃ w ∈ s.tableau.directions, ∀ v ∉ s.markers, w v = a v := by
  refine ⟨s.marked a - s.marked 0,
    sub_mem_directions (h.holds_marked hs 0) (h.holds_marked hs a), fun v hv => ?_⟩
  rw [Pi.sub_apply, marked_of_not_mem hv, marked_of_not_mem hv, Pi.zero_apply, sub_zero]

/-- There is one row for each constraint. -/
theorem Accounts.rowCount_eq (h : s.Accounts declared) (hs : s.Sound) :
    s.tableau.rowCount = s.constraints.size := by
  rw [← hs.proper.card_basics, ← hs.card_markers]
  apply le_antisymm
  · exact card_le_of_determined (h.exists_direction hs) fun w hw hoff =>
      hs.proper.eq_zero_of_direction hw hoff
  · exact card_le_of_determined hs.proper.exists_direction fun w hw hoff =>
      hs.eq_zero_of_direction hw hoff

end Solver

end LexSimplex
