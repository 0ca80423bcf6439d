import LexSimplex.Proofs.Exact.EnterBasis

/-!
# The invariant of a solver

`Solver.Sound` is what every call preserves, whatever live handles the constraints mention:

* the tableau is proper, without an artificial objective and without an artificial variable;
* the variables of the constraints have their roles, and no two constraints share one;
* on the solutions the goal is the sum of the error variables of the constraints;
* a solution is determined by the variables that mark no constraint.

The last point is why a marker always occurs in some row: otherwise it could be changed freely.
-/

namespace LexSimplex

open Tableau

namespace Solver

variable {s next : Solver LinearForm Rat} {tag : Tag Rat} {v : VariableId} {a : Assignment Rat}

/-- A constraint is present with its variables. -/
def Present (s : Solver LinearForm Rat) (tag : Tag Rat) : Prop :=
  ∃ number, s.constraints.find? number = some tag

/-- The sum of the error variables of all constraints at one level. -/
def penalties (s : Solver LinearForm Rat) (level : Strength) (a : Assignment Rat) : Rat :=
  s.constraints.weigh (fun tag => tag.penalty level a) fun _ => 1

/-- What every call preserves. -/
structure Sound (s : Solver LinearForm Rat) : Prop where
  proper : s.tableau.Proper
  artificial : s.tableau.artificial = none
  known : ∀ v, s.tableau.kindOf v ≠ some .unknown
  formed : ∀ tag, s.Present tag → tag.Formed s.tableau
  disjoint : ∀ {number other tag tag'}, s.constraints.find? number = some tag →
    s.constraints.find? other = some tag' → ∀ v, v ∈ tag.own → v ∈ tag'.own → number = other
  numbered : ∀ {number tag}, s.constraints.find? number = some tag →
    number.number.toNat < s.nextConstraint.number.toNat
  goal : ∀ level a, s.tableau.Holds a → s.tableau.goal.level level a = s.penalties level a
  determined : ∀ a b, s.tableau.Holds a → s.tableau.Holds b →
    (∀ v, (∀ tag, s.Present tag → tag.marker ≠ v) → a v = b v) → a = b

end Solver

namespace Tag

variable {t next : Tableau LinearForm Rat} {tag : Tag Rat} {v : VariableId} {a : Assignment Rat}

/-- The variables of a constraint are live and keep their roles as long as the registry does. -/
theorem Formed.of_role (h : tag.Formed t) (hrole : ∀ v ∈ tag.own, next.roleOf v = t.roleOf v) :
    tag.Formed next where
  marker := (hrole tag.marker List.mem_cons_self).trans h.marker
  required := h.required
  soft := by
    intro strength hstrength
    obtain ⟨partner, hpartner, hpartnerRole⟩ := h.soft strength hstrength
    exact ⟨partner, hpartner, (hrole partner (mem_own.mpr (Or.inr hpartner))).trans hpartnerRole⟩
  nodup := h.nodup

theorem Formed.partner_ne (h : tag.Formed t) : tag.partner ≠ some tag.marker := by
  intro hpartner
  have hnodup := h.nodup
  unfold own at hnodup
  rw [hpartner] at hnodup
  simp at hnodup

theorem Formed.partner_isSome (h : tag.Formed t) :
    tag.partner.isSome ↔ tag.constraint.strength.isSome := by
  cases hstrength : tag.constraint.strength with
  | none => simp [h.required hstrength]
  | some strength =>
      obtain ⟨partner, hpartner, -⟩ := h.soft strength hstrength
      simp [hpartner]

/-- The variables of a constraint are restricted, and they are not pinned if it is soft. -/
theorem Formed.kindOf (h : tag.Formed t) (hv : v ∈ tag.own) :
    ∃ kind, t.kindOf v = some kind ∧ kind ≠ .unrestricted ∧ kind ≠ .unknown ∧
      (tag.partner.isSome → kind ≠ .constant) := by
  rcases mem_own.mp hv with rfl | hpartner
  · refine ⟨(markerRole tag.constraint).1, by rw [kindOf_eq_roleOf, h.marker]; rfl, ?_, ?_, ?_⟩
    · unfold markerRole
      split <;> simp
    · unfold markerRole
      split <;> simp
    · intro hsome
      rw [h.partner_isSome] at hsome
      unfold markerRole
      split
      next hnone => rw [hnone] at hsome; simp at hsome
      next => simp
      next => simp
  · have hsome : tag.constraint.strength.isSome := h.partner_isSome.mp (by rw [hpartner]; rfl)
    obtain ⟨strength, hstrength⟩ := Option.isSome_iff_exists.mp hsome
    obtain ⟨partner, hpartner', hrole⟩ := h.soft strength hstrength
    obtain rfl : v = partner := Option.some.inj (hpartner.symm.trans hpartner')
    exact ⟨.error, by rw [kindOf_eq_roleOf, hrole]; rfl, by simp, by simp, by simp⟩

theorem Formed.live (h : tag.Formed t) (hv : v ∈ tag.own) : (t.kindOf v).isSome := by
  obtain ⟨kind, hkind, -⟩ := h.kindOf hv
  rw [hkind]
  rfl

/-- The filled-in variables of a constraint are in range, if it is soft or holds. -/
theorem Formed.allows_fill (h : tag.Formed t)
    (hc : tag.constraint.strength = none → tag.constraint.Holds a) (hv : v ∈ tag.own)
    {kind : VariableKind} (hkind : t.kindOf v = some kind) : kind.Allows (tag.fill a v) := by
  cases hstrength : tag.constraint.strength with
  | none =>
      have hpartner := h.required hstrength
      obtain rfl : v = tag.marker := by
        rcases mem_own.mp hv with hmarker | hother
        · exact hmarker
        · rw [hpartner] at hother
          simp at hother
      rw [kindOf_eq_roleOf, h.marker, Option.map_some, Option.some.injEq] at hkind
      rw [← hkind]
      exact allows_fill_required hpartner hstrength (hc hstrength)
  | some strength =>
      have hpartner : tag.partner.isSome := by
        rw [h.partner_isSome, hstrength]
        rfl
      obtain ⟨found, hfound, -, -, hunpinned⟩ := h.kindOf hv
      rw [hkind, Option.some.injEq] at hfound
      exact VariableKind.allows_of_nonneg (hfound ▸ hunpinned hpartner) (fill_nonneg hpartner hv)

theorem Formed.own_nonneg (h : tag.Formed t) (ha : t.Feasible a) (hv : v ∈ tag.own) : 0 ≤ a v := by
  obtain ⟨kind, hkind, hrestricted, -⟩ := h.kindOf hv
  exact (ha.allows v kind hkind).nonneg hrestricted

theorem Formed.penalty_nonneg (h : tag.Formed t) (ha : t.Feasible a) (level : Strength) :
    0 ≤ tag.penalty level a := by
  have hpartner : 0 ≤ tag.partnerValue a := by
    unfold partnerValue
    cases hcase : tag.partner with
    | none => exact le_refl 0
    | some partner => exact h.own_nonneg ha (mem_own.mpr (Or.inr hcase))
  have hmarker := h.own_nonneg ha (v := tag.marker) List.mem_cons_self
  unfold penalty shortfall
  split
  · split
    · exact add_nonneg hmarker hpartner
    · exact hpartner
  · exact le_refl 0

end Tag

namespace Solver

variable {s next : Solver LinearForm Rat} {tag : Tag Rat} {v : VariableId} {a b : Assignment Rat}

theorem penalties_congr (h : ∀ tag, s.Present tag → ∀ v ∈ tag.own, a v = b v) (level : Strength) :
    s.penalties level a = s.penalties level b := by
  unfold penalties SortedMap.weigh SortedMap.weighIn
  congr 1
  refine List.map_congr_left fun entry hentry => ?_
  simp only
  rw [Tag.penalty_congr (h entry.2 ⟨entry.1, SortedMap.find?_eq_some.mpr hentry⟩)]

namespace Sound

/-- At a feasible point the goal is not negative. -/
theorem goal_nonneg (h : s.Sound) (ha : s.tableau.Feasible a) (level : Strength) :
    0 ≤ s.tableau.goal.level level a := by
  rw [h.goal level a ha.holds]
  refine SortedMap.weigh_nonneg fun number tag hfound => ?_
  rw [mul_one]
  exact (h.formed tag ⟨number, hfound⟩).penalty_nonneg ha level

/-- The next number is free. -/
theorem next_free (h : s.Sound) : s.constraints.find? s.nextConstraint = none := by
  cases hfound : s.constraints.find? s.nextConstraint with
  | none => rfl
  | some tag => exact absurd (h.numbered hfound) (Nat.lt_irrefl _)

/-- Two constraints that share a variable are the same. -/
theorem eq_of_mem_own (h : s.Sound) {other : Tag Rat} (htag : s.Present tag)
    (hother : s.Present other) (hv : v ∈ tag.own) (hvother : v ∈ other.own) :
    tag = other := by
  obtain ⟨number, hfound⟩ := htag
  obtain ⟨number', hfound'⟩ := hother
  obtain rfl := h.disjoint hfound hfound' v hv hvother
  exact Option.some.inj (hfound.symm.trans hfound')

/-- A solver with the same solutions, the same goal on them and the same roles for the variables of
its constraints. -/
theorem of_same (h : s.Sound) (hbooks : s.SameBooks next) (hproper : next.tableau.Proper)
    (hnone : next.tableau.artificial = none) (hknown : ∀ v, next.tableau.kindOf v ≠ some .unknown)
    (hrole : ∀ tag, s.Present tag → ∀ v ∈ tag.own, next.tableau.roleOf v = s.tableau.roleOf v)
    (hholds : ∀ a, next.tableau.Holds a ↔ s.tableau.Holds a)
    (hgoal : ∀ level a, s.tableau.Holds a →
      next.tableau.goal.level level a = s.tableau.goal.level level a) : next.Sound := by
  have hpresent : ∀ tag, next.Present tag ↔ s.Present tag := by
    intro tag
    unfold Present
    rw [hbooks.1]
  refine {
    proper := hproper
    artificial := hnone
    known := hknown
    formed := fun tag htag => (h.formed tag ((hpresent tag).mp htag)).of_role
      (hrole tag ((hpresent tag).mp htag))
    disjoint := by rw [hbooks.1]; exact h.disjoint
    numbered := by rw [hbooks.1, hbooks.2]; exact h.numbered
    goal := ?_
    determined := ?_ }
  · intro level a ha
    have hold := (hholds a).mp ha
    rw [hgoal level a hold, h.goal level a hold]
    unfold penalties
    rw [hbooks.1]
  · intro a b ha hb hsame
    refine h.determined a b ((hholds a).mp ha) ((hholds b).mp hb) fun v hv => ?_
    exact hsame v fun tag htag => hv tag ((hpresent tag).mp htag)

/-- A solver whose tableau was replaced by one in agreement with it. -/
theorem agrees (h : s.Sound) (hbooks : s.SameBooks next) (hproper : next.tableau.Proper)
    (hagrees : Agrees s.tableau next.tableau) : next.Sound :=
  h.of_same hbooks hproper (hagrees.artificial_none h.artificial)
    (fun v => by rw [hagrees.kindOf]; exact h.known v) (fun _ _ v _ => hagrees.role v)
    hagrees.holds hagrees.goal

/-- An addition that was rejected leaves a sound solver. -/
theorem narrows_true (h : s.Sound) (hbooks : s.SameBooks next) (hproper : next.tableau.Proper)
    (hnone : next.tableau.artificial = none)
    (hnarrows : Narrows s.tableau next.tableau fun _ => True) : next.Sound := by
  have hholds : ∀ a, next.tableau.Holds a ↔ s.tableau.Holds a := fun a => by
    rw [hnarrows.holds, and_true]
  exact h.of_same hbooks hproper hnone (fun v => by rw [hnarrows.kindOf]; exact h.known v)
    (fun _ _ v _ => hnarrows.role v) hholds fun level a ha =>
      hnarrows.goal level a ((hholds a).mpr ha)

end Sound

end Solver

end LexSimplex
