import LexSimplex.Proofs.Exact.Goal

/-!
# The lexicographic order of strength vectors

A family of scalars, one for each level, is *nonnegative* in the lexicographic order when its highest
component other than zero is positive.  Such families form a convex cone that contains all families
without a negative component, and the tests of the solver decide membership:

* `StrengthVector.isNegative` tests a vector;
* `StrengthVector.compare` tests the difference of two vectors.
-/

namespace LexSimplex

namespace Strength

variable {f g : Strength → Rat}

theorem ofLevel?_level (s : Strength) : ofLevel? s.level = some s := by
  cases s <;> rfl

theorem level_injective {s r : Strength} (h : s.level = r.level) : s = r := by
  have hs := ofLevel?_level s
  rw [h, ofLevel?_level, Option.some.injEq] at hs
  exact hs.symm

/-- The highest component other than zero, if there is one, is positive. -/
def Nonneg (f : Strength → Rat) : Prop :=
  ∀ s, (∀ r, s.level < r.level → f r = 0) → 0 ≤ f s

theorem nonneg_of_forall (h : ∀ s, 0 ≤ f s) : Nonneg f := fun s _ => h s

/-- A statement about all levels is proved from the highest one downwards. -/
theorem descend {P : Strength → Prop} (h : ∀ s, (∀ r, s.level < r.level → P r) → P s)
    (s : Strength) : P s := by
  have hlevel : ∀ r : Strength, r.level ≤ 5 := fun r => by cases r <;> decide
  -- Induction on the distance from the highest level.
  have hall : ∀ n, ∀ r : Strength, 5 - r.level = n → P r := by
    intro n
    induction n using Nat.strong_induction_on with
    | _ n ih =>
        intro r hr
        refine h r fun q hq => ih (5 - q.level) ?_ q rfl
        have hbound := hlevel q
        omega
  exact hall _ s rfl

/-- Two nonnegative families whose sum is zero above a level are zero there. -/
theorem Nonneg.eq_zero_of_add (hf : Nonneg f) (hg : Nonneg g) {s : Strength}
    (hsum : ∀ r, s.level < r.level → f r + g r = 0) :
    ∀ r, s.level < r.level → f r = 0 ∧ g r = 0 := by
  refine descend fun r ih hr => ?_
  have hfr := hf r fun q hq => (ih q hq (hr.trans hq)).1
  have hgr := hg r fun q hq => (ih q hq (hr.trans hq)).2
  have hzero := hsum r hr
  constructor <;> linarith

theorem Nonneg.add (hf : Nonneg f) (hg : Nonneg g) : Nonneg fun s => f s + g s := by
  intro s hsum
  have hzero := hf.eq_zero_of_add hg hsum
  have hfs := hf s fun r hr => (hzero r hr).1
  have hgs := hg s fun r hr => (hzero r hr).2
  linarith

theorem Nonneg.mul {x : Rat} (hf : Nonneg f) (hx : 0 ≤ x) : Nonneg fun s => f s * x := by
  intro s hproduct
  rcases eq_or_lt_of_le hx with hzero | hpos
  · simp [← hzero]
  · refine mul_nonneg (hf s fun r hr => ?_) hx
    rcases mul_eq_zero.mp (hproduct r hr) with hfr | hxr
    · exact hfr
    · exact absurd hxr (ne_of_gt hpos)

/-- A family that is nonnegative together with its opposite is zero. -/
theorem Nonneg.antisymm (hf : Nonneg f) (hg : Nonneg fun s => -f s) (s : Strength) : f s = 0 := by
  refine descend (P := fun s => f s = 0) (fun s ih => ?_) s
  have hpos := hf s ih
  have hneg : 0 ≤ -f s := hg s fun r hr => by simp [ih r hr]
  linarith

/-- The opposite of a family that is not nonnegative is nonnegative. -/
theorem Nonneg.neg_of_not (h : ¬Nonneg f) : Nonneg fun s => -f s := by
  unfold Nonneg at h
  push Not at h
  obtain ⟨lead, habove, hnegative⟩ := h
  intro s hzero
  show 0 ≤ -f s
  rcases lt_trichotomy s.level lead.level with hlow | hsame | hhigh
  · -- The leading component would be zero.
    have hlead := hzero lead hlow
    linarith
  · obtain rfl := level_injective hsame
    linarith
  · rw [habove s hhigh, neg_zero]

/-- Reading the components of a family in turn until one of them is not zero. -/
def negativeIn (f : Strength → Rat) : List Strength → Prop
  | [] => False
  | s :: rest => f s < 0 ∨ f s = 0 ∧ negativeIn f rest

/-- In a list with falling levels the reading finds a negative component below zeros. -/
theorem negativeIn_iff {levels : List Strength}
    (hfalling : levels.Pairwise fun s r => r.level < s.level) :
    negativeIn f levels ↔
      ∃ s ∈ levels, f s < 0 ∧ ∀ r ∈ levels, s.level < r.level → f r = 0 := by
  induction levels with
  | nil => simp [negativeIn]
  | cons s rest ih =>
      obtain ⟨hbelow, hrest⟩ := List.pairwise_cons.mp hfalling
      rw [negativeIn, ih hrest]
      constructor
      · rintro (hs | ⟨hs, lead, hlead, hnegative, hzero⟩)
        · refine ⟨s, List.mem_cons_self, hs, fun r hr hlt => ?_⟩
          rcases List.mem_cons.mp hr with rfl | hr
          · omega
          · have hle := hbelow r hr
            omega
        · refine ⟨lead, List.mem_cons_of_mem s hlead, hnegative, fun r hr hlt => ?_⟩
          rcases List.mem_cons.mp hr with rfl | hr
          · exact hs
          · exact hzero r hr hlt
      · rintro ⟨lead, hlead, hnegative, hzero⟩
        rcases List.mem_cons.mp hlead with rfl | hlead
        · exact Or.inl hnegative
        · exact Or.inr ⟨hzero s List.mem_cons_self (hbelow lead hlead), lead, hlead, hnegative,
            fun r hr hlt => hzero r (List.mem_cons_of_mem s hr) hlt⟩

theorem mem_descending (s : Strength) : s ∈ descending := by
  cases s <;> decide

theorem not_nonneg_iff : ¬Nonneg f ↔ negativeIn f descending := by
  rw [negativeIn_iff (by decide)]
  unfold Nonneg
  push Not
  constructor
  · rintro ⟨s, hzero, hnegative⟩
    exact ⟨s, mem_descending s, hnegative, fun r _ hlt => hzero r hlt⟩
  · rintro ⟨s, -, hnegative, hzero⟩
    exact ⟨s, fun r hlt => hzero r (mem_descending r) hlt, hnegative⟩

end Strength

namespace StrengthVector

variable {v w : StrengthVector Rat}

/-- The test for a negative vector. -/
theorem isNegative_iff : v.isNegative = true ↔ ¬Strength.Nonneg v.get := by
  rw [Strength.not_nonneg_iff]
  unfold isNegative sign highestLevel
  induction Strength.descending with
  | nil => simp [Strength.negativeIn]
  | cons s rest ih =>
      rw [Strength.negativeIn, List.find?_cons]
      by_cases hs : v.get s = 0
      · simpa [hs] using ih
      · have hne : (v.get s != 0) = true := by simpa using hs
        rw [hne]
        simp only [hs, false_and, or_false]
        by_cases hlt : v.get s < 0
        · simp [hlt]
        · simp [hlt]

/-- The comparison of two vectors. -/
theorem compare_ne_lt_iff :
    v.compare w ≠ .lt ↔ Strength.Nonneg fun s => v.get s - w.get s := by
  rw [← not_iff_not, Strength.not_nonneg_iff, not_not]
  unfold compare
  induction Strength.descending with
  | nil => simp [Strength.negativeIn]
  | cons s rest ih =>
      rw [Strength.negativeIn, List.foldr_cons, ← ih]
      unfold Scalar.compare
      rcases lt_trichotomy (v.get s) (w.get s) with hlt | heq | hgt
      · simp [hlt]
      · simp [heq]
      · have hnot : ¬v.get s < w.get s := not_lt_of_gt hgt
        have hne : v.get s - w.get s ≠ 0 := by linarith [sub_pos.mpr hgt]
        simp [hnot, hgt, hne]

end StrengthVector

end LexSimplex
