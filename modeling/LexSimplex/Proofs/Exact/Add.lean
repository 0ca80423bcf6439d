import LexSimplex.Proofs.Exact.Invariant

/-!
# Adding a constraint

A constraint that is accepted adds its equation and its variables, and nothing else changes
(`Accepts`).  A constraint that is rejected leaves the solutions as they are; it is required, and no
feasible point satisfies it, because its own variables could otherwise be filled in (`add_ends`).
-/

namespace LexSimplex

open Tableau

namespace Solver

variable {s next : Solver LinearForm Rat} {tag : Tag Rat}

/-- No variable can improve the goal. -/
def Settled (s : Solver LinearForm Rat) : Prop := ∀ v, ¬s.tableau.Improves s.tableau.goal v

/-- A constraint was accepted with its variables. -/
structure Accepts (s next : Solver LinearForm Rat) (tag : Tag Rat) : Prop where
  holds : ∀ a, next.tableau.Holds a ↔ s.tableau.Holds a ∧ tag.Holds a
  formed : tag.Formed next.tableau
  live : ∀ term ∈ tag.constraint.expression.terms, (s.tableau.kindOf term.2.id).isSome
  new : ∀ v ∈ tag.own, s.tableau.registry.get? v = none
  others : ∀ v, v ∉ tag.own → next.tableau.roleOf v = s.tableau.roleOf v
  session : next.tableau.registry.session = s.tableau.registry.session
  generation : ∀ v, (s.tableau.kindOf v).isSome →
    next.tableau.registry.generation? v = s.tableau.registry.generation? v
  goal : ∀ level a, next.tableau.Holds a →
    next.tableau.goal.level level a = s.tableau.goal.level level a + tag.penalty level a
  constraints : next.constraints = s.constraints.insert s.nextConstraint tag
  numbers : s.nextConstraint.next? = some next.nextConstraint

namespace Accepts

/-- The new constraint has the number that was free, and the others have theirs. -/
theorem find? (h : Accepts s next tag) (number : ConstraintNumber) :
    next.constraints.find? number =
      if s.nextConstraint = number then some tag else s.constraints.find? number := by
  rw [h.constraints, SortedMap.find?_insert]
  simp only [SortedMap.rank_eq_iff]

theorem present_self (h : Accepts s next tag) : next.Present tag :=
  ⟨s.nextConstraint, by rw [h.find?, if_pos rfl]⟩

theorem present_of_present (h : Accepts s next tag) (hs : s.Sound) {other : Tag Rat}
    (hother : s.Present other) : next.Present other := by
  obtain ⟨number, hfound⟩ := hother
  refine ⟨number, ?_⟩
  rw [h.find?, if_neg, hfound]
  rintro rfl
  rw [hs.next_free] at hfound
  simp at hfound

theorem present_cases (h : Accepts s next tag) {other : Tag Rat} (hother : next.Present other) :
    other = tag ∨ s.Present other := by
  obtain ⟨number, hfound⟩ := hother
  rw [h.find?] at hfound
  by_cases hnumber : s.nextConstraint = number
  · rw [if_pos hnumber, Option.some.injEq] at hfound
    exact Or.inl hfound.symm
  · rw [if_neg hnumber] at hfound
    exact Or.inr ⟨number, hfound⟩

/-- The variables of the constraints that were present are not among the new ones. -/
theorem not_mem_own (h : Accepts s next tag) (hs : s.Sound) {other : Tag Rat}
    (hother : s.Present other) {v : VariableId} (hv : v ∈ other.own) : v ∉ tag.own :=
  not_mem_of_live ((hs.formed other hother).live hv) h.new

/-- The expression of the constraint does not depend on its own variables. -/
theorem netCoefficient_own (h : Accepts s next tag) {v : VariableId} (hv : v ∈ tag.own) :
    tag.constraint.expression.netCoefficient v = 0 := by
  by_contra hne
  obtain ⟨term, hterm, rfl⟩ := Expression.exists_mention hne
  exact not_mem_of_live (h.live term hterm) h.new hv

theorem penalties (h : Accepts s next tag) (hs : s.Sound) (level : Strength)
    (a : Assignment Rat) : next.penalties level a = s.penalties level a + tag.penalty level a := by
  unfold Solver.penalties
  rw [h.constraints, SortedMap.weigh_insert, hs.next_free]
  simp [SortedMap.weightOf]

theorem numbered (h : Accepts s next tag) :
    next.nextConstraint.number.toNat = s.nextConstraint.number.toNat + 1 := by
  have hnext := h.numbers
  unfold ConstraintNumber.next? at hnext
  split at hnext
  · simp at hnext
  next hne =>
    rw [← Option.some.inj hnext]
    simp only
    have hsize : s.nextConstraint.number.toNat < 4294967296 :=
      s.nextConstraint.number.toNat_lt
    rw [UInt32.toNat_add]
    by_cases hlast : s.nextConstraint.number.toNat + 1 = 4294967296
    · exfalso
      apply hne
      apply UInt32.toNat_inj.mp
      rw [UInt32.toNat_add]
      simp [hlast]
    · exact Nat.mod_eq_of_lt (by simp; omega)

/-- A solution is still determined by the variables that mark no constraint: the new marker is
determined by the new equation. -/
theorem determined (h : Accepts s next tag) (hs : s.Sound) (a b : Assignment Rat)
    (ha : next.tableau.Holds a) (hb : next.tableau.Holds b)
    (hsame : ∀ v, (∀ other, next.Present other → other.marker ≠ v) → a v = b v) : a = b := by
  obtain ⟨haOld, haTag⟩ := (h.holds a).mp ha
  obtain ⟨hbOld, hbTag⟩ := (h.holds b).mp hb
  have hmarker : tag.marker ∈ tag.own := List.mem_cons_self
  have hmoved : a = Function.update b tag.marker (a tag.marker) := by
    refine hs.determined a _ haOld ((hs.proper.holds_update_of_dead (h.new _ hmarker) _).mpr hbOld)
      fun v hv => ?_
    by_cases hv' : v = tag.marker
    · rw [hv', Function.update_self]
    · rw [Function.update_of_ne hv']
      refine hsame v fun other hother => ?_
      rcases h.present_cases hother with rfl | hold
      · exact Ne.symm hv'
      · exact hv other hold
  have hresidual := Tag.residual_update_marker (a := b) h.formed.partner_ne
    (h.netCoefficient_own hmarker) (a tag.marker)
  rw [← hmoved] at hresidual
  unfold Tag.Holds at haTag hbTag
  rw [haTag, hbTag, zero_add, eq_comm, mul_eq_zero] at hresidual
  have hequal := sub_eq_zero.mp (hresidual.resolve_left tag.markerSign_ne_zero)
  rw [hmoved, hequal, Function.update_eq_self]

/-- What was accepted stays accepted when the tableau is replaced by one in agreement with it. -/
theorem agrees {last : Solver LinearForm Rat} (h : Accepts s next tag)
    (hbooks : next.SameBooks last) (hagrees : Agrees next.tableau last.tableau) :
    Accepts s last tag where
  holds := fun a => (hagrees.holds a).trans (h.holds a)
  formed := h.formed.of_role fun v _ => hagrees.role v
  live := h.live
  new := h.new
  others := fun v hv => (hagrees.role v).trans (h.others v hv)
  session := hagrees.session.trans h.session
  generation := fun v hv => (hagrees.generation v).trans (h.generation v hv)
  goal := fun level a ha => by
    have hnext := (hagrees.holds a).mp ha
    rw [hagrees.goal level a hnext, h.goal level a hnext]
  constraints := hbooks.1.trans h.constraints
  numbers := by rw [hbooks.2]; exact h.numbers

/-- A solver that accepted a constraint is sound. -/
theorem sound (h : Accepts s next tag) (hs : s.Sound) (hproper : next.tableau.Proper)
    (hnone : next.tableau.artificial = none) : next.Sound := by
  have hrole : ∀ other, s.Present other → ∀ v ∈ other.own,
      next.tableau.roleOf v = s.tableau.roleOf v := fun other hother v hv =>
    h.others v (h.not_mem_own hs hother hv)
  refine {
    proper := hproper
    artificial := hnone
    known := ?_
    formed := ?_
    disjoint := ?_
    numbered := ?_
    goal := ?_
    determined := h.determined hs }
  · intro v
    by_cases hv : v ∈ tag.own
    · obtain ⟨kind, hkind, -, hknown, -⟩ := h.formed.kindOf hv
      rw [hkind, ne_eq, Option.some.injEq]
      exact hknown
    · rw [kindOf_eq_roleOf, h.others v hv, ← kindOf_eq_roleOf]
      exact hs.known v
  · intro other hother
    rcases h.present_cases hother with rfl | hold
    · exact h.formed
    · exact (hs.formed other hold).of_role (hrole other hold)
  · -- The variables of the new constraint were not live before.
    intro number number' first second hfirst hsecond v hv hv'
    rw [h.find?] at hfirst hsecond
    by_cases hnumber : s.nextConstraint = number <;> by_cases hnumber' : s.nextConstraint = number'
    · exact hnumber.symm.trans hnumber'
    · rw [if_pos hnumber, Option.some.injEq] at hfirst
      rw [if_neg hnumber'] at hsecond
      exact absurd (hfirst ▸ hv) (h.not_mem_own hs ⟨number', hsecond⟩ hv')
    · rw [if_neg hnumber] at hfirst
      rw [if_pos hnumber', Option.some.injEq] at hsecond
      exact absurd (hsecond ▸ hv') (h.not_mem_own hs ⟨number, hfirst⟩ hv)
    · rw [if_neg hnumber] at hfirst
      rw [if_neg hnumber'] at hsecond
      exact hs.disjoint hfirst hsecond v hv hv'
  · intro number other hfound
    rw [h.find?] at hfound
    rw [h.numbered]
    by_cases hnumber : s.nextConstraint = number
    · rw [← hnumber]
      exact Nat.lt_succ_self _
    · rw [if_neg hnumber] at hfound
      exact Nat.lt_succ_of_lt (hs.numbered hfound)
  · intro level a ha
    rw [h.goal level a ha, hs.goal level a ((h.holds a).mp ha).1, h.penalties hs]

end Accepts

end Solver

/-! ## Filling in the variables of a lowered constraint -/

namespace Tableau

variable {t opened : Tableau LinearForm Rat} {c : Constraint Rat} {row : Row LinearForm Rat}
  {tag : Tag Rat} {a : Assignment Rat}

/-- At a feasible point that satisfies a constraint, or for a soft constraint at any feasible point,
the variables of the lowered constraint can be filled in. -/
theorem Lowered.feasible_fill (h : Lowered t opened c row tag) (ht : t.Proper)
    (hlive : ∀ term ∈ c.expression.terms, (t.kindOf term.2.id).isSome) (ha : t.Feasible a)
    (hc : c.strength = none → c.Holds a) :
    opened.Feasible (tag.fill a) ∧ row.eval (tag.fill a) = 0 := by
  have hkept : ∀ v, (t.kindOf v).isSome → tag.fill a v = a v := fun v hv =>
    Tag.fill_of_not_mem (not_mem_of_live hv h.new)
  have hholds : t.Holds (tag.fill a) := (ht.holds_congr hkept).mpr ha.holds
  have hexpression : tag.constraint.expression.eval (tag.fill a) =
      tag.constraint.expression.eval a := by
    refine Expression.eval_congr fun v hv => ?_
    rw [h.constraint] at hv
    obtain ⟨term, hterm, rfl⟩ := Expression.exists_mention hv
    exact hkept _ (hlive term hterm)
  refine ⟨⟨(h.holds _).mpr hholds, fun v kind hkind => ?_⟩, (h.equation _ hholds).mpr
    (Tag.holds_of_fill h.formed.partner_ne (fun _ _ => rfl) hexpression)⟩
  by_cases hv : v ∈ tag.own
  · exact h.formed.allows_fill (by rw [h.constraint]; exact hc) hv hkind
  · have hold : t.kindOf v = some kind := by
      rw [kindOf_eq_roleOf, ← h.others v hv, ← kindOf_eq_roleOf, hkind]
    rw [hkept v (by rw [hold]; rfl)]
    exact ha.allows v kind hold

/-- A lowered row that no feasible point satisfies belongs to a required constraint that no feasible
point satisfies. -/
theorem Lowered.unsatisfiable (h : Lowered t opened c row tag) (ht : t.Proper)
    (hlive : ∀ term ∈ c.expression.terms, (t.kindOf term.2.id).isSome)
    (hrow : ∀ a, opened.Feasible a → row.eval a ≠ 0) :
    c.strength = none ∧ ∀ a, t.Feasible a → ¬c.Holds a := by
  have hrefuted : ∀ a, t.Feasible a → ¬(c.strength = none → c.Holds a) := by
    intro a ha hc
    obtain ⟨hfeasible, hzero⟩ := h.feasible_fill ht hlive ha hc
    exact hrow _ hfeasible hzero
  refine ⟨?_, fun a ha hc => hrefuted a ha fun _ => hc⟩
  by_contra hsoft
  exact hrefuted _ ht.feasible_value fun hnone => absurd hnone hsoft

end Tableau

namespace SolverM

variable {s : Solver LinearForm Rat} {c : Constraint Rat}

/-- How adding a constraint ends. -/
def Added (limit : Nat) (s : Solver LinearForm Rat) (c : Constraint Rat) :
    Except Failure ConstraintHandle → Solver LinearForm Rat → Prop
  | .ok handle, next => ∃ tag, tag.constraint = c ∧ s.Accepts next tag ∧ next.Sound ∧
      next.Settled ∧ handle = ⟨s.session, s.nextConstraint⟩
  | .error (.error .unsatisfiable), next => s.SameBooks next ∧ next.Sound ∧
      Narrows s.tableau next.tableau (fun _ => True) ∧
      (∀ term ∈ c.expression.terms, (s.tableau.kindOf term.2.id).isSome) ∧ c.strength = none ∧
      ∀ a, s.tableau.Feasible a → ¬c.Holds a
  | .error (.error (.foreignVariable _)), next | .error (.error (.staleVariable _)), next =>
      next = s ∧ ∃ term ∈ c.expression.terms, s.tableau.registry.resolve term.2 ≠ .ok term.2.id
  | .error .outOfSteps, next => next.Exhausted limit
  | .error .outOfNumbers, _ => s.nextConstraint.next? = none
  | .error _, _ => False

/-- The row that entered the basis is the equation of the constraint, which is now kept. -/
theorem accepts_of_entered {lowered entered last : Solver LinearForm Rat}
    {row : Row LinearForm Rat} {tag : Tag Rat} (hbooks : s.SameBooks entered)
    (hlive : ∀ term ∈ c.expression.terms, (s.tableau.kindOf term.2.id).isSome)
    (hlowered : Lowered s.tableau lowered.tableau c row tag)
    (hnarrows : Narrows lowered.tableau entered.tableau fun a => row.eval a = 0)
    (htableau : last.tableau = entered.tableau)
    (hconstraints : last.constraints = entered.constraints.insert s.nextConstraint tag)
    (hnumbers : s.nextConstraint.next? = some last.nextConstraint) : s.Accepts last tag := by
  have hkept : ∀ v, (s.tableau.kindOf v).isSome → (lowered.tableau.kindOf v).isSome := by
    intro v hv
    rw [kindOf_eq_roleOf, hlowered.others v (not_mem_of_live hv hlowered.new),
      ← kindOf_eq_roleOf]
    exact hv
  refine {
    holds := fun a => ?_
    formed := htableau ▸ hlowered.formed.of_role fun v _ => hnarrows.role v
    live := hlowered.constraint ▸ hlive
    new := hlowered.new
    others := fun v hv => ?_
    session := htableau ▸ hnarrows.session.trans hlowered.session
    generation := fun v hv => ?_
    goal := fun level a ha => ?_
    constraints := hbooks.1 ▸ hconstraints
    numbers := hnumbers }
  · rw [htableau, hnarrows.holds, hlowered.holds]
    exact and_congr_right fun ha => hlowered.equation a ha
  · rw [htableau, hnarrows.role, hlowered.others v hv]
  · rw [htableau, hnarrows.generation v (hkept v hv), hlowered.generation v hv]
  · rw [htableau] at ha ⊢
    rw [hnarrows.goal level a ha, hlowered.goal]

/-- How bringing a constraint into the tableau ends.  However it fails, the tableau stays proper, and
it only runs out of steps while the row is on its way into the basis. -/
def Accepted (limit : Nat) (s : Solver LinearForm Rat) (c : Constraint Rat) :
    Except Failure ConstraintNumber → Solver LinearForm Rat → Prop
  | .ok number, next => number = s.nextConstraint ∧
      ∃ tag, tag.constraint = c ∧ s.Accepts next tag ∧ next.Sound
  | .error failure, next => Added limit s c (.error failure) next ∧ next.tableau.Proper ∧
      (failure = .outOfSteps → s.SameBooks next ∧ Suspends s.tableau next.tableau)

/-- Once the row has entered the basis, the constraint is kept under the next number, if there is
one. -/
theorem enlist_ends {lowered entered : Solver LinearForm Rat} {row : Row LinearForm Rat}
    {tag : Tag Rat} (hs : s.Sound) (hsame : s.SameBooks entered)
    (hlive : ∀ term ∈ c.expression.terms, (s.tableau.kindOf term.2.id).isSome)
    (hlowered : Lowered s.tableau lowered.tableau c row tag) (hproper : entered.tableau.Proper)
    (hnone : entered.tableau.artificial = none)
    (hnarrows : Narrows lowered.tableau entered.tableau fun a => row.eval a = 0) (limit : Nat) :
    Ends (do
        enlist s.nextConstraint tag
        count fun counters => { counters with added := counters.added + 1 }
        report [.added s.nextConstraint c]
        return s.nextConstraint) entered (Accepted limit s c) := by
  unfold enlist
  cases hnext : s.nextConstraint.next? with
  | none => exact ⟨hnext, hproper, by simp⟩
  | some number =>
      simp only [ends_bind, ends_modify, ends_count, ends_report, ends_pure]
      let kept : Solver LinearForm Rat := { entered with
        nextConstraint := number
        constraints := entered.constraints.insert s.nextConstraint tag
        counters := { entered.counters with added := entered.counters.added + 1 }
        journal := entered.journal ++ [Event.added s.nextConstraint c].toArray }
      have haccepts : s.Accepts kept tag :=
        accepts_of_entered hsame hlive hlowered hnarrows rfl rfl hnext
      exact ⟨rfl, tag, hlowered.constraint, haccepts, haccepts.sound hs hproper hnone⟩

/-- Bringing a constraint into the tableau of a sound solver. -/
theorem accept_ends (hs : s.Sound) (c : Constraint Rat) (limit : Nat) :
    Ends (accept c limit) s (Accepted limit s c) := by
  unfold accept
  simp only [ends_bind, ends_tableau]
  rcases resolveTerms_spec (r := s.tableau.registry) c.expression.terms with
    ⟨hresolved, hcurrent⟩ | ⟨term, hterm, cause, hresolved, hcause⟩
  · have hlive : ∀ term ∈ c.expression.terms, (s.tableau.kindOf term.2.id).isSome := by
      intro term hterm
      obtain ⟨-, -, -, hrecord⟩ := Registry.resolve_eq_ok_iff.mp (hcurrent term hterm)
      unfold kindOf
      rw [Option.isSome_map]
      exact hrecord
    rw [hresolved]
    simp only [ends_lift_answer, ends_enter, ends_get]
    -- The constraint is lowered to a row with its own variables.
    refine (lower_ends (s := { s with state := .building }) hs.proper hlive
      s.nextConstraint).of_returns ?_
    rintro ⟨row, tag⟩ lowered ⟨hbooks, hlowered⟩
    have hknown : ∀ w, lowered.tableau.kindOf w ≠ some .unknown := by
      intro w
      by_cases hw : w ∈ tag.own
      · obtain ⟨kind, hkind, -, hknown, -⟩ := hlowered.formed.kindOf hw
        rw [hkind, ne_eq, Option.some.injEq]
        exact hknown
      · rw [kindOf_eq_roleOf, hlowered.others w hw, ← kindOf_eq_roleOf]
        exact hs.known w
    -- The row enters the basis, or it contradicts the required constraints.
    refine (enterBasis_ends hs.proper hlowered hs.artificial hknown limit).mono ?_
    rintro (failure | _) entered hentered
    · cases failure with
      | error cause =>
          cases cause with
          | unsatisfiable =>
              obtain ⟨hbooks', hproper, hnone, hnarrows, hrow⟩ := hentered
              have hsame : s.SameBooks entered := hbooks.trans hbooks'
              exact ⟨⟨hsame, hs.narrows_true hsame hproper hnone hnarrows, hnarrows, hlive,
                hlowered.unsatisfiable hs.proper hlive hrow⟩, hproper, by simp⟩
          | _ => exact hentered.elim
      | access => exact hentered.elim
      | outOfSteps =>
          obtain ⟨hout, hbooks', hsuspends⟩ := hentered
          exact ⟨hout, hout.1, fun _ => ⟨hbooks.trans hbooks', hsuspends⟩⟩
      | outOfNumbers => exact hentered.elim
    · obtain ⟨hbooks', hproper, hnone, hnarrows⟩ := hentered
      have hkept := enlist_ends hs (hbooks.trans hbooks') hlive hlowered hproper hnone hnarrows limit
      simp only [ends_bind] at hkept
      exact hkept
  · rw [hresolved]
    simp only [ends_lift_refused]
    have hstale : s.tableau.registry.resolve term.2 ≠ .ok term.2.id := by
      rw [hcause]
      simp
    rcases Registry.resolve_eq_error hcause with rfl | rfl
    · exact ⟨⟨rfl, term, hterm, hstale⟩, hs.proper, by simp⟩
    · exact ⟨⟨rfl, term, hterm, hstale⟩, hs.proper, by simp⟩

/-- Adding a constraint to a sound solver. -/
theorem add_ends (hs : s.Sound) (c : Constraint Rat) (limit : Nat) :
    Ends (add c limit) s (Added limit s c) := by
  rw [add_eq_accept, ends_bind]
  refine (accept_ends hs c limit).mono ?_
  rintro (failure | number) kept haccepted
  · exact haccepted.1
  · obtain ⟨rfl, tag, hconstraint, haccepts, hkept⟩ := haccepted
    -- The goal has a new penalty, so it is minimised again.
    simp only [ends_bind]
    refine (reoptimize_ends hkept.proper hkept.artificial
      (fun level a ha => hkept.goal_nonneg ha level) limit).of_returnsOr (fun _ hout => hout) ?_
    rintro outcome next ⟨hbooks, hproper, hagrees, hsettled, -⟩
    refine ⟨tag, hconstraint, haccepts.agrees hbooks hagrees, hkept.agrees hbooks hproper hagrees,
      hsettled, ?_⟩
    unfold Solver.session
    rw [hagrees.session, haccepts.session]

end SolverM

end LexSimplex
