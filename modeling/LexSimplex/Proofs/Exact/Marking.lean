import LexSimplex.Proofs.Exact.Reoptimize
import LexSimplex.Proofs.Exact.Tags

/-!
# Lowering a constraint

Lowering creates the variables of a constraint and gives a row that is zero exactly on the solutions
of its equation (`lower_ends`).  The rows stay as they are: `Extends` records that only new variables
were created, and `Lowered` what the row and the tag of the constraint look like.
-/

namespace LexSimplex

namespace Tableau

variable {t next : Tableau LinearForm Rat} {own : List (VariableId × Role)} {v : VariableId}
  {a : Assignment Rat}

/-- Some variables with their roles were created, and the goal may have changed. -/
structure Extends (t next : Tableau LinearForm Rat) (own : List (VariableId × Role)) : Prop where
  proper : next.Proper
  artificial : next.artificial = t.artificial
  rows : ∀ j, next.row? j = t.row? j
  new : ∀ entry ∈ own, t.registry.get? entry.1 = none
  nodup : (own.map Prod.fst).Nodup
  free : ∀ entry ∈ own, next.Free entry.1
  kept : ∀ v, t.Free v → next.Free v
  role : ∀ entry ∈ own, next.roleOf entry.1 = some entry.2
  others : ∀ v, v ∉ own.map Prod.fst → next.roleOf v = t.roleOf v
  session : next.registry.session = t.registry.session
  generation : ∀ v, (t.kindOf v).isSome → next.registry.generation? v = t.registry.generation? v

namespace Extends

theorem nil (h : t.Proper) : Extends t t [] where
  proper := h
  artificial := rfl
  rows := fun _ => rfl
  new := by simp
  nodup := List.nodup_nil
  free := by simp
  kept := fun _ hv => hv
  role := by simp
  others := fun _ _ => rfl
  session := rfl
  generation := fun _ _ => rfl

theorem holds (h : Extends t next own) : next.Holds a ↔ t.Holds a := by
  rw [holds_iff, holds_iff]
  simp only [h.rows]

/-- A new variable is none of those that were live. -/
theorem new_of_dead (h : Extends t next own) (hdead : next.registry.get? v = none) :
    t.registry.get? v = none ∧ v ∉ own.map Prod.fst := by
  have hfresh : v ∉ own.map Prod.fst := by
    intro hmem
    obtain ⟨entry, hentry, rfl⟩ := List.mem_map.mp hmem
    have hrole := h.role entry hentry
    unfold roleOf at hrole
    rw [hdead] at hrole
    simp at hrole
  refine ⟨?_, hfresh⟩
  have hother := h.others v hfresh
  unfold roleOf at hother
  rw [hdead] at hother
  simpa using hother.symm

/-- One more variable is created. -/
theorem create (h : Extends t next own) (record : Record Rat)
    (hdefinition : record.definition = none) :
    Extends t { next with registry := (next.registry.allocate record).2 }
      (own ++ [((next.registry.allocate record).1.id, record.kind, record.strength)]) := by
  have hcreates := h.proper.creates record
  obtain ⟨holdDead, hfresh⟩ := h.new_of_dead hcreates.dead
  refine {
    proper := h.proper.created record hdefinition
    artificial := h.artificial
    rows := h.rows
    new := ?_
    nodup := ?_
    free := ?_
    kept := fun w hw => hcreates.free (h.kept w hw)
    role := ?_
    others := ?_
    session := hcreates.session.trans h.session
    generation := ?_ }
  · intro entry hentry
    rcases List.mem_append.mp hentry with hold | hnew
    · exact h.new entry hold
    · rw [List.mem_singleton.mp hnew]
      exact holdDead
  · rw [List.map_append, List.nodup_append]
    refine ⟨h.nodup, by simp, ?_⟩
    intro w hw other hother
    rw [List.map_singleton, List.mem_singleton] at hother
    rintro rfl
    have hself : w = (next.registry.allocate record).1.id := hother
    exact hfresh (hself ▸ hw)
  · intro entry hentry
    rcases List.mem_append.mp hentry with hold | hnew
    · exact hcreates.free (h.free entry hold)
    · rw [List.mem_singleton.mp hnew]
      exact hcreates.free_self hdefinition
  · intro entry hentry
    rcases List.mem_append.mp hentry with hold | hnew
    · rw [hcreates.roleOf, if_neg (hcreates.ne_of_live (h.free entry hold).kindOf_isSome)]
      exact h.role entry hold
    · rw [List.mem_singleton.mp hnew, hcreates.roleOf, if_pos rfl]
  · intro w hw
    rw [List.map_append, List.mem_append, not_or, List.map_singleton, List.mem_singleton] at hw
    rw [hcreates.roleOf, if_neg hw.2]
    exact h.others w hw.1
  · intro w hw
    have hlive : w ≠ (next.registry.allocate record).1.id := by
      rintro rfl
      rw [kindOf_of_dead holdDead] at hw
      simp at hw
    exact (hcreates.generation w hlive).trans (h.generation w hw)

/-- The goal is changed to another admissible one. -/
theorem setGoal (h : Extends t next own) {g : Goal Rat} (hg : next.Admits g) :
    Extends t { next with goal := g } own where
  proper := h.proper.setGoal hg
  artificial := h.artificial
  rows := h.rows
  new := h.new
  nodup := h.nodup
  free := h.free
  kept := h.kept
  role := h.role
  others := h.others
  session := h.session
  generation := h.generation

/-- The penalty of a new restricted variable enters the goal. -/
theorem penalise (h : Extends t next own) {role : Role} (hentry : (v, role) ∈ own)
    (hkind : role.1 ≠ .unrestricted) (vector : StrengthVector Rat) :
    Extends t { next with goal := next.goal.insert v vector 1 } own := by
  refine h.setGoal (h.proper.goal.insert (h.free _ hentry) ?_ _ _)
  rw [kindOf_eq_roleOf, h.role _ hentry, Option.map_some, ne_eq, Option.some.injEq]
  exact hkind

end Extends

/-- What a constraint was lowered to: the row is zero exactly on the solutions of the tag's
equation. -/
structure Lowered (t next : Tableau LinearForm Rat) (c : Constraint Rat)
    (row : Row LinearForm Rat) (tag : Tag Rat) : Prop where
  proper : next.Proper
  artificial : next.artificial = t.artificial
  holds : ∀ a, next.Holds a ↔ t.Holds a
  constraint : tag.constraint = c
  formed : tag.Formed next
  new : ∀ v ∈ tag.own, t.registry.get? v = none
  free : ∀ v ∈ tag.own, next.Free v
  fresh : ∀ v ∈ tag.own, ∀ j other, next.row? j = some other → other.coefficient v = 0
  others : ∀ v, v ∉ tag.own → next.roleOf v = t.roleOf v
  session : next.registry.session = t.registry.session
  generation : ∀ v, (t.kindOf v).isSome → next.registry.generation? v = t.registry.generation? v
  goal : ∀ level a, next.goal.level level a = t.goal.level level a + tag.penalty level a
  basic : row.basic = none
  terms : ∀ w, row.coefficient w ≠ 0 → next.Free w
  nonneg : 0 ≤ row.constant
  marker : row.coefficient tag.marker ≠ 0
  opposed : ∀ partner, tag.partner = some partner →
    row.coefficient partner = -row.coefficient tag.marker
  equation : ∀ a, t.Holds a → (row.eval a = 0 ↔ tag.Holds a)

/-- The row with the variables of the constraint added, before its sign is chosen. -/
structure Marked (t next : Tableau LinearForm Rat) (c : Constraint Rat)
    (row : Row LinearForm Rat) (tag : Tag Rat) : Prop where
  ext : ∃ own, Extends t next own ∧ tag.own = own.map Prod.fst
  constraint : tag.constraint = c
  formed : tag.Formed next
  goal : ∀ level a, next.goal.level level a = t.goal.level level a + tag.penalty level a
  basic : row.basic = none
  terms : ∀ w, row.coefficient w ≠ 0 → next.Free w
  marker : row.coefficient tag.marker ≠ 0
  opposed : ∀ partner, tag.partner = some partner →
    row.coefficient partner = -row.coefficient tag.marker
  value : ∀ a, t.Holds a → row.eval a = tag.residual a

section Rows

variable {c : Constraint Rat} {row : Row LinearForm Rat} {w : VariableId}

/-- A row over the free variables of a tableau does not mention a variable that was not live. -/
theorem coefficient_of_new (hterms : ∀ w, row.coefficient w ≠ 0 → t.Free w)
    (hnew : t.registry.get? v = none) : row.coefficient v = 0 := by
  by_contra hne
  obtain ⟨record, hrecord, -⟩ := hterms v hne
  rw [hnew] at hrecord
  simp at hrecord

/-- The row of a required constraint with its marker. -/
theorem marked_required (hext : Extends t next [(v, Tag.markerRole c)]) (hstrength : c.strength = none)
    (hgoal : next.goal = t.goal) (hbasic : row.basic = none)
    (hterms : ∀ w, row.coefficient w ≠ 0 → t.Free w)
    (hvalue : ∀ a, t.Holds a → row.eval a = c.expression.eval a) {x : Rat}
    (hsign : (⟨c, v, none⟩ : Tag Rat).markerSign = x) :
    Marked t next c (row.insert v x) ⟨c, v, none⟩ := by
  have hv := coefficient_of_new hterms (hext.new _ List.mem_cons_self)
  refine {
    ext := ⟨_, hext, rfl⟩
    constraint := rfl
    formed := ⟨hext.role _ List.mem_cons_self, fun _ => rfl, fun strength hs => ?_, by simp [Tag.own]⟩
    goal := fun level a => by simp [Tag.penalty, hstrength, hgoal]
    basic := hbasic
    terms := ?_
    marker := ?_
    opposed := fun _ hpartner => by cases hpartner
    value := ?_ }
  · simp only at hs
    rw [hstrength] at hs
    simp at hs
  · intro u hu
    rw [Row.coefficient_insert] at hu
    by_cases huv : u = v
    · exact huv ▸ hext.free _ List.mem_cons_self
    · rw [if_neg huv, add_zero] at hu
      exact hext.kept u (hterms u hu)
  · rw [Row.coefficient_insert, if_pos rfl]
    rw [hv, zero_add, ← hsign]
    exact Tag.markerSign_ne_zero _
  · intro a ha
    rw [Row.eval_insert, hvalue a ha, Tag.residual_eq, hsign]
    simp only [Tag.partnerValue]
    ring

/-- The row of a soft constraint with its marker and its partner. -/
theorem marked_soft {strength : Strength}
    (hext : Extends t next
      [(v, Tag.markerRole c), (w, (.error, some (.unit strength)))])
    (hstrength : c.strength = some strength)
    (hgoal : ∀ level a, next.goal.level level a = t.goal.level level a +
      (⟨c, v, some w⟩ : Tag Rat).penalty level a) (hbasic : row.basic = none)
    (hterms : ∀ w, row.coefficient w ≠ 0 → t.Free w)
    (hvalue : ∀ a, t.Holds a → row.eval a = c.expression.eval a) {x : Rat}
    (hsign : (⟨c, v, some w⟩ : Tag Rat).markerSign = x) :
    Marked t next c ((row.insert v x).insert w (-x)) ⟨c, v, some w⟩ := by
  have hpartner : (w, (VariableKind.error, some (StrengthVector.unit strength))) ∈
      [(v, Tag.markerRole c), (w, (.error, some (.unit strength)))] :=
    List.mem_cons_of_mem _ List.mem_cons_self
  have hv := coefficient_of_new hterms (hext.new _ List.mem_cons_self)
  have hne : v ≠ w := by
    have hnodup := hext.nodup
    simp only [List.map_cons, List.map_nil, List.nodup_cons, List.mem_singleton] at hnodup
    exact hnodup.1
  refine {
    ext := ⟨_, hext, rfl⟩
    constraint := rfl
    formed := ⟨hext.role _ List.mem_cons_self, fun hs => ?_, fun found hs => ?_, by
      simp [Tag.own, hne]⟩
    goal := hgoal
    basic := hbasic
    terms := ?_
    marker := ?_
    opposed := ?_
    value := ?_ }
  · simp only at hs
    rw [hstrength] at hs
    simp at hs
  · simp only at hs
    rw [hstrength, Option.some.injEq] at hs
    subst hs
    exact ⟨w, rfl, hext.role _ hpartner⟩
  · intro u hu
    rw [Row.coefficient_insert, Row.coefficient_insert] at hu
    by_cases huv : u = v
    · exact huv ▸ hext.free _ List.mem_cons_self
    · by_cases huw : u = w
      · exact huw ▸ hext.free _ hpartner
      · rw [if_neg huv, if_neg huw, add_zero, add_zero] at hu
        exact hext.kept u (hterms u hu)
  · rw [Row.coefficient_insert, Row.coefficient_insert, if_pos rfl, if_neg hne]
    rw [hv, zero_add, add_zero, ← hsign]
    exact Tag.markerSign_ne_zero _
  · rintro _ ⟨⟩
    have hw := coefficient_of_new hterms (hext.new _ hpartner)
    simp [Row.coefficient_insert, hv, hw, hne, hne.symm]
  · intro a ha
    rw [Row.eval_insert, Row.eval_insert, hvalue a ha, Tag.residual_eq, hsign]
    simp only [Tag.partnerValue]
    ring

end Rows

/-- Choosing the sign of a marked row. -/
theorem Marked.lowered (h : t.Proper) {c : Constraint Rat} {row : Row LinearForm Rat}
    {tag : Tag Rat} (hm : Marked t next c row tag) :
    Lowered t next c (if row.constant < 0 then row.negate else row) tag := by
  obtain ⟨own, hext, hown⟩ := hm.ext
  have hmem : ∀ v ∈ tag.own, ∃ entry ∈ own, entry.1 = v := by
    intro v hv
    rw [hown] at hv
    obtain ⟨entry, hentry, rfl⟩ := List.mem_map.mp hv
    exact ⟨entry, hentry, rfl⟩
  have hnew : ∀ v ∈ tag.own, t.registry.get? v = none := by
    intro v hv
    obtain ⟨entry, hentry, rfl⟩ := hmem v hv
    exact hext.new entry hentry
  refine {
    proper := hext.proper
    artificial := hext.artificial
    holds := fun a => hext.holds
    constraint := hm.constraint
    formed := hm.formed
    new := hnew
    free := ?_
    fresh := ?_
    others := fun v hv => hext.others v (hown ▸ hv)
    session := hext.session
    generation := hext.generation
    goal := hm.goal
    basic := ?_
    terms := ?_
    nonneg := ?_
    marker := ?_
    opposed := ?_
    equation := ?_ }
  · intro v hv
    obtain ⟨entry, hentry, rfl⟩ := hmem v hv
    exact hext.free entry hentry
  · intro v hv j other hother
    rw [hext.rows] at hother
    exact (h.unused_of_dead (hnew v hv)).rows j other hother
  · split
    · rw [Row.basic_negate, hm.basic]
    · exact hm.basic
  · intro w hw
    refine hm.terms w ?_
    split at hw
    · rw [Row.coefficient_negate] at hw
      exact neg_ne_zero.mp hw
    · exact hw
  · split
    next hneg =>
      rw [Row.constant_negate]
      linarith
    next hnonneg => exact le_of_not_gt hnonneg
  · split
    · rw [Row.coefficient_negate]
      exact neg_ne_zero.mpr hm.marker
    · exact hm.marker
  · intro partner hpartner
    split
    · rw [Row.coefficient_negate, Row.coefficient_negate, hm.opposed partner hpartner]
    · exact hm.opposed partner hpartner
  · intro a ha
    unfold Tag.Holds
    rw [← hm.value a ha]
    split
    · rw [Row.eval_negate, neg_eq_zero]
    · rfl

end Tableau

namespace SolverM

open Tableau

variable {s : Solver LinearForm Rat} {t : Tableau LinearForm Rat} {c : Constraint Rat}
  {row : Row LinearForm Rat}

/-- The variables of an inequality. -/
theorem markInequality_ends (h : s.tableau.Proper) (hrelation : c.relation ≠ .equal)
    (hbasic : row.basic = none) (hterms : ∀ w, row.coefficient w ≠ 0 → s.tableau.Free w)
    (hvalue : ∀ a, s.tableau.Holds a → row.eval a = c.expression.eval a)
    (number : ConstraintNumber) :
    Ends (markInequality number c row) s (Returns fun result next => s.SameBooks next ∧
      Marked s.tableau next.tableau c result.1 result.2) := by
  have hslack := (Extends.nil h).create ⟨s!"s{number}", .slack, 0, none, none⟩ rfl
  have hmarkerRole : Tag.markerRole c = (.slack, none) := by
    unfold Tag.markerRole
    cases hcase : c.relation <;> simp_all
  have hsign : ∀ marker partner, (⟨c, marker, partner⟩ : Tag Rat).markerSign =
      slackSign c.relation := by
    intro marker partner
    unfold Tag.markerSign slackSign
    cases hcase : c.relation <;> simp_all
  rw [List.nil_append, ← hmarkerRole] at hslack
  unfold markInequality
  simp only [ends_bind]
  rw [ends_create h.registry]
  cases hstrength : c.strength with
  | none =>
      exact ⟨⟨rfl, rfl⟩, marked_required hslack hstrength rfl hbasic hterms hvalue (hsign _ _)⟩
  | some strength =>
      have herror := hslack.create
        ⟨s!"e{number}", .error, 0, none, some (.unit strength)⟩ rfl
      have hpenalty := herror.penalise (List.mem_append_right _ List.mem_cons_self) (by simp)
        (.unit strength)
      simp only [ends_bind]
      rw [ends_createError hslack.proper.registry]
      refine ⟨⟨rfl, rfl⟩, marked_soft hpenalty hstrength (fun level a => ?_) hbasic hterms hvalue
        (hsign _ _)⟩
      change (s.tableau.goal.insert _ (.unit strength) 1).level level a = _
      rw [Goal.level_insert, StrengthVector.get_unit]
      unfold Tag.penalty Tag.shortfall
      by_cases hlevel : level = strength
      · subst hlevel
        cases hcase : c.relation with
        | equal => exact absurd hcase hrelation
        | lessOrEqual => simp [hstrength, Tag.partnerValue]
        | greaterOrEqual => simp [hstrength, Tag.partnerValue]
      · have hother : ¬c.strength = some level := by
          rw [hstrength, Option.some.injEq]
          exact Ne.symm hlevel
        simp [hlevel, hother]

/-- The variables of an equation. -/
theorem markEquation_ends (h : s.tableau.Proper) (hrelation : c.relation = .equal)
    (hbasic : row.basic = none) (hterms : ∀ w, row.coefficient w ≠ 0 → s.tableau.Free w)
    (hvalue : ∀ a, s.tableau.Holds a → row.eval a = c.expression.eval a)
    (number : ConstraintNumber) :
    Ends (markEquation number c row) s (Returns fun result next => s.SameBooks next ∧
      Marked s.tableau next.tableau c result.1 result.2) := by
  unfold markEquation
  cases hstrength : c.strength with
  | none =>
      have hmarkerRole : Tag.markerRole c = (.constant, none) := by
        simp [Tag.markerRole, hrelation, hstrength]
      have hpin := (Extends.nil h).create ⟨s!"d{number}", .constant, 0, none, none⟩ rfl
      rw [List.nil_append, ← hmarkerRole] at hpin
      simp only [ends_bind]
      rw [ends_create h.registry]
      exact ⟨⟨rfl, rfl⟩, marked_required hpin hstrength rfl hbasic hterms hvalue
        (by simp [Tag.markerSign, hrelation])⟩
  | some strength =>
      have hmarkerRole : Tag.markerRole c = (.error, some (.unit strength)) := by
        simp [Tag.markerRole, hrelation, hstrength]
      have hplus := (Extends.nil h).create
        ⟨s!"e{number}+", .error, 0, none, some (.unit strength)⟩ rfl
      rw [List.nil_append, ← hmarkerRole] at hplus
      have hminus := hplus.create
        ⟨s!"e{number}-", .error, 0, none, some (.unit strength)⟩ rfl
      have hboth := (hminus.penalise (List.mem_append_left _ List.mem_cons_self)
        (by rw [hmarkerRole]; simp) (.unit strength)).penalise
          (List.mem_append_right _ List.mem_cons_self) (by simp) (.unit strength)
      simp only [ends_bind]
      rw [ends_createError h.registry]
      dsimp only
      rw [ends_createError hplus.proper.registry]
      refine ⟨⟨rfl, rfl⟩, ?_⟩
      have hmarked := marked_soft (c := c) (x := -1) hboth hstrength
        (fun level a => ?_) hbasic hterms hvalue (by simp [Tag.markerSign, hrelation])
      · rw [neg_neg] at hmarked
        exact hmarked
      · change ((s.tableau.goal.insert _ (.unit strength) 1).insert _ (.unit strength) 1).level
          level a = _
        rw [Goal.level_insert, Goal.level_insert, StrengthVector.get_unit]
        unfold Tag.penalty Tag.shortfall
        by_cases hlevel : level = strength
        · subst hlevel
          simp [hstrength, hrelation, Tag.partnerValue]
          ring
        · have hother : ¬c.strength = some level := by
            rw [hstrength, Option.some.injEq]
            exact Ne.symm hlevel
          simp [hlevel, hother]

/-- A constraint over live variables is lowered. -/
theorem lower_ends (h : s.tableau.Proper)
    (hlive : ∀ term ∈ c.expression.terms, (s.tableau.kindOf term.2.id).isSome)
    (number : ConstraintNumber) :
    Ends (lower number c (c.expression.terms.map fun term => (term.1, term.2.id))) s
      (Returns fun result next => s.SameBooks next ∧
        Lowered s.tableau next.tableau c result.1 result.2) := by
  obtain ⟨row, hrow, hbasic, heval, hterms⟩ := exists_rowOf h s.settings c.expression.constant
    (c.expression.terms.map fun term => (term.1, term.2.id)) (by
      intro term hterm
      obtain ⟨old, hold, rfl⟩ := List.mem_map.mp hterm
      exact hlive old hold)
  have hvalue : ∀ a, s.tableau.Holds a → row.eval a = c.expression.eval a := by
    intro a ha
    rw [heval a ha, Expression.eval_eq, List.map_map]
    rfl
  have hchosen : ∀ (result : Row LinearForm Rat × Tag Rat) (next : Solver LinearForm Rat),
      s.SameBooks next ∧ Marked s.tableau next.tableau c result.1 result.2 → s.SameBooks next ∧
        Lowered s.tableau next.tableau c
          (if result.1.constant < 0 then result.1.negate else result.1) result.2 :=
    fun _ _ hmarked => ⟨hmarked.1, hmarked.2.lowered h⟩
  unfold lower
  simp only [ends_bind, ends_get]
  rw [hrow]
  simp only [ends_lift]
  cases hrelation : c.relation with
  | equal =>
      exact (markEquation_ends h hrelation hbasic hterms hvalue number).bind hchosen
  | lessOrEqual | greaterOrEqual =>
      exact (markInequality_ends h (by rw [hrelation]; simp) hbasic hterms hvalue number).bind
        hchosen

end SolverM

end LexSimplex
