import LexSimplex.Proofs.Exact.Add

/-!
# Removing a constraint

Removal takes the penalties of the constraint out of the goal, sets its marker free and releases the
variables that nothing mentions any more.  Afterwards the solutions are the points that were
solutions for some value of the marker, and the goal is what the other constraints add to it
(`Withdraws`).  The marker always occurs in some row, since a solution is determined by the variables
that mark no constraint (`remove_ends`).
-/

namespace LexSimplex

open Tableau

namespace Tableau

variable {t next : Tableau LinearForm Rat} {v : VariableId} {vs : List VariableId}

/-- What a variable adds to the goal at one level for each unit of its value. -/
def rateOf (t : Tableau LinearForm Rat) (level : Strength) (v : VariableId) : Rat :=
  match t.roleOf v with
  | some (_, some vector) => vector.get level
  | _ => 0

/-- Some variables were released, apart from those that something mentions. -/
structure Sheds (t next : Tableau LinearForm Rat) (vs : List VariableId) : Prop where
  holds : ∀ a, next.Holds a ↔ t.Holds a
  listed : ∀ w ∈ vs, next.roleOf w = t.roleOf w ∧ ¬t.Idle w ∨ next.roleOf w = none
  others : ∀ w, w ∉ vs → next.roleOf w = t.roleOf w
  session : next.registry.session = t.registry.session
  generation : ∀ w, w ∉ vs ∨ (next.roleOf w).isSome →
    next.registry.generation? w = t.registry.generation? w
  goal : next.goal = t.goal
  artificial : next.artificial = t.artificial

namespace Sheds

theorem nil (t : Tableau LinearForm Rat) : Sheds t t [] :=
  ⟨fun _ => Iff.rfl, by simp, fun _ _ => rfl, rfl, fun _ _ => rfl, rfl, rfl⟩

theorem idle_iff (h : Sheds t next vs) : next.Idle v ↔ t.Idle v := by
  unfold Idle
  simp only [h.holds, h.goal]

/-- One more variable, which something mentions. -/
theorem keep (h : Sheds t next vs) (hv : v ∉ vs) (hused : ¬t.Idle v) : Sheds t next (v :: vs) := by
  refine { h with listed := fun w hw => ?_, others := fun w hw => ?_, generation := fun w hw => ?_ }
  · rcases List.mem_cons.mp hw with rfl | hmem
    · exact Or.inl ⟨h.others w hv, hused⟩
    · exact h.listed w hmem
  · exact h.others w fun hmem => hw (List.mem_cons_of_mem _ hmem)
  · exact h.generation w (hw.imp_left fun hout hmem => hout (List.mem_cons_of_mem _ hmem))

/-- One more variable, which was released first. -/
theorem release (h : Sheds { t with registry := t.registry.releaseId v } next vs) (hv : v ∉ vs) :
    Sheds t next (v :: vs) := by
  have hrole : ∀ w,
      ({ t with registry := t.registry.releaseId v } : Tableau LinearForm Rat).roleOf w =
        if w = v then none else t.roleOf w := by
    intro w
    unfold roleOf
    rw [Registry.get?_releaseId]
    split <;> rfl
  have hgone : next.roleOf v = none := by rw [h.others v hv, hrole, if_pos rfl]
  refine ⟨h.holds, fun w hw => ?_, fun w hw => ?_,
    h.session.trans (Registry.session_releaseId _ _), fun w hw => ?_, h.goal, h.artificial⟩
  · by_cases hwv : w = v
    · exact Or.inr (hwv ▸ hgone)
    · have hlisted := h.listed w ((List.mem_cons.mp hw).resolve_left hwv)
      rwa [hrole, if_neg hwv] at hlisted
  · rw [List.mem_cons, not_or] at hw
    rw [h.others w hw.2, hrole, if_neg hw.1]
  · have hwv : w ≠ v := by
      rintro rfl
      rcases hw with hout | hstays
      · exact hout List.mem_cons_self
      · rw [hgone] at hstays
        simp at hstays
    refine (h.generation w (hw.imp_left fun hout hmem => ?_)).trans
      (Registry.generation?_releaseId _ hwv)
    exact hout (List.mem_cons_of_mem _ hmem)

end Sheds

end Tableau

/-- The penalty of a constraint is what its variables add to the goal. -/
theorem Tag.Formed.penalty_eq {t : Tableau LinearForm Rat} {tag : Tag Rat} (h : tag.Formed t)
    (level : Strength) (a : Assignment Rat) :
    tag.penalty level a = (tag.own.map fun v => t.rateOf level v * a v).sum := by
  have hmarker : t.rateOf level tag.marker =
      if tag.constraint.relation = .equal ∧ tag.constraint.strength = some level then 1 else 0 := by
    unfold rateOf
    rw [h.marker]
    unfold markerRole
    cases tag.constraint.relation <;> cases hstrength : tag.constraint.strength <;>
      simp [StrengthVector.get_unit, eq_comm]
  unfold own penalty
  rw [List.map_cons, List.sum_cons, hmarker]
  cases hstrength : tag.constraint.strength with
  | none =>
      rw [h.required hstrength]
      simp
  | some strength =>
      obtain ⟨partner, hpartner, hrole⟩ := h.soft strength hstrength
      have hrate : t.rateOf level partner = if level = strength then 1 else 0 := by
        unfold rateOf
        rw [hrole]
        exact StrengthVector.get_unit strength level
      rw [hpartner]
      unfold shortfall partnerValue
      rw [hpartner]
      by_cases hlevel : level = strength
      · subst hlevel
        cases tag.constraint.relation <;> simp [hrate]
      · have hother : strength ≠ level := Ne.symm hlevel
        simp [hrate, hlevel, hother]

namespace Solver

variable {s next : Solver LinearForm Rat} {tag : Tag Rat} {number : ConstraintNumber}

/-- A constraint was withdrawn with its variables. -/
structure Withdraws (s next : Solver LinearForm Rat) (number : ConstraintNumber) (tag : Tag Rat) :
    Prop where
  holds : ∀ a, next.tableau.Holds a ↔ ∃ x, s.tableau.Holds (Function.update a tag.marker x)
  own : ∀ v ∈ tag.own, next.tableau.roleOf v = s.tableau.roleOf v ∧ ¬next.tableau.Idle v ∨
    next.tableau.roleOf v = none
  others : ∀ v, v ∉ tag.own → next.tableau.roleOf v = s.tableau.roleOf v
  session : next.tableau.registry.session = s.tableau.registry.session
  generation : ∀ v, v ∉ tag.own ∨ (next.tableau.roleOf v).isSome →
    next.tableau.registry.generation? v = s.tableau.registry.generation? v
  goal : ∀ level a x, s.tableau.Holds (Function.update a tag.marker x) →
    next.tableau.goal.level level a =
      s.tableau.goal.level level (Function.update a tag.marker x) -
        tag.penalty level (Function.update a tag.marker x)
  constraints : next.constraints = s.constraints.erase number
  numbers : next.nextConstraint = s.nextConstraint

namespace Withdraws

theorem find? (h : Withdraws s next number tag) (other : ConstraintNumber) :
    next.constraints.find? other =
      if number = other then none else s.constraints.find? other := by
  rw [h.constraints, SortedMap.find?_erase]
  simp only [SortedMap.rank_eq_iff]

/-- The constraints that stay were present under another number. -/
theorem present_iff (h : Withdraws s next number tag) {other : Tag Rat} :
    next.Present other ↔ ∃ found, found ≠ number ∧ s.constraints.find? found = some other := by
  unfold Present
  refine exists_congr fun found => ?_
  rw [h.find?]
  by_cases hfound : number = found
  · simp [hfound]
  · simp [hfound, Ne.symm hfound]

/-- The constraints that stay share no variable with the one withdrawn. -/
theorem not_mem_own (h : Withdraws s next number tag) (hs : s.Sound)
    (htag : s.constraints.find? number = some tag) {other : Tag Rat} (hother : next.Present other)
    {v : VariableId} (hv : v ∈ other.own) : v ∉ tag.own := by
  obtain ⟨found, hne, hfound⟩ := h.present_iff.mp hother
  intro hmem
  exact hne (hs.disjoint hfound htag v hv hmem)

theorem penalties (h : Withdraws s next number tag)
    (htag : s.constraints.find? number = some tag) (level : Strength) (a : Assignment Rat) :
    next.penalties level a = s.penalties level a - tag.penalty level a := by
  unfold Solver.penalties
  rw [h.constraints, SortedMap.weigh_erase, htag]
  simp [SortedMap.weightOf]

theorem agrees {last : Solver LinearForm Rat} (h : Withdraws s next number tag)
    (hbooks : next.SameBooks last) (hagrees : Agrees next.tableau last.tableau) :
    Withdraws s last number tag where
  holds := fun a => (hagrees.holds a).trans (h.holds a)
  own := fun v hv => by rw [hagrees.role, hagrees.idle_iff]; exact h.own v hv
  others := fun v hv => (hagrees.role v).trans (h.others v hv)
  session := hagrees.session.trans h.session
  generation := fun v hv => (hagrees.generation v).trans (h.generation v (hagrees.role v ▸ hv))
  goal := fun level a x hx => by
    rw [hagrees.goal level a ((h.holds a).mpr ⟨x, hx⟩), h.goal level a x hx]
  constraints := hbooks.1.trans h.constraints
  numbers := hbooks.2.trans h.numbers

/-- A solver that withdrew a constraint is sound. -/
theorem sound (h : Withdraws s next number tag) (hs : s.Sound)
    (htag : s.constraints.find? number = some tag) (hproper : next.tableau.Proper)
    (hnone : next.tableau.artificial = none) : next.Sound := by
  have hmarkerFree : ∀ other, next.Present other → ∀ v ∈ other.own, v ≠ tag.marker := by
    rintro other hother v hv rfl
    exact h.not_mem_own hs htag hother hv List.mem_cons_self
  refine {
    proper := hproper
    artificial := hnone
    known := ?_
    formed := ?_
    disjoint := ?_
    numbered := ?_
    goal := ?_
    determined := ?_ }
  · intro v
    rw [kindOf_eq_roleOf]
    by_cases hv : v ∈ tag.own
    · rcases h.own v hv with ⟨hsame, -⟩ | hdead
      · rw [hsame, ← kindOf_eq_roleOf]
        exact hs.known v
      · rw [hdead]
        simp
    · rw [h.others v hv, ← kindOf_eq_roleOf]
      exact hs.known v
  · intro other hother
    obtain ⟨found, -, hfound⟩ := h.present_iff.mp hother
    exact (hs.formed other ⟨found, hfound⟩).of_role fun v hv =>
      h.others v (h.not_mem_own hs htag hother hv)
  · intro first second tag' tag'' hfirst hsecond
    rw [h.find?] at hfirst hsecond
    split at hfirst
    · simp at hfirst
    split at hsecond
    · simp at hsecond
    exact hs.disjoint hfirst hsecond
  · intro found other hfound
    rw [h.find?] at hfound
    split at hfound
    · simp at hfound
    rw [h.numbers]
    exact hs.numbered hfound
  · intro level a ha
    obtain ⟨x, hx⟩ := (h.holds a).mp ha
    rw [h.goal level a x hx, hs.goal level _ hx, ← h.penalties htag]
    refine penalties_congr (fun other hother v hv => ?_) level
    exact Function.update_of_ne (hmarkerFree other hother v hv) _ _
  · -- Two solutions extend to solutions of the old rows, which are equal up to the marker.
    intro a b ha hb hsame
    obtain ⟨x, hx⟩ := (h.holds a).mp ha
    obtain ⟨y, hy⟩ := (h.holds b).mp hb
    have hfree : ∀ v, (∀ other, s.Present other → other.marker ≠ v) → a v = b v := by
      intro v hv
      refine hsame v fun other hother => ?_
      obtain ⟨found, -, hfound⟩ := h.present_iff.mp hother
      exact hv other ⟨found, hfound⟩
    have hupdated := hs.determined _ _ hx hy fun v hv => by
      rw [Function.update_of_ne (hv tag ⟨number, htag⟩).symm,
        Function.update_of_ne (hv tag ⟨number, htag⟩).symm, hfree v hv]
    funext v
    by_cases hv : v = tag.marker
    · subst hv
      exact hsame _ fun other hother => hmarkerFree other hother _ List.mem_cons_self
    · have hvalue := congrFun hupdated v
      rwa [Function.update_of_ne hv, Function.update_of_ne hv] at hvalue

end Withdraws

end Solver

namespace SolverM

variable {s : Solver LinearForm Rat} {v : VariableId} {kind : VariableKind} {tag : Tag Rat}

/-- The penalty of a restricted variable is taken out of the goal. -/
theorem removePenalty_ends (h : s.tableau.Proper) (hkind : s.tableau.kindOf v = some kind)
    (hrestricted : kind ≠ .unrestricted) :
    Ends (removePenalty v) s (Returns fun _ next => s.SameBooks next ∧
      ∃ g, next.tableau = { s.tableau with goal := g } ∧ s.tableau.Admits g ∧
        ∀ level a, s.tableau.Holds a →
          g.level level a = s.tableau.goal.level level a - s.tableau.rateOf level v * a v) := by
  obtain ⟨record, hrecord, hrecordKind⟩ := Option.map_eq_some_iff.mp hkind
  have hrole : s.tableau.roleOf v = some (record.kind, record.strength) := by
    unfold roleOf
    rw [hrecord]
    rfl
  unfold removePenalty
  simp only [ends_bind, ends_tableau]
  rw [Registry.record_eq_ok hrecord]
  simp only [ends_lift_access]
  unfold rateOf
  rw [hrole]
  cases hstrength : record.strength with
  | none =>
      refine ⟨⟨rfl, rfl⟩, s.tableau.goal, rfl, h.goal, fun level a _ => ?_⟩
      simp
  | some vector =>
      simp only
      cases hdefinition : record.definition with
      | none =>
          refine ⟨⟨rfl, rfl⟩, _, rfl, h.goal.insert ⟨record, hrecord, hdefinition⟩ ?_ vector (-1),
            fun level a _ => ?_⟩
          · rw [hkind, ne_eq, Option.some.injEq]
            exact hrestricted
          · rw [Goal.level_insert]
            ring
      | some id =>
          have hdefined : s.tableau.definitionOf v = some id :=
            (definitionOf_eq hrecord).trans hdefinition
          obtain ⟨row, hrow, hbasic⟩ := h.row_of_definition hdefined
          simp only [ends_bind]
          rw [row_eq_ok hrow]
          refine ⟨⟨rfl, rfl⟩, _, rfl, h.goal.insertRow (fun w hw => h.terms_free hrow hw)
            ((h.fits_of_basic hrow hbasic hkind).terms_restricted hrestricted) vector (-1),
            fun level a ha => ?_⟩
          have hvalue := (Row.holds_of_basic hbasic).mp (holds_iff.mp ha id row hrow)
          rw [Goal.level_insertRow, hvalue]
          ring

/-- The penalties of several variables are taken out of the goal one after the other. -/
theorem removePenalties_ends (vs : List VariableId) (h : s.tableau.Proper)
    (hvs : ∀ v ∈ vs, ∃ kind, s.tableau.kindOf v = some kind ∧ kind ≠ .unrestricted) :
    Ends (vs.forM removePenalty) s (Returns fun _ next => s.SameBooks next ∧
      ∃ g, next.tableau = { s.tableau with goal := g } ∧ s.tableau.Admits g ∧
        ∀ level a, s.tableau.Holds a → g.level level a = s.tableau.goal.level level a -
          (vs.map fun v => s.tableau.rateOf level v * a v).sum) := by
  induction vs generalizing s with
  | nil =>
      refine ⟨⟨rfl, rfl⟩, s.tableau.goal, rfl, h.goal, fun level a _ => ?_⟩
      simp
  | cons v vs ih =>
      obtain ⟨kind, hkind, hrestricted⟩ := hvs v List.mem_cons_self
      rw [ends_forM_cons]
      refine (removePenalty_ends h hkind hrestricted).bind ?_
      rintro _ middle ⟨hbooks, g, htableau, hg, hlevel⟩
      have hmiddle : middle.tableau.Proper := by
        rw [htableau]
        exact h.setGoal hg
      refine (ih hmiddle fun w hw => ?_).of_returns ?_
      · rw [htableau]
        exact hvs w (List.mem_cons_of_mem _ hw)
      rintro _ next ⟨hbooks', g', htableau', hg', hlevel'⟩
      rw [htableau] at htableau' hg' hlevel'
      refine ⟨hbooks.trans hbooks', g', htableau', hg'.of_registry rfl, fun level a ha => ?_⟩
      rw [hlevel' level a ha]
      change g.level level a - (vs.map fun v => s.tableau.rateOf level v * a v).sum = _
      rw [hlevel level a ha, List.map_cons, List.sum_cons]
      ring

/-- A marker that occurs in some row is set free. -/
theorem dropMarker_ends (h : s.tableau.Proper) (hnone : s.tableau.artificial = none)
    (hkind : s.tableau.kindOf v = some kind)
    (hbound : ∃ a, s.tableau.Holds a ∧ ¬s.tableau.Holds (Function.update a v (a v + 1)))
    (hgoal : ∀ level a b, s.tableau.Holds a → s.tableau.Holds b →
      (∀ w kind, s.tableau.kindOf w = some kind → kind ≠ .unrestricted → w ≠ v → a w = b w) →
        s.tableau.goal.level level a = s.tableau.goal.level level b)
    (handle : ConstraintHandle) :
    Ends (dropMarker handle v) s (Returns fun _ next => s.SameBooks next ∧ next.tableau.Proper ∧
      next.tableau.artificial = none ∧ Projects s.tableau next.tableau v) := by
  obtain ⟨record, hrecord, -⟩ := Option.map_eq_some_iff.mp hkind
  unfold dropMarker
  simp only [ends_bind, ends_tableau]
  rw [Registry.record_eq_ok hrecord]
  simp only [ends_lift_access]
  cases hdefinition : record.definition with
  | some id =>
      -- A basic marker goes with its row.
      have hdefined : s.tableau.definitionOf v = some id :=
        (definitionOf_eq hrecord).trans hdefinition
      obtain ⟨row, hrow, hbasic⟩ := h.row_of_definition hdefined
      obtain ⟨next, hdrop, hdropped⟩ := exists_drop h hrow hbasic
      simp only [ends_bind]
      rw [ends_dropRow hdrop]
      exact ⟨⟨rfl, rfl⟩, hdropped.proper, hdropped.artificial.trans hnone, hdropped.projects⟩
  | none =>
      obtain ⟨choice, hchoice, hmissing, hchosen⟩ := exists_markerLeavingRow h v
      simp only [ends_bind]
      rw [hchoice]
      simp only [ends_lift_access]
      cases hcase : choice with
      | none =>
          -- A marker in no row could be changed freely.
          exfalso
          obtain ⟨a, ha, hmoved⟩ := hbound
          exact hmoved ((h.holds_update ((definitionOf_eq hrecord).trans hdefinition)
            (hmissing hcase) _).mpr ha)
      | some id =>
          -- Otherwise the preferred row is solved for it and goes.
          obtain ⟨row, hrow, hcoefficient, hpreferred⟩ := hchosen id hcase
          obtain ⟨leaving, dropped, next, hbasic, hdrop, hsubstitute, hnext, hprojects, hnextNone⟩ :=
            exists_withdrawMarker h hrow hcoefficient hpreferred
              (fun hunrestricted => absent_of_preferred h hpreferred hunrestricted h.goal hgoal) hnone
          simp only [ends_bind]
          rw [ends_dropRow hdrop]
          simp only
          rw [hbasic]
          simp only [ends_bind]
          rw [Row.pivot_eq_ok hbasic hcoefficient]
          simp only [ends_lift_answer]
          rw [ends_update (t := next) (by rw [hsubstitute]; rfl)]
          exact ⟨⟨rfl, rfl⟩, hnext, hnextNone, hprojects⟩

/-- Variables are released unless something mentions them. -/
theorem releaseAll_ends (vs : List VariableId) (hnodup : vs.Nodup) (h : s.tableau.Proper)
    (hnone : s.tableau.artificial = none) (hlive : ∀ v ∈ vs, (s.tableau.kindOf v).isSome) :
    Ends (vs.forM releaseUnreferenced) s (Returns fun _ next => s.SameBooks next ∧
      next.tableau.Proper ∧ Sheds s.tableau next.tableau vs) := by
  induction vs generalizing s with
  | nil => exact ⟨⟨rfl, rfl⟩, h, Sheds.nil s.tableau⟩
  | cons v vs ih =>
      obtain ⟨hv, hvs⟩ := List.nodup_cons.mp hnodup
      obtain ⟨kind, hkind⟩ := Option.isSome_iff_exists.mp (hlive v List.mem_cons_self)
      obtain ⟨record, hrecord, -⟩ := Option.map_eq_some_iff.mp hkind
      obtain ⟨answer, hanswer, hunused⟩ := isReferenced_eq_ok hrecord hnone
      rw [ends_forM_cons]
      unfold releaseUnreferenced
      simp only [ends_bind, ends_tableau]
      rw [hanswer]
      simp only [ends_lift_access]
      cases answer with
      | true =>
          -- Something mentions the variable, and it stays.
          have hused : ¬s.tableau.Idle v := fun hidle =>
            Bool.noConfusion (hunused.mpr ((h.unused_iff_idle hnone).mpr hidle))
          refine (ih hvs h hnone fun w hw => hlive w (List.mem_cons_of_mem _ hw)).of_returns ?_
          rintro _ next ⟨hbooks, hproper, hsheds⟩
          exact ⟨hbooks, hproper, hsheds.keep hv hused⟩
      | false =>
          let middle : Solver LinearForm Rat := { s with
            tableau := { s.tableau with registry := s.tableau.registry.releaseId v } }
          have hmiddle : middle.tableau.Proper := h.released (hunused.mp rfl)
          refine (ends_releaseId (checkReleased_of_isReferenced hanswer)).mpr ?_
          refine (ih (s := middle) hvs hmiddle hnone fun w hw => ?_).of_returns ?_
          · have hne : w ≠ v := by
              rintro rfl
              exact hv hw
            have hget : middle.tableau.registry.get? w = s.tableau.registry.get? w :=
              (Registry.get?_releaseId _ v w).trans (if_neg hne)
            unfold kindOf
            rw [hget]
            exact hlive w (List.mem_cons_of_mem _ hw)
          rintro _ next ⟨hbooks, hproper, hsheds⟩
          exact ⟨hbooks, hproper, hsheds.release hv⟩

/-- How removing a constraint ends. -/
def Removed (limit : Nat) (s : Solver LinearForm Rat) (handle : ConstraintHandle) :
    Except Failure Unit → Solver LinearForm Rat → Prop
  | .ok _, next => ∃ tag, s.tag handle = .ok tag ∧
      s.Withdraws next handle.number tag ∧ next.Sound ∧ next.Settled
  | .error (.error (.unknownConstraint number)), next => next = s ∧
      s.tag handle = .error (.unknownConstraint number)
  | .error .outOfSteps, next => next.Exhausted limit
  | .error _, _ => False

section Withdrawing

variable {number : ConstraintNumber}

/-- The marker of a constraint cannot be moved alone. -/
theorem marker_bound (hs : s.Sound) (htag : s.constraints.find? number = some tag) :
    ¬s.tableau.Holds
      (Function.update s.tableau.value tag.marker (s.tableau.value tag.marker + 1)) := by
  intro hmoved
  have hsame := hs.determined _ _ hs.proper.holds_value hmoved fun v hv => by
    rw [Function.update_of_ne (hv tag ⟨number, htag⟩).symm]
  have hvalue := congrFun hsame tag.marker
  rw [Function.update_self] at hvalue
  linarith

/-- What the other constraints add to the goal depends on restricted variables other than the
marker. -/
theorem penalty_rest_congr (hs : s.Sound) (htag : s.constraints.find? number = some tag)
    {level : Strength} {a b : Assignment Rat} (ha : s.tableau.Holds a) (hb : s.tableau.Holds b)
    (hsame : ∀ v kind, s.tableau.kindOf v = some kind → kind ≠ .unrestricted → v ≠ tag.marker →
      a v = b v) :
    s.tableau.goal.level level a - tag.penalty level a =
      s.tableau.goal.level level b - tag.penalty level b := by
  let rest : Solver LinearForm Rat := { s with constraints := s.constraints.erase number }
  have hrest : ∀ a, rest.penalties level a = s.penalties level a - tag.penalty level a := by
    intro a
    unfold Solver.penalties
    rw [SortedMap.weigh_erase, htag]
    simp [SortedMap.weightOf]
  rw [hs.goal level a ha, hs.goal level b hb, ← hrest, ← hrest]
  refine Solver.penalties_congr (fun other hother v hv => ?_) level
  obtain ⟨found, hfound⟩ := hother
  have hcases : (s.constraints.erase number).find? found = some other := hfound
  rw [SortedMap.find?_erase] at hcases
  split at hcases
  · simp at hcases
  next hne =>
    rw [SortedMap.rank_eq_iff] at hne
    obtain ⟨kind, hkind, hrestricted, -⟩ := (hs.formed other ⟨found, hcases⟩).kindOf hv
    refine hsame v kind hkind hrestricted ?_
    rintro rfl
    exact hne (hs.disjoint htag hcases _ List.mem_cons_self hv)

/-- The parts of a removal together: the penalties left the goal, the marker was set free and the
variables of the constraint may have been released. -/
theorem withdraws_of_projects {last : Solver LinearForm Rat} {g : Goal Rat}
    {dropped : Tableau LinearForm Rat}
    (hpenalty : ∀ level a, s.tableau.Holds a →
      g.level level a = s.tableau.goal.level level a - tag.penalty level a)
    (hprojects : Projects { s.tableau with goal := g } dropped tag.marker)
    (hsheds : Sheds dropped last.tableau tag.own)
    (hconstraints : last.constraints = s.constraints.erase number)
    (hnumbers : last.nextConstraint = s.nextConstraint) : s.Withdraws last number tag := by
  have hrole : ∀ v, dropped.roleOf v = s.tableau.roleOf v := hprojects.role
  refine {
    holds := fun a => (hsheds.holds a).trans (hprojects.holds a)
    own := fun v hv => ?_
    others := fun v hv => (hsheds.others v hv).trans (hrole v)
    session := hsheds.session.trans hprojects.session
    generation := fun v hv => (hsheds.generation v hv).trans (hprojects.generation v)
    goal := fun level a x hx => ?_
    constraints := hconstraints
    numbers := hnumbers }
  · rw [hsheds.idle_iff, ← hrole]
    exact hsheds.listed v hv
  · rw [hsheds.goal, ← hpenalty level _ hx]
    exact hprojects.goal level a x hx

end Withdrawing

/-- Taking a constraint out of a sound solver. -/
theorem withdraw_ends (hs : s.Sound) (handle : ConstraintHandle) :
    Ends (withdraw handle) s fun result next =>
      match result with
      | .ok _ => ∃ tag, s.tag handle = .ok tag ∧
          s.Withdraws next handle.number tag ∧ next.Sound
      | .error failure => s.tag handle = .error (.unknownConstraint handle.number) ∧
          failure = .error (.unknownConstraint handle.number) ∧ next = s := by
  unfold withdraw
  simp only [ends_bind, ends_get]
  rcases tag_cases s handle with ⟨tag, hfound, -, htag⟩ | hunknown
  · have hformed := hs.formed tag ⟨_, htag⟩
    rw [hfound]
    simp only [ends_lift_answer, ends_modify, ends_enter]
    -- The penalties leave the goal.
    refine (removePenalties_ends (s := { s with
      constraints := s.constraints.erase handle.number
      state := .building }) tag.own hs.proper fun v hv => ?_).of_returns ?_
    · obtain ⟨kind, hkind, hrestricted, -⟩ := hformed.kindOf hv
      exact ⟨kind, hkind, hrestricted⟩
    rintro _ relieved ⟨hbooks, g, htableau, hg, hlevel⟩
    have hpenalty : ∀ level a, s.tableau.Holds a →
        g.level level a = s.tableau.goal.level level a - tag.penalty level a := by
      intro level a ha
      rw [hlevel level a ha, hformed.penalty_eq]
    -- The marker is set free.
    obtain ⟨kind, hkind, -⟩ := hformed.kindOf (v := tag.marker) List.mem_cons_self
    refine (dropMarker_ends (s := relieved) (v := tag.marker)
      (by rw [htableau]; exact hs.proper.setGoal hg) (by rw [htableau]; exact hs.artificial)
      (by rw [htableau]; exact hkind) ?_ ?_ handle).of_returns ?_
    · have hbound := marker_bound hs htag
      rw [htableau]
      exact ⟨s.tableau.value, hs.proper.holds_value, hbound⟩
    · rw [htableau]
      intro level a b ha hb hsame
      change g.level level a = g.level level b
      rw [hpenalty level a ha, hpenalty level b hb]
      exact penalty_rest_congr (s := s) hs htag ha hb hsame
    rintro _ dropped ⟨hbooksDropped, hdropped, hdroppedNone, hprojects⟩
    rw [htableau] at hprojects
    -- The variables that nothing mentions any more are released.
    refine (releaseAll_ends (s := dropped) tag.own hformed.nodup hdropped hdroppedNone
      fun v hv => ?_).of_returns ?_
    · rw [hprojects.kindOf]
      exact hformed.live hv
    rintro _ released ⟨hbooksReleased, hreleased, hsheds⟩
    simp only [ends_count, ends_report]
    let kept : Solver LinearForm Rat := { released with
      counters := { released.counters with removed := released.counters.removed + 1 }
      journal := released.journal ++ [Event.removed handle].toArray }
    have hbooksKept := hbooks.trans (hbooksDropped.trans hbooksReleased)
    have hwithdraws : s.Withdraws kept handle.number tag :=
      withdraws_of_projects hpenalty hprojects hsheds hbooksKept.1 hbooksKept.2
    exact ⟨tag, rfl, hwithdraws,
      hwithdraws.sound hs htag hreleased (hsheds.artificial.trans hdroppedNone)⟩
  · rw [hunknown]
    exact ⟨rfl, rfl, rfl⟩

/-- Removing a constraint from a sound solver. -/
theorem remove_ends (hs : s.Sound) (handle : ConstraintHandle) (limit : Nat) :
    Ends (remove handle limit) s (Removed limit s handle) := by
  rw [remove_eq_withdraw, ends_bind]
  refine (withdraw_ends hs handle).mono ?_
  rintro (failure | _) kept hwithdrawn
  · obtain ⟨hunknown, rfl, rfl⟩ := hwithdrawn
    exact ⟨rfl, hunknown⟩
  · obtain ⟨tag, htag, hwithdraws, hkept⟩ := hwithdrawn
    simp only [ends_bind]
    refine (reoptimize_ends hkept.proper hkept.artificial
      (fun level a ha => hkept.goal_nonneg ha level) limit).of_returnsOr (fun _ hout => hout) ?_
    rintro outcome next ⟨hbooks, hproper, hagrees, hsettled, -⟩
    exact ⟨tag, htag, hwithdraws.agrees hbooks hagrees, hkept.agrees hbooks hproper hagrees,
      hsettled⟩

end SolverM

end LexSimplex
