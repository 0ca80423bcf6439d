import LexSimplex.Proofs.Exact.Declared

/-!
# The optimum of a solver

An admissible assignment of the declared variables extends to a feasible point of the tableau whose
error variables are the violations (`filled`).  At every feasible point the error variables are at
least the violations.  Hence at a settled solver no admissible assignment violates the constraints
less than the current values do (`Accounts.optimal`), and the violations of the current values depend
on the constraints alone (`Accounts.violations_unique`).
-/

namespace LexSimplex

open Tableau

namespace Constraint

variable {c : Constraint Rat} {cs cs' : List (Constraint Rat)} {a b : Assignment Rat}

theorem get_violations (cs : List (Constraint Rat)) (a : Assignment Rat) (level : Strength) :
    (violations cs a).get level =
      (cs.map fun c => if c.strength = some level then c.violation a else 0).sum := by
  unfold violations
  rw [StrengthVector.get_ofFn]
  induction cs with
  | nil => rfl
  | cons c cs ih =>
      rw [List.foldr_cons, ih, List.map_cons, List.sum_cons]
      split
      · rfl
      · rw [zero_add]

theorem violations_perm (h : cs.Perm cs') (a : Assignment Rat) :
    violations cs a = violations cs' a := by
  refine StrengthVector.ext_get fun level => ?_
  rw [get_violations, get_violations]
  exact (h.map _).sum_eq

theorem violation_congr (h : c.expression.eval a = c.expression.eval b) :
    c.violation a = c.violation b := by
  unfold violation
  rw [h]

theorem holds_congr (h : c.expression.eval a = c.expression.eval b) : c.Holds a ↔ c.Holds b := by
  unfold Holds
  rw [h]

theorem violations_congr (h : ∀ c ∈ cs, c.expression.eval a = c.expression.eval b) :
    violations cs a = violations cs b := by
  refine StrengthVector.ext_get fun level => ?_
  rw [get_violations, get_violations]
  refine congrArg List.sum (List.map_congr_left fun c hc => ?_)
  rw [violation_congr (h c hc)]

end Constraint

namespace Solver

variable {s : Solver LinearForm Rat} {declared : List (Variable × DeclaredKind)} {tag : Tag Rat}
  {c : Constraint Rat} {v : VariableId} {a : Assignment Rat}

theorem mem_accepted : c ∈ s.accepted ↔ ∃ tag, s.Present tag ∧ tag.constraint = c := by
  unfold accepted
  rw [List.mem_map]
  constructor
  · rintro ⟨⟨number, tag⟩, hmem, rfl⟩
    exact ⟨tag, ⟨number, SortedMap.find?_eq_some.mpr hmem⟩, rfl⟩
  · rintro ⟨tag, ⟨number, hfound⟩, rfl⟩
    exact ⟨(number, tag), SortedMap.find?_eq_some.mp hfound, rfl⟩

/-- The error variables of all constraints, compared with what they measure. -/
theorem penalties_eq (s : Solver LinearForm Rat) (level : Strength) (a : Assignment Rat) :
    s.penalties level a =
      (s.constraints.toList.map fun entry => entry.2.penalty level a).sum := by
  unfold penalties SortedMap.weigh SortedMap.weighIn
  simp only [mul_one]

/-! ## Filling in all constraints -/

/-- The values of the declared variables, zero elsewhere. -/
def baseline (declared : List (Variable × DeclaredKind)) (a : Assignment Rat) : Assignment Rat :=
  fun v => if v ∈ declared.map fun entry => entry.1.id then a v else 0

/-- The constraint that brought a variable. -/
def owner? (s : Solver LinearForm Rat) (v : VariableId) : Option (Tag Rat) :=
  (s.constraints.toList.map Prod.snd).find? fun tag => decide (v ∈ tag.own)

/-- The values of the declared variables with the variables of all constraints filled in. -/
def filled (s : Solver LinearForm Rat) (declared : List (Variable × DeclaredKind))
    (a : Assignment Rat) : Assignment Rat := fun v =>
  match s.owner? v with
  | some tag => tag.fill (baseline declared a) v
  | none => baseline declared a v

theorem baseline_of_mem {entry : Variable × DeclaredKind} (h : entry ∈ declared) :
    baseline declared a entry.1.id = a entry.1.id :=
  if_pos (List.mem_map.mpr ⟨entry, h, rfl⟩)

theorem present_of_mem (h : tag ∈ s.constraints.toList.map Prod.snd) : s.Present tag := by
  obtain ⟨⟨number, found⟩, hmem, rfl⟩ := List.mem_map.mp h
  exact ⟨number, SortedMap.find?_eq_some.mpr hmem⟩

/-- A variable has one owner at most. -/
theorem owner?_of_mem (hs : s.Sound) (htag : s.Present tag) (hv : v ∈ tag.own) :
    s.owner? v = some tag := by
  obtain ⟨number, hfound⟩ := htag
  cases howner : s.owner? v with
  | none =>
      have hmem : tag ∈ s.constraints.toList.map Prod.snd :=
        List.mem_map.mpr ⟨(number, tag), SortedMap.find?_eq_some.mp hfound, rfl⟩
      exact absurd hv (by simpa using List.find?_eq_none.mp howner tag hmem)
  | some other =>
      obtain ⟨found, hother⟩ := present_of_mem (List.mem_of_find?_eq_some howner)
      have hvOther : v ∈ other.own := by simpa using List.find?_some howner
      obtain rfl := hs.disjoint hfound hother v hv hvOther
      rw [hfound] at hother
      exact hother.symm

theorem owner?_eq_none (h : ∀ tag, s.Present tag → v ∉ tag.own) : s.owner? v = none := by
  refine List.find?_eq_none.mpr fun tag hmem => ?_
  simpa using h tag (present_of_mem hmem)

theorem filled_of_mem (hs : s.Sound) (htag : s.Present tag) (hv : v ∈ tag.own) :
    s.filled declared a v = tag.fill (baseline declared a) v := by
  unfold filled
  rw [owner?_of_mem hs htag hv]

theorem filled_of_apart (h : ∀ tag, s.Present tag → v ∉ tag.own) :
    s.filled declared a v = baseline declared a v := by
  unfold filled
  rw [owner?_eq_none h]

namespace Accounts

/-- Filling in does not change the declared variables. -/
theorem filled_declared (h : s.Accounts declared) {entry : Variable × DeclaredKind}
    (hentry : entry ∈ declared) : s.filled declared a entry.1.id = a entry.1.id := by
  rw [filled_of_apart (h.apart entry hentry), baseline_of_mem hentry]

/-- An expression over declared variables has the value it had before filling in. -/
theorem eval_filled (h : s.Accounts declared) {e : Expression Rat}
    (hdeclared : ∀ v, e.netCoefficient v ≠ 0 → ∃ entry ∈ declared, entry.1.id = v) :
    e.eval (s.filled declared a) = e.eval a := by
  refine Expression.eval_congr fun v hv => ?_
  obtain ⟨entry, hentry, rfl⟩ := hdeclared v hv
  exact h.filled_declared hentry

theorem eval_baseline {e : Expression Rat}
    (hdeclared : ∀ v, e.netCoefficient v ≠ 0 → ∃ entry ∈ declared, entry.1.id = v) :
    e.eval (baseline declared a) = e.eval a := by
  refine Expression.eval_congr fun v hv => ?_
  obtain ⟨entry, hentry, rfl⟩ := hdeclared v hv
  exact baseline_of_mem hentry

/-- An admissible assignment extends to a feasible point. -/
theorem feasible_filled (h : s.Accounts declared) (hs : s.Sound)
    (ha : Admissible s.accepted declared a) : s.tableau.Feasible (s.filled declared a) := by
  have hbaseline : ∀ tag, s.Present tag →
      tag.constraint.expression.eval (baseline declared a) = tag.constraint.expression.eval a :=
    fun tag htag => eval_baseline (h.depends tag htag)
  constructor
  · refine (h.holds _).mpr fun tag htag => ?_
    refine Tag.holds_of_fill (hs.formed tag htag).partner_ne
      (fun v hv => filled_of_mem hs htag hv) ?_
    rw [h.eval_filled (h.depends tag htag), hbaseline tag htag]
  · intro v kind hkind
    by_cases howned : ∃ tag, s.Present tag ∧ v ∈ tag.own
    · obtain ⟨tag, htag, hv⟩ := howned
      rw [filled_of_mem hs htag hv]
      refine (hs.formed tag htag).allows_fill (fun hstrength => ?_) hv hkind
      rw [Constraint.holds_congr (hbaseline tag htag)]
      exact ha.required tag.constraint (mem_accepted.mpr ⟨tag, htag, rfl⟩) hstrength
    · rw [filled_of_apart fun tag htag hv => howned ⟨tag, htag, hv⟩]
      unfold baseline
      split
      next hmem =>
        obtain ⟨entry, hentry, rfl⟩ := List.mem_map.mp hmem
        rw [h.kind entry hentry, Option.some.injEq] at hkind
        rw [← hkind]
        exact ha.allowed entry hentry
      next => exact VariableKind.allows_zero kind

/-- At the point that extends an assignment the error variables are its violations. -/
theorem penalties_filled (h : s.Accounts declared) (hs : s.Sound) (level : Strength) :
    s.penalties level (s.filled declared a) = (Constraint.violations s.accepted a).get level := by
  rw [penalties_eq, Constraint.get_violations]
  unfold accepted
  rw [List.map_map]
  refine congrArg List.sum (List.map_congr_left fun entry hentry => ?_)
  have htag : s.Present entry.2 := ⟨entry.1, SortedMap.find?_eq_some.mpr hentry⟩
  have hformed := hs.formed entry.2 htag
  simp only [Function.comp_apply]
  unfold Tag.penalty
  split
  next hstrength =>
    have hpartner : entry.2.partner.isSome := by
      rw [hformed.partner_isSome, hstrength]
      rfl
    rw [Tag.shortfall_of_fill hpartner hformed.partner_ne fun v hv => filled_of_mem hs htag hv]
    exact Constraint.violation_congr (eval_baseline (h.depends entry.2 htag))
  next => rfl

/-- At a feasible point the error variables are at least the violations. -/
theorem violations_le_penalties (h : s.Accounts declared) (hs : s.Sound)
    (ha : s.tableau.Feasible a) (level : Strength) :
    (Constraint.violations s.accepted a).get level ≤ s.penalties level a := by
  rw [penalties_eq, Constraint.get_violations]
  unfold accepted
  rw [List.map_map]
  refine List.sum_le_sum fun entry hentry => ?_
  have htag : s.Present entry.2 := ⟨entry.1, SortedMap.find?_eq_some.mpr hentry⟩
  have hformed := hs.formed entry.2 htag
  simp only [Function.comp_apply]
  unfold Tag.penalty
  split
  next hstrength =>
    have hpartner : entry.2.partner.isSome := by
      rw [hformed.partner_isSome, hstrength]
      rfl
    exact Tag.violation_le_shortfall hpartner ((h.holds a).mp ha.holds entry.2 htag)
      fun v hv => hformed.own_nonneg ha hv
  next => exact le_refl 0

/-- A feasible point satisfies the required constraints and the ranges of the declared
variables. -/
theorem admissible (h : s.Accounts declared) (hs : s.Sound) (ha : s.tableau.Feasible a) :
    Admissible s.accepted declared a where
  required := by
    intro c hc hstrength
    obtain ⟨tag, htag, rfl⟩ := mem_accepted.mp hc
    have hformed := hs.formed tag htag
    refine Tag.constraint_holds (hformed.required hstrength) hstrength
      ((h.holds a).mp ha.holds tag htag) ?_
    refine ha.allows tag.marker _ ?_
    rw [kindOf_eq_roleOf, hformed.marker]
    rfl
  allowed := fun entry hentry => ha.allows _ _ (h.kind entry hentry)

/-- At a settled solver no admissible assignment violates the constraints less than the current
values. -/
theorem optimal (h : s.Accounts declared) (hs : s.Sound) (hsettled : s.Settled)
    (ha : Admissible s.accepted declared a) :
    (Constraint.violations s.accepted a).compare
      (Constraint.violations s.accepted s.tableau.value) ≠ .lt := by
  rw [StrengthVector.compare_ne_lt_iff]
  have hfeasible := h.feasible_filled hs ha
  have hvalue := hs.proper.feasible_value
  -- The goal at the extended point is at least its value at the current values, where the error
  -- variables are at least the violations.
  have hgoal := optimal_of_decided hs.proper.goal hsettled hfeasible
  have hexcess : Strength.Nonneg fun level => s.penalties level s.tableau.value -
      (Constraint.violations s.accepted s.tableau.value).get level :=
    Strength.nonneg_of_forall fun level =>
      sub_nonneg.mpr (h.violations_le_penalties hs hvalue level)
  have hsum := hgoal.add hexcess
  refine (congrArg Strength.Nonneg (funext fun level => ?_)).mp hsum
  rw [hs.goal level _ hfeasible.holds, hs.goal level _ hvalue.holds, h.penalties_filled hs]
  ring

/-- If two solvers have the same constraints over variables of the same kinds, the values of the
second do not violate them less than those of the first, once that is settled. -/
theorem not_better {other : Solver LinearForm Rat} {declared' : List (Variable × DeclaredKind)}
    (h : s.Accounts declared) (hs : s.Sound) (hsettled : s.Settled)
    (h' : other.Accounts declared') (hs' : other.Sound) (hsame : s.accepted.Perm other.accepted)
    (hkinds : ∀ entry ∈ declared, ∀ entry' ∈ declared', entry.1.id = entry'.1.id →
      Constraint.DependOn s.accepted entry.1.id → entry.2 = entry'.2) :
    (Constraint.violations other.accepted other.tableau.value).compare
      (Constraint.violations s.accepted s.tableau.value) ≠ .lt := by
  classical
  -- The values of the second solver where they matter, zero elsewhere.
  let b : Assignment Rat := fun v =>
    if Constraint.DependOn s.accepted v then other.tableau.value v else 0
  have heval : ∀ c ∈ s.accepted, c.expression.eval b = c.expression.eval other.tableau.value :=
    fun c hc => Expression.eval_congr fun v hv => if_pos ⟨c, hc, hv⟩
  have hvalue := h'.admissible hs' hs'.proper.feasible_value
  have hadmissible : Admissible s.accepted declared b := by
    constructor
    · intro c hc hstrength
      rw [Constraint.holds_congr (heval c hc)]
      exact hvalue.required c (hsame.mem_iff.mp hc) hstrength
    · intro entry hentry
      by_cases hdepends : Constraint.DependOn s.accepted entry.1.id
      · obtain ⟨c, hc, hne⟩ := hdepends
        obtain ⟨tag, htag, rfl⟩ := mem_accepted.mp (hsame.mem_iff.mp hc)
        obtain ⟨entry', hentry', hid⟩ := h'.depends tag htag _ hne
        have hkind := hkinds entry hentry entry' hentry' hid.symm ⟨_, hc, hne⟩
        have hb : b entry.1.id = other.tableau.value entry'.1.id := by
          rw [hid]
          exact if_pos ⟨_, hc, hne⟩
        rw [hb, hkind]
        exact hvalue.allowed entry' hentry'
      · have hb : b entry.1.id = 0 := if_neg hdepends
        rw [hb]
        exact VariableKind.allows_zero _
  have hoptimal := h.optimal hs hsettled hadmissible
  rwa [Constraint.violations_congr heval, Constraint.violations_perm hsame] at hoptimal

/-- The violations at a settled solver depend on the constraints alone. -/
theorem violations_unique {other : Solver LinearForm Rat}
    {declared' : List (Variable × DeclaredKind)} (h : s.Accounts declared) (hs : s.Sound)
    (hsettled : s.Settled) (h' : other.Accounts declared') (hs' : other.Sound)
    (hsettled' : other.Settled) (hsame : s.accepted.Perm other.accepted)
    (hkinds : ∀ entry ∈ declared, ∀ entry' ∈ declared', entry.1.id = entry'.1.id →
      Constraint.DependOn s.accepted entry.1.id → entry.2 = entry'.2) :
    Constraint.violations s.accepted s.tableau.value =
      Constraint.violations other.accepted other.tableau.value := by
  -- Neither solver is better than the other.
  have hbelow := h.not_better hs hsettled h' hs' hsame hkinds
  have habove := h'.not_better hs' hsettled' h hs hsame.symm fun entry hentry entry' hentry' hid
      ⟨c, hc, hne⟩ => (hkinds entry' hentry' entry hentry hid.symm
        ⟨c, hsame.mem_iff.mpr hc, hid ▸ hne⟩).symm
  rw [StrengthVector.compare_ne_lt_iff] at hbelow habove
  refine StrengthVector.ext_get fun level => ?_
  have hopposite : Strength.Nonneg fun level =>
      -((Constraint.violations s.accepted s.tableau.value).get level -
        (Constraint.violations other.accepted other.tableau.value).get level) := by
    simpa only [neg_sub] using hbelow
  exact sub_eq_zero.mp (habove.antisymm hopposite level)

/-! ## Rejected constraints -/

/-- A constraint over declared variables that no feasible point satisfies contradicts the constraints
present. -/
theorem contradicts (h : s.Accounts declared) (hs : s.Sound)
    (hterms : ∀ term ∈ c.expression.terms, term.2 ∈ declared.map Prod.fst)
    (hrequired : c.strength = none) (hinfeasible : ∀ a, s.tableau.Feasible a → ¬c.Holds a)
    (a : Assignment Rat) : ¬Admissible (c :: s.accepted) declared a := by
  intro ha
  have hpresent : Admissible s.accepted declared a :=
    ⟨fun other hother => ha.required other (List.mem_cons_of_mem _ hother), ha.allowed⟩
  refine hinfeasible _ (h.feasible_filled hs hpresent) ?_
  have hdeclared : ∀ v, c.expression.netCoefficient v ≠ 0 → ∃ entry ∈ declared, entry.1.id = v := by
    intro v hv
    obtain ⟨term, hterm, rfl⟩ := Expression.exists_mention hv
    obtain ⟨entry, hentry, hvariable⟩ := List.mem_map.mp (hterms term hterm)
    exact ⟨entry, hentry, by rw [hvariable]⟩
  rw [Constraint.holds_congr (h.eval_filled hdeclared)]
  exact ha.required c List.mem_cons_self hrequired

/-- Adding a constraint over declared variables fails exactly if it is required and contradicts the
constraints present. -/
theorem add_ends (h : s.Accounts declared) (hs : s.Sound)
    (hterms : ∀ term ∈ c.expression.terms, term.2 ∈ declared.map Prod.fst) (limit : Nat) :
    SolverM.Ends (SolverM.add c limit) s fun result _ =>
      match result with
      | .ok _ => ∃ a, Admissible (c :: s.accepted) declared a
      | .error (.error cause) => cause = .unsatisfiable ∧ c.strength = none ∧
          ∀ a, ¬Admissible (c :: s.accepted) declared a
      | .error _ => True := by
  have hcurrent : ¬∃ term ∈ c.expression.terms,
      s.tableau.registry.resolve term.2 ≠ .ok term.2.id := by
    rintro ⟨term, hterm, hstale⟩
    obtain ⟨entry, hentry, hvariable⟩ := List.mem_map.mp (hterms term hterm)
    exact hstale (hvariable ▸ h.current entry hentry)
  refine (SolverM.add_ends hs c limit).mono ?_
  rintro (failure | handle) next hadded
  · cases failure with
    | error cause =>
        cases cause with
        | unsatisfiable =>
            obtain ⟨-, -, -, -, hrequired, hinfeasible⟩ := hadded
            exact ⟨rfl, hrequired, h.contradicts hs hterms hrequired hinfeasible⟩
        | foreignVariable | staleVariable => exact absurd hadded.2 hcurrent
        | _ => exact hadded.elim
    | _ => trivial
  · obtain ⟨tag, rfl, haccepts, hnext, -, -⟩ := hadded
    have hadmissible := (h.accepts hs haccepts hterms).admissible hnext hnext.proper.feasible_value
    refine ⟨next.tableau.value, fun other hother => hadmissible.required other ?_,
      hadmissible.allowed⟩
    rw [mem_accepted]
    rcases List.mem_cons.mp hother with rfl | hold
    · exact ⟨tag, haccepts.present_self, rfl⟩
    · obtain ⟨otherTag, hpresent, rfl⟩ := mem_accepted.mp hold
      exact ⟨otherTag, haccepts.present_of_present hs hpresent, rfl⟩

end Accounts

end Solver

end LexSimplex
