import LexSimplex.Proofs.Exact.Proper

/-!
# The choices of the simplex method

What the rules that choose a variable or a row answer.  The rules of the primal loop ask for a reduced
tableau only, that for a marker for a proper one.  Each rule is a pass over a list that keeps the best
candidate so far; `foldlM_ok` carries a statement about the part that was seen, and `Least` is that
statement for a smallest ratio, whatever the ratios are.
-/

namespace LexSimplex

/-- A pass over a list that succeeds at every element, with what it establishes about the elements
seen so far. -/
theorem foldlM_ok {β γ ε : Type} {f : β → γ → Except ε β} (P : List γ → β → Prop)
    (xs : List γ) (start : β) (hstart : P [] start)
    (hstep : ∀ seen x acc, x ∈ xs → P seen acc → ∃ out, f acc x = .ok out ∧ P (seen ++ [x]) out) :
    ∃ out, xs.foldlM f start = .ok out ∧ P xs out := by
  -- The part that was seen grows while the rest shrinks, so both are general.
  suffices hgeneral : ∀ (rest seen : List γ) (acc : β), (∀ x ∈ rest, x ∈ xs) → P seen acc →
      ∃ out, rest.foldlM f acc = .ok out ∧ P (seen ++ rest) out from
    hgeneral xs [] start (fun _ hx => hx) hstart
  intro rest
  induction rest with
  | nil =>
      intro seen acc _ hacc
      exact ⟨acc, rfl, by rwa [List.append_nil]⟩
  | cons x rest ih =>
      intro seen acc hmem hacc
      obtain ⟨middle, hmiddle, hseen⟩ := hstep seen x acc (hmem x List.mem_cons_self) hacc
      obtain ⟨out, hout, hall⟩ := ih (seen ++ [x]) middle
        (fun y hy => hmem y (List.mem_cons_of_mem _ hy)) hseen
      refine ⟨out, ?_, ?_⟩
      · rw [List.foldlM_cons, hmiddle]
        exact hout
      · rwa [List.append_assoc] at hall

namespace Tableau

variable {t : Tableau LinearForm Rat} {g : Goal Rat} {entering marker v : VariableId}

/-- The best of the candidates seen so far, by their ratios. -/
structure Least {β κ ρ : Type} [LE ρ] (candidate : β → Prop) (position : β → κ) (ratio : β → ρ)
    (seen : List β) (best : Option (κ × ρ)) : Prop where
  attained : ∀ p, best = some p → ∃ x ∈ seen, candidate x ∧ p = (position x, ratio x)
  least : ∀ x ∈ seen, candidate x → ∃ p, best = some p ∧ p.2 ≤ ratio x

namespace Least

variable {β κ ρ : Type} [Preorder ρ] {candidate : β → Prop} {position : β → κ} {ratio : β → ρ}
  {seen : List β} {best : Option (κ × ρ)} {x : β}

theorem nil : Least candidate position ratio [] none :=
  ⟨fun _ h => by simp at h, fun _ h => by simp at h⟩

theorem skip (h : Least candidate position ratio seen best) (hx : ¬candidate x) :
    Least candidate position ratio (seen ++ [x]) best where
  attained := by
    intro p hp
    obtain ⟨y, hy, hcandidate, rfl⟩ := h.attained p hp
    exact ⟨y, List.mem_append_left _ hy, hcandidate, rfl⟩
  least := by
    intro y hy hcandidate
    rcases List.mem_append.mp hy with hold | hnew
    · exact h.least y hold hcandidate
    · rw [List.mem_singleton] at hnew
      exact absurd (hnew ▸ hcandidate) hx

/-- A candidate that is at most the best one so far becomes the best. -/
theorem replace (h : Least candidate position ratio seen best) (hx : candidate x)
    (hle : ∀ current, best = some current → ratio x ≤ current.2) :
    Least candidate position ratio (seen ++ [x]) (some (position x, ratio x)) where
  attained := by
    intro p hp
    exact ⟨x, List.mem_append_right _ (List.mem_singleton.mpr rfl), hx, (Option.some.inj hp).symm⟩
  least := by
    intro y hy hcandidate
    refine ⟨(position x, ratio x), rfl, ?_⟩
    rcases List.mem_append.mp hy with hold | hnew
    · obtain ⟨current, hcurrent, hleast⟩ := h.least y hold hcandidate
      exact (hle current hcurrent).trans hleast
    · rw [List.mem_singleton.mp hnew]

/-- The best so far stays the best if the new candidate is not below it. -/
theorem keep {current : κ × ρ} (h : Least candidate position ratio seen (some current))
    (hle : current.2 ≤ ratio x) :
    Least candidate position ratio (seen ++ [x]) (some current) where
  attained := by
    intro p hp
    obtain ⟨y, hy, hcandidate, heq⟩ := h.attained p hp
    exact ⟨y, List.mem_append_left _ hy, hcandidate, heq⟩
  least := by
    intro y hy hcandidate
    rcases List.mem_append.mp hy with hold | hnew
    · exact h.least y hold hcandidate
    · rw [List.mem_singleton.mp hnew]
      exact ⟨current, rfl, hle⟩

theorem add {position : β → RowId} {ratio : β → Rat} {best : Option (RowId × Rat)}
    (h : Least candidate position ratio seen best) (hx : candidate x) :
    Least candidate position ratio (seen ++ [x]) (smaller best (position x) (ratio x)) := by
  cases best with
  | none => exact h.replace hx (by simp)
  | some current =>
      by_cases hlt : ratio x < current.2
      · have hbest : smaller (some current) (position x) (ratio x) =
            some (position x, ratio x) := by
          simp [smaller, hlt]
        rw [hbest]
        refine h.replace hx fun found hfound => ?_
        rw [← Option.some.inj hfound]
        exact le_of_lt hlt
      · have hbest : smaller (some current) (position x) (ratio x) = some current := by
          simp [smaller, hlt]
        rw [hbest]
        exact h.keep (le_of_not_gt hlt)

/-- Without a best candidate there is none. -/
theorem not_candidate (h : Least candidate position ratio seen best) (hbest : best = none)
    (hx : x ∈ seen) : ¬candidate x := by
  intro hcandidate
  obtain ⟨p, hp, -⟩ := h.least x hx hcandidate
  rw [hbest] at hp
  cases hp

/-- The best candidate was seen, and no other one is below it. -/
theorem exists_best {p : κ × ρ} (h : Least candidate position ratio seen best)
    (hbest : best = some p) : ∃ x ∈ seen, candidate x ∧ p = (position x, ratio x) ∧
      ∀ y ∈ seen, candidate y → ratio x ≤ ratio y := by
  obtain ⟨x, hx, hcandidate, rfl⟩ := h.attained p hbest
  refine ⟨x, hx, hcandidate, rfl, fun y hy hother => ?_⟩
  obtain ⟨q, hq, hle⟩ := h.least y hy hother
  rw [hbest, Option.some.injEq] at hq
  subst hq
  exact hle

end Least

/-! ## The entering variable -/

/-- A variable that may enter the basis to improve an objective. -/
def Improves (t : Tableau LinearForm Rat) (g : Goal Rat) (v : VariableId) : Prop :=
  ∃ kind vector, t.kindOf v = some kind ∧ kind.canEnter = true ∧
    g.coefficient? v = some vector ∧ vector.isNegative = true

theorem better_isSome (best : Option (VariableId × StrengthVector Rat)) (v : VariableId)
    (vector : StrengthVector Rat) :
    ∃ p, Goal.better best v vector = some p ∧ (p = (v, vector) ∨ best = some p) := by
  cases best with
  | none => exact ⟨(v, vector), rfl, Or.inl rfl⟩
  | some current =>
      unfold Goal.better
      simp only
      split
      · exact ⟨(v, vector), rfl, Or.inl rfl⟩
      · exact ⟨current, rfl, Or.inr rfl⟩

/-- The column rule answers with a variable that improves the objective, if there is one. -/
theorem exists_pivotColumn (hg : g.OverNonbasic t.registry) :
    ∃ choice, g.pivotColumn t.registry = .ok choice ∧
      (∀ v, choice = some v → t.Improves g v) ∧ (choice = none → ∀ v, ¬t.Improves g v) := by
  let P : List (VariableId × StrengthVector Rat) →
      Option (VariableId × StrengthVector Rat) → Prop := fun seen best =>
    (∀ p, best = some p → t.Improves g p.1) ∧
      (best = none → ∀ entry ∈ seen, ¬t.Improves g entry.1)
  have hfold := foldlM_ok (f := Goal.weighColumn t.registry) P g.terms.toList none
    ⟨fun p hp => by simp at hp, fun _ entry hentry => by simp at hentry⟩ ?_
  · -- At the end all terms of the objective were seen.
    obtain ⟨best, hbest, hsome, hnone⟩ := hfold
    refine ⟨best.map Prod.fst, ?_, ?_, ?_⟩
    · unfold Goal.pivotColumn
      rw [hbest]
      rfl
    · intro v hv
      obtain ⟨p, hp, rfl⟩ := Option.map_eq_some_iff.mp hv
      exact hsome p hp
    · intro hv v himproves
      rw [Option.map_eq_none_iff] at hv
      obtain ⟨-, vector, -, -, hvector, -⟩ := id himproves
      exact hnone hv (v, vector) (SortedMap.find?_eq_some.mp hvector) himproves
  · intro seen entry best hentry hseen
    have hvector : g.coefficient? entry.1 = some entry.2 := SortedMap.find?_eq_some.mpr hentry
    obtain ⟨record, hrecord, -⟩ := Registry.nonbasic_iff.mp (hg entry hentry)
    refine ⟨_, by rw [Goal.weighColumn, Registry.kind_eq_ok hrecord]; rfl, ?_⟩
    by_cases hcandidate : (record.kind.canEnter && entry.2.isNegative) = true
    · rw [if_pos hcandidate]
      rw [Bool.and_eq_true] at hcandidate
      have himproves : t.Improves g entry.1 :=
        ⟨record.kind, entry.2, kindOf_eq hrecord, hcandidate.1, hvector, hcandidate.2⟩
      obtain ⟨p, hp, horigin⟩ := better_isSome best entry.1 entry.2
      rw [hp]
      refine ⟨?_, by simp⟩
      intro q hq
      rw [Option.some.injEq] at hq
      subst hq
      rcases horigin with rfl | hold
      · exact himproves
      · exact hseen.1 p hold
    · rw [if_neg hcandidate]
      refine ⟨hseen.1, fun hnone other hother => ?_⟩
      rcases List.mem_append.mp hother with hold | hnew
      · exact hseen.2 hnone other hold
      · rw [List.mem_singleton] at hnew
        subst hnew
        rintro ⟨kind, vector, hkind, hcanEnter, hvector', hnegative⟩
        rw [kindOf_eq hrecord, Option.some.injEq] at hkind
        rw [hvector, Option.some.injEq] at hvector'
        subst hkind hvector'
        exact hcandidate (by rw [hcanEnter, hnegative]; rfl)

/-! ## The leaving row -/

/-- A row whose basic variable is of the given kind. -/
def BasicOf (t : Tableau LinearForm Rat) (row : Row LinearForm Rat) (kind : VariableKind) : Prop :=
  row.basic.bind t.kindOf = some kind

theorem basicOf_iff {row : Row LinearForm Rat} (hbasic : row.basic = some v) {kind : VariableKind} :
    t.BasicOf row kind ↔ t.kindOf v = some kind := by
  unfold BasicOf
  rw [hbasic]
  rfl

theorem basicOf_substitute {row definition : Row LinearForm Rat} {kind : VariableKind} :
    t.BasicOf (row.substitute v definition) kind ↔ t.BasicOf row kind := by
  unfold BasicOf
  rw [Row.basic_substitute]

theorem basicOf_congr {next : Tableau LinearForm Rat} (h : ∀ v, next.kindOf v = t.kindOf v)
    {row : Row LinearForm Rat} {kind : VariableKind} : next.BasicOf row kind ↔ t.BasicOf row kind := by
  unfold BasicOf
  rw [funext h]

theorem Reduced.exists_basicOf (h : t.Reduced) {id : RowId} {row : Row LinearForm Rat}
    (hrow : t.row? id = some row) : ∃ kind, t.BasicOf row kind := by
  obtain ⟨basic, hbasic, hdefined⟩ := h.row_basic hrow
  obtain ⟨record, hrecord, -⟩ := Option.bind_eq_some_iff.mp hdefined
  exact ⟨record.kind, (basicOf_iff hbasic).mpr (kindOf_eq hrecord)⟩

theorem Proper.exists_basicOf (h : t.Proper) {id : RowId} {row : Row LinearForm Rat}
    (hrow : t.row? id = some row) : ∃ kind, t.BasicOf row kind ∧ row.Fits t.kindOf kind := by
  obtain ⟨kind, hkind⟩ := h.reduced.exists_basicOf hrow
  obtain ⟨basic, hbasic, hbasicKind⟩ := Option.bind_eq_some_iff.mp hkind
  exact ⟨kind, hkind, h.fits_of_basic hrow hbasic hbasicKind⟩

theorem BasicOf.unique {row : Row LinearForm Rat} {kind other : VariableKind}
    (h : t.BasicOf row kind) (hother : t.BasicOf row other) : kind = other := by
  unfold BasicOf at h hother
  rw [h, Option.some.injEq] at hother
  exact hother

/-- A row that limits the increase of a variable. -/
def Limits (t : Tableau LinearForm Rat) (entering : VariableId)
    (entry : RowId × Row LinearForm Rat) : Prop :=
  (∃ kind, t.BasicOf entry.2 kind ∧ kind ≠ .unrestricted) ∧ entry.2.coefficient entering < 0

theorem isRestricted_iff {kind : VariableKind} :
    kind.isRestricted = true ↔ kind ≠ .unrestricted := by
  cases kind <;> simp [VariableKind.isRestricted]

/-- The kind of a basic variable, as the solver looks it up. -/
theorem BasicOf.kind_eq_ok {row : Row LinearForm Rat} {kind : VariableKind}
    (h : t.BasicOf row kind) :
    ∃ basic, row.basic = some basic ∧ t.registry.kind basic = .ok kind := by
  obtain ⟨basic, hbasic, hkind⟩ := Option.bind_eq_some_iff.mp h
  obtain ⟨record, hrecord, rfl⟩ := Option.map_eq_some_iff.mp hkind
  exact ⟨basic, hbasic, Registry.kind_eq_ok hrecord⟩

theorem hasRestrictedBasic_eq_ok {row : Row LinearForm Rat} {kind : VariableKind}
    (hkind : t.BasicOf row kind) : t.hasRestrictedBasic row = .ok kind.isRestricted := by
  obtain ⟨basic, hbasic, hlookup⟩ := hkind.kind_eq_ok
  unfold hasRestrictedBasic
  rw [hbasic]
  simp only
  rw [hlookup]
  rfl

/-- The row rule answers with a row that limits the entering variable first, if any row does. -/
theorem exists_leavingRow (h : t.Reduced) (entering : VariableId) :
    ∃ choice, t.leavingRow entering = .ok choice ∧
      (choice = none → ∀ id row, t.row? id = some row → ¬t.Limits entering (id, row)) ∧
      (∀ id, choice = some id → ∃ row, t.row? id = some row ∧ t.Limits entering (id, row) ∧
        ∀ j other, t.row? j = some other → t.Limits entering (j, other) →
          -row.constant / row.coefficient entering ≤
            -other.constant / other.coefficient entering) := by
  let ratio : RowId × Row LinearForm Rat → Rat := fun entry =>
    -entry.2.constant / entry.2.coefficient entering
  have hfold := foldlM_ok (f := t.weighLeaving entering)
    (Least (t.Limits entering) Prod.fst ratio) t.rowList none Least.nil ?_
  · obtain ⟨best, hbest, hleast⟩ := hfold
    refine ⟨best.map Prod.fst, ?_, ?_, ?_⟩
    · unfold leavingRow
      rw [hbest]
      rfl
    · intro hnone id row hrow
      exact hleast.not_candidate (Option.map_eq_none_iff.mp hnone) (mem_rowList.mpr hrow)
    · intro id hid
      obtain ⟨p, hp, rfl⟩ := Option.map_eq_some_iff.mp hid
      obtain ⟨⟨id, row⟩, hmem, hlimits, rfl, hsmallest⟩ := hleast.exists_best hp
      exact ⟨row, mem_rowList.mp hmem, hlimits, fun j other hother =>
        hsmallest (j, other) (mem_rowList.mpr hother)⟩
  · rintro seen ⟨id, row⟩ best hmem hseen
    have hrow := mem_rowList.mp hmem
    obtain ⟨kind, hkind⟩ := h.exists_basicOf hrow
    refine ⟨_, by rw [weighLeaving, hasRestrictedBasic_eq_ok hkind]; rfl, ?_⟩
    by_cases hlimits : (kind.isRestricted && decide (row.coefficient entering < 0)) = true
    · rw [if_pos hlimits]
      rw [Bool.and_eq_true, isRestricted_iff, decide_eq_true_eq] at hlimits
      exact hseen.add (x := (id, row)) ⟨⟨kind, hkind, hlimits.1⟩, hlimits.2⟩
    · rw [if_neg hlimits]
      refine hseen.skip ?_
      rintro ⟨⟨found, hfound, hrestricted⟩, hnegative⟩
      rw [hfound.unique hkind] at hrestricted
      exact hlimits (by rw [Bool.and_eq_true, isRestricted_iff, decide_eq_true_eq];
                        exact ⟨hrestricted, hnegative⟩)

/-! ## The row through which a marker enters -/

/-- A row whose basic variable is restricted and not pinned. -/
def Bounded (t : Tableau LinearForm Rat) (row : Row LinearForm Rat) : Prop :=
  ∃ kind, t.BasicOf row kind ∧ kind ≠ .unrestricted ∧ kind ≠ .constant

/-- A row is the preferred one for a marker to enter through. -/
def Preferred (t : Tableau LinearForm Rat) (marker : VariableId) (row : Row LinearForm Rat) : Prop :=
  t.BasicOf row .constant ∨
    (∀ j other, t.row? j = some other → t.BasicOf other .constant →
      other.coefficient marker = 0) ∧
    ((t.Bounded row ∧ row.coefficient marker < 0 ∧
        ∀ j other, t.row? j = some other → t.Bounded other → other.coefficient marker < 0 →
          -row.constant / row.coefficient marker ≤ -other.constant / other.coefficient marker) ∨
      (∀ j other, t.row? j = some other → t.Bounded other → 0 ≤ other.coefficient marker) ∧
        ((t.Bounded row ∧ 0 < row.coefficient marker ∧
            ∀ j other, t.row? j = some other → t.Bounded other → 0 < other.coefficient marker →
              row.constant / row.coefficient marker ≤
                other.constant / other.coefficient marker) ∨
          (∀ j other, t.row? j = some other → t.Bounded other → other.coefficient marker = 0) ∧
            t.BasicOf row .unrestricted))

/-- What the pass over the rows knows about the rows seen so far. -/
structure Sorted (t : Tableau LinearForm Rat) (marker : VariableId)
    (seen : List (RowId × Row LinearForm Rat)) (found : MarkerRows Rat) : Prop where
  pinned : ∀ id, found.pinned = some id → ∃ row, (id, row) ∈ seen ∧
    row.coefficient marker ≠ 0 ∧ t.BasicOf row .constant
  unpinned : found.pinned = none → ∀ entry ∈ seen, t.BasicOf entry.2 .constant →
    entry.2.coefficient marker = 0
  negative : found.pinned = none →
    Least (fun entry : RowId × Row LinearForm Rat =>
        t.Bounded entry.2 ∧ entry.2.coefficient marker < 0) Prod.fst
      (fun entry => -entry.2.constant / entry.2.coefficient marker) seen found.negative
  positive : found.pinned = none →
    Least (fun entry : RowId × Row LinearForm Rat =>
        t.Bounded entry.2 ∧ 0 < entry.2.coefficient marker) Prod.fst
      (fun entry => entry.2.constant / entry.2.coefficient marker) seen found.positive
  unrestricted : ∀ id, found.unrestricted = some id → ∃ row, (id, row) ∈ seen ∧
    row.coefficient marker ≠ 0 ∧ t.BasicOf row .unrestricted
  restricted : found.pinned = none → found.unrestricted = none → ∀ entry ∈ seen,
    t.BasicOf entry.2 .unrestricted → entry.2.coefficient marker = 0

namespace Sorted

variable {seen : List (RowId × Row LinearForm Rat)} {found : MarkerRows Rat}
  {entry : RowId × Row LinearForm Rat}

theorem nil : Sorted t marker [] .none where
  pinned := fun _ h => by simp [MarkerRows.none] at h
  unpinned := fun _ _ h => by simp at h
  negative := fun _ => Least.nil
  positive := fun _ => Least.nil
  unrestricted := fun _ h => by simp [MarkerRows.none] at h
  restricted := fun _ _ _ h => by simp at h

/-- A row that was seen before is still seen. -/
theorem exists_seen {P : Row LinearForm Rat → Prop} {id : RowId}
    (h : ∃ row, (id, row) ∈ seen ∧ P row) : ∃ row, (id, row) ∈ seen ++ [entry] ∧ P row := by
  obtain ⟨row, hmem, hrow⟩ := h
  exact ⟨row, List.mem_append_left _ hmem, hrow⟩

/-- A row without the marker changes nothing. -/
theorem skip (h : Sorted t marker seen found) (hzero : entry.2.coefficient marker = 0) :
    Sorted t marker (seen ++ [entry]) found where
  pinned := fun id hid => exists_seen (h.pinned id hid)
  unpinned := by
    intro hnone other hother hkind
    rcases List.mem_append.mp hother with hold | hnew
    · exact h.unpinned hnone other hold hkind
    · rw [List.mem_singleton.mp hnew, hzero]
  negative := fun hnone => (h.negative hnone).skip fun hc => by rw [hzero] at hc; simp at hc
  positive := fun hnone => (h.positive hnone).skip fun hc => by rw [hzero] at hc; simp at hc
  unrestricted := fun id hid => exists_seen (h.unrestricted id hid)
  restricted := by
    intro hnone hnone' other hother hkind
    rcases List.mem_append.mp hother with hold | hnew
    · exact h.restricted hnone hnone' other hold hkind
    · rw [List.mem_singleton.mp hnew, hzero]

/-- Once the row of a pinned variable was found, the other rows do not matter. -/
theorem skip_pinned (h : Sorted t marker seen found) (hsome : found.pinned.isSome) :
    Sorted t marker (seen ++ [entry]) found where
  pinned := fun id hid => exists_seen (h.pinned id hid)
  unpinned := fun hnone => by rw [hnone] at hsome; simp at hsome
  negative := fun hnone => by rw [hnone] at hsome; simp at hsome
  positive := fun hnone => by rw [hnone] at hsome; simp at hsome
  unrestricted := fun id hid => exists_seen (h.unrestricted id hid)
  restricted := fun hnone => by rw [hnone] at hsome; simp at hsome

theorem add_pinned (h : Sorted t marker seen found) (hne : entry.2.coefficient marker ≠ 0)
    (hkind : t.BasicOf entry.2 .constant) :
    Sorted t marker (seen ++ [entry]) { found with pinned := some entry.1 } where
  pinned := by
    intro id hid
    obtain rfl : entry.1 = id := by simpa using hid
    exact ⟨entry.2, List.mem_append_right _ (List.mem_singleton.mpr rfl), hne, hkind⟩
  unpinned := fun hnone => by simp at hnone
  negative := fun hnone => by simp at hnone
  positive := fun hnone => by simp at hnone
  unrestricted := fun id hid => exists_seen (h.unrestricted id hid)
  restricted := fun hnone => by simp at hnone

theorem add_unrestricted (h : Sorted t marker seen found)
    (hne : entry.2.coefficient marker ≠ 0) (hkind : t.BasicOf entry.2 .unrestricted) :
    Sorted t marker (seen ++ [entry])
      { found with unrestricted := found.unrestricted.or (some entry.1) } where
  pinned := fun id hid => exists_seen (h.pinned id hid)
  unpinned := by
    intro hnone other hother hpinned
    rcases List.mem_append.mp hother with hold | hnew
    · exact h.unpinned hnone other hold hpinned
    · rw [List.mem_singleton] at hnew
      subst hnew
      exact absurd (hkind.unique hpinned) (by simp)
  negative := fun hnone => (h.negative hnone).skip fun hc => by
    obtain ⟨⟨kind, hfound, hrestricted, -⟩, -⟩ := hc
    exact hrestricted (hfound.unique hkind)
  positive := fun hnone => (h.positive hnone).skip fun hc => by
    obtain ⟨⟨kind, hfound, hrestricted, -⟩, -⟩ := hc
    exact hrestricted (hfound.unique hkind)
  unrestricted := by
    intro id hid
    rcases Option.or_eq_some_iff.mp hid with hold | ⟨-, hnew⟩
    · exact exists_seen (h.unrestricted id hold)
    · obtain rfl : entry.1 = id := by simpa using hnew
      exact ⟨entry.2, List.mem_append_right _ (List.mem_singleton.mpr rfl), hne, hkind⟩
  restricted := fun _ hnone => by simp at hnone

/-- The row of a bounded variable is weighed by its ratio, on the side of its sign. -/
theorem add_bounded (h : Sorted t marker seen found) (hbounded : t.Bounded entry.2) :
    (entry.2.coefficient marker < 0 → Sorted t marker (seen ++ [entry])
      { found with
        negative :=
          smaller found.negative entry.1 (-entry.2.constant / entry.2.coefficient marker) }) ∧
    (0 < entry.2.coefficient marker → Sorted t marker (seen ++ [entry])
      { found with
        positive :=
          smaller found.positive entry.1 (entry.2.constant / entry.2.coefficient marker) }) := by
  obtain ⟨kind, hkind, hrestricted, hunpinned⟩ := id hbounded
  -- A row of another kind is not the new one.
  have hold : ∀ other ∈ seen ++ [entry], ∀ {k : VariableKind}, k ≠ kind →
      t.BasicOf other.2 k → other ∈ seen := by
    intro other hother k hk hbasic
    rcases List.mem_append.mp hother with hmem | hnew
    · exact hmem
    · rw [List.mem_singleton] at hnew
      subst hnew
      exact absurd (hbasic.unique hkind) hk
  have hpinned : ∀ id, found.pinned = some id → ∃ row, (id, row) ∈ seen ++ [entry] ∧
      row.coefficient marker ≠ 0 ∧ t.BasicOf row .constant := fun id hid =>
    exists_seen (h.pinned id hid)
  have hunpinnedRows : found.pinned = none → ∀ other ∈ seen ++ [entry],
      t.BasicOf other.2 .constant → other.2.coefficient marker = 0 := by
    intro hnone other hother hbasic
    exact h.unpinned hnone other (hold other hother (Ne.symm hunpinned) hbasic) hbasic
  have hunrestricted : ∀ id, found.unrestricted = some id → ∃ row, (id, row) ∈ seen ++ [entry] ∧
      row.coefficient marker ≠ 0 ∧ t.BasicOf row .unrestricted := fun id hid =>
    exists_seen (h.unrestricted id hid)
  have hrestrictedRows : found.pinned = none → found.unrestricted = none →
      ∀ other ∈ seen ++ [entry], t.BasicOf other.2 .unrestricted →
        other.2.coefficient marker = 0 := by
    intro hnone hnone' other hother hbasic
    exact h.restricted hnone hnone' other (hold other hother (Ne.symm hrestricted) hbasic) hbasic
  refine ⟨fun hneg => ?_, fun hpos => ?_⟩
  · refine ⟨hpinned, hunpinnedRows, fun hnone => ?_, fun hnone => ?_, hunrestricted,
      hrestrictedRows⟩
    · exact (h.negative hnone).add (x := entry) ⟨hbounded, hneg⟩
    · exact (h.positive hnone).skip fun hc => not_lt_of_gt hneg hc.2
  · refine ⟨hpinned, hunpinnedRows, fun hnone => ?_, fun hnone => ?_, hunrestricted,
      hrestrictedRows⟩
    · exact (h.negative hnone).skip fun hc => not_lt_of_gt hpos hc.2
    · exact (h.positive hnone).add (x := entry) ⟨hbounded, hpos⟩

end Sorted

/-- One row is sorted into the preferences. -/
theorem exists_weighMarker (h : t.Proper) {seen : List (RowId × Row LinearForm Rat)}
    {found : MarkerRows Rat} {id : RowId} {row : Row LinearForm Rat} (hrow : t.row? id = some row)
    (hseen : Sorted t marker seen found) :
    ∃ out, t.weighMarker marker found (id, row) = .ok out ∧
      Sorted t marker (seen ++ [(id, row)]) out := by
  obtain ⟨basic, record, hbasic, hrecord, -, -⟩ := h.row_basic hrow
  have hkind : t.BasicOf row record.kind := (basicOf_iff hbasic).mpr (kindOf_eq hrecord)
  unfold weighMarker
  simp only
  by_cases hskip : (found.pinned.isSome || row.coefficient marker == 0) = true
  · rw [if_pos hskip]
    refine ⟨found, rfl, ?_⟩
    rcases Bool.or_eq_true _ _ |>.mp hskip with hpinned | hzero
    · exact hseen.skip_pinned hpinned
    · exact hseen.skip (by simpa using hzero)
  · rw [if_neg hskip]
    have hne : row.coefficient marker ≠ 0 := by
      intro hzero
      exact hskip (by simp [hzero])
    rw [hbasic]
    simp only
    rw [Registry.kind_eq_ok hrecord]
    have hsigned : row.coefficient marker < 0 ∨
        ¬row.coefficient marker < 0 ∧ 0 < row.coefficient marker := by
      rcases lt_or_gt_of_ne hne with hneg | hpos
      · exact Or.inl hneg
      · exact Or.inr ⟨not_lt_of_gt hpos, hpos⟩
    have hbounded : record.kind ≠ .unrestricted → record.kind ≠ .constant → t.Bounded row :=
      fun hrestricted hunpinned => ⟨record.kind, hkind, hrestricted, hunpinned⟩
    simp only [bind, Except.bind]
    cases hcase : record.kind with
    | constant => exact ⟨_, rfl, hseen.add_pinned hne (hcase ▸ hkind)⟩
    | unrestricted => exact ⟨_, rfl, hseen.add_unrestricted hne (hcase ▸ hkind)⟩
    | slack | error | unknown =>
        have hentry : t.Bounded (id, row).2 :=
          hbounded (by rw [hcase]; simp) (by rw [hcase]; simp)
        have hadd := hseen.add_bounded hentry
        rcases hsigned with hneg | ⟨hnot, hpos⟩
        · exact ⟨_, if_pos hneg, hadd.1 hneg⟩
        · exact ⟨_, if_neg hnot, hadd.2 hpos⟩

/-- The marker rule answers with a preferred row among those that mention the marker, if there is
one. -/
theorem exists_markerLeavingRow (h : t.Proper) (marker : VariableId) :
    ∃ choice, t.markerLeavingRow marker = .ok choice ∧
      (choice = none → ∀ id row, t.row? id = some row → row.coefficient marker = 0) ∧
      (∀ id, choice = some id → ∃ row, t.row? id = some row ∧ row.coefficient marker ≠ 0 ∧
        t.Preferred marker row) := by
  obtain ⟨found, hfound, hsorted⟩ := foldlM_ok (f := t.weighMarker marker) (Sorted t marker)
    t.rowList .none Sorted.nil fun seen entry acc hmem hseen =>
      exists_weighMarker h (mem_rowList.mp hmem) hseen
  refine ⟨found.choice, by rw [markerLeavingRow, hfound]; rfl, ?_⟩
  have hlisted : ∀ {id row}, t.row? id = some row → (id, row) ∈ t.rowList := mem_rowList.mpr
  unfold MarkerRows.choice
  cases hpinned : found.pinned with
  | some id =>
      -- The row of a pinned variable goes first.
      refine ⟨fun hnone => by simp at hnone, fun chosen hchosen => ?_⟩
      obtain rfl : id = chosen := by simpa using hchosen
      obtain ⟨row, hmem, hne, hkind⟩ := hsorted.pinned id hpinned
      exact ⟨row, mem_rowList.mp hmem, hne, Or.inl hkind⟩
  | none =>
      have hpinnedRows : ∀ j other, t.row? j = some other → t.BasicOf other .constant →
          other.coefficient marker = 0 :=
        fun j other hother => hsorted.unpinned hpinned (j, other) (hlisted hother)
      have hnegative := hsorted.negative hpinned
      have hpositive := hsorted.positive hpinned
      cases hneg : found.negative with
      | some p =>
          -- Next the row that limits the marker first.
          refine ⟨fun hnone => by simp at hnone, fun chosen hchosen => ?_⟩
          obtain rfl : p.1 = chosen := by simpa using hchosen
          obtain ⟨⟨id, row⟩, hmem, ⟨hbounded, hlt⟩, rfl, hsmallest⟩ := hnegative.exists_best hneg
          exact ⟨row, mem_rowList.mp hmem, ne_of_lt hlt,
            Or.inr ⟨hpinnedRows, Or.inl ⟨hbounded, hlt, fun j other hother hb hl =>
              hsmallest (j, other) (hlisted hother) ⟨hb, hl⟩⟩⟩⟩
      | none =>
          have hnonneg : ∀ j other, t.row? j = some other → t.Bounded other →
              0 ≤ other.coefficient marker := by
            intro j other hother hb
            exact le_of_not_gt fun hlt =>
              hnegative.not_candidate hneg (hlisted hother) ⟨hb, hlt⟩
          cases hpos : found.positive with
          | some p =>
              -- Without such a row, the one with the smallest ratio among the others.
              refine ⟨fun hnone => by simp at hnone, fun chosen hchosen => ?_⟩
              obtain rfl : p.1 = chosen := by simpa using hchosen
              obtain ⟨⟨id, row⟩, hmem, ⟨hbounded, hlt⟩, rfl, hsmallest⟩ :=
                hpositive.exists_best hpos
              exact ⟨row, mem_rowList.mp hmem, ne_of_gt hlt,
                Or.inr ⟨hpinnedRows, Or.inr ⟨hnonneg, Or.inl ⟨hbounded, hlt,
                  fun j other hother hb hl =>
                    hsmallest (j, other) (hlisted hother) ⟨hb, hl⟩⟩⟩⟩⟩
          | none =>
              -- Only rows of unrestricted variables can mention the marker now.
              have hzero : ∀ j other, t.row? j = some other → t.Bounded other →
                  other.coefficient marker = 0 := by
                intro j other hother hb
                refine le_antisymm (le_of_not_gt fun hlt => ?_) (hnonneg j other hother hb)
                exact hpositive.not_candidate hpos (hlisted hother) ⟨hb, hlt⟩
              refine ⟨fun hnone id row hrow => ?_, fun chosen hchosen => ?_⟩
              · have hunrestricted : found.unrestricted = none := by simpa using hnone
                obtain ⟨kind, hkind, -⟩ := h.exists_basicOf hrow
                by_cases hfree : kind = .unrestricted
                · exact hsorted.restricted hpinned hunrestricted (id, row) (hlisted hrow)
                    (hfree ▸ hkind)
                · by_cases hpin : kind = .constant
                  · exact hpinnedRows id row hrow (hpin ▸ hkind)
                  · exact hzero id row hrow ⟨kind, hkind, hfree, hpin⟩
              · have hunrestricted : found.unrestricted = some chosen := by simpa using hchosen
                obtain ⟨row, hmem, hne, hkind⟩ := hsorted.unrestricted chosen hunrestricted
                exact ⟨row, mem_rowList.mp hmem, hne,
                  Or.inr ⟨hpinnedRows, Or.inr ⟨hnonneg, Or.inr ⟨hzero, hkind⟩⟩⟩⟩

end Tableau

end LexSimplex
