import LexSimplex.Proofs.Exact.Operations
import LexSimplex.Proofs.Exact.Selection

/-!
# Staying in range

Replacing a variable by its definition changes the constants of the rows that mention it.  This
module says which replacements leave every row fitting the kind of its basic variable:

* `fits_of_unrestricted`: the variable is unrestricted, so that no restricted row mentions it;
* `fits_of_level`: the definition has constant zero, so that no constant changes;
* `fits_of_ratio`: the definition is the row that limits the variable first;
* `fits_of_preferred`: the definition is the row through which a withdrawn marker enters.

The last part is about tableaus that need not be proper: what an exchange does to the conditions of
`LexSimplex.Proofs.Reduced`, and that its rows stay in range after the ratio test
(`Exchanged.valuesAllowed`).
-/

namespace LexSimplex

namespace Row

variable {row definition : Row LinearForm Rat} {entering : VariableId} {kind : VariableKind}
  {kinds : VariableId → Option VariableKind}

/-- A right-hand side without unrestricted variables. -/
def Restricted (kinds : VariableId → Option VariableKind) (row : Row LinearForm Rat) : Prop :=
  ∀ v, row.coefficient v ≠ 0 → kinds v ≠ some .unrestricted

/-- A right-hand side of pinned variables only. -/
def Pinned (kinds : VariableId → Option VariableKind) (row : Row LinearForm Rat) : Prop :=
  ∀ v, row.coefficient v ≠ 0 → kinds v = some .constant

/-- A variable of a row after a replacement comes from the row or from the definition. -/
theorem coefficient_substitute_ne_zero {v : VariableId}
    (h : (row.substitute entering definition).coefficient v ≠ 0) :
    row.coefficient v ≠ 0 ∨ definition.coefficient v ≠ 0 := by
  by_contra hnone
  obtain ⟨hrow, hdefinition⟩ := not_or.mp hnone
  rw [coefficient_substitute, not_not.mp hrow, not_not.mp hdefinition] at h
  simp at h

theorem Restricted.substitute (h : row.Restricted kinds) (hdefinition : definition.Restricted kinds) :
    (row.substitute entering definition).Restricted kinds := by
  intro v hv
  rcases coefficient_substitute_ne_zero hv with hrow | hterm
  · exact h v hrow
  · exact hdefinition v hterm

/-- A row keeps fitting when the definition has no unrestricted variable, leaves the constant in
range and, for the row of a pinned variable, is itself zero and pinned. -/
theorem Fits.substitute (h : row.Fits kinds kind)
    (hchange : row.coefficient entering ≠ 0 → kind ≠ .unrestricted →
      definition.Restricted kinds ∧
        0 ≤ row.constant + row.coefficient entering * definition.constant ∧
        (kind = .constant → definition.constant = 0 ∧ definition.Pinned kinds)) :
    (row.substitute entering definition).Fits kinds kind := by
  by_cases hzero : row.coefficient entering = 0
  · rw [substitute_eq_self hzero]
    exact h
  refine ⟨fun hkind => ?_, fun hkind v hv => ?_, fun hkind => ?_, fun hkind v hv => ?_⟩
  · rw [constant_substitute]
    exact (hchange hzero hkind).2.1
  · exact Restricted.substitute (h.terms_restricted hkind) (hchange hzero hkind).1 v hv
  · have hdefinition := ((hchange hzero (by rw [hkind]; simp)).2.2 hkind).1
    rw [constant_substitute, hdefinition, h.constant_pinned hkind]
    ring
  · rcases coefficient_substitute_ne_zero hv with hrow | hdefinition
    · exact h.terms_pinned hkind v hrow
    · exact ((hchange hzero (by rw [hkind]; simp)).2.2 hkind).2 v hdefinition

/-- Whether a row fits depends on its constant and on the kinds of its variables. -/
theorem Fits.of_terms {other : Row LinearForm Rat} {others : VariableId → Option VariableKind}
    (h : row.Fits kinds kind) (hconstant : other.constant = row.constant)
    (hterms : ∀ v, other.coefficient v ≠ 0 → row.coefficient v ≠ 0 ∧ others v = kinds v) :
    other.Fits others kind := by
  refine ⟨fun hkind => ?_, fun hkind v hv => ?_, fun hkind => ?_, fun hkind v hv => ?_⟩
  · rw [hconstant]
    exact h.constant_nonneg hkind
  · obtain ⟨hrow, hsame⟩ := hterms v hv
    rw [hsame]
    exact h.terms_restricted hkind v hrow
  · rw [hconstant]
    exact h.constant_pinned hkind
  · obtain ⟨hrow, hsame⟩ := hterms v hv
    rw [hsame]
    exact h.terms_pinned hkind v hrow

/-- The solved row has no unrestricted variable if the row has none. -/
theorem Restricted.solved (h : row.Restricted kinds) (entering : VariableId)
    (hbasic : ∀ basic, row.basic = some basic → kinds basic ≠ some .unrestricted) :
    (row.solved entering).Restricted kinds := by
  intro v hv
  rcases coefficient_solved_ne_zero hv with hleaving | ⟨-, hrow⟩
  · exact hbasic v hleaving
  · exact h v hrow

theorem Pinned.solved (h : row.Pinned kinds) (entering : VariableId)
    (hbasic : ∀ basic, row.basic = some basic → kinds basic = some .constant) :
    (row.solved entering).Pinned kinds := by
  intro v hv
  rcases coefficient_solved_ne_zero hv with hleaving | ⟨-, hrow⟩
  · exact hbasic v hleaving
  · exact h v hrow

theorem Pinned.restricted (h : row.Pinned kinds) : row.Restricted kinds := by
  intro v hv
  rw [h v hv]
  simp

/-- A right-hand side that fits a kind which is neither unrestricted nor pinned. -/
theorem fits_of_restricted (hconstant : 0 ≤ row.constant) (hterms : row.Restricted kinds)
    (hkind : kind ≠ .constant) : row.Fits kinds kind :=
  ⟨fun _ => hconstant, fun _ => hterms, fun h => absurd h hkind, fun h => absurd h hkind⟩

theorem fits_unrestricted (row : Row LinearForm Rat) : row.Fits kinds .unrestricted :=
  ⟨fun h => absurd rfl h, fun h => absurd rfl h, fun h => by simp at h, fun h => by simp at h⟩

theorem fits_of_pinned (hconstant : row.constant = 0) (hterms : row.Pinned kinds) :
    row.Fits kinds kind :=
  ⟨fun _ => hconstant.ge, fun _ => hterms.restricted, fun _ => hconstant, fun _ => hterms⟩

end Row

namespace Tableau

variable {t : Tableau LinearForm Rat} {id j : RowId} {row other definition : Row LinearForm Rat}
  {entering marker basic : VariableId} {kind : VariableKind}
  {kinds : VariableId → Option VariableKind}

/-- No restricted row mentions an unrestricted variable. -/
theorem fits_of_unrestricted (h : t.Proper) (hentering : t.kindOf entering = some .unrestricted)
    (hother : t.row? j = some other) (hbasic : other.basic = some basic)
    (hkind : t.kindOf basic = some kind) :
    (other.substitute entering definition).Fits t.kindOf kind := by
  have hfits := h.fits_of_basic hother hbasic hkind
  refine hfits.substitute fun hmentions hrestricted => ?_
  exact absurd hentering (hfits.terms_restricted hrestricted entering hmentions)

/-- A definition with constant zero changes no constant.  If it replaces a pinned variable, it has
to be pinned itself. -/
theorem fits_of_level (hfits : other.Fits kinds kind) (hconstant : definition.constant = 0)
    (hrestricted : definition.Restricted kinds)
    (hpinned : kinds entering = some .constant → definition.Pinned kinds) :
    (other.substitute entering definition).Fits kinds kind := by
  refine hfits.substitute fun hmentions hkind => ⟨hrestricted, ?_, fun hconst => ⟨hconstant, ?_⟩⟩
  · rw [hconstant, mul_zero, add_zero]
    exact hfits.constant_nonneg hkind
  · exact hpinned (hfits.terms_pinned hconst entering hmentions)

/-! ## Ratios -/

/-- A row stays in range when a variable grows up to a limit below the row's own. -/
theorem nonneg_of_growth {x y c d : Rat} (hx : 0 ≤ x) (hy : 0 ≤ y) (hc : c < 0)
    (hratio : d < 0 → -x / c ≤ -y / d) : 0 ≤ y + d * (x / -c) := by
  have hgrowth : 0 ≤ x / -c := div_nonneg hx (by linarith)
  by_cases hd : d < 0
  · have hlimit := hratio hd
    rw [neg_div, ← div_neg, neg_div, ← div_neg, le_div_iff₀ (by linarith)] at hlimit
    linarith
  · have hterm : 0 ≤ d * (x / -c) := mul_nonneg (le_of_not_gt hd) hgrowth
    linarith

/-- A row stays in range when a variable shrinks down to a limit above the row's own. -/
theorem nonneg_of_shrink {x y c d : Rat} (hy : 0 ≤ y) (hd : 0 ≤ d)
    (hratio : 0 < d → x / c ≤ y / d) : 0 ≤ y + d * (x / -c) := by
  rcases eq_or_lt_of_le hd with hzero | hpos
  · rw [← hzero, zero_mul, add_zero]
    exact hy
  · have hlimit := hratio hpos
    rw [le_div_iff₀ hpos] at hlimit
    rw [div_neg]
    linarith

/-- The row that limits the entering variable first leaves all others in range. -/
theorem fits_of_ratio (h : t.Proper) (hentering : t.kindOf entering ≠ some .constant)
    (hrow : t.row? id = some row) (hlimits : t.Limits entering (id, row))
    (hleast : ∀ j other, t.row? j = some other → t.Limits entering (j, other) →
      -row.constant / row.coefficient entering ≤ -other.constant / other.coefficient entering)
    (hother : t.row? j = some other) (hbasic : other.basic = some basic)
    (hkind : t.kindOf basic = some kind) :
    (other.substitute entering (row.solved entering)).Fits t.kindOf kind := by
  obtain ⟨⟨leavingKind, hleavingKind, hleaving⟩, hnegative⟩ := hlimits
  obtain ⟨found, hfound, hrowFits⟩ := h.exists_basicOf hrow
  rw [hfound.unique hleavingKind] at hrowFits
  have hfits := h.fits_of_basic hother hbasic hkind
  refine hfits.substitute fun hmentions hrestricted => ⟨?_, ?_, fun hconst => ?_⟩
  · refine Row.Restricted.solved (hrowFits.terms_restricted hleaving) _ fun leaving hrowBasic => ?_
    rw [BasicOf, hrowBasic, Option.bind_some] at hleavingKind
    rw [hleavingKind, ne_eq, Option.some.injEq]
    exact hleaving
  · rw [Row.constant_solved]
    refine nonneg_of_growth (hrowFits.constant_nonneg hleaving) (hfits.constant_nonneg hrestricted)
      hnegative fun hgrows => hleast j other hother ⟨⟨kind, ?_, hrestricted⟩, hgrows⟩
    rw [BasicOf, hbasic]
    exact hkind
  · exact absurd (hfits.terms_pinned hconst entering hmentions) hentering

/-- The row that limits the entering variable first defines it within its range. -/
theorem fits_solved_of_limits (h : t.Proper) (hentering : t.kindOf entering ≠ some .constant)
    (hrow : t.row? id = some row) (hlimits : t.Limits entering (id, row))
    (hkind : t.kindOf entering = some kind) : (row.solved entering).Fits t.kindOf kind := by
  obtain ⟨⟨leavingKind, hleavingKind, hleaving⟩, hnegative⟩ := hlimits
  obtain ⟨found, hfound, hrowFits⟩ := h.exists_basicOf hrow
  rw [hfound.unique hleavingKind] at hrowFits
  refine Row.fits_of_restricted ?_ ?_ fun hconst => hentering (by rw [hkind, hconst])
  · rw [Row.constant_solved]
    exact div_nonneg (hrowFits.constant_nonneg hleaving) (by linarith)
  · refine Row.Restricted.solved (hrowFits.terms_restricted hleaving) _ fun leaving hrowBasic => ?_
    rw [BasicOf, hrowBasic, Option.bind_some] at hleavingKind
    rw [hleavingKind, ne_eq, Option.some.injEq]
    exact hleaving

/-- The preferred row of a marker leaves all others in range. -/
theorem fits_of_preferred (h : t.Proper) (hrow : t.row? id = some row)
    (hpreferred : t.Preferred marker row)
    (hother : t.row? j = some other) (hbasic : other.basic = some basic)
    (hkind : t.kindOf basic = some kind) :
    (other.substitute marker (row.solved marker)).Fits t.kindOf kind := by
  have hfits := h.fits_of_basic hother hbasic hkind
  have hotherKind : t.BasicOf other kind := by rw [BasicOf, hbasic]; exact hkind
  obtain ⟨found, hfound, hrowFits⟩ := h.exists_basicOf hrow
  have hleavingKind : ∀ leaving, row.basic = some leaving → t.kindOf leaving = some found := by
    intro leaving hleaving
    rw [BasicOf, hleaving, Option.bind_some] at hfound
    exact hfound
  rcases hpreferred with hpinned | ⟨hunpinned, hrest⟩
  · -- The row of a pinned variable is zero.
    rw [hfound.unique hpinned] at hrowFits hleavingKind
    have hpinnedTerms : row.Pinned t.kindOf := hrowFits.terms_pinned rfl
    have hsolved := Row.Pinned.solved hpinnedTerms marker hleavingKind
    refine fits_of_level hfits ?_ hsolved.restricted fun _ => hsolved
    rw [Row.constant_solved, hrowFits.constant_pinned rfl, zero_div]
  · have hbounded : other.coefficient marker ≠ 0 → kind ≠ .unrestricted → t.Bounded other := by
      intro hmentions hrestricted
      refine ⟨kind, hotherKind, hrestricted, ?_⟩
      rintro rfl
      exact hmentions (hunpinned j other hother hotherKind)
    have hnotPinned : other.coefficient marker ≠ 0 → kind ≠ .constant := by
      rintro hmentions rfl
      exact hmentions (hunpinned j other hother hotherKind)
    have hsolved : t.Bounded row → (row.solved marker).Restricted t.kindOf := by
      rintro ⟨leavingKind, hrowKind, hrestricted, -⟩
      rw [hfound.unique hrowKind] at hrowFits hleavingKind
      refine Row.Restricted.solved (hrowFits.terms_restricted hrestricted) _ fun leaving hleaving => ?_
      rw [hleavingKind leaving hleaving, ne_eq, Option.some.injEq]
      exact hrestricted
    rcases hrest with ⟨hrowBounded, hnegative, hleast⟩ | ⟨hnonneg, hrest⟩
    · refine hfits.substitute fun hmentions hrestricted =>
        ⟨hsolved hrowBounded, ?_, fun hconst => absurd hconst (hnotPinned hmentions)⟩
      obtain ⟨leavingKind, hrowKind, hleaving, -⟩ := hrowBounded
      rw [hfound.unique hrowKind] at hrowFits
      rw [Row.constant_solved]
      exact nonneg_of_growth (hrowFits.constant_nonneg hleaving) (hfits.constant_nonneg hrestricted)
        hnegative (hleast j other hother (hbounded hmentions hrestricted))
    · rcases hrest with ⟨hrowBounded, -, hleast⟩ | ⟨hzero, -⟩
      · refine hfits.substitute fun hmentions hrestricted =>
          ⟨hsolved hrowBounded, ?_, fun hconst => absurd hconst (hnotPinned hmentions)⟩
        have hotherBounded := hbounded hmentions hrestricted
        rw [Row.constant_solved]
        exact nonneg_of_shrink (hfits.constant_nonneg hrestricted)
          (hnonneg j other hother hotherBounded) (hleast j other hother hotherBounded)
      · refine hfits.substitute fun hmentions hrestricted => ?_
        exact absurd (hzero j other hother (hbounded hmentions hrestricted)) hmentions

/-! ## Tableaus in reduced form -/

theorem valuesAllowed_iff : t.ValuesAllowed ↔ ∀ id row kind, t.row? id = some row →
    t.BasicOf row kind → kind.Allows row.constant := by
  constructor
  · intro h id row kind hrow hkind
    exact h (id, row) (mem_rowList.mpr hrow) kind hkind
  · intro h entry hentry kind hkind
    exact h entry.1 entry.2 kind (mem_rowList.mp hentry) hkind

theorem restrictedApart_iff : t.RestrictedApart ↔ ∀ id row kind, t.row? id = some row →
    t.BasicOf row kind → kind ≠ .unrestricted → row.Restricted t.kindOf := by
  constructor
  · intro h id row kind hrow hkind hne v hv
    exact h (id, row) (mem_rowList.mpr hrow) kind hkind hne (v, _) (Row.mem_entries.mpr ⟨rfl, hv⟩)
  · intro h entry hentry kind hkind hne term hterm
    obtain ⟨hcoefficient, hterm⟩ := Row.mem_entries.mp hterm
    exact h entry.1 entry.2 kind (mem_rowList.mp hentry) hkind hne term.1 (hcoefficient ▸ hterm)

theorem pinnedApart_iff : t.PinnedApart ↔ ∀ id row, t.row? id = some row →
    t.BasicOf row .constant → row.Pinned t.kindOf := by
  constructor
  · intro h id row hrow hkind v hv
    exact h (id, row) (mem_rowList.mpr hrow) hkind (v, _) (Row.mem_entries.mpr ⟨rfl, hv⟩)
  · intro h entry hentry hkind term hterm
    obtain ⟨hcoefficient, hterm⟩ := Row.mem_entries.mp hterm
    exact h entry.1 entry.2 (mem_rowList.mp hentry) hkind term.1 (hcoefficient ▸ hterm)

theorem brokenQueued_iff : t.BrokenQueued ↔ ∀ j, t.OutOfRange j → j ∈ t.infeasible.rows := by
  constructor
  · intro h j hout
    obtain ⟨row, kind, hrow, hkind, hbroken⟩ := outOfRange_position.mp hout
    exact h (j, row) (mem_rowList.mpr hrow) kind hkind hbroken
  · intro h entry hentry kind hkind hbroken
    exact h entry.1 (outOfRange_position.mpr
      ⟨entry.2, kind, mem_rowList.mp hentry, hkind, hbroken⟩)

theorem ProperFor.valuesAllowed (h : t.Proper) : t.ValuesAllowed := by
  rw [valuesAllowed_iff]
  intro id row kind hrow hkind
  obtain ⟨found, hfound, hfits⟩ := h.exists_basicOf hrow
  exact hfound.unique hkind ▸ hfits.allows

theorem ProperFor.restrictedApart (h : t.Proper) : t.RestrictedApart := by
  rw [restrictedApart_iff]
  intro id row kind hrow hkind hne
  obtain ⟨found, hfound, hfits⟩ := h.exists_basicOf hrow
  exact hfits.terms_restricted (hfound.unique hkind ▸ hne)

theorem ProperFor.pinnedApart (h : t.Proper) : t.PinnedApart := by
  rw [pinnedApart_iff]
  intro id row hrow hkind
  obtain ⟨found, hfound, hfits⟩ := h.exists_basicOf hrow
  exact hfits.terms_pinned (hfound.unique hkind)

/-- The row of a pinned variable mentions none that may enter. -/
theorem PinnedApart.coefficient_eq_zero (h : t.PinnedApart) (hother : t.row? j = some other)
    (hkind : t.BasicOf other .constant) (hentering : t.kindOf entering ≠ some .constant) :
    other.coefficient entering = 0 := by
  by_contra hne
  exact hentering (pinnedApart_iff.mp h j other hother hkind entering hne)

namespace Exchanged

variable {next : Tableau LinearForm Rat}

/-- The rows after an exchange and the kinds of their variables: the solved row, and the other rows with
the entering variable replaced. -/
theorem basicOf_cases (hr : Exchanged t next id entering row) (hother : next.row? j = some other)
    (hkind : next.BasicOf other kind) :
    (j = id ∧ other = row.solved entering ∧ t.kindOf entering = some kind) ∨
      (j ≠ id ∧ ∃ old, t.row? j = some old ∧ t.BasicOf old kind ∧
        other = old.substitute entering (row.solved entering)) := by
  rw [basicOf_congr hr.kindOf] at hkind
  rcases hr.row_cases (Or.inr rfl) hother with ⟨hj, rfl, -⟩ | ⟨hj, old, hold, rfl⟩
  · exact Or.inl ⟨hj, rfl, hkind⟩
  · exact Or.inr ⟨hj, old, hold, basicOf_substitute.mp hkind, rfl⟩

/-- Rows of pinned variables do not mention the entering variable and stay as they are. -/
theorem pinnedApart (h : t.PinnedApart) (hentering : t.kindOf entering ≠ some .constant)
    (hr : Exchanged t next id entering row) : next.PinnedApart := by
  rw [pinnedApart_iff]
  intro j other hother hkind
  rw [funext hr.kindOf]
  rcases hr.basicOf_cases hother hkind with ⟨-, -, hpinned⟩ | ⟨-, old, hold, holdKind, rfl⟩
  · exact absurd hpinned hentering
  · rw [Row.substitute_eq_self (h.coefficient_eq_zero hold holdKind hentering)]
    exact pinnedApart_iff.mp h j old hold holdKind

/-- Rows of restricted variables stay without unrestricted variables, if such a row is solved. -/
theorem restrictedApart (h : t.RestrictedApart) (hrow : t.row? id = some row)
    (hkind : t.BasicOf row kind) (hrestricted : kind ≠ .unrestricted)
    (hr : Exchanged t next id entering row) : next.RestrictedApart := by
  rw [restrictedApart_iff] at h ⊢
  have hsolved : (row.solved entering).Restricted t.kindOf := by
    refine (h id row kind hrow hkind hrestricted).solved entering fun leaving hleaving => ?_
    rw [(basicOf_iff hleaving).mp hkind, ne_eq, Option.some.injEq]
    exact hrestricted
  intro j other otherKind hother hotherKind hne
  rw [funext hr.kindOf]
  rcases hr.basicOf_cases hother hotherKind with ⟨-, rfl, -⟩ | ⟨-, old, hold, holdKind, rfl⟩
  · exact hsolved
  · exact (h j old otherKind hold holdKind hne).substitute hsolved

/-- The row that limits the entering variable first leaves all rows in range. -/
theorem valuesAllowed (h : t.ValuesAllowed) (hpinned : t.PinnedApart)
    (hentering : t.kindOf entering ≠ some .constant) (hrow : t.row? id = some row)
    (hlimits : t.Limits entering (id, row))
    (hleast : ∀ j other, t.row? j = some other → t.Limits entering (j, other) →
      -row.constant / row.coefficient entering ≤ -other.constant / other.coefficient entering)
    (hr : Exchanged t next id entering row) : next.ValuesAllowed := by
  obtain ⟨⟨leavingKind, hleavingKind, hleaving⟩, hnegative⟩ := hlimits
  rw [valuesAllowed_iff] at h ⊢
  have hconstant : 0 ≤ row.constant := (h id row leavingKind hrow hleavingKind).nonneg hleaving
  intro j other kind hother hkind
  rcases hr.basicOf_cases hother hkind with ⟨-, rfl, henteringKind⟩ | ⟨-, old, hold, holdKind, rfl⟩
  · refine VariableKind.allows_of_nonneg (fun hconst => hentering (by rw [henteringKind, hconst])) ?_
    rw [Row.constant_solved]
    exact div_nonneg hconstant (by linarith)
  · have hallowed := h j old kind hold holdKind
    by_cases hfree : kind = .unrestricted
    · rw [hfree]
      trivial
    by_cases hpinnedKind : kind = .constant
    · -- The row of a pinned variable stays as it is.
      rw [hpinnedKind] at holdKind
      rwa [Row.substitute_eq_self (hpinned.coefficient_eq_zero hold holdKind hentering)]
    · refine VariableKind.allows_of_nonneg hpinnedKind ?_
      rw [Row.constant_substitute, Row.constant_solved]
      exact nonneg_of_growth hconstant (hallowed.nonneg hfree) hnegative fun hgrows =>
        hleast j old hold ⟨⟨kind, holdKind, hfree⟩, hgrows⟩

end Exchanged

end Tableau

end LexSimplex
