import LexSimplex.Proofs.Exact.Range

/-!
# The variable a new row is solved for

The rules that decide how a new row enters the basis look at the kinds of its variables, in order.
`Subject.Justified` states what each answer of `chooseSubject` means for the row, and
`exists_zeroLevelEntering` what replaces an artificial variable at level zero.
-/

namespace LexSimplex

namespace Tableau

variable {t : Tableau LinearForm Rat} {row : Row LinearForm Rat} {tag : Tag Rat}

/-- The search for the first variable of a kind answers with one that passes, if there is one. -/
theorem exists_firstOfKind {β : Type} (test : VariableKind → Bool) (xs : List (VariableId × β))
    (hlive : ∀ entry ∈ xs, (t.kindOf entry.1).isSome) :
    ∃ choice, t.registry.firstOfKind test xs = .ok choice ∧
      (∀ v, choice = some v → (∃ x, (v, x) ∈ xs) ∧ ∃ kind, t.kindOf v = some kind ∧ test kind) ∧
      (choice = none → ∀ entry ∈ xs, ∀ kind, t.kindOf entry.1 = some kind → test kind = false) := by
  induction xs with
  | nil => exact ⟨none, rfl, by simp, by simp⟩
  | cons entry rest ih =>
      obtain ⟨v, x⟩ := entry
      obtain ⟨kind, hkind⟩ := Option.isSome_iff_exists.mp (hlive (v, x) List.mem_cons_self)
      obtain ⟨record, hrecord, hrecordKind⟩ := Option.map_eq_some_iff.mp hkind
      obtain ⟨choice, hchoice, hsome, hnone⟩ :=
        ih fun entry hentry => hlive entry (List.mem_cons_of_mem _ hentry)
      unfold Registry.firstOfKind
      rw [Registry.kind_eq_ok hrecord, hrecordKind]
      simp only [bind, Except.bind]
      by_cases htest : test kind = true
      · rw [if_pos htest]
        refine ⟨some v, rfl, fun w hw => ?_, by simp⟩
        obtain rfl : v = w := by simpa using hw
        exact ⟨⟨x, List.mem_cons_self⟩, kind, hkind, htest⟩
      · rw [if_neg htest]
        refine ⟨choice, hchoice, fun w hw => ?_, fun hnothing other hother found hfound => ?_⟩
        · obtain ⟨⟨y, hy⟩, hkindW⟩ := hsome w hw
          exact ⟨⟨y, List.mem_cons_of_mem _ hy⟩, hkindW⟩
        · rcases List.mem_cons.mp hother with rfl | hrest
          · rw [hkind, Option.some.injEq] at hfound
            subst hfound
            simpa using htest
          · exact hnone hnothing other hrest found hfound

/-- The search among the variables of a constraint answers with one that may become basic and has a
negative coefficient, if there is one. -/
theorem exists_ownSubject (row : Row LinearForm Rat) (own : List VariableId)
    (hlive : ∀ v ∈ own, (t.kindOf v).isSome) :
    ∃ choice, t.ownSubject row own = .ok choice ∧
      (∀ v, choice = some v → v ∈ own ∧ row.coefficient v < 0 ∧
        ∃ kind, t.kindOf v = some kind ∧ kind.isPivotable) ∧
      (choice = none → ∀ v ∈ own, ∀ kind, t.kindOf v = some kind → kind.isPivotable →
        0 ≤ row.coefficient v) := by
  induction own with
  | nil => exact ⟨none, rfl, by simp, by simp⟩
  | cons v rest ih =>
      obtain ⟨kind, hkind⟩ := Option.isSome_iff_exists.mp (hlive v List.mem_cons_self)
      obtain ⟨record, hrecord, hrecordKind⟩ := Option.map_eq_some_iff.mp hkind
      obtain ⟨choice, hchoice, hsome, hnone⟩ := ih fun w hw => hlive w (List.mem_cons_of_mem _ hw)
      unfold ownSubject
      rw [Registry.kind_eq_ok hrecord, hrecordKind]
      simp only [bind, Except.bind]
      by_cases htest : (kind.isPivotable && decide (row.coefficient v < 0)) = true
      · rw [if_pos htest]
        rw [Bool.and_eq_true, decide_eq_true_eq] at htest
        refine ⟨some v, rfl, fun w hw => ?_, by simp⟩
        obtain rfl : v = w := by simpa using hw
        exact ⟨List.mem_cons_self, htest.2, kind, hkind, htest.1⟩
      · rw [if_neg htest]
        refine ⟨choice, hchoice, fun w hw => ?_, fun hnothing w hw found hfound hpivotable => ?_⟩
        · obtain ⟨hmem, hrest⟩ := hsome w hw
          exact ⟨List.mem_cons_of_mem _ hmem, hrest⟩
        · rcases List.mem_cons.mp hw with rfl | hrest
          · rw [hkind, Option.some.injEq] at hfound
            subst hfound
            rw [hpivotable, Bool.true_and, decide_eq_true_eq] at htest
            exact le_of_not_gt htest
          · exact hnone hnothing w hrest found hfound hpivotable

theorem exists_onlyPinned (xs : List (VariableId × Rat))
    (hlive : ∀ entry ∈ xs, (t.kindOf entry.1).isSome) :
    ∃ answer, t.onlyPinned xs = .ok answer ∧
      (answer = true ↔ ∀ entry ∈ xs, t.kindOf entry.1 = some .constant) := by
  induction xs with
  | nil => exact ⟨true, rfl, by simp⟩
  | cons entry rest ih =>
      obtain ⟨v, x⟩ := entry
      obtain ⟨kind, hkind⟩ := Option.isSome_iff_exists.mp (hlive (v, x) List.mem_cons_self)
      obtain ⟨record, hrecord, hrecordKind⟩ := Option.map_eq_some_iff.mp hkind
      obtain ⟨answer, hanswer, hiff⟩ :=
        ih fun entry hentry => hlive entry (List.mem_cons_of_mem _ hentry)
      unfold onlyPinned
      rw [Registry.kind_eq_ok hrecord, hrecordKind]
      simp only [bind, Except.bind]
      by_cases hconst : kind = .constant
      · rw [if_pos hconst]
        refine ⟨answer, hanswer, ?_⟩
        rw [hiff, List.forall_mem_cons, hkind, hconst]
        simp
      · rw [if_neg hconst]
        refine ⟨false, rfl, ?_⟩
        rw [List.forall_mem_cons, hkind]
        simp [hconst]

/-- What an answer of `chooseSubject` says about a row. -/
def Justifies (t : Tableau LinearForm Rat) (row : Row LinearForm Rat) (tag : Tag Rat) :
    Subject → Prop
  | .variable v =>
      t.kindOf v = some .unrestricted ∧ row.coefficient v ≠ 0 ∨
      row.Restricted t.kindOf ∧ v ∈ tag.own ∧ row.coefficient v < 0 ∧
        (∃ kind, t.kindOf v = some kind ∧ kind.isPivotable) ∨
      row.Pinned t.kindOf ∧ row.constant = 0 ∧ v = tag.marker
  | .artificial => row.Restricted t.kindOf ∧
      ∀ v ∈ tag.own, ∀ kind, t.kindOf v = some kind → kind.isPivotable → 0 ≤ row.coefficient v
  | .contradiction => row.Pinned t.kindOf ∧ row.constant ≠ 0

/-- The choice of a subject succeeds and is justified. -/
theorem exists_chooseSubject (hterms : ∀ v, row.coefficient v ≠ 0 → t.Free v)
    (hown : ∀ v ∈ tag.own, t.Free v) :
    ∃ subject, t.chooseSubject row tag = .ok subject ∧ t.Justifies row tag subject := by
  have hlive : ∀ entry ∈ row.entries, (t.kindOf entry.1).isSome := by
    rintro ⟨v, x⟩ hentry
    obtain ⟨hx, hne⟩ := Row.mem_entries.mp hentry
    exact (hterms v (hx ▸ hne)).kindOf_isSome
  obtain ⟨unrestricted, hfirst, hsome, hnone⟩ :=
    exists_firstOfKind (fun kind => decide (kind = .unrestricted)) row.entries hlive
  obtain ⟨own, hownSubject, hownSome, hownNone⟩ :=
    exists_ownSubject row tag.own fun v hv => (hown v hv).kindOf_isSome
  obtain ⟨pinned, honlyPinned, hpinned⟩ := exists_onlyPinned row.entries hlive
  unfold chooseSubject
  rw [hfirst, hownSubject, honlyPinned]
  simp only [bind, Except.bind]
  cases hunrestricted : unrestricted with
  | some v =>
      obtain ⟨⟨x, hx⟩, kind, hkind, htest⟩ := hsome v hunrestricted
      obtain ⟨hcoefficient, hne⟩ := Row.mem_entries.mp hx
      refine ⟨.variable v, rfl, Or.inl ⟨?_, hcoefficient ▸ hne⟩⟩
      rw [hkind, of_decide_eq_true htest]
  | none =>
      have hrestricted : row.Restricted t.kindOf := by
        intro v hv hkind
        have htest := hnone hunrestricted (v, row.coefficient v) (Row.mem_entries.mpr ⟨rfl, hv⟩)
          .unrestricted hkind
        simp at htest
      simp only
      cases hcase : own with
      | some v => exact ⟨.variable v, rfl, Or.inr (Or.inl ⟨hrestricted, hownSome v hcase⟩)⟩
      | none =>
          simp only
          by_cases hall : pinned = true
          · have hterms : row.Pinned t.kindOf := fun v hv =>
              hpinned.mp hall (v, row.coefficient v) (Row.mem_entries.mpr ⟨rfl, hv⟩)
            rw [if_pos hall]
            by_cases hconstant : row.constant = 0
            · refine ⟨.variable tag.marker, ?_, Or.inr (Or.inr ⟨hterms, hconstant, rfl⟩)⟩
              simp [hconstant, pure, Except.pure]
            · refine ⟨.contradiction, ?_, hterms, hconstant⟩
              simp [hconstant, pure, Except.pure]
          · rw [if_neg hall]
            exact ⟨.artificial, rfl, hrestricted, hownNone hcase⟩

/-- An artificial variable at level zero is replaced by a slack or error variable of its row, unless
the row has none. -/
theorem exists_zeroLevelEntering (hterms : ∀ v, row.coefficient v ≠ 0 → t.Free v)
    (hrow : row.isConstant = false) :
    ∃ v, t.zeroLevelEntering row = .ok (some v) ∧ row.coefficient v ≠ 0 ∧
      ((∃ kind, t.kindOf v = some kind ∧ kind.isPivotable) ∨
        ∀ w kind, row.coefficient w ≠ 0 → t.kindOf w = some kind → kind.isPivotable = false) := by
  have hlive : ∀ entry ∈ row.entries, (t.kindOf entry.1).isSome := by
    rintro ⟨v, x⟩ hentry
    obtain ⟨hx, hne⟩ := Row.mem_entries.mp hentry
    exact (hterms v (hx ▸ hne)).kindOf_isSome
  obtain ⟨choice, hchoice, hsome, hnone⟩ :=
    exists_firstOfKind VariableKind.isPivotable row.entries hlive
  unfold zeroLevelEntering
  rw [hchoice]
  simp only [bind, Except.bind]
  cases hcase : choice with
  | some v =>
      obtain ⟨⟨x, hx⟩, hkind⟩ := hsome v hcase
      obtain ⟨hcoefficient, hne⟩ := Row.mem_entries.mp hx
      exact ⟨v, rfl, hcoefficient ▸ hne, Or.inl hkind⟩
  | none =>
      cases hentries : row.entries with
      | nil =>
          -- A row without entries is constant.
          have hconstant : row.isConstant = true := by
            rw [Row.isConstant_iff]
            intro v
            by_contra hne
            have hmem : (v, row.coefficient v) ∈ row.entries := Row.mem_entries.mpr ⟨rfl, hne⟩
            rw [hentries] at hmem
            simp at hmem
          rw [hconstant] at hrow
          simp at hrow
      | cons entry rest =>
          obtain ⟨v, x⟩ := entry
          have hmem : (v, x) ∈ row.entries := by rw [hentries]; exact List.mem_cons_self
          obtain ⟨hcoefficient, hne⟩ := Row.mem_entries.mp hmem
          refine ⟨v, rfl, hcoefficient ▸ hne, Or.inr fun w kind hw hkind => ?_⟩
          exact hnone hcase (w, row.coefficient w) (Row.mem_entries.mpr ⟨rfl, hw⟩) kind hkind

end Tableau

end LexSimplex
