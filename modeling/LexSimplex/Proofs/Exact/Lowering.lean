import LexSimplex.Proofs.Exact.Variables
import LexSimplex.Proofs.Handles

/-!
# Expressions as rows

Lowering an expression replaces every basic variable by its definition.  On the solutions of the
tableau the resulting row has the value of the expression (`exists_rowOf`), and it mentions
variables without a definition only.
-/

namespace LexSimplex

namespace Expression

variable {a b : Assignment Rat}

/-- The value of an expression as its constant and the values of its terms. -/
theorem eval_eq (e : Expression Rat) (a : Assignment Rat) :
    e.eval a = e.constant + (e.terms.map fun term => term.1 * a term.2.id).sum := by
  unfold eval
  induction e.terms with
  | nil => simp
  | cons term rest ih =>
      rw [List.foldr_cons, ih, List.map_cons, List.sum_cons]
      ring

/-- Changing one variable changes the value through its net coefficient. -/
theorem eval_update (e : Expression Rat) (a : Assignment Rat) (v : VariableId) (x : Rat) :
    e.eval (Function.update a v x) = e.eval a + e.netCoefficient v * (x - a v) := by
  unfold eval netCoefficient
  induction e.terms with
  | nil => simp
  | cons term rest ih =>
      rw [List.foldr_cons, List.foldr_cons, List.foldr_cons, ih]
      by_cases hv : term.2.id = v
      · rw [hv, Function.update_self, if_pos rfl]
        ring
      · rw [Function.update_of_ne hv, if_neg hv]
        ring

/-- A variable with a net coefficient other than zero is mentioned. -/
theorem exists_mention {e : Expression Rat} {v : VariableId} (h : e.netCoefficient v ≠ 0) :
    ∃ term ∈ e.terms, term.2.id = v := by
  by_contra hnone
  apply h
  unfold netCoefficient
  have habsent : ∀ term ∈ e.terms, term.2.id ≠ v := fun term hterm hv => hnone ⟨term, hterm, hv⟩
  revert habsent
  induction e.terms with
  | nil => exact fun _ => rfl
  | cons term rest ih =>
      intro habsent
      rw [List.foldr_cons, if_neg (habsent term List.mem_cons_self)]
      exact ih fun other hother => habsent other (List.mem_cons_of_mem _ hother)

/-- The value depends only on the variables with a net coefficient other than zero. -/
theorem eval_congr {e : Expression Rat} (h : ∀ v, e.netCoefficient v ≠ 0 → a v = b v) :
    e.eval a = e.eval b := by
  -- One mentioned variable after the other is moved from its value in `a` to that in `b`.
  have hmove : ∀ (vs : List VariableId) (a : Assignment Rat),
      (∀ v, e.netCoefficient v ≠ 0 → a v = b v) →
      (∀ v, a v ≠ b v → (∃ term ∈ e.terms, term.2.id = v) → v ∈ vs) → e.eval a = e.eval b := by
    intro vs
    induction vs with
    | nil =>
        intro a _ hall
        rw [eval_eq, eval_eq]
        congr 2
        refine List.map_congr_left fun term hterm => ?_
        have hsame : a term.2.id = b term.2.id := by
          by_contra hne
          exact absurd (hall _ hne ⟨term, hterm, rfl⟩) List.not_mem_nil
        rw [hsame]
    | cons v vs ih =>
        intro a hnet hall
        have hstep : e.eval (Function.update a v (b v)) = e.eval a := by
          rw [eval_update]
          by_cases hv : e.netCoefficient v = 0
          · rw [hv]
            ring
          · rw [hnet v hv]
            ring
        rw [← hstep]
        refine ih _ (fun w hw => ?_) fun w hne hmention => ?_
        · by_cases hwv : w = v
          · rw [hwv, Function.update_self]
          · rw [Function.update_of_ne hwv]
            exact hnet w hw
        · have hwv : w ≠ v := by
            rintro rfl
            rw [Function.update_self] at hne
            exact hne rfl
          rw [Function.update_of_ne hwv] at hne
          exact (List.mem_cons.mp (hall w hne hmention)).resolve_left hwv
  refine hmove (e.terms.map fun term => term.2.id) a h fun v _ hmention => ?_
  obtain ⟨term, hterm, rfl⟩ := hmention
  exact List.mem_map_of_mem hterm

end Expression

namespace Tableau

variable {t : Tableau LinearForm Rat} {row : Row LinearForm Rat}

/-- Adding a term to a row adds its value on every solution. -/
theorem exists_addTerm (h : t.Proper) (hterms : ∀ w, row.coefficient w ≠ 0 → t.Free w) (x : Rat)
    {v : VariableId} (hlive : (t.kindOf v).isSome) :
    ∃ out, t.addTerm row (x, v) = .ok out ∧ out.basic = row.basic ∧
      (∀ a, t.Holds a → out.eval a = row.eval a + x * a v) ∧
      ∀ w, out.coefficient w ≠ 0 → t.Free w := by
  obtain ⟨kind, hkind⟩ := Option.isSome_iff_exists.mp hlive
  obtain ⟨record, hrecord, -⟩ := Option.map_eq_some_iff.mp hkind
  unfold addTerm
  simp only
  by_cases hx : x = 0
  · refine ⟨row, by simp [hx, pure, Except.pure], rfl, fun a _ => ?_, hterms⟩
    rw [hx]
    ring
  · rw [if_neg (by simpa using hx), Registry.record_eq_ok hrecord]
    simp only [liftM, monadLift, MonadLift.monadLift, mapError_eq, bind, Except.bind]
    cases hdefinition : record.definition with
    | none =>
        refine ⟨row.insert v x, rfl, rfl, fun a _ => Row.eval_insert row v x a, fun w hw => ?_⟩
        by_cases hwv : w = v
        · exact hwv ▸ ⟨record, hrecord, hdefinition⟩
        · rw [Row.coefficient_insert, if_neg hwv, add_zero] at hw
          exact hterms w hw
    | some id =>
        obtain ⟨other, hother, hbasic⟩ :=
          h.row_of_definition (v := v) (by rw [definitionOf_eq hrecord, hdefinition])
        simp only
        rw [row_eq_ok hother]
        refine ⟨row.addRow other x, rfl, Row.basic_addRow row other x, fun a ha => ?_,
          fun w hw => ?_⟩
        · have hvalue := (Row.holds_of_basic hbasic).mp (holds_iff.mp ha id other hother)
          rw [Row.eval_addRow, hvalue]
          ring
        · rw [Row.coefficient_addRow] at hw
          by_cases hrow : row.coefficient w = 0
          · rw [hrow, zero_add] at hw
            exact h.terms_free hother (left_ne_zero_of_mul hw)
          · exact hterms w hrow

theorem exists_expectedWidth (h : t.Proper) (terms : List (Rat × VariableId))
    (hlive : ∀ term ∈ terms, (t.kindOf term.2).isSome) :
    ∃ width, t.expectedWidth terms = .ok width := by
  have hfold := foldlM_ok (f := fun width (term : Rat × VariableId) =>
    (do return width + (← t.widthOf term.2) : Except Failure Nat)) (fun _ _ => True) terms 2 trivial
    fun _ term width hterm _ => ?_
  · obtain ⟨width, hwidth, -⟩ := hfold
    exact ⟨width, hwidth⟩
  · obtain ⟨kind, hkind⟩ := Option.isSome_iff_exists.mp (hlive term hterm)
    obtain ⟨record, hrecord, -⟩ := Option.map_eq_some_iff.mp hkind
    suffices hwidth : ∃ added, t.widthOf term.2 = .ok added by
      obtain ⟨added, hadded⟩ := hwidth
      exact ⟨width + added, by rw [hadded]; rfl, trivial⟩
    unfold widthOf
    rw [Registry.record_eq_ok hrecord]
    simp only [liftM, monadLift, MonadLift.monadLift, mapError_eq, bind, Except.bind]
    cases hdefinition : record.definition with
    | none => exact ⟨1, rfl⟩
    | some id =>
        obtain ⟨row, hrow, -⟩ :=
          h.row_of_definition (v := term.2) (by rw [definitionOf_eq hrecord, hdefinition])
        simp only
        rw [row_eq_ok hrow]
        exact ⟨row.size, rfl⟩

/-- An expression over live variables becomes a row that has its value on every solution. -/
theorem exists_rowOf (h : t.Proper) (settings : Settings) (constant : Rat)
    (terms : List (Rat × VariableId)) (hlive : ∀ term ∈ terms, (t.kindOf term.2).isSome) :
    ∃ row, t.rowOf settings constant terms = .ok row ∧ row.basic = none ∧
      (∀ a, t.Holds a → row.eval a = constant + (terms.map fun term => term.1 * a term.2).sum) ∧
      ∀ w, row.coefficient w ≠ 0 → t.Free w := by
  obtain ⟨width, hwidth⟩ := exists_expectedWidth h terms hlive
  have hempty : ∀ w, (⟨none, constant, RowStore.forRow settings width⟩ :
      Row LinearForm Rat).coefficient w = 0 := fun w => LinearForm.get_forRow settings width w
  have hfold := foldlM_ok (f := t.addTerm) (fun seen (row : Row LinearForm Rat) =>
      row.basic = none ∧
      (∀ a, t.Holds a → row.eval a = constant + (seen.map fun term => term.1 * a term.2).sum) ∧
      ∀ w, row.coefficient w ≠ 0 → t.Free w)
    terms ⟨none, constant, RowStore.forRow settings width⟩ ⟨rfl, fun a _ => ?_, fun w hw => ?_⟩
    fun seen term row hterm hseen => ?_
  · obtain ⟨row, hrow, hspec⟩ := hfold
    refine ⟨row, ?_, hspec⟩
    unfold rowOf
    rw [hwidth]
    exact hrow
  · rw [Row.eval_eq]
    simp
  · exact absurd (hempty w) hw
  · obtain ⟨hbasic, heval, hfree⟩ := hseen
    obtain ⟨out, hout, houtBasic, houtEval, houtFree⟩ :=
      exists_addTerm h hfree term.1 (hlive term hterm)
    refine ⟨out, hout, houtBasic.trans hbasic, fun a ha => ?_, houtFree⟩
    rw [houtEval a ha, heval a ha, List.map_append, List.sum_append, List.map_singleton,
      List.sum_singleton]
    ring

end Tableau

end LexSimplex
