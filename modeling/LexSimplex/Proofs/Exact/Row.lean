import LexSimplex.Proofs.Exact.LinearForm

/-!
# Rows with exact coefficients

What the operations on rows do to the constant, to each coefficient and to the value of the
right-hand side.  The two facts everything else rests on are

* `eval_substitute`: replacing a variable by a definition that holds does not change the value;
* `holds_solveFor`: solving a row for one of its variables does not change what it says.
-/

namespace LexSimplex

namespace Row

variable {row other definition : Row LinearForm Rat} {a b : Assignment Rat} {v w : VariableId}

/-- The value of the right-hand side as the constant and the value of its linear form. -/
theorem eval_eq (row : Row LinearForm Rat) (a : Assignment Rat) :
    row.eval a = row.constant + row.terms.total a := by
  change row.terms.terms.toList.foldr (fun entry sum => entry.2 * a entry.1 + sum) row.constant =
    row.constant + SortedMap.weighIn id a row.terms.terms.toList
  induction row.terms.terms.toList with
  | nil => simp [SortedMap.weighIn]
  | cons entry rest ih =>
      rw [List.foldr_cons, ih, SortedMap.weighIn_cons, id]
      ring

/-- The listed variables are those with a coefficient other than zero. -/
theorem mem_entries {x : Rat} : (v, x) ∈ row.entries ↔ row.coefficient v = x ∧ x ≠ 0 :=
  LinearForm.mem_toList

theorem isConstant_iff : row.isConstant = true ↔ ∀ v, row.coefficient v = 0 :=
  LinearForm.isEmpty_iff

theorem contains_iff : RowStore.contains row.terms v = true ↔ row.coefficient v ≠ 0 := by
  simp [RowStore.contains, coefficient]

theorem assignBasic_eq_ok (h : row.coefficient v = 0) :
    row.assignBasic v = .ok { row with basic := some v } := by
  unfold assignBasic
  rw [if_neg (fun hmentions => contains_iff.mp hmentions h)]

/-- The value depends only on the variables that occur. -/
theorem eval_congr (h : ∀ v, row.coefficient v ≠ 0 → a v = b v) : row.eval a = row.eval b := by
  rw [eval_eq, eval_eq, LinearForm.total_congr h]

/-- Changing one variable changes the value through its coefficient. -/
theorem eval_update (row : Row LinearForm Rat) (a : Assignment Rat) (v : VariableId) (x : Rat) :
    row.eval (Function.update a v x) = row.eval a + row.coefficient v * (x - a v) := by
  rw [eval_eq, eval_eq, LinearForm.total_update]
  change _ = row.constant + row.terms.total a + row.terms.coefficient v * (x - a v)
  ring

/-- With all variables at zero the value is the constant. -/
theorem eval_zero (row : Row LinearForm Rat) : row.eval (fun _ => 0) = row.constant := by
  rw [eval_eq]
  have hzero : row.terms.total (fun _ => 0) = 0 := by
    simp [LinearForm.total, SortedMap.weigh, SortedMap.weighIn]
  rw [hzero, add_zero]

/-- The row of a variable holds where the variable has the value of the right-hand side. -/
theorem holds_of_basic (hbasic : row.basic = some v) : row.Holds a ↔ a v = row.eval a := by
  unfold Holds
  rw [hbasic]

/-- A row that does not mention its own variable holds for exactly one value of it. -/
theorem holds_update_iff (hbasic : row.basic = some v) (hself : row.coefficient v = 0) (x : Rat) :
    row.Holds (Function.update a v x) ↔ x = row.eval a := by
  rw [holds_of_basic hbasic, Function.update_self, eval_update, hself, zero_mul, add_zero]

/-! ## Adding to a row -/

@[simp] theorem basic_insert (row : Row LinearForm Rat) (v : VariableId) (x : Rat) :
    (row.insert v x).basic = row.basic := rfl

@[simp] theorem constant_insert (row : Row LinearForm Rat) (v : VariableId) (x : Rat) :
    (row.insert v x).constant = row.constant := rfl

@[simp] theorem coefficient_insert (row : Row LinearForm Rat) (v w : VariableId) (x : Rat) :
    (row.insert v x).coefficient w = row.coefficient w + if w = v then x else 0 := by
  change RowStore.get (RowStore.put row.terms v (RowStore.get row.terms v + x)) w =
    RowStore.get row.terms w + if w = v then x else 0
  rw [LinearForm.get_put]
  split
  next h => rw [h]
  next _ => rw [add_zero]

@[simp] theorem eval_insert (row : Row LinearForm Rat) (v : VariableId) (x : Rat)
    (a : Assignment Rat) : (row.insert v x).eval a = row.eval a + x * a v := by
  rw [eval_eq, eval_eq]
  change row.constant + (RowStore.put row.terms v (RowStore.get row.terms v + x)).total a =
    row.constant + row.terms.total a + x * a v
  rw [LinearForm.total_put]
  ring

@[simp] theorem basic_erase (row : Row LinearForm Rat) (v : VariableId) :
    (row.erase v).basic = row.basic := rfl

@[simp] theorem constant_erase (row : Row LinearForm Rat) (v : VariableId) :
    (row.erase v).constant = row.constant := rfl

@[simp] theorem coefficient_erase (row : Row LinearForm Rat) (v w : VariableId) :
    (row.erase v).coefficient w = if w = v then 0 else row.coefficient w :=
  LinearForm.get_erase row.terms v w

theorem coefficient_erase_ne_zero {row : Row LinearForm Rat} {v w : VariableId} :
    (row.erase v).coefficient w ≠ 0 ↔ w ≠ v ∧ row.coefficient w ≠ 0 := by
  rw [coefficient_erase]
  by_cases hw : w = v <;> simp [hw]

@[simp] theorem eval_erase (row : Row LinearForm Rat) (v : VariableId) (a : Assignment Rat) :
    (row.erase v).eval a = row.eval a - row.coefficient v * a v := by
  rw [eval_eq, eval_eq]
  change row.constant + (RowStore.erase row.terms v).total a =
    row.constant + row.terms.total a - row.terms.coefficient v * a v
  rw [LinearForm.total_erase]
  ring

/-- Adding the entries of a list one after the other, as the addition of a row does. -/
theorem foldl_insert (entries : List (VariableId × Rat)) (row : Row LinearForm Rat)
    (factor : Rat) :
    let sum := entries.foldl (fun row entry => row.insert entry.1 (entry.2 * factor)) row
    sum.basic = row.basic ∧ sum.constant = row.constant ∧
      ∀ a, sum.eval a = row.eval a + SortedMap.weighIn id a entries * factor := by
  induction entries generalizing row with
  | nil => simp [SortedMap.weighIn]
  | cons entry rest ih =>
      obtain ⟨hbasic, hconstant, heval⟩ := ih (row.insert entry.1 (entry.2 * factor))
      refine ⟨hbasic, hconstant, fun a => ?_⟩
      rw [List.foldl_cons, heval, eval_insert, SortedMap.weighIn_cons, id]
      ring

@[simp] theorem basic_addRow (row other : Row LinearForm Rat) (factor : Rat) :
    (row.addRow other factor).basic = row.basic :=
  (foldl_insert other.entries _ factor).1

@[simp] theorem constant_addRow (row other : Row LinearForm Rat) (factor : Rat) :
    (row.addRow other factor).constant = row.constant + other.constant * factor :=
  (foldl_insert other.entries _ factor).2.1

@[simp] theorem eval_addRow (row other : Row LinearForm Rat) (factor : Rat)
    (a : Assignment Rat) :
    (row.addRow other factor).eval a = row.eval a + other.eval a * factor := by
  have hsum : (row.addRow other factor).eval a =
      ({ row with constant := row.constant + other.constant * factor } : Row LinearForm Rat).eval a
        + SortedMap.weighIn id a other.entries * factor :=
    (foldl_insert other.entries _ factor).2.2 a
  rw [hsum, eval_eq, eval_eq, eval_eq other]
  change row.constant + other.constant * factor + row.terms.total a +
    other.terms.total a * factor = _
  ring

/-- The coefficients of a row are determined by its values. -/
theorem coefficient_eq_of_eval {x : Rat}
    (h : ∀ a : Assignment Rat, row.eval (Function.update a v 1) = row.eval a + x * (1 - a v)) :
    row.coefficient v = x := by
  have hone := h fun _ => 0
  rw [eval_update] at hone
  linarith

@[simp] theorem coefficient_addRow (row other : Row LinearForm Rat) (factor : Rat)
    (v : VariableId) :
    (row.addRow other factor).coefficient v =
      row.coefficient v + other.coefficient v * factor := by
  refine coefficient_eq_of_eval fun a => ?_
  rw [eval_addRow, eval_addRow, eval_update, eval_update]
  ring

@[simp] theorem basic_negate (row : Row LinearForm Rat) : row.negate.basic = row.basic := rfl

@[simp] theorem constant_negate (row : Row LinearForm Rat) :
    row.negate.constant = -row.constant := rfl

@[simp] theorem coefficient_negate (row : Row LinearForm Rat) (v : VariableId) :
    row.negate.coefficient v = -row.coefficient v :=
  LinearForm.get_negate row.terms v

@[simp] theorem eval_negate (row : Row LinearForm Rat) (a : Assignment Rat) :
    row.negate.eval a = -row.eval a := by
  rw [eval_eq, eval_eq]
  change -row.constant + (RowStore.negate row.terms).total a = _
  rw [LinearForm.total_negate]
  ring

/-! ## Replacing a variable by its definition -/

@[simp] theorem basic_substitute (row definition : Row LinearForm Rat) (v : VariableId) :
    (row.substitute v definition).basic = row.basic := by
  unfold substitute
  split
  · rfl
  · rw [basic_addRow, basic_erase]

/-- A variable without a coefficient is not there to be replaced. -/
theorem substitute_eq_self (h : row.coefficient v = 0) : row.substitute v definition = row := by
  unfold substitute
  rw [LinearForm.find?_eq_none.mpr h]

theorem substitute_eq_addRow (h : row.coefficient v ≠ 0) :
    row.substitute v definition = (row.erase v).addRow definition (row.coefficient v) := by
  unfold substitute
  rw [LinearForm.find?_eq_some.mpr ⟨rfl, h⟩]
  rfl

@[simp] theorem constant_substitute (row definition : Row LinearForm Rat) (v : VariableId) :
    (row.substitute v definition).constant =
      row.constant + row.coefficient v * definition.constant := by
  by_cases h : row.coefficient v = 0
  · rw [substitute_eq_self h, h]
    ring
  · rw [substitute_eq_addRow h, constant_addRow, constant_erase]
    ring

@[simp] theorem coefficient_substitute (row definition : Row LinearForm Rat)
    (v w : VariableId) :
    (row.substitute v definition).coefficient w =
      (if w = v then 0 else row.coefficient w) + row.coefficient v * definition.coefficient w := by
  by_cases h : row.coefficient v = 0
  · rw [substitute_eq_self h, h]
    split
    next hw => rw [hw, h]; ring
    next _ => ring
  · rw [substitute_eq_addRow h, coefficient_addRow, coefficient_erase]
    ring

theorem eval_substitute (row definition : Row LinearForm Rat) (v : VariableId)
    (a : Assignment Rat) :
    (row.substitute v definition).eval a =
      row.eval a + row.coefficient v * (definition.eval a - a v) := by
  by_cases h : row.coefficient v = 0
  · rw [substitute_eq_self h, h]
    ring
  · rw [substitute_eq_addRow h, eval_addRow, eval_erase]
    ring

/-- Replacing a variable by a definition that holds does not change what a row says. -/
theorem holds_substitute (h : a v = definition.eval a) :
    (row.substitute v definition).Holds a ↔ row.Holds a := by
  have heval : (row.substitute v definition).eval a = row.eval a := by
    rw [eval_substitute, h]
    ring
  unfold Holds
  rw [basic_substitute, heval]

/-! ## Solving a row for one of its variables -/

theorem unsigned_eq (x : Rat) : unsigned x = x := by
  unfold unsigned
  split
  next h =>
    have hx : x = 0 := by simpa using h
    exact hx.symm
  next _ => rfl

/-- The value of the left-hand side, zero without a basic variable. -/
def left (row : Row LinearForm Rat) (a : Assignment Rat) : Rat :=
  match row.basic with
  | some basic => a basic
  | none => 0

theorem holds_iff : row.Holds a ↔ row.left a = row.eval a := by
  unfold Holds left
  cases row.basic <;> rfl

/-- The right-hand side with the basic variable moved over, before the division. -/
def moved (row : Row LinearForm Rat) (entering : VariableId) : LinearForm :=
  match row.basic with
  | some leaving => RowStore.put (RowStore.erase row.terms entering) leaving (-1)
  | none => RowStore.erase row.terms entering

/-- The row solved for a variable that occurs in it. -/
def solved (row : Row LinearForm Rat) (entering : VariableId) : Row LinearForm Rat where
  basic := some entering
  constant := row.constant / -row.coefficient entering
  terms := RowStore.divideBy (row.moved entering) (-row.coefficient entering)

theorem solveFor_eq_ok (h : row.coefficient v ≠ 0) : row.solveFor v = .ok (row.solved v) := by
  unfold solveFor
  rw [LinearForm.find?_eq_some.mpr ⟨rfl, h⟩]
  simp only [unsigned_eq]
  unfold solved moved
  cases row.basic <;> rfl

theorem pivot_eq_ok {leaving : VariableId} (hbasic : row.basic = some leaving)
    (h : row.coefficient v ≠ 0) : row.pivot v leaving = .ok (row.solved v) := by
  unfold pivot
  rw [if_pos hbasic, solveFor_eq_ok h]

@[simp] theorem basic_solved (row : Row LinearForm Rat) (v : VariableId) :
    (row.solved v).basic = some v := rfl

theorem constant_solved (row : Row LinearForm Rat) (v : VariableId) :
    (row.solved v).constant = row.constant / -row.coefficient v := rfl

/-- The solved row mentions what the row did, less the entering variable, and the one that was
basic. -/
theorem coefficient_solved (row : Row LinearForm Rat) (v w : VariableId) :
    (row.solved v).coefficient w =
      (if row.basic = some w then -1 else if w = v then 0 else row.coefficient w) /
        -row.coefficient v := by
  change RowStore.get (RowStore.divideBy (row.moved v) (-row.coefficient v)) w = _
  rw [LinearForm.get_divideBy]
  congr 1
  unfold moved
  cases row.basic with
  | none => simp [coefficient]
  | some leaving => simp [coefficient, eq_comm (a := leaving)]

theorem coefficient_solved_self (hbasic : row.basic ≠ some v) :
    (row.solved v).coefficient v = 0 := by
  rw [coefficient_solved, if_neg hbasic, if_pos rfl, zero_div]

/-- Only the old basic variable and the other variables of the row occur in the solved row. -/
theorem coefficient_solved_ne_zero (h : (row.solved v).coefficient w ≠ 0) :
    row.basic = some w ∨ w ≠ v ∧ row.coefficient w ≠ 0 := by
  rw [coefficient_solved] at h
  by_cases hbasic : row.basic = some w
  · exact Or.inl hbasic
  · rw [if_neg hbasic] at h
    by_cases hw : w = v
    · simp [hw] at h
    · rw [if_neg hw] at h
      exact Or.inr ⟨hw, fun hzero => h (by rw [hzero, zero_div])⟩

theorem total_moved (row : Row LinearForm Rat) (v : VariableId) (a : Assignment Rat)
    (hbasic : ∀ leaving, row.basic = some leaving → row.coefficient leaving = 0) :
    (row.moved v).total a = row.terms.total a - row.coefficient v * a v - row.left a := by
  unfold moved left
  cases hleaving : row.basic with
  | none =>
      change (RowStore.erase row.terms v).total a = _
      rw [LinearForm.total_erase]
      simp only [sub_zero]
      rfl
  | some leaving =>
      change (RowStore.put (RowStore.erase row.terms v) leaving (-1)).total a = _
      have hzero : RowStore.get (RowStore.erase row.terms v) leaving = 0 := by
        rw [LinearForm.get_erase]
        split
        · rfl
        · exact hbasic leaving hleaving
      rw [LinearForm.total_put, LinearForm.total_erase]
      unfold LinearForm.coefficient
      rw [hzero]
      change row.terms.total a - row.coefficient v * a v + (-1 - 0) * a leaving = _
      ring

/-- Solving a row for one of its variables does not change what it says. -/
theorem holds_solved (hbasic : ∀ leaving, row.basic = some leaving → row.coefficient leaving = 0)
    (h : row.coefficient v ≠ 0) : (row.solved v).Holds a ↔ row.Holds a := by
  rw [holds_iff, holds_iff]
  have hleft : (row.solved v).left a = a v := rfl
  have heval : (row.solved v).eval a =
      (row.constant + (row.terms.total a - row.coefficient v * a v - row.left a)) /
        -row.coefficient v := by
    rw [eval_eq]
    change row.constant / -row.coefficient v +
      (RowStore.divideBy (row.moved v) (-row.coefficient v)).total a = _
    rw [LinearForm.total_divideBy, total_moved row v a hbasic]
    ring
  have hneg : -row.coefficient v ≠ 0 := neg_ne_zero.mpr h
  rw [hleft, heval, eval_eq row, eq_div_iff hneg]
  constructor
  · intro hsolved
    linarith
  · intro hrow
    linarith

end Row

end LexSimplex
