import LexSimplex.Proofs.Exact.Row

/-!
# Objectives with exact coefficients

An objective is read level by level: `rate` is the coefficient of a variable at a level and `level`
the value of the objective there.  At every level an objective behaves like the right-hand side of a
row, and the lemmas below are the same as those for rows.

`Clean` objectives store no vector that is zero at all levels.  Every operation keeps an objective
clean, so that a variable occurs in it exactly when one of its rates is not zero.
-/

namespace LexSimplex

namespace StrengthVector

theorem get_zero (s : Strength) : (zero : StrengthVector Rat).get s = 0 := by
  rw [zero, get_ofFn]

theorem get_unit (t s : Strength) :
    (unit t : StrengthVector Rat).get s = if s = t then 1 else 0 := by
  rw [unit, get_ofFn]

theorem get_addMultiple (v w : StrengthVector Rat) (factor : Rat) (s : Strength) :
    (v.addMultiple w factor).get s = v.get s + w.get s * factor := by
  rw [addMultiple, get_ofFn]

theorem isZero_iff {v : StrengthVector Rat} : v.isZero = true ↔ ∀ s, v.get s = 0 := by
  unfold isZero Strength.ascending
  simp only [List.all_cons, List.all_nil, Bool.and_true, Bool.and_eq_true, beq_iff_eq]
  constructor
  · rintro ⟨h0, h1, h2, h3, h4, h5⟩ s
    cases s <;> assumption
  · intro h
    exact ⟨h _, h _, h _, h _, h _, h _⟩

end StrengthVector

namespace Goal

variable {g : Goal Rat} {a b : Assignment Rat} {v w : VariableId} {s : Strength}

/-- The coefficient of a variable at one level. -/
def rate (g : Goal Rat) (s : Strength) (v : VariableId) : Rat :=
  ((g.coefficient? v).getD .zero).get s

/-- The value of an objective at one level. -/
def level (g : Goal Rat) (s : Strength) (a : Assignment Rat) : Rat := (g.eval a).get s

/-- No vector that is zero at all levels is stored. -/
def Clean (g : Goal Rat) : Prop :=
  ∀ v vector, g.coefficient? v = some vector → vector.isZero = false

theorem level_eq (g : Goal Rat) (s : Strength) (a : Assignment Rat) :
    g.level s a = g.constant.get s + g.terms.weigh (fun vector => vector.get s) a := by
  unfold level eval SortedMap.weigh
  induction g.terms.toList with
  | nil => simp [SortedMap.weighIn]
  | cons entry rest ih =>
      rw [List.foldr_cons, StrengthVector.get_addMultiple, ih, SortedMap.weighIn_cons]
      ring

theorem weightOf_coefficient? (g : Goal Rat) (s : Strength) (v : VariableId) :
    SortedMap.weightOf (fun vector => vector.get s) (g.terms.find? v) = g.rate s v := by
  unfold rate coefficient?
  cases g.terms.find? v with
  | none => exact (StrengthVector.get_zero s).symm
  | some vector => rfl

theorem rate_eq_zero_of_none (h : g.coefficient? v = none) (s : Strength) : g.rate s v = 0 := by
  unfold rate
  rw [h]
  exact StrengthVector.get_zero s

theorem rate_eq_get {vector : StrengthVector Rat} (h : g.coefficient? v = some vector)
    (s : Strength) : g.rate s v = vector.get s := by
  unfold rate
  rw [h]
  rfl

/-- In a clean objective a variable is absent exactly when all its rates are zero. -/
theorem Clean.coefficient?_eq_none (h : g.Clean) :
    g.coefficient? v = none ↔ ∀ s, g.rate s v = 0 := by
  constructor
  · exact rate_eq_zero_of_none
  · intro hrate
    cases hvector : g.coefficient? v with
    | none => rfl
    | some vector =>
        have hzero : vector.isZero = true := by
          rw [StrengthVector.isZero_iff]
          intro s
          rw [← rate_eq_get hvector, hrate s]
        rw [h v vector hvector] at hzero
        exact absurd hzero Bool.false_ne_true

/-- The value depends only on the variables that occur. -/
theorem level_congr (h : ∀ v, (g.coefficient? v).isSome → a v = b v) :
    g.level s a = g.level s b := by
  rw [level_eq, level_eq, SortedMap.weigh_congr]
  intro v vector hvector
  rw [h v (by rw [coefficient?, hvector]; rfl)]

/-! ## Adding to an objective -/

theorem coefficient?_insert (g : Goal Rat) (v w : VariableId) (vector : StrengthVector Rat)
    (factor : Rat) :
    (g.insert v vector factor).coefficient? w =
      if w = v then
        if (((g.coefficient? v).getD .zero).addMultiple vector factor).isZero then none
        else some (((g.coefficient? v).getD .zero).addMultiple vector factor)
      else g.coefficient? w := by
  unfold insert coefficient?
  simp only
  split
  next hzero =>
    rw [SortedMap.find?_erase]
    simp only [SortedMap.rank_eq_iff, eq_comm (a := v)]
  next hne =>
    rw [SortedMap.find?_insert]
    simp only [SortedMap.rank_eq_iff, eq_comm (a := v)]

@[simp] theorem constant_insert (g : Goal Rat) (v : VariableId) (vector : StrengthVector Rat)
    (factor : Rat) : (g.insert v vector factor).constant = g.constant := rfl

theorem level_insert (g : Goal Rat) (v : VariableId) (vector : StrengthVector Rat)
    (factor : Rat) (s : Strength) (a : Assignment Rat) :
    (g.insert v vector factor).level s a = g.level s a + vector.get s * factor * a v := by
  rw [level_eq, level_eq, constant_insert]
  have hsum : ((g.coefficient? v).getD .zero).get s + vector.get s * factor =
      (((g.coefficient? v).getD .zero).addMultiple vector factor).get s :=
    (StrengthVector.get_addMultiple _ _ _ _).symm
  have hrate : SortedMap.weightOf (fun vector => vector.get s) (g.terms.find? v) =
      ((g.coefficient? v).getD .zero).get s := weightOf_coefficient? g s v
  unfold insert
  simp only
  split
  next hzero =>
    rw [SortedMap.weigh_erase, hrate]
    rw [StrengthVector.isZero_iff.mp hzero s] at hsum
    rw [eq_neg_of_add_eq_zero_left hsum]
    ring
  next _ =>
    rw [SortedMap.weigh_insert, hrate, ← hsum]
    ring

theorem clean_insert (h : g.Clean) (v : VariableId) (vector : StrengthVector Rat)
    (factor : Rat) : (g.insert v vector factor).Clean := by
  intro w stored hstored
  rw [coefficient?_insert] at hstored
  split at hstored
  · split at hstored
    next _ => simp at hstored
    next hne =>
      rw [Option.some.injEq] at hstored
      rw [← hstored]
      simpa using hne
  · exact h w stored hstored

theorem coefficient?_erase (g : Goal Rat) (v w : VariableId) :
    (g.erase v).coefficient? w = if w = v then none else g.coefficient? w := by
  unfold erase coefficient?
  simp only
  rw [SortedMap.find?_erase]
  simp only [SortedMap.rank_eq_iff, eq_comm (a := v)]

theorem isSome_erase {g : Goal Rat} {v w : VariableId} :
    ((g.erase v).coefficient? w).isSome ↔ w ≠ v ∧ (g.coefficient? w).isSome := by
  rw [coefficient?_erase]
  by_cases hw : w = v <;> simp [hw]

@[simp] theorem constant_erase (g : Goal Rat) (v : VariableId) :
    (g.erase v).constant = g.constant := rfl

theorem rate_erase (g : Goal Rat) (v w : VariableId) (s : Strength) :
    (g.erase v).rate s w = if w = v then 0 else g.rate s w := by
  unfold rate
  rw [coefficient?_erase]
  split
  · exact StrengthVector.get_zero s
  · rfl

theorem level_erase (g : Goal Rat) (v : VariableId) (s : Strength) (a : Assignment Rat) :
    (g.erase v).level s a = g.level s a - g.rate s v * a v := by
  rw [level_eq, level_eq, constant_erase]
  change g.constant.get s + (g.terms.erase v).weigh _ a = _
  rw [SortedMap.weigh_erase, weightOf_coefficient?]
  ring

theorem clean_erase (h : g.Clean) (v : VariableId) : (g.erase v).Clean := by
  intro w stored hstored
  rw [coefficient?_erase] at hstored
  split at hstored
  · simp at hstored
  · exact h w stored hstored

/-- Changing one variable changes the value at a level through its rate. -/
theorem level_update (g : Goal Rat) (s : Strength) (a : Assignment Rat) (v : VariableId)
    (x : Rat) :
    g.level s (Function.update a v x) = g.level s a + g.rate s v * (x - a v) := by
  have hrest : (g.erase v).level s (Function.update a v x) = (g.erase v).level s a := by
    refine level_congr fun w hw => ?_
    exact Function.update_of_ne (isSome_erase.mp hw).1 x a
  rw [level_erase, level_erase, Function.update_self] at hrest
  linarith

/-- With all variables at zero the value is the constant. -/
theorem level_zero (g : Goal Rat) (s : Strength) :
    g.level s (fun _ => 0) = g.constant.get s := by
  rw [level_eq]
  simp [SortedMap.weigh, SortedMap.weighIn]

/-! ## Adding a row -/

/-- Adding the entries of a list one after the other, as the addition of a row does. -/
theorem foldl_insert (entries : List (VariableId × Rat)) (g : Goal Rat)
    (vector : StrengthVector Rat) (factor : Rat) :
    let sum := entries.foldl (fun g entry => g.insert entry.1 vector (entry.2 * factor)) g
    sum.constant = g.constant ∧ (g.Clean → sum.Clean) ∧
      ∀ s a, sum.level s a =
        g.level s a + vector.get s * (SortedMap.weighIn id a entries * factor) := by
  induction entries generalizing g with
  | nil => simp [SortedMap.weighIn]
  | cons entry rest ih =>
      obtain ⟨hconstant, hclean, hlevel⟩ := ih (g.insert entry.1 vector (entry.2 * factor))
      refine ⟨hconstant, fun h => hclean (clean_insert h _ _ _), fun s a => ?_⟩
      rw [List.foldl_cons, hlevel, level_insert, SortedMap.weighIn_cons, id]
      ring

theorem clean_insertRow (h : g.Clean) (row : Row LinearForm Rat) (vector : StrengthVector Rat)
    (factor : Rat) : (g.insertRow row vector factor).Clean :=
  (foldl_insert row.entries _ vector factor).2.1 h

theorem level_insertRow (g : Goal Rat) (row : Row LinearForm Rat) (vector : StrengthVector Rat)
    (factor : Rat) (s : Strength) (a : Assignment Rat) :
    (g.insertRow row vector factor).level s a =
      g.level s a + vector.get s * (row.eval a * factor) := by
  have hlevel : (g.insertRow row vector factor).level s a =
      ({ g with constant := g.constant.addMultiple vector (row.constant * factor) } :
          Goal Rat).level s a +
        vector.get s * (SortedMap.weighIn id a row.entries * factor) :=
    (foldl_insert row.entries _ vector factor).2.2 s a
  rw [hlevel, level_eq, level_eq, Row.eval_eq]
  simp only [StrengthVector.get_addMultiple]
  change _ + vector.get s * (row.terms.total a * factor) = _
  ring

/-- The rates of an objective are determined by its values. -/
theorem rate_eq_of_level {x : Rat}
    (h : ∀ a : Assignment Rat,
      g.level s (Function.update a v 1) = g.level s a + x * (1 - a v)) : g.rate s v = x := by
  have hone := h fun _ => 0
  rw [level_update] at hone
  linarith

theorem rate_insertRow (g : Goal Rat) (row : Row LinearForm Rat) (vector : StrengthVector Rat)
    (factor : Rat) (s : Strength) (v : VariableId) :
    (g.insertRow row vector factor).rate s v =
      g.rate s v + vector.get s * (row.coefficient v * factor) := by
  refine rate_eq_of_level fun a => ?_
  rw [level_insertRow, level_insertRow, level_update, Row.eval_update]
  ring

/-! ## Replacing a variable by its definition -/

theorem substitute_eq (g : Goal Rat) (v : VariableId) (definition : Row LinearForm Rat) :
    g.substitute v definition = g ∧ g.coefficient? v = none ∨
      ∃ vector, g.coefficient? v = some vector ∧
        g.substitute v definition = (g.erase v).insertRow definition vector 1 := by
  unfold substitute
  cases g.coefficient? v with
  | none => exact Or.inl ⟨rfl, rfl⟩
  | some vector => exact Or.inr ⟨vector, rfl, rfl⟩

theorem level_substitute (g : Goal Rat) (v : VariableId) (definition : Row LinearForm Rat)
    (s : Strength) (a : Assignment Rat) :
    (g.substitute v definition).level s a =
      g.level s a + g.rate s v * (definition.eval a - a v) := by
  obtain ⟨heq, hnone⟩ | ⟨vector, hsome, heq⟩ := substitute_eq g v definition
  · rw [heq, rate_eq_zero_of_none hnone]
    ring
  · rw [heq, level_insertRow, level_erase, rate_eq_get hsome]
    ring

theorem rate_substitute (g : Goal Rat) (v w : VariableId) (definition : Row LinearForm Rat)
    (s : Strength) :
    (g.substitute v definition).rate s w =
      (if w = v then 0 else g.rate s w) + g.rate s v * definition.coefficient w := by
  obtain ⟨heq, hnone⟩ | ⟨vector, hsome, heq⟩ := substitute_eq g v definition
  · rw [heq, rate_eq_zero_of_none hnone]
    split
    next hw => rw [hw, rate_eq_zero_of_none hnone]; ring
    next _ => ring
  · rw [heq, rate_insertRow, rate_erase, rate_eq_get hsome]
    ring

theorem clean_substitute (h : g.Clean) (v : VariableId) (definition : Row LinearForm Rat) :
    (g.substitute v definition).Clean := by
  obtain ⟨heq, -⟩ | ⟨vector, -, heq⟩ := substitute_eq g v definition
  · rw [heq]
    exact h
  · rw [heq]
    exact clean_insertRow (clean_erase h v) _ _ _

/-- What occurs after a replacement occurred before, or came in with the definition. -/
theorem Clean.occurs_substitute (h : g.Clean) {definition : Row LinearForm Rat}
    (hw : ((g.substitute v definition).coefficient? w).isSome) :
    (w ≠ v ∧ (g.coefficient? w).isSome) ∨
      ((g.coefficient? v).isSome ∧ definition.coefficient w ≠ 0) := by
  have hclean : (g.substitute v definition).Clean := clean_substitute h v definition
  obtain ⟨s, hs⟩ : ∃ s, (g.substitute v definition).rate s w ≠ 0 := by
    by_contra hall
    rw [hclean.coefficient?_eq_none.mpr (fun s => by_contra fun hs => hall ⟨s, hs⟩)] at hw
    simp at hw
  rw [rate_substitute] at hs
  by_cases hleft : (if w = v then 0 else g.rate s w) = 0
  · rw [hleft, zero_add] at hs
    refine Or.inr ⟨?_, right_ne_zero_of_mul hs⟩
    rw [Option.isSome_iff_ne_none, ne_eq, h.coefficient?_eq_none]
    exact fun hall => left_ne_zero_of_mul hs (hall s)
  · refine Or.inl ⟨?_, ?_⟩
    · intro hwv
      exact hleft (if_pos hwv)
    · rw [Option.isSome_iff_ne_none, ne_eq, h.coefficient?_eq_none]
      intro hall
      apply hleft
      split
      · rfl
      · exact hall s

theorem clean_zero : (zero : Goal Rat).Clean := by
  intro v vector hvector
  simp [zero, coefficient?] at hvector

/-- The value of the objective that minimises a row: the row at one level, zero elsewhere. -/
theorem level_ofRow (row : Row LinearForm Rat) (t s : Strength) (a : Assignment Rat) :
    (ofRow row t).level s a = if s = t then row.eval a else 0 := by
  unfold ofRow
  rw [level_insertRow, StrengthVector.get_unit, level_eq]
  simp only [zero, StrengthVector.get_zero, SortedMap.weigh_empty]
  split <;> ring

end Goal

end LexSimplex
