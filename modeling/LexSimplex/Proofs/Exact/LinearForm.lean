import Mathlib.Algebra.Order.BigOperators.Group.List
import Mathlib.Algebra.Order.Field.Rat
import Mathlib.Tactic.Ring
import Mathlib.Tactic.Linarith
import Mathlib.Tactic.FieldSimp
import LexSimplex.Meaning
import LexSimplex.Proofs.SortedMap

/-!
# Linear forms with exact coefficients

A sorted map from variables to rationals in which no value is zero is a linear form.  This module
makes such maps a row storage and says what the storage operations do in two ways:

* coefficient by coefficient (`get_put`, `get_erase`, `get_divideBy`, `get_negate`);
* as a sum over an assignment (`total_put`, `total_erase`, `total_divideBy`, `total_negate`).

The sums are taken over a weight of the stored values, so that the same two lemmas serve the rows,
whose values are scalars, and the objectives, whose values are vectors of which one level is read.
-/

namespace LexSimplex

open Ranked (rank rank_injective)

namespace SortedMap

variable {κ β : Type} [Ranked κ]

/-- The sum of weighted values times the assigned scalars over a list of entries. -/
def weighIn (weight : β → Rat) (a : κ → Rat) (entries : List (κ × β)) : Rat :=
  (entries.map fun entry => weight entry.2 * a entry.1).sum

/-- The sum of weighted values times the assigned scalars. -/
def weigh (m : SortedMap κ β) (weight : β → Rat) (a : κ → Rat) : Rat := weighIn weight a m.toList

/-- The weight of an optional value, zero without one. -/
def weightOf (weight : β → Rat) : Option β → Rat
  | some x => weight x
  | none => 0

omit [Ranked κ] in
theorem weighIn_cons (weight : β → Rat) (a : κ → Rat) (entry : κ × β) (rest : List (κ × β)) :
    weighIn weight a (entry :: rest) = weight entry.2 * a entry.1 + weighIn weight a rest := by
  simp [weighIn]

@[simp] theorem weigh_empty (weight : β → Rat) (a : κ → Rat) :
    (empty : SortedMap κ β).weigh weight a = 0 := rfl

theorem weighIn_insertIn (weight : β → Rat) (a : κ → Rat) (k : κ) (x : β)
    {entries : List (κ × β)} (h : entries.Pairwise fun p q => rank p.1 < rank q.1) :
    weighIn weight a (insertIn k x entries) =
      weighIn weight a entries + (weight x - weightOf weight (findIn k entries)) * a k := by
  induction entries with
  | nil => simp [insertIn, weighIn, findIn, weightOf]
  | cons entry rest ih =>
      obtain ⟨key, value⟩ := entry
      obtain ⟨hhead, hrest⟩ := List.pairwise_cons.mp h
      unfold insertIn
      split
      next hlt =>
        -- The key is smaller than all keys of the list, so nothing was stored at it.
        have habsent : findIn k ((key, value) :: rest) = none := by
          apply findIn_eq_none
          intro p hp
          rcases List.mem_cons.mp hp with rfl | hp
          · exact Nat.ne_of_gt hlt
          · exact Nat.ne_of_gt (Nat.lt_trans hlt (hhead p hp))
        rw [habsent, weighIn_cons]
        simp only [weightOf]
        ring
      next hge =>
        split
        next heq =>
          have hkey : key = k := rank_injective heq
          subst hkey
          simp only [weighIn_cons, findIn, if_true, weightOf]
          ring
        next hne =>
          simp only [weighIn_cons, findIn, hne, if_false]
          rw [ih hrest]
          ring

/-- Putting a value at a key changes a sum by the difference of the weights there. -/
theorem weigh_insert (m : SortedMap κ β) (weight : β → Rat) (a : κ → Rat) (k : κ) (x : β) :
    (m.insert k x).weigh weight a =
      m.weigh weight a + (weight x - weightOf weight (m.find? k)) * a k :=
  weighIn_insertIn weight a k x m.ascending

theorem weighIn_eraseIn (weight : β → Rat) (a : κ → Rat) (k : κ) {entries : List (κ × β)}
    (h : entries.Pairwise fun p q => rank p.1 < rank q.1) :
    weighIn weight a (eraseIn k entries) =
      weighIn weight a entries - weightOf weight (findIn k entries) * a k := by
  induction entries with
  | nil => simp [eraseIn, weighIn, findIn, weightOf]
  | cons entry rest ih =>
      obtain ⟨key, value⟩ := entry
      obtain ⟨hhead, hrest⟩ := List.pairwise_cons.mp h
      have herased := ih hrest
      unfold eraseIn at herased ⊢
      rw [List.filter_cons]
      by_cases hkey : rank key = rank k
      · have hk : key = k := rank_injective hkey
        subst hk
        have habsent : findIn key rest = none :=
          findIn_eq_none fun p hp => Nat.ne_of_gt (hhead p hp)
        rw [habsent] at herased
        simp only [bne_self_eq_false, Bool.false_eq_true, if_false, weighIn_cons, findIn, if_true]
        rw [herased]
        simp only [weightOf]
        ring
      · have hkept : (rank key != rank k) = true := by simpa using hkey
        rw [if_pos hkept]
        simp only [weighIn_cons, findIn, hkey, if_false]
        rw [herased]
        ring

/-- Dropping a key takes its weight out of a sum. -/
theorem weigh_erase (m : SortedMap κ β) (weight : β → Rat) (a : κ → Rat) (k : κ) :
    (m.erase k).weigh weight a = m.weigh weight a - weightOf weight (m.find? k) * a k :=
  weighIn_eraseIn weight a k m.ascending

/-- A sum depends on the assignment only where something is stored. -/
theorem weigh_congr {m : SortedMap κ β} {weight : β → Rat} {a b : κ → Rat}
    (h : ∀ k x, m.find? k = some x → weight x * a k = weight x * b k) :
    m.weigh weight a = m.weigh weight b := by
  unfold weigh weighIn
  congr 1
  refine List.map_congr_left fun entry hentry => ?_
  exact h entry.1 entry.2 (find?_eq_some.mpr hentry)

/-- A sum of terms that are not negative is not negative. -/
theorem weigh_nonneg {m : SortedMap κ β} {weight : β → Rat} {a : κ → Rat}
    (h : ∀ k x, m.find? k = some x → 0 ≤ weight x * a k) : 0 ≤ m.weigh weight a := by
  refine List.sum_nonneg fun y hy => ?_
  obtain ⟨entry, hentry, rfl⟩ := List.mem_map.mp hy
  exact h entry.1 entry.2 (find?_eq_some.mpr hentry)

end SortedMap

/-- A finite combination of variables with coefficients other than zero. -/
structure LinearForm where
  terms : SortedMap VariableId Rat
  nonzero : ∀ entry ∈ terms.toList, entry.2 ≠ 0
deriving DecidableEq

namespace LinearForm

/-- Put a coefficient at a variable; a zero drops the variable. -/
def put (f : LinearForm) (v : VariableId) (x : Rat) : LinearForm where
  terms := f.terms.putScalar v x
  nonzero := by
    unfold SortedMap.putScalar
    split
    next _ =>
      intro entry hentry
      exact f.nonzero entry (List.mem_filter.mp hentry).1
    next hx =>
      intro entry hentry
      rcases SortedMap.mem_insertIn hentry with rfl | hmem
      · simpa using hx
      · exact f.nonzero entry hmem

/-- Drop a variable. -/
def erase (f : LinearForm) (v : VariableId) : LinearForm where
  terms := f.terms.erase v
  nonzero := fun entry hentry => f.nonzero entry (List.mem_filter.mp hentry).1

/-- Divide every coefficient. -/
def divideBy (f : LinearForm) (divisor : Rat) : LinearForm where
  terms := (f.terms.map fun x => x / divisor).filter fun x => x != 0
  nonzero := fun entry hentry => by simpa using (List.mem_filter.mp hentry).2

/-- Change the sign of every coefficient. -/
def negate (f : LinearForm) : LinearForm where
  terms := f.terms.map fun x => -x
  nonzero := by
    intro entry hentry
    obtain ⟨old, hold, rfl⟩ := List.mem_map.mp hentry
    exact neg_ne_zero.mpr (f.nonzero old hold)

/-- The form without variables. -/
def zero : LinearForm := ⟨.empty, fun _ h => absurd h List.not_mem_nil⟩

instance : RowStore LinearForm Rat where
  forRow _ _ := zero
  find? f v := f.terms.find? v
  put := put
  erase := erase
  toList f := f.terms.toList
  size f := f.terms.size
  divideBy := divideBy
  negate := negate
  clear _ := zero

/-- The coefficient of a variable. -/
abbrev coefficient (f : LinearForm) (v : VariableId) : Rat := RowStore.get f v

/-- The value of a form. -/
def total (f : LinearForm) (a : Assignment Rat) : Rat := f.terms.weigh id a

theorem coefficient_eq (f : LinearForm) (v : VariableId) :
    f.coefficient v = (f.terms.find? v).getD 0 := rfl

theorem weightOf_find? (f : LinearForm) (v : VariableId) :
    SortedMap.weightOf id (f.terms.find? v) = f.coefficient v := by
  rw [coefficient_eq]
  cases f.terms.find? v <;> rfl

/-- A variable is stored exactly when its coefficient is not zero. -/
theorem find?_eq_some {f : LinearForm} {v : VariableId} {x : Rat} :
    RowStore.find? f v = some x ↔ f.coefficient v = x ∧ x ≠ 0 := by
  change f.terms.find? v = some x ↔ (f.terms.find? v).getD 0 = x ∧ x ≠ 0
  cases hfind : f.terms.find? v with
  | none =>
      simp only [reduceCtorEq, Option.getD_none, false_iff, not_and, not_not]
      exact fun h => h.symm
  | some y =>
      have hy : y ≠ 0 := f.nonzero (v, y) (SortedMap.find?_eq_some.mp hfind)
      simp only [Option.some.injEq, Option.getD_some]
      exact ⟨fun h => ⟨h, h ▸ hy⟩, fun h => h.1⟩

theorem find?_eq_none {f : LinearForm} {v : VariableId} :
    RowStore.find? f v = none ↔ f.coefficient v = 0 := by
  constructor
  · intro h
    change (RowStore.find? f v).getD 0 = 0
    rw [h]
    rfl
  · intro h
    cases hfind : RowStore.find? f v with
    | none => rfl
    | some x =>
        obtain ⟨hx, hne⟩ := find?_eq_some.mp hfind
        exact absurd (hx.symm.trans h) hne

/-- The listed variables are those with a coefficient other than zero. -/
theorem mem_toList {f : LinearForm} {v : VariableId} {x : Rat} :
    (v, x) ∈ RowStore.toList f ↔ f.coefficient v = x ∧ x ≠ 0 := by
  rw [← find?_eq_some]
  exact SortedMap.find?_eq_some.symm

/-- A form without entries has no coefficient other than zero. -/
theorem isEmpty_iff {f : LinearForm} :
    RowStore.isEmpty f = true ↔ ∀ v, f.coefficient v = 0 := by
  have hempty : RowStore.isEmpty f = true ↔ RowStore.toList f = [] := by
    change (f.terms.toList.length == 0) = true ↔ f.terms.toList = []
    simp
  rw [hempty, List.eq_nil_iff_forall_not_mem]
  constructor
  · intro h v
    by_contra hv
    exact h (v, f.coefficient v) (mem_toList.mpr ⟨rfl, hv⟩)
  · rintro h ⟨v, x⟩ hmem
    obtain ⟨hx, hne⟩ := mem_toList.mp hmem
    exact hne (hx.symm.trans (h v))

/-! ## Coefficients after an operation -/

@[simp] theorem get_forRow (settings : Settings) (width : Nat) (v : VariableId) :
    RowStore.get (RowStore.forRow settings width : LinearForm) v = 0 := rfl

@[simp] theorem get_put (f : LinearForm) (v w : VariableId) (x : Rat) :
    RowStore.get (RowStore.put f v x) w = if w = v then x else RowStore.get f w := by
  change ((f.terms.putScalar v x).find? w).getD 0 = if w = v then x else (f.terms.find? w).getD 0
  unfold SortedMap.putScalar
  split
  next hx =>
    have hx : x = 0 := by simpa using hx
    rw [SortedMap.find?_erase]
    simp only [SortedMap.rank_eq_iff, eq_comm (a := v)]
    split <;> simp [hx]
  next hx =>
    rw [SortedMap.find?_insert]
    simp only [SortedMap.rank_eq_iff, eq_comm (a := v)]
    split <;> simp

@[simp] theorem get_erase (f : LinearForm) (v w : VariableId) :
    RowStore.get (RowStore.erase f v) w = if w = v then 0 else RowStore.get f w := by
  change ((f.terms.erase v).find? w).getD 0 = if w = v then 0 else (f.terms.find? w).getD 0
  rw [SortedMap.find?_erase]
  simp only [SortedMap.rank_eq_iff, eq_comm (a := v)]
  split <;> simp

@[simp] theorem get_divideBy (f : LinearForm) (divisor : Rat) (v : VariableId) :
    RowStore.get (RowStore.divideBy f divisor) v = RowStore.get f v / divisor := by
  change (((f.terms.map fun x => x / divisor).filter fun x => x != 0).find? v).getD 0 =
    (f.terms.find? v).getD 0 / divisor
  rw [SortedMap.find?_filter, SortedMap.find?_map]
  cases f.terms.find? v with
  | none => simp
  | some x =>
      by_cases hx : x / divisor = 0
      · simp [Option.filter, hx]
      · simp [Option.filter, hx]

@[simp] theorem get_negate (f : LinearForm) (v : VariableId) :
    RowStore.get (RowStore.negate f) v = -RowStore.get f v := by
  change ((f.terms.map fun x => -x).find? v).getD 0 = -(f.terms.find? v).getD 0
  rw [SortedMap.find?_map]
  cases f.terms.find? v <;> simp

/-! ## Values after an operation -/

@[simp] theorem total_forRow (settings : Settings) (width : Nat) (a : Assignment Rat) :
    (RowStore.forRow settings width : LinearForm).total a = 0 := rfl

theorem total_put (f : LinearForm) (v : VariableId) (x : Rat) (a : Assignment Rat) :
    (RowStore.put f v x).total a = f.total a + (x - f.coefficient v) * a v := by
  change (f.terms.putScalar v x).weigh id a = f.terms.weigh id a + (x - f.coefficient v) * a v
  unfold SortedMap.putScalar
  split
  next hx =>
    have hx : x = 0 := by simpa using hx
    rw [SortedMap.weigh_erase, weightOf_find?, hx]
    ring
  next _ =>
    rw [SortedMap.weigh_insert, weightOf_find?, id]

theorem total_erase (f : LinearForm) (v : VariableId) (a : Assignment Rat) :
    (RowStore.erase f v).total a = f.total a - f.coefficient v * a v := by
  change (f.terms.erase v).weigh id a = f.terms.weigh id a - f.coefficient v * a v
  rw [SortedMap.weigh_erase, weightOf_find?]

theorem total_divideBy (f : LinearForm) (divisor : Rat) (a : Assignment Rat) :
    (RowStore.divideBy f divisor).total a = f.total a / divisor := by
  change SortedMap.weighIn id a
      ((f.terms.toList.map fun entry => (entry.1, entry.2 / divisor)).filter
        fun entry => entry.2 != 0) = SortedMap.weighIn id a f.terms.toList / divisor
  induction f.terms.toList with
  | nil => simp [SortedMap.weighIn]
  | cons entry rest ih =>
      rw [List.map_cons, List.filter_cons, SortedMap.weighIn_cons]
      by_cases hx : entry.2 / divisor = 0
      · simp only [hx, bne_self_eq_false, Bool.false_eq_true, if_false]
        rw [ih, add_div, id, mul_div_right_comm, hx]
        ring
      · have hkept : (entry.2 / divisor != 0) = true := by simpa using hx
        simp only [hkept, if_true]
        rw [SortedMap.weighIn_cons, ih, add_div]
        simp only [id]
        ring

theorem total_negate (f : LinearForm) (a : Assignment Rat) :
    (RowStore.negate f).total a = -f.total a := by
  change SortedMap.weighIn id a (f.terms.toList.map fun entry => (entry.1, -entry.2)) =
    -SortedMap.weighIn id a f.terms.toList
  induction f.terms.toList with
  | nil => simp [SortedMap.weighIn]
  | cons entry rest ih =>
      rw [List.map_cons, SortedMap.weighIn_cons, SortedMap.weighIn_cons, ih]
      simp only [id]
      ring

/-- The value of a form depends only on the variables with a coefficient other than zero. -/
theorem total_congr {f : LinearForm} {a b : Assignment Rat}
    (h : ∀ v, f.coefficient v ≠ 0 → a v = b v) : f.total a = f.total b := by
  refine SortedMap.weigh_congr fun v x hx => ?_
  obtain ⟨hcoefficient, hne⟩ := find?_eq_some.mp hx
  rw [h v (by rw [hcoefficient]; exact hne)]

/-- Changing the assignment at one variable changes the value through its coefficient. -/
theorem total_update (f : LinearForm) (a : Assignment Rat) (v : VariableId) (x : Rat) :
    f.total (Function.update a v x) = f.total a + f.coefficient v * (x - a v) := by
  have hrest : (RowStore.erase f v).total (Function.update a v x) =
      (RowStore.erase f v).total a := by
    refine total_congr fun w hw => ?_
    have hne : w ≠ v := by
      rintro rfl
      exact hw (by simp [coefficient])
    exact Function.update_of_ne hne x a
  rw [total_erase, total_erase, Function.update_self] at hrest
  linarith

end LinearForm

end LexSimplex
