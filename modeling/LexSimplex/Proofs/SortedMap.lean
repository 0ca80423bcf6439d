import LexSimplex.SortedMap

/-!
# Look-ups and members of sorted maps

A sorted map is determined by its members as much as by its look-ups.  Each operation is described
in both ways, so that a storage which lists its entries can be compared with a map by membership
alone (`eq_of_mem_iff`).
-/

namespace LexSimplex

open Ranked (rank rank_injective)

namespace SortedMap

variable {κ β : Type} [Ranked κ]

theorem findIn_map (k : κ) (f : β → β) (entries : List (κ × β)) :
    findIn k (entries.map fun entry => (entry.1, f entry.2)) = (findIn k entries).map f := by
  induction entries with
  | nil => rfl
  | cons entry rest ih =>
      obtain ⟨key, value⟩ := entry
      simp only [List.map_cons, findIn]
      split
      · rfl
      · exact ih

/-- Changing every value changes what look-ups find. -/
theorem find?_map (m : SortedMap κ β) (f : β → β) (k : κ) :
    (m.map f).find? k = (m.find? k).map f :=
  findIn_map k f m.toList

/-- Keeping the values that pass a test hides the others from look-ups. -/
theorem find?_filter (m : SortedMap κ β) (keep : β → Bool) (k : κ) :
    (m.filter keep).find? k = (m.find? k).filter keep := by
  ext x
  rw [find?_eq_some, Option.filter_eq_some_iff, find?_eq_some]
  simp [filter]

@[simp] theorem find?_empty (k : κ) : (empty : SortedMap κ β).find? k = none := rfl

/-- Two keys with the same rank are the same key. -/
theorem rank_eq_iff {j k : κ} : rank j = rank k ↔ j = k :=
  ⟨rank_injective, fun h => by rw [h]⟩

/-- Nothing is found at a key exactly when no entry of the list has it. -/
theorem find?_eq_none {m : SortedMap κ β} {k : κ} :
    m.find? k = none ↔ ∀ x, (k, x) ∉ m.toList := by
  rw [Option.eq_none_iff_forall_ne_some]
  simp only [ne_eq, find?_eq_some]

theorem mem_erase {m : SortedMap κ β} {k j : κ} {y : β} :
    (j, y) ∈ (m.erase k).toList ↔ j ≠ k ∧ (j, y) ∈ m.toList := by
  rw [← find?_eq_some, find?_erase, ← find?_eq_some]
  by_cases hj : k = j
  · subst hj
    simp
  · simp [rank_eq_iff, hj, Ne.symm hj]

theorem mem_filter {m : SortedMap κ β} {keep : β → Bool} {j : κ} {y : β} :
    (j, y) ∈ (m.filter keep).toList ↔ (j, y) ∈ m.toList ∧ keep y = true := by
  rw [← find?_eq_some, find?_filter, Option.filter_eq_some_iff, find?_eq_some]

theorem map_insert (m : SortedMap κ β) (f : β → β) (k : κ) (x : β) :
    (m.insert k x).map f = (m.map f).insert k (f x) := by
  refine ext_find? fun j => ?_
  rw [find?_map, find?_insert, find?_insert, find?_map]
  split <;> rfl

theorem map_erase (m : SortedMap κ β) (f : β → β) (k : κ) :
    (m.erase k).map f = (m.map f).erase k := by
  refine ext_find? fun j => ?_
  rw [find?_map, find?_erase, find?_erase, find?_map]
  split <;> rfl

@[simp] theorem size_map (m : SortedMap κ β) (f : β → β) : (m.map f).size = m.size :=
  List.length_map _

/-- Two sorted maps with the same members are equal. -/
theorem ext_mem {m n : SortedMap κ β} (h : ∀ k x, (k, x) ∈ m.toList ↔ (k, x) ∈ n.toList) :
    m = n := by
  refine ext_find? fun k => ?_
  ext x
  rw [find?_eq_some, find?_eq_some]
  exact h k x

/-! ## Splitting the list of entries at a key -/

section Split

variable {m : SortedMap κ β} {k : κ} {x y : β} {left right : List (κ × β)}

theorem insertIn_append (hleft : ∀ p ∈ left, rank p.1 < rank k) :
    insertIn k x (left ++ right) = left ++ insertIn k x right := by
  induction left with
  | nil => rfl
  | cons entry left ih =>
      obtain ⟨key, value⟩ := entry
      have hkey : rank key < rank k := hleft _ List.mem_cons_self
      have hrest := ih fun p hp => hleft p (List.mem_cons_of_mem _ hp)
      rw [List.cons_append, insertIn, if_neg (by omega), if_neg (by omega), hrest]
      rfl

/-- A new key goes between the smaller and the larger ones. -/
theorem toList_insert_of_absent (hlist : m.toList = left ++ right)
    (hleft : ∀ p ∈ left, rank p.1 < rank k) (hright : ∀ p ∈ right, rank k < rank p.1) :
    (m.insert k x).toList = left ++ (k, x) :: right := by
  change insertIn k x m.toList = _
  rw [hlist, insertIn_append hleft]
  cases right with
  | nil => rfl
  | cons entry right => rw [insertIn, if_pos (hright entry List.mem_cons_self)]

/-- The keys before an entry are smaller and those after it larger. -/
theorem ranks_of_split (hlist : m.toList = left ++ (k, y) :: right) :
    (∀ p ∈ left, rank p.1 < rank k) ∧ ∀ p ∈ right, rank k < rank p.1 := by
  have hascending := m.ascending
  rw [hlist, List.pairwise_append] at hascending
  obtain ⟨-, hsecond, hacross⟩ := hascending
  exact ⟨fun p hp => hacross p hp _ List.mem_cons_self, (List.pairwise_cons.mp hsecond).1⟩

/-- A key that is present keeps its place. -/
theorem toList_insert_of_present (hlist : m.toList = left ++ (k, y) :: right) :
    (m.insert k x).toList = left ++ (k, x) :: right := by
  change insertIn k x m.toList = _
  rw [hlist, insertIn_append (ranks_of_split hlist).1, insertIn, if_neg (Nat.lt_irrefl _),
    if_pos rfl]

/-- Dropping a key drops its entry. -/
theorem toList_erase_of_present (hlist : m.toList = left ++ (k, y) :: right) :
    (m.erase k).toList = left ++ right := by
  obtain ⟨hleft, hright⟩ := ranks_of_split hlist
  have hkeep : ∀ entries : List (κ × β), (∀ p ∈ entries, rank p.1 ≠ rank k) →
      eraseIn k entries = entries := fun entries h =>
    List.filter_eq_self.mpr fun p hp => by simpa using h p hp
  change eraseIn k m.toList = _
  rw [hlist]
  unfold eraseIn at hkeep ⊢
  rw [List.filter_append, List.filter_cons_of_neg (by simp),
    hkeep left fun p hp => Nat.ne_of_lt (hleft p hp),
    hkeep right fun p hp => Nat.ne_of_gt (hright p hp)]

/-- Dropping a key that is not present changes nothing. -/
theorem toList_erase_of_absent (h : ∀ p ∈ m.toList, p.1 ≠ k) : (m.erase k).toList = m.toList :=
  List.filter_eq_self.mpr fun p hp => by simpa [rank_eq_iff] using h p hp

end Split

end SortedMap

end LexSimplex
