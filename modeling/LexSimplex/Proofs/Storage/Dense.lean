import LexSimplex.Proofs.Storage.Represents
import LexSimplex.Storage.Dense

/-!
# The dense storage represents sorted maps

A dense storage represents a sorted map when its arrays agree and the entries, read in the sorted
order of positions, are those of the map.  Both searches then find the place of a variable in the
list of entries (`Represents.locates`), and every operation is a change of that list at one place:

* a new entry is pushed on the arrays and its position inserted at the place that was found;
* a removed entry leaves a position to the last one, which the order has to follow (`entryAt_moved`).
-/

namespace LexSimplex

open Ranked (rank)

namespace Dense

variable {α : Type} [Scalar α] {d : Dense α} {m : SortedMap VariableId α} {v : VariableId} {x : α}

/-- The arrays agree, and the entries in their sorted order are those of a map. -/
structure Represents (d : Dense α) (m : SortedMap VariableId α) : Prop where
  values_size : d.values.size = d.keys.size
  bounded : ∀ position ∈ d.order.toList, position < d.keys.size
  toList : d.toList = m.toList

/-! ## Searching -/

/-- What a search for a variable says about an ascending list of entries: where its entry stands, or
where the smaller ones end and the larger ones begin. -/
def Locates (entries : List (VariableId × α)) (v : VariableId) : Location → Prop
  | .present place => ∃ left x right, entries = left ++ (v, x) :: right ∧ left.length = place
  | .absent place => ∃ left right, entries = left ++ right ∧ left.length = place ∧
      (∀ p ∈ left, rank p.1 < rank v) ∧ ∀ p ∈ right, rank v < rank p.1

theorem length_toList (d : Dense α) : d.toList.length = d.order.size := by
  simp [Dense.toList]

/-- The search compares with the variables of the list of entries. -/
theorem keyAt_eq {place : Nat} {entry : VariableId × α} (h : d.toList[place]? = some entry) :
    d.keyAt place = rank entry.1 := by
  unfold Dense.toList at h
  rw [List.getElem?_map, Option.map_eq_some_iff] at h
  obtain ⟨position, hposition, rfl⟩ := h
  rw [Array.getElem?_toList] at hposition
  unfold keyAt
  have horder : d.order.getD place 0 = position := by
    rw [Array.getD_eq_getD_getElem?, hposition]
    rfl
  rw [horder]
  rfl

theorem scan_locates {left right : List (VariableId × α)} (hlist : d.toList = left ++ right)
    (hsorted : d.toList.Pairwise fun p q => rank p.1 < rank q.1)
    (hleft : ∀ p ∈ left, rank p.1 < rank v) :
    Locates d.toList v (d.scan v.index right.length left.length) := by
  induction right generalizing left with
  | nil => exact ⟨left, [], hlist, rfl, hleft, by simp⟩
  | cons entry right ih =>
      have hkey : d.keyAt left.length = rank entry.1 := keyAt_eq (by rw [hlist]; simp)
      rw [List.length_cons, scan, hkey]
      split
      next heq =>
        obtain rfl : entry.1 = v := Ranked.rank_injective heq
        exact ⟨left, entry.2, right, hlist, rfl⟩
      next hne =>
        split
        next hlt =>
          -- All later entries are larger than this one.
          refine ⟨left, entry :: right, hlist, rfl, hleft, fun p hp => ?_⟩
          rw [hlist, List.pairwise_append] at hsorted
          rcases List.mem_cons.mp hp with rfl | hp
          · exact hlt
          · exact Nat.lt_trans hlt ((List.pairwise_cons.mp hsorted.2.1).1 p hp)
        next hge =>
          have hsmaller : rank entry.1 < rank v := by
            change ¬rank entry.1 = rank v at hne
            change ¬rank v < rank entry.1 at hge
            omega
          have hnext := ih (show d.toList = (left ++ [entry]) ++ right by simp [hlist]) (by
            intro p hp
            rcases List.mem_append.mp hp with hp | hp
            · exact hleft p hp
            · rw [List.mem_singleton.mp hp]
              exact hsmaller)
          rwa [List.length_append, List.length_singleton] at hnext

/-- An entry of a sorted list has the smaller ones before it and the larger ones after it. -/
theorem exists_split (hsorted : d.toList.Pairwise fun p q => rank p.1 < rank q.1) {place : Nat}
    (hlt : place < d.toList.length) :
    ∃ left entry right, d.toList = left ++ entry :: right ∧ left.length = place ∧
      d.keyAt place = rank entry.1 ∧ (∀ p ∈ left, rank p.1 < rank entry.1) ∧
        ∀ p ∈ right, rank entry.1 < rank p.1 := by
  have hlist : d.toList =
      d.toList.take place ++ d.toList[place] :: d.toList.drop (place + 1) := by
    rw [← List.drop_eq_getElem_cons, List.take_append_drop]
  have hparts := hsorted
  rw [hlist, List.pairwise_append] at hparts
  refine ⟨_, _, _, hlist, List.length_take_of_le (Nat.le_of_lt hlt),
    keyAt_eq (List.getElem?_eq_getElem hlt), ?_, (List.pairwise_cons.mp hparts.2.1).1⟩
  exact fun p hp => hparts.2.2 p hp _ List.mem_cons_self

theorem bisect_locates (hsorted : d.toList.Pairwise fun p q => rank p.1 < rank q.1) {low high : Nat}
    (hle : low ≤ high) (hhigh : high ≤ d.toList.length)
    (hbelow : ∀ p ∈ d.toList.take low, rank p.1 < rank v)
    (habove : ∀ p ∈ d.toList.drop high, rank v < rank p.1) :
    Locates d.toList v (d.bisect v.index low high) := by
  -- What lies below `low` is smaller and what lies from `high` on is larger.
  fun_induction bisect d v.index low high with
  | case1 low high hlow middle hkey =>
      obtain ⟨left, entry, right, hlist, hlength, hentry, -, -⟩ :=
        exists_split hsorted (show middle < d.toList.length by omega)
      obtain rfl : entry.1 = v := Ranked.rank_injective (hentry.symm.trans hkey)
      exact ⟨left, entry.2, right, hlist, hlength⟩
  | case2 low high hlow middle hkey hsmaller ih =>
      obtain ⟨left, entry, right, hlist, hlength, hentry, hleft, -⟩ :=
        exists_split hsorted (show middle < d.toList.length by omega)
      have hlt : rank entry.1 < rank v := hentry ▸ hsmaller
      refine ih (by omega) hhigh (fun p hp => ?_) habove
      rw [hlist, ← hlength, List.take_length_add_append] at hp
      rcases List.mem_append.mp hp with hp | hp
      · exact Nat.lt_trans (hleft p hp) hlt
      · rw [List.take_succ_cons, List.take_zero, List.mem_singleton] at hp
        exact hp ▸ hlt
  | case3 low high hlow middle hkey hlarger ih =>
      obtain ⟨left, entry, right, hlist, hlength, hentry, -, hright⟩ :=
        exists_split hsorted (show middle < d.toList.length by omega)
      have hlt : rank v < rank entry.1 := by
        change ¬d.keyAt middle = rank v at hkey
        change ¬d.keyAt middle < rank v at hlarger
        omega
      refine ih (by omega) (by omega) hbelow fun p hp => ?_
      rw [hlist, ← hlength, List.drop_left] at hp
      rcases List.mem_cons.mp hp with rfl | hp
      · exact hlt
      · exact Nat.lt_trans hlt (hright p hp)
  | case4 low high hlow =>
      obtain rfl : low = high := by omega
      exact ⟨d.toList.take low, d.toList.drop low, (List.take_append_drop low _).symm,
        List.length_take_of_le hhigh, hbelow, habove⟩

/-- Searching a storage finds the place of a variable, by either method. -/
theorem Represents.locates (h : d.Represents m) (v : VariableId) :
    Locates m.toList v (d.locate v) := by
  have hsorted : d.toList.Pairwise fun p q => rank p.1 < rank q.1 := by
    rw [h.toList]
    exact m.ascending
  rw [← h.toList]
  unfold locate
  rw [← length_toList]
  split
  · exact scan_locates (List.nil_append _).symm hsorted (by simp)
  · exact bisect_locates hsorted (Nat.zero_le _) (Nat.le_refl _) (by simp) (by simp)

/-! ## Looking up -/

/-- An entry of the list and the position of the arrays that holds it, which no other place of the
order has. -/
structure Placed (d : Dense α) (left : List (VariableId × α)) (entry : VariableId × α)
    (right : List (VariableId × α)) (before : List Nat) (position : Nat) (after : List Nat) :
    Prop where
  order : d.order.toList = before ++ position :: after
  left_eq : before.map d.entryAt = left
  right_eq : after.map d.entryAt = right
  entry : d.entryAt position = entry
  place : d.order.getD left.length 0 = position
  bounded : position < d.keys.size
  others : ∀ other ∈ before ++ after, other < d.keys.size ∧ other ≠ position

theorem Represents.exists_placed (h : d.Represents m) {left right : List (VariableId × α)}
    (hlist : m.toList = left ++ (v, x) :: right) :
    ∃ before position after, d.Placed left (v, x) right before position after := by
  have hentries : d.order.toList.map d.entryAt = left ++ (v, x) :: right := h.toList.trans hlist
  obtain ⟨before, rest, horder, hleft, hrest⟩ := List.map_eq_append_iff.mp hentries
  obtain ⟨position, after, rfl, hposition, hright⟩ := List.map_eq_cons_iff.mp hrest
  refine ⟨before, position, after, horder, hleft, hright, hposition, ?_,
    h.bounded position (by rw [horder]; simp), fun other hother => ⟨h.bounded other ?_, ?_⟩⟩
  · rw [Array.getD_eq_getD_getElem?, ← Array.getElem?_toList, horder, ← hleft]
    simp
  · rw [horder]
    simp only [List.mem_append, List.mem_cons] at hother ⊢
    exact hother.imp_right Or.inr
  · -- A position that came twice would put its entry twice into an ascending list.
    rintro rfl
    obtain ⟨hsmaller, hlarger⟩ := SortedMap.ranks_of_split hlist
    have hdistinct : rank (d.entryAt other).1 ≠ rank v := by
      rcases List.mem_append.mp hother with hmem | hmem
      · exact Nat.ne_of_lt (hsmaller _ (hleft ▸ List.mem_map_of_mem hmem))
      · exact Nat.ne_of_gt (hlarger _ (hright ▸ List.mem_map_of_mem hmem))
    exact hdistinct (by rw [hposition])

omit [Scalar α] in
/-- A variable for which the search found no entry has none. -/
theorem Locates.not_mem {entries : List (VariableId × α)} {place : Nat}
    (h : Locates entries v (.absent place)) : ∀ p ∈ entries, p.1 ≠ v := by
  rintro p hp rfl
  obtain ⟨left, right, rfl, -, hleft, hright⟩ := h
  rcases List.mem_append.mp hp with hp | hp
  · exact Nat.lt_irrefl _ (hleft _ hp)
  · exact Nat.lt_irrefl _ (hright _ hp)

theorem Represents.find?_eq (h : d.Represents m) (v : VariableId) : d.find? v = m.find? v := by
  have hlocates := h.locates v
  unfold Dense.find?
  split
  next place hplace =>
    rw [hplace] at hlocates
    obtain ⟨left, x, right, hlist, rfl⟩ := hlocates
    obtain ⟨before, position, after, hplaced⟩ := h.exists_placed hlist
    rw [hplaced.place, hplaced.entry]
    refine (SortedMap.find?_eq_some.mpr ?_).symm
    rw [hlist]
    simp
  next place hplace =>
    rw [hplace] at hlocates
    exact (SortedMap.find?_eq_none.mpr fun x hmem => hlocates.not_mem _ hmem rfl).symm

/-! ## Removing -/

theorem size_swapRemove {β : Type} (xs : Array β) (position : Nat) :
    (swapRemove xs position).size = xs.size - 1 := by
  unfold swapRemove
  cases hback : xs.back? with
  | none =>
      obtain rfl := Array.back?_eq_none_iff.mp hback
      rfl
  | some last => simp

/-- Every element but the removed one is still found, the last one where the removed one was. -/
theorem getD_swapRemove {β : Type} {xs : Array β} {position other : Nat} (fallback : β)
    (hposition : position < xs.size) (hother : other < xs.size) (hne : other ≠ position) :
    (swapRemove xs position).getD (if other = xs.size - 1 then position else other) fallback =
      xs.getD other fallback := by
  unfold swapRemove
  have hback : xs.back? = some (xs[xs.size - 1]) := by
    rw [Array.back?_eq_getElem?, Array.getElem?_eq_getElem]
  rw [hback]
  simp only [Array.getD_eq_getD_getElem?, Array.getElem?_pop, Array.size_setIfInBounds]
  split
  next hlast =>
    have hlt : position < xs.size - 1 := by omega
    simp [hlt, hposition, hlast, hlast ▸ hother]
  next hlast =>
    have hlt : other < xs.size - 1 := by omega
    simp [hlt, Ne.symm hne]

/-- The last entry takes the position of the removed one, and the order follows it. -/
theorem Represents.removed (h : d.Represents m) {left right : List (VariableId × α)}
    (hlist : m.toList = left ++ (v, x) :: right) :
    Represents { d with
      keys := swapRemove d.keys (d.order.getD left.length 0)
      values := swapRemove d.values (d.order.getD left.length 0)
      order := (d.order.eraseIdxIfInBounds left.length).map fun p =>
        if p = d.keys.size - 1 then d.order.getD left.length 0 else p } (m.erase v) := by
  obtain ⟨before, position, after, hplaced⟩ := h.exists_placed hlist
  have horder : (d.order.eraseIdxIfInBounds left.length).toList = before ++ after := by
    rw [Array.toList_eraseIdxIfInBounds, hplaced.order, ← hplaced.left_eq, List.length_map]
    simp [List.eraseIdx_append_of_length_le]
  rw [hplaced.place]
  refine ⟨?_, ?_, ?_⟩
  · simp only [size_swapRemove, h.values_size]
  · intro p hp
    simp only [Array.toList_map, horder, List.mem_map, size_swapRemove] at hp ⊢
    obtain ⟨other, hother, rfl⟩ := hp
    obtain ⟨hlt, hne⟩ := hplaced.others other hother
    have hin := hplaced.bounded
    split <;> omega
  · have hrest : (m.erase v).toList = (before ++ after).map d.entryAt := by
      rw [SortedMap.toList_erase_of_present hlist, List.map_append, hplaced.left_eq, hplaced.right_eq]
    rw [hrest]
    unfold Dense.toList
    simp only [Array.toList_map, horder, List.map_map]
    refine List.map_congr_left fun other hother => ?_
    obtain ⟨hlt, hne⟩ := hplaced.others other hother
    have hin := hplaced.bounded
    unfold entryAt
    simp only [Function.comp_apply]
    rw [getD_swapRemove _ hin hlt hne]
    rw [← h.values_size] at hin hlt ⊢
    rw [getD_swapRemove _ hin hlt hne]

theorem Represents.erase (h : d.Represents m) (v : VariableId) :
    (d.erase v).Represents (m.erase v) := by
  have hlocates := h.locates v
  unfold Dense.erase
  split
  next place hplace =>
    rw [hplace] at hlocates
    exact ⟨h.values_size, h.bounded,
      h.toList.trans (SortedMap.toList_erase_of_absent hlocates.not_mem).symm⟩
  next place hplace =>
    rw [hplace] at hlocates
    obtain ⟨left, x, right, hlist, rfl⟩ := hlocates
    exact h.removed hlist

/-! ## Storing -/

theorem Represents.replaced (h : d.Represents m) {left right : List (VariableId × α)} {y : α}
    (hlist : m.toList = left ++ (v, y) :: right) (x : α) :
    Represents { d with values := d.values.setIfInBounds (d.order.getD left.length 0) x }
      (m.insert v x) := by
  obtain ⟨before, position, after, hplaced⟩ := h.exists_placed hlist
  rw [hplaced.place]
  refine ⟨by simpa using h.values_size, h.bounded, ?_⟩
  rw [SortedMap.toList_insert_of_present hlist, ← hplaced.left_eq, ← hplaced.right_eq]
  unfold Dense.toList
  rw [hplaced.order, List.map_append, List.map_cons]
  have hothers : ∀ other ∈ before ++ after,
      entryAt { d with values := d.values.setIfInBounds position x } other = d.entryAt other := by
    intro other hother
    unfold entryAt
    simp only [Array.getD_eq_getD_getElem?,
      Array.getElem?_setIfInBounds_ne (hplaced.others other hother).2.symm]
  have hself : entryAt { d with values := d.values.setIfInBounds position x } position = (v, x) := by
    have hkey : d.keys.getD position ⟨0⟩ = v := congrArg Prod.fst hplaced.entry
    have hin : position < d.values.size := h.values_size ▸ hplaced.bounded
    unfold entryAt
    simp only
    rw [hkey]
    simp [hin]
  rw [hself, List.map_congr_left fun other hother => hothers other (List.mem_append_left _ hother),
    List.map_congr_left fun other hother => hothers other (List.mem_append_right _ hother)]

theorem insertIdx_length_append {β : Type} (left right : List β) (b : β) :
    (left ++ right).insertIdx left.length b = left ++ b :: right := by
  induction left with
  | nil => simp
  | cons a left ih => simp [ih]

theorem Represents.inserted (h : d.Represents m) {left right : List (VariableId × α)}
    (hlist : m.toList = left ++ right) (hleft : ∀ p ∈ left, rank p.1 < rank v)
    (hright : ∀ p ∈ right, rank v < rank p.1) (x : α) :
    Represents { d with
      keys := d.keys.push v
      values := d.values.push x
      order := d.order.insertIdxIfInBounds left.length d.keys.size } (m.insert v x) := by
  obtain ⟨before, after, horder, hbefore, hafter⟩ :=
    List.map_eq_append_iff.mp (h.toList.trans hlist)
  have hlength : left.length = before.length := by rw [← hbefore, List.length_map]
  have horder' : (d.order.insertIdxIfInBounds left.length d.keys.size).toList =
      before ++ d.keys.size :: after := by
    have hle : left.length ≤ d.order.size := by
      rw [hlength, ← Array.length_toList, horder]
      simp
    unfold Array.insertIdxIfInBounds
    rw [dif_pos hle, Array.toList_insertIdx, horder, hlength, insertIdx_length_append]
  -- The arrays grow at their end, so the positions in use keep their entries.
  have hold : ∀ other ∈ before ++ after,
      ((d.keys.push v).getD other ⟨0⟩, (d.values.push x).getD other 0) = d.entryAt other := by
    intro other hother
    have hlt := h.bounded other (horder ▸ hother)
    unfold entryAt
    simp only [Array.getD_eq_getD_getElem?, Array.getElem?_push, h.values_size,
      if_neg (Nat.ne_of_lt hlt)]
  have hnew : ((d.keys.push v).getD d.keys.size ⟨0⟩, (d.values.push x).getD d.keys.size 0) =
      (v, x) := by
    simp only [Array.getD_eq_getD_getElem?, Array.getElem?_push, h.values_size, if_true,
      Option.getD_some]
  refine ⟨by simp [h.values_size], fun position hposition => ?_, ?_⟩
  · simp only [horder', Array.size_push] at hposition ⊢
    rcases List.mem_append.mp hposition with hmem | hmem
    · have := h.bounded position (by rw [horder]; exact List.mem_append_left _ hmem)
      omega
    · rcases List.mem_cons.mp hmem with rfl | hmem
      · omega
      · have := h.bounded position (by rw [horder]; exact List.mem_append_right _ hmem)
        omega
  · rw [SortedMap.toList_insert_of_absent hlist hleft hright]
    unfold Dense.toList
    simp only [horder', List.map_append, List.map_cons]
    rw [← hbefore, ← hafter, ← hnew,
      ← List.map_congr_left fun other hother => hold other (List.mem_append_left _ hother),
      ← List.map_congr_left fun other hother => hold other (List.mem_append_right _ hother)]
    rfl

theorem Represents.put (h : d.Represents m) (v : VariableId) (x : α) :
    (d.put v x).Represents (m.putScalar v x) := by
  unfold Dense.put SortedMap.putScalar
  split
  · exact h.erase v
  · have hlocates := h.locates v
    split
    next place hplace =>
      rw [hplace] at hlocates
      obtain ⟨left, y, right, hlist, rfl⟩ := hlocates
      exact h.replaced hlist x
    next place hplace =>
      rw [hplace] at hlocates
      obtain ⟨left, right, hlist, rfl, hleft, hright⟩ := hlocates
      exact h.inserted hlist hleft hright x

/-! ## Changing all values -/

theorem Represents.mapped (h : d.Represents m) (f : α → α) :
    Represents { d with values := d.values.map f } (m.map f) := by
  refine ⟨by simpa using h.values_size, h.bounded, ?_⟩
  change _ = m.toList.map fun entry => (entry.1, f entry.2)
  rw [← h.toList]
  unfold Dense.toList
  rw [List.map_map]
  refine List.map_congr_left fun position hposition => ?_
  have hlt : position < d.values.size := h.values_size ▸ h.bounded position hposition
  unfold entryAt
  simp [hlt]

theorem Represents.ofAscending (m : SortedMap VariableId α) (threshold : Nat) :
    (ofAscending threshold m.toList).Represents m := by
  refine ⟨by simp [Dense.ofAscending], fun position hposition => ?_, ?_⟩
  · simpa [Dense.ofAscending] using hposition
  · refine List.ext_getElem (by simp [Dense.toList, Dense.ofAscending]) fun i hi hi' => ?_
    simp [Dense.toList, Dense.ofAscending, entryAt, hi']

theorem Represents.pruned (h : d.Represents m) :
    d.pruned.Represents (m.filter fun x => x != 0) := by
  unfold Dense.pruned
  split
  next hall =>
    refine ⟨h.values_size, h.bounded, h.toList.trans ?_⟩
    refine (List.filter_eq_self.mpr fun entry hentry => ?_).symm
    rw [← h.toList] at hentry
    obtain ⟨position, hposition, rfl⟩ := List.mem_map.mp hentry
    have hlt : position < d.values.size := h.values_size ▸ h.bounded position hposition
    rw [Array.all_eq_true] at hall
    simpa [entryAt, hlt] using hall position hlt
  next =>
    have hlist : (m.filter fun x => x != 0).toList = d.toList.filter fun entry => entry.2 != 0 := by
      rw [h.toList]
      rfl
    rw [← hlist]
    exact Represents.ofAscending _ _

theorem Represents.empty (threshold : Nat) : (empty threshold : Dense α).Represents .empty :=
  ⟨rfl, by simp [Dense.empty], rfl⟩

instance : LawfulStore (Dense α) α where
  Represents := Represents
  forRow settings _ := Represents.empty settings.denseSearchThreshold
  find? := Represents.find?_eq
  toList := Represents.toList
  size {d m} h := by
    change d.order.size = m.toList.length
    rw [← h.toList, length_toList]
  put := Represents.put
  erase := Represents.erase
  divideBy h divisor := (h.mapped fun x => x / divisor).pruned
  negate h := h.mapped fun x => -x
  clear {d _} _ := Represents.empty d.searchThreshold

end Dense

end LexSimplex
