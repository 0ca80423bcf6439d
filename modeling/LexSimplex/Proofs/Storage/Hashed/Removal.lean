import LexSimplex.Proofs.Storage.Hashed.Insertion

/-!
# Removing from a hashed storage

A removed entry leaves a tombstone behind, and its neighbours in the chain are linked to each other.
The last entry is an exception: once it goes, all buckets become empty.
-/

namespace LexSimplex

open Ranked (rank)

namespace Hashed

variable {α : Type} {h next : Hashed α} {m : SortedMap VariableId α} {v : VariableId} {x : α}
  {i j : Nat} {entry : HashedEntry α} {cells : List (Cell α)}

theorem represents_ofBucketCount {k : Nat} (hk : 3 ≤ k) :
    (ofBucketCount (Nat.pow 2 k) : Hashed α).Represents .empty := by
  refine ⟨table_ofBucketCount hk, [], ⟨rfl, rfl, by simp, ?_, List.Pairwise.nil⟩, rfl, rfl⟩
  intro i entry hentry
  rw [entryAt?_ofBucketCount] at hentry
  simp at hentry

theorem Table.clear (ht : h.Table) : h.clear.Represents .empty := by
  obtain ⟨k, hk, hsize⟩ := ht.power
  unfold Hashed.clear
  rw [hsize]
  exact represents_ofBucketCount hk

/-- The table with a tombstone in place of an entry that was taken out of the chain. -/
def buried (h : Hashed α) (i : Nat) (previous following : Option Nat) : Hashed α :=
  let unlinked := (h.linkForward previous following).linkBackward following previous
  { unlinked with
    buckets := unlinked.buckets.setIfInBounds i .tombstone
    tombstones := h.tombstones + 1
    size := h.size - 1 }

theorem bucketAt_buried (hlt : i < h.buckets.size) (previous following : Option Nat) (j : Nat) :
    (h.buried i previous following).bucketAt j = if j = i then .tombstone
      else ((h.linkForward previous following).linkBackward following previous).bucketAt j :=
  bucketAt_set (by rwa [size_linkBackward, size_linkForward]) .tombstone rfl j

theorem entryAt?_buried (hlt : i < h.buckets.size) {left right : List (Cell α)} (j : Nat) :
    (h.buried i (lastBucket left) (firstBucket right)).entryAt? j = if j = i then none
      else (h.entryAt? j).map
        (Threaded.relinked left right (firstBucket right) (lastBucket left) j) := by
  rw [entryAt?_eq, bucketAt_buried hlt]
  split
  · rfl
  · rw [← entryAt?_eq, entryAt?_linkBackward, entryAt?_linkForward, Option.map_map]
    rfl

/-- The chain without a cell. -/
theorem Threaded.remove {left right : List (Cell α)} {cell : Cell α}
    (ht : h.Threaded (left ++ ([cell] ++ right))) (hlt : cell.1 < h.buckets.size) :
    (h.buried cell.1 (lastBucket left) (firstBucket right)).Threaded (left ++ ([] ++ right)) := by
  refine ht.splice ?_ ?_ ?_ ?_ ?_ ?_
  · unfold buried
    simp only [head_linkBackward, head_linkForward]
    exact ht.head_replaced right
  · unfold buried
    simp only [tail_linkBackward, tail_linkForward]
    rw [← List.append_assoc] at ht
    exact ht.tail_replaced left
  · intro j entry hentry hj
    rw [List.map_singleton, List.mem_singleton] at hj
    rw [entryAt?_buried hlt, if_neg hj, hentry, Option.map_some, List.nil_append, List.append_nil]
  · intro front other back hempty
    simp at hempty
  · intro j entry hentry
    rw [entryAt?_buried hlt] at hentry
    split at hentry
    · simp at hentry
    next hj =>
      obtain ⟨old, hold, -⟩ := Option.map_eq_some_iff.mp hentry
      have hmem := ht.covered hold
      simp only [List.map_append, List.map_cons, List.map_nil, List.mem_append, List.mem_singleton,
        hj, false_or] at hmem
      exact Or.inr hmem
  · have hsorted := ht.ascending
    simp only [List.map_append, List.map_cons, List.map_nil, List.pairwise_append,
      List.mem_append] at hsorted ⊢
    exact ⟨hsorted.1, ⟨List.Pairwise.nil, hsorted.2.1.2.1, by simp⟩, fun p hp q hq =>
      hsorted.2.2 p hp q (Or.inr (by simpa using hq))⟩

/-- The buckets with a tombstone in place of an entry. -/
theorem Table.remove (ht : h.Table) (hentry : h.entryAt? i = some entry)
    (previous following : Option Nat) : (h.buried i previous following).Table := by
  have hlt := lt_of_entryAt? hentry
  have hsize : (h.buried i previous following).buckets.size = h.buckets.size := by
    unfold buried
    simp
  -- The bucket is still occupied when its neighbours have been linked to each other.
  obtain ⟨linked, hlinked⟩ : ∃ linked, ((h.linkForward previous following).linkBackward
      following previous).bucketAt i = .occupied linked := by
    have hstill := entryAt?_linkBackward (h.linkForward previous following) following previous i
    rw [entryAt?_linkForward, hentry, Option.map_some, Option.map_some] at hstill
    exact ⟨_, bucketAt_eq_occupied hstill⟩
  have hcount : ∀ {test : Bucket α → Bool}, Shallow test →
      (h.buried i previous following).buckets.countP test =
        h.buckets.countP test - (if test (.occupied linked) then 1 else 0) +
          if test .tombstone then 1 else 0 := by
    intro test htest
    refine (countP_setIfInBounds test (by rwa [size_linkBackward, size_linkForward]) _).trans ?_
    rw [hlinked, countP_linkBackward htest, countP_linkForward htest]
  have hload := ht.load
  have hpositive : 1 ≤ h.size := by
    rw [ht.occupied]
    refine Array.countP_pos_iff.mpr ⟨.occupied entry, ?_, rfl⟩
    have hbucket := bucketAt_eq_occupied hentry
    unfold bucketAt at hbucket
    rw [Array.getD_eq_getD_getElem?, Array.getElem?_eq_getElem hlt, Option.getD_some] at hbucket
    exact hbucket ▸ Array.getElem_mem hlt
  refine ⟨?_, ?_, ?_, ?_, ?_⟩
  · rw [hsize]
    exact ht.power
  · rw [hcount shallow_isOccupied, ← ht.occupied]
    rfl
  · rw [hcount shallow_isTombstone, ← ht.deleted]
    rfl
  · rw [hsize]
    change (h.size - 1 + (h.tombstones + 1)) * 4 ≤ _
    omega
  · intro j found hfound
    have hkept : ∀ w k, h.Reached w k → (h.buried i previous following).Reached w k := by
      refine fun w k hk => hk.mono hsize fun k hempty => ?_
      rw [bucketAt_buried hlt] at hempty
      split at hempty
      · simp at hempty
      · rwa [empty_linkBackward, empty_linkForward] at hempty
    rw [entryAt?_eq, bucketAt_buried hlt] at hfound
    split at hfound
    · simp [Bucket.content] at hfound
    · rw [← entryAt?_eq, entryAt?_linkBackward, entryAt?_linkForward, Option.map_map,
        Option.map_eq_some_iff] at hfound
      obtain ⟨old, hold, rfl⟩ := hfound
      have hreached := ht.reached hold
      exact hkept _ _ hreached

theorem Represents.removeAt (hr : h.Represents m) (hentry : h.entryAt? i = some entry) :
    (h.removeAt i entry).Represents (m.erase entry.key) := by
  obtain ⟨cells, hthreaded, hlength, hcells⟩ := hr.chain
  obtain ⟨left, right, rfl, hprevious, hnext⟩ := hthreaded.exists_cell hentry
  rw [List.map_append, List.map_cons] at hcells
  have herased := SortedMap.toList_erase_of_present hcells.symm
  unfold Hashed.removeAt
  split
  next hone =>
    -- The only entry is removed, and all buckets become empty.
    have hnone : left = [] ∧ right = [] := by
      rw [List.length_append, List.length_cons, hone] at hlength
      exact ⟨List.length_eq_zero_iff.mp (by omega), List.length_eq_zero_iff.mp (by omega)⟩
    have hempty : m.erase entry.key = .empty := by
      refine SortedMap.ext_mem fun w y => ?_
      rw [herased, hnone.1, hnone.2]
      rfl
    rw [hempty]
    exact hr.table.clear
  next hmore =>
    rw [hprevious, hnext]
    refine ⟨hr.table.remove hentry _ _, left ++ ([] ++ right),
      hthreaded.remove (lt_of_entryAt? hentry), ?_, ?_⟩
    · change _ = h.size - 1
      rw [← hlength]
      simp
    · rw [herased]
      simp

theorem Represents.erase (hr : h.Represents m) (v : VariableId) :
    (h.erase v).Represents (m.erase v) := by
  obtain ⟨location, hlocate, hfinds⟩ := hr.table.locate_spec v
  unfold Hashed.erase
  rw [hlocate]
  cases location with
  | present i =>
      obtain ⟨entry, hentry, rfl⟩ := hfinds
      simp only [hentry]
      exact hr.removeAt hentry
  | absent i =>
      obtain ⟨cells, hthreaded, hlength, hcells⟩ := hr.chain
      exact ⟨hr.table, cells, hthreaded, hlength,
        hcells.trans (SortedMap.toList_erase_of_absent (hr.not_mem hfinds)).symm⟩

end Hashed

end LexSimplex
