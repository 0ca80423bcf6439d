import LexSimplex.Proofs.Storage.Hashed.Chain
import LexSimplex.Proofs.SortedMap

/-!
# Reading a hashed storage and inserting into it

A hashed storage represents a sorted map when its buckets are in order (`Table`) and its chain runs
through the entries of the map (`Threaded`).  A new entry goes into the free bucket that the search
for it ended at and is linked in behind the last smaller variable (`Represents.insertAt`), provided
that the table has room for it.
-/

namespace LexSimplex

open Ranked (rank)

namespace Hashed

variable {α : Type} {h next : Hashed α} {m : SortedMap VariableId α} {v : VariableId} {x : α}
  {i j : Nat} {entry : HashedEntry α} {cells : List (Cell α)}

/-- The buckets are in order, and the chain runs through the entries of a map. -/
structure Represents (h : Hashed α) (m : SortedMap VariableId α) : Prop where
  table : h.Table
  chain : ∃ cells, h.Threaded cells ∧ cells.length = h.size ∧ cells.map Prod.snd = m.toList

/-! ## Reading -/

/-- There are no more cells than buckets. -/
theorem Table.size_le (ht : h.Table) : h.size ≤ h.buckets.size := by
  have hload := ht.load
  omega

/-- Following the chain from its head lists the entries of the map. -/
theorem Represents.chain_spec (hr : h.Represents m) : ∃ entries, h.chain = some entries ∧
    (entries.map fun entry => (entry.key, entry.value)) = m.toList := by
  obtain ⟨cells, hthreaded, hlength, hcells⟩ := hr.chain
  obtain ⟨entries, hentries, hpairs⟩ := hthreaded.chainFrom_spec (List.nil_append cells).symm
    (show cells.length ≤ h.buckets.size from hlength ▸ hr.table.size_le)
  rw [← hthreaded.head] at hentries
  exact ⟨entries, hentries, hpairs.trans hcells⟩

theorem Represents.toList_eq (hr : h.Represents m) : h.toList = m.toList := by
  obtain ⟨entries, hentries, hpairs⟩ := hr.chain_spec
  rw [Hashed.toList, hentries]
  exact hpairs

/-- The entries of the map are those of the buckets. -/
theorem Represents.mem_toList (hr : h.Represents m) {w : VariableId} {y : α} :
    (w, y) ∈ m.toList ↔ ∃ i entry, h.entryAt? i = some entry ∧ entry.key = w ∧ entry.value = y := by
  obtain ⟨cells, hthreaded, hlength, hcells⟩ := hr.chain
  rw [← hcells, List.mem_map]
  constructor
  · rintro ⟨cell, hcell, hpair⟩
    obtain ⟨left, right, hsplit⟩ := List.append_of_mem hcell
    exact ⟨cell.1, _, hthreaded.entry hsplit, congrArg Prod.fst hpair, congrArg Prod.snd hpair⟩
  · rintro ⟨i, entry, hentry, rfl, rfl⟩
    obtain ⟨left, right, hsplit, -, -⟩ := hthreaded.exists_cell hentry
    exact ⟨_, by rw [hsplit]; exact List.mem_append_right _ List.mem_cons_self, rfl⟩

/-- A search that finds nothing says that the map has no entry. -/
theorem Represents.not_mem (hr : h.Represents m) (hfinds : h.Finds v (.absent i)) :
    ∀ p ∈ m.toList, p.1 ≠ v := by
  intro p hp
  obtain ⟨j, entry, hentry, hkey, -⟩ := hr.mem_toList.mp hp
  exact hkey ▸ hfinds.1 j entry hentry

/-- A search for a variable without an entry ends at a free bucket for it. -/
theorem Represents.locate_absent (hr : h.Represents m) (hnot : ∀ p ∈ m.toList, p.1 ≠ v) :
    ∃ i, h.locate v = some (.absent i) ∧ h.Finds v (.absent i) := by
  obtain ⟨location, hlocate, hfinds⟩ := hr.table.locate_spec v
  cases location with
  | present i =>
      obtain ⟨entry, hentry, rfl⟩ := hfinds
      exact absurd rfl (hnot _ (hr.mem_toList.mpr ⟨i, entry, hentry, rfl, rfl⟩))
  | absent i => exact ⟨i, hlocate, hfinds⟩

theorem Represents.find?_eq (hr : h.Represents m) (v : VariableId) : h.find? v = m.find? v := by
  obtain ⟨location, hlocate, hfinds⟩ := hr.table.locate_spec v
  unfold Hashed.find?
  rw [hlocate]
  cases location with
  | present i =>
      obtain ⟨entry, hentry, rfl⟩ := hfinds
      simp only [hentry, Option.map_some]
      exact (SortedMap.find?_eq_some.mpr (hr.mem_toList.mpr ⟨i, entry, hentry, rfl, rfl⟩)).symm
  | absent i =>
      exact (SortedMap.find?_eq_none.mpr fun y hy => hr.not_mem hfinds _ hy rfl).symm

/-! ## Inserting -/

/-- Walking back along the chain ends at the last cell with a smaller variable. -/
theorem Threaded.exists_predecessor (ht : h.Threaded cells) (hle : cells.length ≤ h.buckets.size)
    (v : VariableId) : ∃ left right, cells = left ++ right ∧
      h.predecessor v = some (lastBucket left) ∧ (∀ cell ∈ left, rank cell.2.1 < rank v) ∧
        ∀ cell ∈ right, rank v ≤ rank cell.2.1 := by
  rw [predecessor, ht.tail]
  exact ht.predecessorFrom_spec (List.append_nil cells).symm hle (by simp)

/-- The neighbours between which a new variable is linked in. -/
theorem Represents.exists_gap (hr : h.Represents m) (hnot : ∀ p ∈ m.toList, p.1 ≠ v) :
    ∃ left right, h.Threaded (left ++ right) ∧ (left ++ right).length = h.size ∧
      (left ++ right).map Prod.snd = m.toList ∧ h.predecessor v = some (lastBucket left) ∧
        (∀ p ∈ left.map Prod.snd, rank p.1 < rank v) ∧
          ∀ p ∈ right.map Prod.snd, rank v < rank p.1 := by
  obtain ⟨cells, hthreaded, hlength, hcells⟩ := hr.chain
  obtain ⟨left, right, rfl, hfound, hleft, hright⟩ :=
    hthreaded.exists_predecessor (hlength ▸ hr.table.size_le) v
  refine ⟨left, right, hthreaded, hlength, hcells, hfound, ?_, ?_⟩
  · intro p hp
    obtain ⟨cell, hcell, rfl⟩ := List.mem_map.mp hp
    exact hleft cell hcell
  · intro p hp
    have hne : rank p.1 ≠ rank v := fun hsame =>
      hnot p (by rw [← hcells, List.map_append]; exact List.mem_append_right _ hp)
        (Ranked.rank_injective hsame)
    obtain ⟨cell, hcell, rfl⟩ := List.mem_map.mp hp
    have hge := hright cell hcell
    omega

/-- The bucket after a part of the chain is found through its last cell, or at the head. -/
theorem Threaded.next_eq {left right : List (Cell α)} (ht : h.Threaded (left ++ right)) :
    (lastBucket left = none → h.head = firstBucket right) ∧
      ∀ p, lastBucket left = some p → (h.entryAt? p).bind HashedEntry.next = firstBucket right := by
  rcases List.eq_nil_or_concat left with rfl | ⟨front, cell, rfl⟩
  · exact ⟨fun _ => ht.head, by simp⟩
  · rw [List.concat_eq_append] at ht ⊢
    have hentry := ht.entry (show front ++ [cell] ++ right = front ++ cell :: right by simp)
    rw [lastBucket_concat]
    refine ⟨by simp, fun p hp => ?_⟩
    rw [Option.some.injEq] at hp
    rw [← hp, hentry, Option.bind_some]

/-- The table with a new entry in a bucket, before its neighbours are linked to it. -/
def placed (h : Hashed α) (i : Nat) (entry : HashedEntry α) : Hashed α :=
  { h with
    buckets := h.buckets.setIfInBounds i (.occupied entry)
    tombstones := if (h.buckets.getD i .empty).isTombstone then h.tombstones - 1 else h.tombstones
    size := h.size + 1 }

theorem Threaded.insertAt_eq {left right : List (Cell α)} (ht : h.Threaded (left ++ right))
    (hpredecessor : h.predecessor v = some (lastBucket left)) (i : Nat) (x : α) :
    h.insertAt i v x = ((h.placed i ⟨v, x, lastBucket left, firstBucket right⟩).linkForward
      (lastBucket left) (some i)).linkBackward (firstBucket right) (some i) := by
  obtain ⟨hnone, hsome⟩ := ht.next_eq
  unfold insertAt
  rw [hpredecessor]
  cases hlast : lastBucket left with
  | none =>
      simp only
      rw [hnone hlast]
      rfl
  | some p =>
      simp only
      rw [hsome p hlast]
      rfl

theorem entryAt?_placed (hlt : i < h.buckets.size) (entry : HashedEntry α) (j : Nat) :
    (h.placed i entry).entryAt? j = if j = i then some entry else h.entryAt? j := by
  rw [entryAt?_eq, bucketAt_set hlt (.occupied entry) rfl]
  split <;> rfl

/-- The chain with a new cell. -/
theorem Threaded.insert {left right : List (Cell α)} (ht : h.Threaded (left ++ right))
    (hlt : i < h.buckets.size) (hfree : h.entryAt? i = none)
    (hleft : ∀ p ∈ left.map Prod.snd, rank p.1 < rank v)
    (hright : ∀ p ∈ right.map Prod.snd, rank v < rank p.1) :
    (((h.placed i ⟨v, x, lastBucket left, firstBucket right⟩).linkForward
      (lastBucket left) (some i)).linkBackward (firstBucket right) (some i)).Threaded
        (left ++ ([(i, v, x)] ++ right)) := by
  have hne : ∀ cell ∈ left ++ right, cell.1 ≠ i := by
    intro cell hcell hsame
    obtain ⟨before, after, hsplit⟩ := List.append_of_mem hcell
    rw [← hsame, ht.entry hsplit] at hfree
    simp at hfree
  have hlast : lastBucket left ≠ some i :=
    lastBucket_ne fun cell hcell => hne cell (List.mem_append_left _ hcell)
  have hfirst : firstBucket right ≠ some i :=
    firstBucket_ne fun cell hcell => hne cell (List.mem_append_right _ hcell)
  have hentries : ∀ j, ((((h.placed i ⟨v, x, lastBucket left, firstBucket right⟩).linkForward
      (lastBucket left) (some i)).linkBackward (firstBucket right) (some i)).entryAt? j) =
        if j = i then some ⟨v, x, lastBucket left, firstBucket right⟩
        else (h.entryAt? j).map (relinked left right (some i) (some i) j) := by
    intro j
    rw [entryAt?_linkBackward, entryAt?_linkForward, entryAt?_placed hlt]
    by_cases hj : j = i
    · subst hj
      simp [hlast, hfirst]
    · rw [if_neg hj, if_neg hj, Option.map_map]
      rfl
  have hthreaded : h.Threaded (left ++ ([] ++ right)) := ht
  refine hthreaded.splice ?_ ?_ ?_ ?_ ?_ ?_
  · rw [head_linkBackward, head_linkForward]
    exact ht.head_replaced ([(i, v, x)] ++ right)
  · rw [tail_linkBackward, tail_linkForward, ← List.append_assoc, ← ht.tail_replaced,
      lastBucket_concat]
    rfl
  · intro j entry hentry _
    have hj : j ≠ i := by
      rintro rfl
      rw [hfree] at hentry
      simp at hentry
    rw [hentries, if_neg hj, hentry, Option.map_some, lastBucket_concat]
    rfl
  · intro front cell back hcell
    cases front with
    | nil =>
        rw [List.nil_append, List.cons.injEq] at hcell
        obtain ⟨rfl, rfl⟩ := hcell
        rw [hentries, if_pos rfl]
        simp
    | cons first front => simp at hcell
  · intro j entry hentry
    rw [hentries] at hentry
    split at hentry
    next hj => exact Or.inl (by simp [hj])
    next hj =>
      obtain ⟨old, hold, -⟩ := Option.map_eq_some_iff.mp hentry
      have hmem := ht.covered hold
      rw [List.map_append, List.mem_append] at hmem
      exact Or.inr hmem
  · have hsorted := ht.ascending
    rw [List.map_append, List.pairwise_append] at hsorted
    obtain ⟨hfront, hback, hacross⟩ := hsorted
    simp only [List.map_append, List.map_cons, List.singleton_append]
    refine List.pairwise_append.mpr ⟨hfront, List.pairwise_cons.mpr ⟨hright, hback⟩, ?_⟩
    intro p hp q hq
    rcases List.mem_cons.mp hq with rfl | hq
    · exact hleft p hp
    · exact hacross p hp q hq

theorem countP_setIfInBounds (test : Bucket α → Bool) (hlt : i < h.buckets.size) (b : Bucket α) :
    (h.buckets.setIfInBounds i b).countP test =
      h.buckets.countP test - (if test (h.bucketAt i) then 1 else 0) + if test b then 1 else 0 := by
  have hbucket : h.bucketAt i = h.buckets[i] := by
    unfold bucketAt
    rw [Array.getD_eq_getD_getElem?, Array.getElem?_eq_getElem hlt, Option.getD_some]
  unfold Array.setIfInBounds
  rw [dif_pos hlt, Array.countP_set, hbucket]

/-- The buckets with a new entry, if there is room for it. -/
theorem Table.insert (ht : h.Table) (hlt : i < h.buckets.size) (hfree : h.entryAt? i = none)
    (hreached : h.Reached v i) (hroom : (h.size + h.tombstones + 1) * 4 ≤ h.buckets.size * 3)
    {previous following : Option Nat} :
    (((h.placed i ⟨v, x, previous, following⟩).linkForward previous (some i)).linkBackward
      following (some i)).Table := by
  have hoccupied : (h.bucketAt i).isOccupied = false := by
    rw [entryAt?_eq] at hfree
    cases hbucket : h.bucketAt i with
    | occupied entry =>
        rw [hbucket] at hfree
        simp [Bucket.content] at hfree
    | _ => rfl
  have hsize : (((h.placed i ⟨v, x, previous, following⟩).linkForward previous (some i)).linkBackward
      following (some i)).buckets.size = h.buckets.size := by
    rw [size_linkBackward, size_linkForward]
    exact Array.size_setIfInBounds
  have hcount : (h.placed i ⟨v, x, previous, following⟩).buckets.countP Bucket.isOccupied =
      h.size + 1 := by
    refine (countP_setIfInBounds _ hlt _).trans ?_
    rw [hoccupied, ← ht.occupied]
    rfl
  have hdeleted : (h.placed i ⟨v, x, previous, following⟩).tombstones =
      (h.placed i ⟨v, x, previous, following⟩).buckets.countP Bucket.isTombstone := by
    refine Eq.trans ?_ (countP_setIfInBounds _ hlt _).symm
    rw [← ht.deleted]
    change (if (h.bucketAt i).isTombstone then _ else _) = _
    cases (h.bucketAt i).isTombstone <;> rfl
  have hfewer : (h.placed i ⟨v, x, previous, following⟩).tombstones ≤ h.tombstones := by
    change (if (h.bucketAt i).isTombstone then _ else _) ≤ _
    split <;> omega
  refine ⟨?_, ?_, ?_, ?_, ?_⟩
  · rw [hsize]
    exact ht.power
  · rw [countP_linkBackward shallow_isOccupied, countP_linkForward shallow_isOccupied, hcount,
      (counts_linkBackward _ _ _).1, (counts_linkForward _ _ _).1]
    rfl
  · rw [countP_linkBackward shallow_isTombstone, countP_linkForward shallow_isTombstone, ← hdeleted,
      (counts_linkBackward _ _ _).2, (counts_linkForward _ _ _).2]
  · rw [hsize, (counts_linkBackward _ _ _).1, (counts_linkForward _ _ _).1,
      (counts_linkBackward _ _ _).2, (counts_linkForward _ _ _).2]
    change (h.size + 1 + _) * 4 ≤ _
    omega
  · intro j entry hentry
    have hkept : ∀ w k, h.Reached w k →
        (((h.placed i ⟨v, x, previous, following⟩).linkForward previous (some i)).linkBackward
          following (some i)).Reached w k := by
      refine fun w k hk => hk.mono hsize fun k hempty => ?_
      rw [empty_linkBackward, empty_linkForward, bucketAt_set hlt (.occupied _) rfl] at hempty
      split at hempty
      · simp at hempty
      · exact hempty
    rw [entryAt?_linkBackward, entryAt?_linkForward, entryAt?_placed hlt, Option.map_map,
      Option.map_eq_some_iff] at hentry
    obtain ⟨old, hold, rfl⟩ := hentry
    split at hold
    next hj =>
      rw [Option.some.injEq] at hold
      subst hj hold
      exact hkept _ _ hreached
    next hj =>
      have hold := ht.reached hold
      exact hkept _ _ hold

/-- Placing a new entry where the search for it ended. -/
theorem Represents.insertAt (hr : h.Represents m) (hfinds : h.Finds v (.absent i))
    (hroom : (h.size + h.tombstones + 1) * 4 ≤ h.buckets.size * 3) (x : α) :
    (h.insertAt i v x).Represents (m.insert v x) := by
  have hnot := hr.not_mem hfinds
  obtain ⟨-, hlt, hfree, hreached⟩ := hfinds
  obtain ⟨left, right, hthreaded, hlength, hcells, hpredecessor, hleft, hright⟩ := hr.exists_gap hnot
  rw [hthreaded.insertAt_eq hpredecessor]
  refine ⟨hr.table.insert hlt hfree hreached hroom, _,
    hthreaded.insert hlt hfree hleft hright, ?_, ?_⟩
  · rw [(counts_linkBackward _ _ _).1, (counts_linkForward _ _ _).1]
    change _ = h.size + 1
    rw [← hlength]
    simp
    omega
  · rw [List.map_append] at hcells
    rw [SortedMap.toList_insert_of_absent hcells.symm hleft hright]
    simp

end Hashed

end LexSimplex
