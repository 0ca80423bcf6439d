import LexSimplex.Proofs.Storage.Hashed.Removal
import LexSimplex.Proofs.Storage.Represents

/-!
# The hashed storage represents sorted maps

The operations of a hashed storage are those of the map it represents.  Two of them work on the whole
table:

* rehashing places the entries anew, in ascending order, in a table that has room for one more;
* dividing changes all values where they stand and then removes the entries that became zero.
-/

namespace LexSimplex

open Ranked (rank)

namespace Hashed

variable {α : Type} {h next : Hashed α} {m : SortedMap VariableId α} {v : VariableId} {x : α}
  {i j : Nat} {entry : HashedEntry α} {cells : List (Cell α)}

/-! ## Rehashing -/

@[simp] theorem size_buckets_insertAt (h : Hashed α) (i : Nat) (v : VariableId) (x : α) :
    (h.insertAt i v x).buckets.size = h.buckets.size := by
  unfold insertAt
  split
  · rfl
  · simp

/-- Placing a variable that is not in the table, if there is room for it. -/
theorem Represents.insertNew (hr : h.Represents m) (hnot : ∀ p ∈ m.toList, p.1 ≠ v)
    (hroom : (h.size + h.tombstones + 1) * 4 ≤ h.buckets.size * 3) (x : α) :
    (h.insertNew v x).Represents (m.insert v x) ∧
      (h.insertNew v x).buckets.size = h.buckets.size := by
  obtain ⟨i, hlocate, hfinds⟩ := hr.locate_absent hnot
  rw [Hashed.insertNew, hlocate]
  exact ⟨hr.insertAt hfinds hroom x, size_buckets_insertAt h i v x⟩

theorem Represents.length_eq (hr : h.Represents m) : m.toList.length = h.size := by
  obtain ⟨cells, -, hlength, hcells⟩ := hr.chain
  rw [← hcells, List.length_map, hlength]

theorem tombstones_insertAt_le (h : Hashed α) (i : Nat) (v : VariableId) (x : α) :
    (h.insertAt i v x).tombstones ≤ h.tombstones := by
  unfold insertAt
  split
  · exact Nat.le_refl _
  · simp only [(counts_linkBackward _ _ _).2, (counts_linkForward _ _ _).2]
    split <;> omega

theorem tombstones_insertNew_le (h : Hashed α) (v : VariableId) (x : α) :
    (h.insertNew v x).tombstones ≤ h.tombstones := by
  unfold insertNew
  split
  · exact tombstones_insertAt_le ..
  · exact Nat.le_refl _

/-- A table that is being filled in ascending order: it has no tombstones, its entries come before
those that are still to be placed, and it has room for these. -/
structure Filling (h : Hashed α) (m : SortedMap VariableId α) (rest : List (VariableId × α)) :
    Prop where
  represents : h.Represents m
  clean : h.tombstones = 0
  sorted : (m.toList ++ rest).Pairwise fun p q => rank p.1 < rank q.1
  room : (m.toList ++ rest).length * 4 ≤ h.buckets.size * 3

/-- Placing the next entry. -/
theorem Filling.step {entry : VariableId × α} {rest : List (VariableId × α)}
    (hf : h.Filling m (entry :: rest)) :
    (h.insertNew entry.1 entry.2).Filling (m.insert entry.1 entry.2) rest ∧
      (m.insert entry.1 entry.2).toList = m.toList ++ [entry] ∧
      (h.insertNew entry.1 entry.2).buckets.size = h.buckets.size := by
  have hsorted := hf.sorted
  have hroom := hf.room
  have hclean := hf.clean
  have hlength := hf.represents.length_eq
  have hsmaller : ∀ p ∈ m.toList, rank p.1 < rank entry.1 := fun p hp =>
    (List.pairwise_append.mp hsorted).2.2 p hp entry List.mem_cons_self
  have hlist : (m.insert entry.1 entry.2).toList = m.toList ++ [entry] :=
    SortedMap.toList_insert_of_absent (List.append_nil _).symm hsmaller (by simp)
  rw [List.length_append, List.length_cons] at hroom
  obtain ⟨hinserted, hsize⟩ := hf.represents.insertNew (v := entry.1)
    (fun p hp hsame => Nat.lt_irrefl _ (hsame ▸ hsmaller p hp)) (by omega) entry.2
  have hstill := tombstones_insertNew_le h entry.1 entry.2
  refine ⟨⟨hinserted, by omega, ?_, ?_⟩, hlist, hsize⟩
  · rw [hlist, List.append_assoc]
    exact hsorted
  · rw [hlist, hsize, List.append_assoc, List.length_append, List.singleton_append,
      List.length_cons]
    exact hroom

/-- Placing all entries. -/
theorem Filling.all {rest : List (VariableId × α)} (hf : h.Filling m rest) :
    ∃ m' : SortedMap VariableId α, m'.toList = m.toList ++ rest ∧
      (rest.foldl (fun table entry => table.insertNew entry.1 entry.2) h).Filling m' [] ∧
      (rest.foldl (fun table entry => table.insertNew entry.1 entry.2) h).buckets.size =
        h.buckets.size := by
  induction rest generalizing h m with
  | nil => exact ⟨m, (List.append_nil _).symm, hf, rfl⟩
  | cons entry rest ih =>
      obtain ⟨hnext, hlist, hsize⟩ := hf.step
      obtain ⟨m', hm', hall, hbuckets⟩ := ih hnext
      exact ⟨m', by rw [hm', hlist, List.append_assoc, List.singleton_append], hall,
        hbuckets.trans hsize⟩

/-- The number of buckets of the rebuilt table. -/
def rebuiltCount (h : Hashed α) : Nat :=
  if h.buckets.size < (h.size + 1) * 2 then h.buckets.size * 2 else h.buckets.size

/-- The rebuilt table starts out empty, with room for the entries and for one more. -/
theorem Represents.filling (hr : h.Represents m) :
    (ofBucketCount h.rebuiltCount : Hashed α).Filling .empty m.toList ∧
      (h.size + 1) * 4 ≤ h.rebuiltCount * 3 := by
  have hload := hr.table.load
  have height := hr.table.eight_le
  obtain ⟨k, hk, hsize⟩ := hr.table.power
  obtain ⟨k', hk', hcount⟩ : ∃ k', 3 ≤ k' ∧ h.rebuiltCount = Nat.pow 2 k' := by
    unfold rebuiltCount
    split
    · exact ⟨k + 1, by omega, by rw [hsize]; rfl⟩
    · exact ⟨k, hk, hsize⟩
  have hroom : (h.size + 1) * 4 ≤ h.rebuiltCount * 3 := by
    unfold rebuiltCount
    split <;> omega
  refine ⟨⟨hcount ▸ represents_ofBucketCount hk', rfl, m.ascending, ?_⟩, hroom⟩
  show m.toList.length * 4 ≤ (ofBucketCount h.rebuiltCount : Hashed α).buckets.size * 3
  rw [hr.length_eq, ofBucketCount, Array.size_replicate]
  omega

/-- Rehashing keeps the entries and makes room for one more. -/
theorem Represents.rehash (hr : h.Represents m) :
    h.rehash.Represents m ∧
      (h.rehash.size + h.rehash.tombstones + 1) * 4 ≤ h.rehash.buckets.size * 3 := by
  obtain ⟨hstart, hroom⟩ := hr.filling
  obtain ⟨m', hm', hall, hbuckets⟩ := hstart.all
  have hsame : m' = m := SortedMap.ext_mem fun w y => by rw [hm']; rfl
  subst hsame
  have hrehash : h.rehash = m'.toList.foldl (fun table entry => table.insertNew entry.1 entry.2)
      (ofBucketCount h.rebuiltCount) := by
    rw [← hr.toList_eq]
    rfl
  rw [hrehash, hall.clean, hbuckets, ← hall.represents.length_eq, hr.length_eq, ofBucketCount,
    Array.size_replicate]
  exact ⟨hall.represents, hroom⟩

/-! ## Changing values -/

/-- Two tables that differ in the values of their entries only. -/
structure Revalued (h next : Hashed α) (change : Nat → α → α) : Prop where
  size : next.size = h.size
  tombstones : next.tombstones = h.tombstones
  head : next.head = h.head
  tail : next.tail = h.tail
  buckets : next.buckets.size = h.buckets.size
  count : ∀ {test : Bucket α → Bool}, Shallow test →
    next.buckets.countP test = h.buckets.countP test
  bucketAt : ∀ i, next.bucketAt i =
    (h.bucketAt i).mapEntry fun entry => { entry with value := change i entry.value }

/-- A cell with its value changed. -/
def revalue (change : Nat → α → α) (cell : Cell α) : Cell α :=
  (cell.1, cell.2.1, change cell.1 cell.2.2)

namespace Revalued

variable {change : Nat → α → α}

theorem entryAt? (hv : Revalued h next change) (i : Nat) : next.entryAt? i =
    (h.entryAt? i).map fun entry => { entry with value := change i entry.value } := by
  rw [entryAt?_eq, hv.bucketAt, content_mapEntry]
  rfl

theorem table (hv : Revalued h next change) (ht : h.Table) : next.Table where
  power := by rw [hv.buckets]; exact ht.power
  occupied := by rw [hv.size, hv.count shallow_isOccupied, ht.occupied]
  deleted := by rw [hv.tombstones, hv.count shallow_isTombstone, ht.deleted]
  load := by rw [hv.size, hv.tombstones, hv.buckets]; exact ht.load
  reached := by
    intro i entry hentry
    rw [hv.entryAt?, Option.map_eq_some_iff] at hentry
    obtain ⟨old, hold, rfl⟩ := hentry
    refine (ht.reached hold).mono hv.buckets fun j hempty => ?_
    rwa [hv.bucketAt, mapEntry_eq_empty] at hempty

theorem firstBucket_map (cells : List (Cell α)) :
    firstBucket (cells.map (revalue change)) = firstBucket cells := by
  cases cells <;> rfl

theorem lastBucket_map (cells : List (Cell α)) :
    lastBucket (cells.map (revalue change)) = lastBucket cells := by
  unfold lastBucket
  rw [List.getLast?_map, Option.map_map]
  rfl

theorem threaded (hv : Revalued h next change) (ht : h.Threaded cells) :
    next.Threaded (cells.map (revalue change)) where
  head := by rw [hv.head, firstBucket_map, ht.head]
  tail := by rw [hv.tail, lastBucket_map, ht.tail]
  entry := by
    intro left cell right hsplit
    obtain ⟨before, rest, rfl, rfl, hrest⟩ := List.map_eq_append_iff.mp hsplit
    obtain ⟨old, after, rfl, rfl, rfl⟩ := List.map_eq_cons_iff.mp hrest
    rw [firstBucket_map, lastBucket_map, hv.entryAt?]
    exact congrArg (Option.map _) (ht.entry rfl)
  covered := by
    intro i entry hentry
    rw [hv.entryAt?, Option.map_eq_some_iff] at hentry
    obtain ⟨old, hold, -⟩ := hentry
    rw [List.map_map]
    exact ht.covered hold
  ascending := by
    rw [List.map_map]
    have hascending := ht.ascending
    rw [List.pairwise_map] at hascending ⊢
    exact hascending

/-- The changed table represents every map with the changed values. -/
theorem represents (hv : Revalued h next change) (hr : h.Represents m)
    {m' : SortedMap VariableId α}
    (hm' : ∀ cells, h.Threaded cells → cells.map Prod.snd = m.toList →
      (cells.map (revalue change)).map Prod.snd = m'.toList) : next.Represents m' := by
  obtain ⟨cells, hthreaded, hlength, hcells⟩ := hr.chain
  exact ⟨hv.table hr.table, _, hv.threaded hthreaded, by rw [List.length_map, hlength, hv.size],
    hm' cells hthreaded hcells⟩

end Revalued

theorem revalued_modifyEntry (h : Hashed α) (i : Nat) (x : α) :
    Revalued h (h.modifyEntry i fun entry => { entry with value := x })
      fun j y => if j = i then x else y where
  size := rfl
  tombstones := rfl
  head := rfl
  tail := rfl
  buckets := by simp [modifyEntry]
  count htest := countP_mapEntry_modify _ (htest _) h.buckets i
  bucketAt j := by
    rw [bucketAt_modifyEntry]
    split
    · rfl
    · cases h.bucketAt j <;> rfl

theorem revalued_mapValues (h : Hashed α) (f : α → α) :
    Revalued h (h.mapValues f) fun _ => f where
  size := rfl
  tombstones := rfl
  head := rfl
  tail := rfl
  buckets := by simp [mapValues]
  count {test} htest := by
    unfold mapValues
    rw [Array.countP_map]
    congr 1
    funext b
    exact htest _ b
  bucketAt i := by
    unfold mapValues Hashed.bucketAt
    simp only [Array.getD_eq_getD_getElem?, Array.getElem?_map]
    cases h.buckets[i]? <;> rfl

theorem Represents.mapValues (hr : h.Represents m) (f : α → α) :
    (h.mapValues f).Represents (m.map f) := by
  refine (revalued_mapValues h f).represents hr fun cells _ hcells => ?_
  change _ = m.toList.map _
  rw [← hcells, List.map_map, List.map_map]
  rfl

/-- Storing a value at a variable that has one. -/
theorem Represents.overwrite (hr : h.Represents m) (hentry : h.entryAt? i = some entry) (x : α) :
    (h.modifyEntry i fun entry => { entry with value := x }).Represents (m.insert entry.key x) := by
  refine (revalued_modifyEntry h i x).represents hr fun cells hthreaded hcells => ?_
  obtain ⟨left, right, rfl, -, -⟩ := hthreaded.exists_cell hentry
  obtain ⟨hbefore, hafter⟩ := hthreaded.distinct rfl
  rw [List.map_append, List.map_cons] at hcells
  rw [SortedMap.toList_insert_of_present hcells.symm, List.map_map, List.map_append, List.map_cons]
  have hkept : ∀ other : Cell α, other.1 ≠ i →
      (Prod.snd ∘ revalue fun j y => if j = i then x else y) other = other.2 := by
    intro other hne
    simp [revalue, hne]
  rw [List.map_congr_left fun other hother => hkept other (hbefore other hother),
    List.map_congr_left fun other hother => hkept other (hafter other hother)]
  simp [revalue]

theorem Represents.foldl_erase (hr : h.Represents m) (vs : List VariableId) :
    (vs.foldl Hashed.erase h).Represents (vs.foldl SortedMap.erase m) := by
  induction vs generalizing h m with
  | nil => exact hr
  | cons v vs ih => exact ih (hr.erase v)

theorem mem_foldl_erase (m : SortedMap VariableId α) (vs : List VariableId) {w : VariableId} {y : α} :
    (w, y) ∈ (vs.foldl SortedMap.erase m).toList ↔ w ∉ vs ∧ (w, y) ∈ m.toList := by
  induction vs generalizing m with
  | nil => simp
  | cons v vs ih =>
      rw [List.foldl_cons, ih, SortedMap.mem_erase, List.mem_cons, not_or]
      exact ⟨fun ⟨hrest, hne, hmem⟩ => ⟨⟨hne, hrest⟩, hmem⟩,
        fun ⟨⟨hne, hrest⟩, hmem⟩ => ⟨hrest, hne, hmem⟩⟩

section Operations

variable [Scalar α]

theorem Represents.put (hr : h.Represents m) (v : VariableId) (x : α) :
    (h.put v x).Represents (m.putScalar v x) := by
  unfold Hashed.put SortedMap.putScalar
  split
  · exact hr.erase v
  · obtain ⟨location, hlocate, hfinds⟩ := hr.table.locate_spec v
    rw [hlocate]
    cases location with
    | present i =>
        obtain ⟨entry, hentry, rfl⟩ := hfinds
        exact hr.overwrite hentry x
    | absent i =>
        simp only
        split
        · obtain ⟨hrehashed, hroom⟩ := hr.rehash
          exact (hrehashed.insertNew (hr.not_mem hfinds) hroom x).1
        next hfits =>
          refine hr.insertAt hfinds ?_ x
          unfold isOverloaded at hfits
          rw [decide_eq_true_eq] at hfits
          omega

/-! ## Dividing -/

theorem Represents.mem_zeros (hr : h.Represents m) {w : VariableId} :
    w ∈ h.zeros ↔ ∃ y, (w, y) ∈ m.toList ∧ (y == 0) = true := by
  unfold zeros
  rw [List.mem_filterMap]
  constructor
  · rintro ⟨bucket, hbucket, hzero⟩
    obtain ⟨i, hlt, hi⟩ := List.mem_iff_getElem.mp hbucket
    cases bucket with
    | occupied entry =>
        simp only [Bucket.content, Option.bind_some, Option.ite_none_right_eq_some,
          Option.some.injEq] at hzero
        obtain ⟨hvalue, rfl⟩ := hzero
        refine ⟨entry.value, hr.mem_toList.mpr ⟨i, entry, ?_, rfl, rfl⟩, hvalue⟩
        rw [Array.length_toList] at hlt
        unfold Hashed.entryAt?
        rw [Array.getD_eq_getD_getElem?, Array.getElem?_eq_getElem hlt, Option.getD_some,
          ← Array.getElem_toList hlt, hi]
        rfl
    | _ => simp [Bucket.content] at hzero
  · rintro ⟨y, hmem, hy⟩
    obtain ⟨i, entry, hentry, rfl, rfl⟩ := hr.mem_toList.mp hmem
    have hlt := lt_of_entryAt? hentry
    have hbucket := bucketAt_eq_occupied hentry
    unfold Hashed.bucketAt at hbucket
    rw [Array.getD_eq_getD_getElem?, Array.getElem?_eq_getElem hlt, Option.getD_some] at hbucket
    refine ⟨.occupied entry, ?_, by simp [Bucket.content, hy]⟩
    rw [← hbucket]
    exact Array.mem_toList_iff.mpr (Array.getElem_mem hlt)

/-- Dividing drops the entries that became zero. -/
theorem Represents.divideBy (hr : h.Represents m) (divisor : α) :
    (h.divideBy divisor).Represents (RowStore.divideBy m divisor) := by
  have hdivided := hr.mapValues fun y => y / divisor
  have hpruned := hdivided.foldl_erase (h.mapValues fun y => y / divisor).zeros
  have hmap : (h.mapValues fun y => y / divisor).zeros.foldl SortedMap.erase
      (m.map fun y => y / divisor) = RowStore.divideBy m divisor := by
    refine SortedMap.ext_mem fun w y => ?_
    change _ ↔ (w, y) ∈ ((m.map fun y => y / divisor).filter fun y => y != 0).toList
    rw [mem_foldl_erase, SortedMap.mem_filter, hdivided.mem_zeros]
    constructor
    · rintro ⟨hnot, hmem⟩
      refine ⟨hmem, ?_⟩
      rw [bne, Bool.not_eq_true', Bool.eq_false_iff]
      exact fun hzero => hnot ⟨y, hmem, hzero⟩
    · rintro ⟨hmem, hnonzero⟩
      refine ⟨?_, hmem⟩
      rintro ⟨z, hz, hzero⟩
      -- A variable has one value, so the one that is zero is this one.
      have hsame := SortedMap.find?_eq_some.mpr hz
      rw [SortedMap.find?_eq_some.mpr hmem, Option.some.injEq] at hsame
      rw [hsame, bne, hzero] at hnonzero
      simp at hnonzero
  rw [← hmap]
  exact hpruned

instance : LawfulStore (Hashed α) α where
  Represents := Represents
  forRow _ _ := represents_ofBucketCount (Nat.le_max_left 3 _)
  find? := Represents.find?_eq
  toList := Represents.toList_eq
  size hr := hr.length_eq.symm
  put := Represents.put
  erase := Represents.erase
  divideBy := Represents.divideBy
  negate hr := hr.mapValues fun x => -x
  clear hr := hr.table.clear

end Operations

end Hashed

end LexSimplex
