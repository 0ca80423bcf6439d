import LexSimplex.Storage.Hashed

/-!
# The buckets of a hashed storage

A table is read through `bucketAt`, and each change of the table is described by what it does there.
The invariant of this module, `Table`, is about the buckets alone:

* their number is a power of two and at least eight, and the two counters count what they say;
* at most three quarters of them are in use or tombstones, so that an empty one is left;
* every entry is reached on the search path of its variable before any empty bucket.

It follows that a search comes to an end within one round and finds an entry exactly if there is one
(`Table.locate_spec`).
-/

namespace LexSimplex

namespace Hashed

variable {α : Type} {h next : Hashed α} {v : VariableId} {i j : Nat} {entry : HashedEntry α}

/-- The bucket at an index, empty beyond the table. -/
def bucketAt (h : Hashed α) (i : Nat) : Bucket α := h.buckets.getD i .empty

theorem getD_buckets (h : Hashed α) (i : Nat) : h.buckets.getD i .empty = h.bucketAt i := rfl

theorem entryAt?_eq (h : Hashed α) (i : Nat) : h.entryAt? i = (h.bucketAt i).content := rfl

theorem entryAt?_of_empty (hempty : h.bucketAt i = .empty) : h.entryAt? i = none := by
  rw [entryAt?_eq, hempty]
  rfl

/-- Entries stand inside the table. -/
theorem lt_of_entryAt? (hentry : h.entryAt? i = some entry) : i < h.buckets.size := by
  rcases Nat.lt_or_ge i h.buckets.size with hlt | hge
  · exact hlt
  · unfold entryAt? at hentry
    rw [Array.getD_eq_getD_getElem?, Array.getElem?_eq_none hge] at hentry
    simp [Bucket.content] at hentry

theorem bucketAt_eq_occupied (hentry : h.entryAt? i = some entry) :
    h.bucketAt i = .occupied entry := by
  rw [entryAt?_eq] at hentry
  cases hbucket : h.bucketAt i with
  | occupied found =>
      rw [hbucket] at hentry
      exact congrArg Bucket.occupied (Option.some.inj hentry)
  | _ =>
      rw [hbucket] at hentry
      simp [Bucket.content] at hentry

/-! ## Changes at a bucket -/

theorem bucketAt_set (hlt : i < h.buckets.size) (b : Bucket α) (hbuckets : next.buckets =
    h.buckets.setIfInBounds i b) (j : Nat) :
    next.bucketAt j = if j = i then b else h.bucketAt j := by
  unfold bucketAt
  rw [hbuckets, Array.getD_eq_getD_getElem?, Array.getElem?_setIfInBounds]
  by_cases hj : j = i
  · subst hj
    simp [hlt]
  · simp [hj, Ne.symm hj, Array.getD_eq_getD_getElem?]

theorem bucketAt_modifyEntry (h : Hashed α) (i : Nat) (f : HashedEntry α → HashedEntry α) (j : Nat) :
    (h.modifyEntry i f).bucketAt j =
      if j = i then (h.bucketAt j).mapEntry f else h.bucketAt j := by
  unfold bucketAt modifyEntry
  simp only [Array.getD_eq_getD_getElem?, Array.getElem?_modify]
  by_cases hj : j = i
  · subst hj
    cases h.buckets[j]? with
    | none => simp [Bucket.mapEntry]
    | some b => simp
  · simp [hj, Ne.symm hj]

theorem content_mapEntry (f : HashedEntry α → HashedEntry α) (b : Bucket α) :
    (b.mapEntry f).content = b.content.map f := by
  cases b <;> rfl

theorem mapEntry_eq_empty (f : HashedEntry α → HashedEntry α) (b : Bucket α) :
    b.mapEntry f = .empty ↔ b = .empty := by
  cases b <;> simp [Bucket.mapEntry]

theorem entryAt?_linkForward (h : Hashed α) (previous successor : Option Nat) (j : Nat) :
    (h.linkForward previous successor).entryAt? j = (h.entryAt? j).map fun entry =>
      { entry with next := if previous = some j then successor else entry.next } := by
  unfold linkForward
  cases previous with
  | none =>
      change h.entryAt? j = _
      simp
  | some i =>
      simp only [entryAt?_eq, bucketAt_modifyEntry, Option.some.injEq]
      by_cases hj : j = i
      · subst hj
        simp [content_mapEntry]
      · simp [hj, Ne.symm hj]

theorem entryAt?_linkBackward (h : Hashed α) (next predecessor : Option Nat) (j : Nat) :
    (h.linkBackward next predecessor).entryAt? j = (h.entryAt? j).map fun entry =>
      { entry with previous := if next = some j then predecessor else entry.previous } := by
  unfold linkBackward
  cases next with
  | none =>
      change h.entryAt? j = _
      simp
  | some i =>
      simp only [entryAt?_eq, bucketAt_modifyEntry, Option.some.injEq]
      by_cases hj : j = i
      · subst hj
        simp [content_mapEntry]
      · simp [hj, Ne.symm hj]

/-! ## Counting -/

theorem countP_mapEntry_modify (f : HashedEntry α → HashedEntry α) {test : Bucket α → Bool}
    (htest : ∀ b, test (b.mapEntry f) = test b) (bs : Array (Bucket α)) (i : Nat) :
    (bs.modify i (Bucket.mapEntry f)).countP test = bs.countP test := by
  rw [← Array.countP_toList, ← Array.countP_toList, Array.toList_modify]
  generalize bs.toList = bs
  induction bs generalizing i with
  | nil => simp
  | cons b bs ih =>
      cases i with
      | zero => simp [List.countP_cons, htest]
      | succ i => simp [List.countP_cons, ih]

/-- A test of buckets that does not look into entries. -/
def Shallow (test : Bucket α → Bool) : Prop := ∀ f b, test (Bucket.mapEntry f b) = test b

theorem shallow_isOccupied : Shallow (Bucket.isOccupied (α := α)) := fun _ b => by cases b <;> rfl

theorem shallow_isTombstone : Shallow (Bucket.isTombstone (α := α)) := fun _ b => by cases b <;> rfl

theorem countP_linkForward {test : Bucket α → Bool} (htest : Shallow test) (h : Hashed α)
    (previous successor : Option Nat) :
    (h.linkForward previous successor).buckets.countP test = h.buckets.countP test := by
  unfold linkForward
  cases previous with
  | none => rfl
  | some i => exact countP_mapEntry_modify _ (htest _) h.buckets i

theorem countP_linkBackward {test : Bucket α → Bool} (htest : Shallow test) (h : Hashed α)
    (next predecessor : Option Nat) :
    (h.linkBackward next predecessor).buckets.countP test = h.buckets.countP test := by
  unfold linkBackward
  cases next with
  | none => rfl
  | some i => exact countP_mapEntry_modify _ (htest _) h.buckets i

@[simp] theorem size_linkForward (h : Hashed α) (previous successor : Option Nat) :
    (h.linkForward previous successor).buckets.size = h.buckets.size := by
  unfold linkForward
  cases previous with
  | none => rfl
  | some i => simp [modifyEntry]

@[simp] theorem size_linkBackward (h : Hashed α) (next predecessor : Option Nat) :
    (h.linkBackward next predecessor).buckets.size = h.buckets.size := by
  unfold linkBackward
  cases next with
  | none => rfl
  | some i => simp [modifyEntry]

@[simp] theorem head_linkForward (h : Hashed α) (previous successor : Option Nat) :
    (h.linkForward previous successor).head = if previous = none then successor else h.head := by
  cases previous <;> rfl

@[simp] theorem tail_linkForward (h : Hashed α) (previous successor : Option Nat) :
    (h.linkForward previous successor).tail = h.tail := by
  cases previous <;> rfl

@[simp] theorem head_linkBackward (h : Hashed α) (next predecessor : Option Nat) :
    (h.linkBackward next predecessor).head = h.head := by
  cases next <;> rfl

@[simp] theorem tail_linkBackward (h : Hashed α) (next predecessor : Option Nat) :
    (h.linkBackward next predecessor).tail = if next = none then predecessor else h.tail := by
  cases next <;> rfl

@[simp] theorem counts_linkForward (h : Hashed α) (previous successor : Option Nat) :
    (h.linkForward previous successor).size = h.size ∧
      (h.linkForward previous successor).tombstones = h.tombstones := by
  cases previous <;> exact ⟨rfl, rfl⟩

@[simp] theorem counts_linkBackward (h : Hashed α) (next predecessor : Option Nat) :
    (h.linkBackward next predecessor).size = h.size ∧
      (h.linkBackward next predecessor).tombstones = h.tombstones := by
  cases next <;> exact ⟨rfl, rfl⟩

/-- Linking leaves the empty buckets empty and the others as they are. -/
theorem empty_linkForward (h : Hashed α) (previous successor : Option Nat) (j : Nat) :
    (h.linkForward previous successor).bucketAt j = .empty ↔ h.bucketAt j = .empty := by
  unfold linkForward
  cases previous with
  | none => rfl
  | some i =>
      simp only [bucketAt_modifyEntry]
      split
      · exact mapEntry_eq_empty _ _
      · rfl

theorem empty_linkBackward (h : Hashed α) (next predecessor : Option Nat) (j : Nat) :
    (h.linkBackward next predecessor).bucketAt j = .empty ↔ h.bucketAt j = .empty := by
  unfold linkBackward
  cases next with
  | none => rfl
  | some i =>
      simp only [bucketAt_modifyEntry]
      split
      · exact mapEntry_eq_empty _ _
      · rfl

/-- If the entries and the tombstones do not fill the table, a bucket is empty. -/
theorem exists_empty
    (hload : h.buckets.countP Bucket.isOccupied + h.buckets.countP Bucket.isTombstone <
      h.buckets.size) : ∃ i < h.buckets.size, h.bucketAt i = .empty := by
  have hfull : ∀ bs : List (Bucket α), Bucket.empty ∉ bs →
      bs.countP Bucket.isOccupied + bs.countP Bucket.isTombstone = bs.length := by
    intro bs
    induction bs with
    | nil => simp
    | cons b bs ih =>
        intro hnot
        have hrest := ih fun hmem => hnot (List.mem_cons_of_mem _ hmem)
        cases b with
        | empty => simp at hnot
        | tombstone =>
            simp only [List.countP_cons, Bucket.isOccupied, Bucket.isTombstone, List.length_cons,
              if_true, Bool.false_eq_true, if_false]
            omega
        | occupied entry =>
            simp only [List.countP_cons, Bucket.isOccupied, Bucket.isTombstone, List.length_cons,
              if_true, Bool.false_eq_true, if_false]
            omega
  by_cases hmem : Bucket.empty ∈ h.buckets.toList
  · obtain ⟨i, hlt, hbucket⟩ := List.mem_iff_getElem.mp hmem
    rw [Array.length_toList] at hlt
    refine ⟨i, hlt, ?_⟩
    unfold bucketAt
    rw [Array.getD_eq_getD_getElem?, Array.getElem?_eq_getElem hlt]
    simpa using hbucket
  · have hcount := hfull h.buckets.toList hmem
    rw [Array.countP_toList, Array.countP_toList, Array.length_toList] at hcount
    omega

/-! ## Searching -/

/-- The bucket that a search looks at after a number of steps. -/
def pathAt (h : Hashed α) (v : VariableId) (steps : Nat) : Nat :=
  (h.home v + steps) % h.buckets.size

/-- A bucket is reached on the search path of a variable before any empty one. -/
def Reached (h : Hashed α) (v : VariableId) (i : Nat) : Prop :=
  ∃ steps, i = h.pathAt v steps ∧ ∀ earlier < steps, h.bucketAt (h.pathAt v earlier) ≠ .empty

/-- What holds of the buckets of every table that the operations build. -/
structure Table (h : Hashed α) : Prop where
  power : ∃ k, 3 ≤ k ∧ h.buckets.size = Nat.pow 2 k
  occupied : h.size = h.buckets.countP Bucket.isOccupied
  deleted : h.tombstones = h.buckets.countP Bucket.isTombstone
  load : (h.size + h.tombstones) * 4 ≤ h.buckets.size * 3
  reached : ∀ {i entry}, h.entryAt? i = some entry → h.Reached entry.key i

/-- The meaning of an answer to a search: the bucket that holds the variable, or a free bucket of its
path for a variable that no bucket holds. -/
def Finds (h : Hashed α) (v : VariableId) : Location → Prop
  | .present i => ∃ entry, h.entryAt? i = some entry ∧ entry.key = v
  | .absent i => (∀ j entry, h.entryAt? j = some entry → entry.key ≠ v) ∧ i < h.buckets.size ∧
      h.entryAt? i = none ∧ h.Reached v i

/-- A bucket stays reached while no bucket becomes empty. -/
theorem Reached.mono (hreached : h.Reached v i) (hsize : next.buckets.size = h.buckets.size)
    (hempty : ∀ j, next.bucketAt j = .empty → h.bucketAt j = .empty) : next.Reached v i := by
  have hpath : ∀ steps, next.pathAt v steps = h.pathAt v steps := by
    intro steps
    unfold pathAt home
    rw [hsize]
  obtain ⟨steps, rfl, hearlier⟩ := hreached
  refine ⟨steps, (hpath steps).symm, fun earlier hlt => ?_⟩
  rw [hpath]
  exact fun hvacant => hearlier earlier hlt (hempty _ hvacant)

namespace Table

theorem eight_le (ht : h.Table) : 8 ≤ h.buckets.size := by
  obtain ⟨k, hk, hsize⟩ := ht.power
  rw [hsize]
  exact Nat.pow_le_pow_right (n := 2) (by omega) hk

/-- The search starts inside the table. -/
theorem home_lt (ht : h.Table) (v : VariableId) : h.home v < h.buckets.size := by
  obtain ⟨k, -, hsize⟩ := ht.power
  unfold home
  have hlog : Nat.log2 (Nat.pow 2 k) = k := Nat.log2_two_pow
  have hword : v.index * multiplier % Nat.pow 2 64 < Nat.pow 2 64 := Nat.mod_lt _ (by decide)
  rw [hsize, hlog]
  generalize v.index * multiplier % Nat.pow 2 64 = word at hword ⊢
  rcases Nat.le_total k 64 with hle | hge
  · have hsplit : Nat.pow 2 64 = Nat.pow 2 (64 - k) * Nat.pow 2 k := by
      have hpow := Nat.pow_add 2 (64 - k) k
      rwa [Nat.sub_add_cancel hle] at hpow
    rw [hsplit] at hword
    exact Nat.div_lt_of_lt_mul hword
  · have hzero : 64 - k = 0 := by omega
    rw [hzero]
    have hpow : Nat.pow 2 64 ≤ Nat.pow 2 k := Nat.pow_le_pow_right (n := 2) (by omega) hge
    have hone : word / Nat.pow 2 0 = word := Nat.div_one word
    omega

theorem exists_empty (ht : h.Table) : ∃ i < h.buckets.size, h.bucketAt i = .empty := by
  apply Hashed.exists_empty
  have hload := ht.load
  have height := ht.eight_le
  rw [ht.occupied, ht.deleted] at hload
  omega

/-- The path of every variable comes by every bucket. -/
theorem exists_steps (ht : h.Table) (v : VariableId) {i : Nat} (hlt : i < h.buckets.size) :
    ∃ steps < h.buckets.size, h.pathAt v steps = i := by
  have hhome := ht.home_lt v
  unfold pathAt
  rcases Nat.le_total (h.home v) i with hle | hge
  · refine ⟨i - h.home v, by omega, ?_⟩
    rw [Nat.add_sub_cancel' hle, Nat.mod_eq_of_lt hlt]
  · refine ⟨(i + h.buckets.size - h.home v) % h.buckets.size, Nat.mod_lt _ (by omega), ?_⟩
    rw [Nat.add_mod_mod, Nat.add_sub_cancel' (by omega), Nat.add_mod_right, Nat.mod_eq_of_lt hlt]

theorem pathAt_lt (ht : h.Table) (v : VariableId) (steps : Nat) :
    h.pathAt v steps < h.buckets.size := by
  unfold pathAt
  exact Nat.mod_lt _ (Nat.lt_of_lt_of_le (by omega) ht.eight_le)

theorem pathAt_succ (h : Hashed α) (v : VariableId) (steps : Nat) :
    (h.pathAt v steps + 1) % h.buckets.size = h.pathAt v (steps + 1) := by
  unfold pathAt
  rw [Nat.mod_add_mod, Nat.add_assoc]

end Table

/-- What a search knows after some steps along a path: it came by no empty bucket and by no entry of
the variable, and the bucket that it remembers is a free one that it came by. -/
structure Passed (h : Hashed α) (v : VariableId) (path : Nat → Nat) (steps : Nat)
    (reusable : Option Nat) : Prop where
  nonempty : ∀ earlier < steps, h.bucketAt (path earlier) ≠ .empty
  others : ∀ earlier < steps, ∀ entry, h.entryAt? (path earlier) = some entry → entry.key ≠ v
  reusable : ∀ i, reusable = some i → ∃ earlier < steps, i = path earlier ∧ h.entryAt? i = none

namespace Passed

variable {path : Nat → Nat} {steps : Nat} {reusable : Option Nat}

theorem start (h : Hashed α) (v : VariableId) (path : Nat → Nat) : h.Passed v path 0 none :=
  ⟨by simp, by simp, by simp⟩

/-- One more step, past a bucket that is not empty and does not hold the variable. -/
theorem step (hpassed : h.Passed v path steps reusable)
    (hhere : h.bucketAt (path steps) ≠ .empty)
    (hother : ∀ entry, h.entryAt? (path steps) = some entry → entry.key ≠ v)
    {remembered : Option Nat} (hremembered : ∀ i, remembered = some i →
      reusable = some i ∨ i = path steps ∧ h.entryAt? i = none) :
    h.Passed v path (steps + 1) remembered := by
  refine ⟨fun earlier hearlier => ?_, fun earlier hearlier => ?_, fun i hi => ?_⟩
  · rcases Nat.lt_succ_iff_lt_or_eq.mp hearlier with hbefore | rfl
    · exact hpassed.nonempty earlier hbefore
    · exact hhere
  · rcases Nat.lt_succ_iff_lt_or_eq.mp hearlier with hbefore | rfl
    · exact hpassed.others earlier hbefore
    · exact hother
  · rcases hremembered i hi with hold | ⟨rfl, hnone⟩
    · obtain ⟨earlier, hearlier, hrest⟩ := hpassed.reusable i hold
      exact ⟨earlier, Nat.lt_succ_of_lt hearlier, hrest⟩
    · exact ⟨steps, Nat.lt_succ_self steps, rfl, hnone⟩

/-- At an empty bucket it is clear that no bucket holds the variable: an entry of it would stand on
the path before this bucket. -/
theorem key_ne (hpassed : h.Passed v path steps reusable) (hpath : path = h.pathAt v)
    (ht : h.Table) (hhere : h.bucketAt (path steps) = .empty) (hentry : h.entryAt? j = some entry) :
    entry.key ≠ v := by
  rintro rfl
  obtain ⟨found, rfl, hfound⟩ := ht.reached hentry
  rw [← hpath] at hentry hfound
  rcases Nat.lt_trichotomy found steps with hbefore | rfl | hafter
  · exact hpassed.others found hbefore entry hentry rfl
  · rw [entryAt?_of_empty hhere] at hentry
    simp at hentry
  · exact hfound steps hafter hhere

/-- A free bucket that the search came by answers for a variable that no bucket holds. -/
theorem finds_absent (hpath : path = h.pathAt v) (ht : h.Table)
    (hnone : h.entryAt? (path steps) = none)
    (hearlier : ∀ earlier < steps, h.bucketAt (path earlier) ≠ .empty)
    (hnowhere : ∀ j entry, h.entryAt? j = some entry → entry.key ≠ v) :
    h.Finds v (.absent (path steps)) := by
  subst hpath
  exact ⟨hnowhere, ht.pathAt_lt v steps, hnone, steps, rfl, hearlier⟩

/-- The search comes to an answer as long as it has steps left to an empty bucket. -/
theorem probe_spec {vacant : Nat} (hpath : path = h.pathAt v) (ht : h.Table) (remaining : Nat)
    (hpassed : h.Passed v path steps reusable) (hvacant : h.bucketAt (path vacant) = .empty)
    (hlt : vacant < steps + remaining) :
    ∃ location, probe h.buckets v remaining (path steps) reusable = some location ∧
      h.Finds v location := by
  -- All that the induction needs of the arithmetic of the path.
  have hsucc : ∀ steps, (path steps + 1) % h.buckets.size = path (steps + 1) := by
    rw [hpath]
    exact Table.pathAt_succ h v
  induction remaining generalizing steps reusable with
  | zero => exact absurd hvacant (hpassed.nonempty vacant hlt)
  | succ remaining ih =>
      rw [probe, hsucc, getD_buckets]
      cases hhere : h.bucketAt (path steps) with
      | empty =>
          have hnowhere : ∀ j entry, h.entryAt? j = some entry → entry.key ≠ v := fun _ _ =>
            hpassed.key_ne hpath ht hhere
          cases hcase : reusable with
          | none =>
              exact ⟨.absent (path steps), rfl,
                finds_absent hpath ht (entryAt?_of_empty hhere) hpassed.nonempty hnowhere⟩
          | some i =>
              obtain ⟨earlier, hearlier, rfl, hnone⟩ := hpassed.reusable i hcase
              have hnonempty : ∀ before < earlier, h.bucketAt (path before) ≠ .empty :=
                fun before hbefore => hpassed.nonempty before (Nat.lt_trans hbefore hearlier)
              exact ⟨.absent (path earlier), rfl,
                finds_absent hpath ht hnone hnonempty hnowhere⟩
      | tombstone =>
          have hnone : h.entryAt? (path steps) = none := by
            rw [entryAt?_eq, hhere]
            rfl
          -- The first tombstone on the path is the one that is remembered.
          refine ih (hpassed.step (by simp [hhere]) (by simp [hnone]) fun i hi => ?_) (by omega)
          cases hcase : reusable with
          | none =>
              rw [hcase, Option.none_or, Option.some.injEq] at hi
              exact Or.inr ⟨hi.symm, hi ▸ hnone⟩
          | some first =>
              rw [hcase, Option.some_or] at hi
              exact Or.inl hi
      | occupied entry =>
          have hentry : h.entryAt? (path steps) = some entry := by
            rw [entryAt?_eq, hhere]
            rfl
          simp only
          split
          next hkey => exact ⟨_, rfl, entry, hentry, hkey⟩
          next hkey =>
            refine ih (hpassed.step (by simp [hhere]) ?_ fun i hi => Or.inl hi) (by omega)
            rw [hentry]
            rintro other hother
            exact Option.some.inj hother ▸ hkey

end Passed

/-- A search ends within one round and says where the variable stands, or that it stands nowhere. -/
theorem Table.locate_spec (ht : h.Table) (v : VariableId) :
    ∃ location, h.locate v = some location ∧ h.Finds v location := by
  obtain ⟨i, hlt, hempty⟩ := ht.exists_empty
  obtain ⟨vacant, hvacant, rfl⟩ := ht.exists_steps v hlt
  have hstart : h.pathAt v 0 = h.home v := Nat.mod_eq_of_lt (ht.home_lt v)
  unfold locate
  rw [← hstart]
  exact (Passed.start h v (h.pathAt v)).probe_spec rfl ht h.buckets.size hempty (by omega)

/-! ## Fresh tables -/

theorem bucketAt_ofBucketCount (count i : Nat) :
    (ofBucketCount count : Hashed α).bucketAt i = .empty := by
  unfold bucketAt ofBucketCount
  simp only [Array.getD_eq_getD_getElem?, Array.getElem?_replicate]
  split <;> rfl

theorem entryAt?_ofBucketCount (count i : Nat) :
    (ofBucketCount count : Hashed α).entryAt? i = none :=
  entryAt?_of_empty (bucketAt_ofBucketCount count i)

theorem table_ofBucketCount {k : Nat} (hk : 3 ≤ k) :
    (ofBucketCount (Nat.pow 2 k) : Hashed α).Table where
  power := ⟨k, hk, by simp [ofBucketCount]⟩
  occupied := by simp [ofBucketCount, Array.countP_replicate, Bucket.isOccupied]
  deleted := by simp [ofBucketCount, Array.countP_replicate, Bucket.isTombstone]
  load := by simp [ofBucketCount]
  reached := by
    intro i entry hentry
    rw [entryAt?_ofBucketCount] at hentry
    simp at hentry

end Hashed

end LexSimplex
