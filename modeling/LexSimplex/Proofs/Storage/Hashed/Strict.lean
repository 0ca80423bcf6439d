import LexSimplex.Proofs.Storage.Agreement

/-!
# The hashed storage never gets stuck

The operations of a hashed storage take for granted that they look at buckets of the table only, that
every link of the chain leads to an entry, and that searches and walks along the chain come to an end.
In this module they are carried out a second time without that.  A strict operation has no answer if

* it looks at a bucket beyond the table,
* it asks a bucket for an entry and there is none, or
* a search or a walk is not over after one round of the table.

On a table that represents a map every strict operation has an answer, the one of the plain operation
(`Strict.perform_eq`), also in the tables that it passes through on the way.
-/

namespace LexSimplex

namespace Hashed

variable {α : Type} {h : Hashed α} {m : SortedMap VariableId α} {v : VariableId} {x : α}
  {i : Nat} {entry : HashedEntry α} {link : Option Nat} {cells left right : List (Cell α)}

/-! ## Links -/

/-- A link that leads to an entry, or nowhere. -/
def Leads (h : Hashed α) (link : Option Nat) : Prop :=
  ∀ i, link = some i → ∃ entry, h.entryAt? i = some entry

/-- All links of the chain lead to entries: those to its ends and those between the entries. -/
structure Linked (h : Hashed α) : Prop where
  head : h.Leads h.head
  tail : h.Leads h.tail
  previous : ∀ {i entry}, h.entryAt? i = some entry → h.Leads entry.previous
  next : ∀ {i entry}, h.entryAt? i = some entry → h.Leads entry.next

theorem Threaded.leads_first (ht : h.Threaded cells) (hcells : cells = left ++ right) :
    h.Leads (firstBucket right) := by
  intro i hi
  cases right with
  | nil => simp at hi
  | cons cell right =>
      rw [firstBucket_cons, Option.some.injEq] at hi
      exact ⟨_, hi ▸ ht.entry hcells⟩

theorem Threaded.leads_last (ht : h.Threaded cells) (hcells : cells = left ++ right) :
    h.Leads (lastBucket left) := by
  intro i hi
  obtain ⟨front, cell, rfl, rfl⟩ := exists_of_lastBucket hi
  exact ⟨_, ht.entry (show cells = front ++ cell :: right by simp [hcells])⟩

theorem Threaded.linked (ht : h.Threaded cells) : h.Linked where
  head := by
    rw [ht.head]
    exact ht.leads_first (List.nil_append cells).symm
  tail := by
    rw [ht.tail]
    exact ht.leads_last (List.append_nil cells).symm
  previous hentry := by
    obtain ⟨left, right, hcells, hprevious, -⟩ := ht.exists_cell hentry
    rw [hprevious]
    exact ht.leads_last hcells
  next hentry := by
    obtain ⟨left, right, hcells, -, hnext⟩ := ht.exists_cell hentry
    rw [hnext]
    exact ht.leads_first (hcells.trans (List.append_cons ..))

theorem Leads.linkForward (hlink : h.Leads link) (previous successor : Option Nat) :
    (h.linkForward previous successor).Leads link := by
  intro i hi
  obtain ⟨entry, hentry⟩ := hlink i hi
  rw [entryAt?_linkForward, hentry]
  exact ⟨_, rfl⟩

theorem Leads.placed (hlink : h.Leads link) (hlt : i < h.buckets.size) (entry : HashedEntry α) :
    (h.placed i entry).Leads link := by
  intro j hj
  obtain ⟨old, hold⟩ := hlink j hj
  rw [entryAt?_placed hlt, hold]
  by_cases hji : j = i
  · exact ⟨entry, if_pos hji⟩
  · exact ⟨old, if_neg hji⟩

/-! ## Strict operations -/

namespace Strict

/-- Follow the search path of a variable from `index` on. -/
def probe (h : Hashed α) (v : VariableId) :
    (remaining : Nat) → (index : Nat) → (reusable : Option Nat) → Option Location
  | 0, _, _ => none
  | remaining + 1, index, reusable => do
      -- In a table whose size is a power of two, masking leads back to its first bucket.
      let following := (index + 1) &&& (h.buckets.size - 1)
      match ← h.buckets[index]? with
      | .empty => return .absent (reusable.getD index)
      | .tombstone => probe h v remaining following (reusable.or (some index))
      | .occupied entry =>
          if entry.key = v then return .present index
          else probe h v remaining following reusable

/-- The bucket of a variable, searched in one round of the table. -/
def locate (h : Hashed α) (v : VariableId) : Option Location :=
  probe h v h.buckets.size (h.home v) none

/-- Change the entry in a bucket. -/
def modifyEntry (h : Hashed α) (i : Nat) (f : HashedEntry α → HashedEntry α) :
    Option (Hashed α) := do
  let _ ← h.entryAt? i
  return h.modifyEntry i f

/-- Make `successor` follow `previous` in the chain, or lead it. -/
def linkForward (h : Hashed α) (previous successor : Option Nat) : Option (Hashed α) :=
  match previous with
  | some i => modifyEntry h i fun entry => { entry with next := successor }
  | none => some { h with head := successor }

/-- Make `predecessor` precede `next` in the chain, or end it. -/
def linkBackward (h : Hashed α) (next predecessor : Option Nat) : Option (Hashed α) :=
  match next with
  | some i => modifyEntry h i fun entry => { entry with previous := predecessor }
  | none => some { h with tail := predecessor }

/-- The bucket that follows in the chain, at the front of it the first one. -/
def successor (h : Hashed α) : Option Nat → Option (Option Nat)
  | some i => do return (← h.entryAt? i).next
  | none => some h.head

/-- Place a new entry in a free bucket and link it into the chain. -/
def insertAt (h : Hashed α) (i : Nat) (v : VariableId) (x : α) : Option (Hashed α) := do
  let previous ← h.predecessor v
  let next ← successor h previous
  let _ ← h.buckets[i]?
  let linked ← linkForward (h.placed i ⟨v, x, previous, next⟩) previous (some i)
  linkBackward linked next (some i)

/-- Take the entry of a bucket out of the chain and return its value. -/
def removeAt (h : Hashed α) (i : Nat) : Option (Hashed α × α) := do
  let entry ← h.entryAt? i
  let linked ← linkForward h entry.previous entry.next
  let unlinked ← linkBackward linked entry.next entry.previous
  let size := unlinked.size - 1
  -- No tombstones stay behind when the last entry goes.
  if size = 0 then
    let buckets := Array.replicate unlinked.buckets.size .empty
    return ({ unlinked with buckets, size, tombstones := 0 }, entry.value)
  else
    let buckets := unlinked.buckets.setIfInBounds i .tombstone
    return ({ unlinked with buckets, size, tombstones := unlinked.tombstones + 1 }, entry.value)

/-- Drop the entry of a variable and return the value it had. -/
def remove (h : Hashed α) (v : VariableId) : Option (Hashed α × Option α) := do
  match ← locate h v with
  | .present i =>
      let (next, value) ← removeAt h i
      return (next, some value)
  | .absent _ => return (h, none)

/-- The entries in ascending order of their variables. -/
def toList (h : Hashed α) : Option (List (VariableId × α)) := do
  return (← h.chain).map fun entry => (entry.key, entry.value)

/-- Place a variable that is not in the table. -/
def insertNew (h : Hashed α) (v : VariableId) (x : α) : Option (Hashed α) := do
  match ← locate h v with
  | .present _ => return h
  | .absent i => insertAt h i v x

/-- Rebuild the table. -/
def rehash (h : Hashed α) : Option (Hashed α) := do
  (← toList h).foldlM (fun table entry => insertNew table entry.1 entry.2)
    (ofBucketCount h.rebuiltCount)

section Operations

variable [Scalar α]

/-- The coefficient of a variable. -/
def get (h : Hashed α) (v : VariableId) : Option α := do
  match ← locate h v with
  | .present i => return (← h.entryAt? i).value
  | .absent _ => return 0

/-- Store a value; a zero removes the entry. -/
def put (h : Hashed α) (v : VariableId) (x : α) : Option (Hashed α) :=
  if x == 0 then do return (← remove h v).1
  else do
    match ← locate h v with
    | .present i => modifyEntry h i fun entry => { entry with value := x }
    | .absent i =>
        if h.isOverloaded then
          let rebuilt ← rehash h
          -- The variable is placed wherever the second search ends.
          match ← locate rebuilt v with
          | .present i => insertAt rebuilt i v x
          | .absent i => insertAt rebuilt i v x
        else insertAt h i v x

/-- Divide every value, dropping the entries that become zero. -/
def divideBy (h : Hashed α) (divisor : α) : Option (Hashed α) :=
  let divided := h.mapValues fun x => x / divisor
  divided.zeros.foldlM (fun table v => do return (← remove table v).1) divided

/-- Carry out an operation. -/
def perform (h : Hashed α) : StoreOp α → Option (Hashed α × Option α)
  | .put v x => do return (← put h v x, none)
  | .add v delta => do
      let value := (← get h v) + delta
      return (← put h v value, some value)
  | .remove v => remove h v
  | .divideBy divisor => do return (← divideBy h divisor, none)
  | .negate => some (h.mapValues fun x => -x, none)
  | .clear => some (h.clear, none)

/-- Carry out a sequence of operations and collect what they return. -/
def run (h : Hashed α) : List (StoreOp α) → Option (Hashed α × List (Option α))
  | [] => some (h, [])
  | op :: ops => do
      let (next, answer) ← perform h op
      let (last, answers) ← run next ops
      return (last, answer :: answers)

end Operations

/-! ## Searching -/

/-- Masking leads around the table, and no bucket beyond it is looked at. -/
theorem probe_eq (ht : h.Table) (v : VariableId) (remaining : Nat) {index : Nat}
    (hlt : index < h.buckets.size) (reusable : Option Nat) :
    probe h v remaining index reusable = Hashed.probe h.buckets v remaining index reusable := by
  induction remaining generalizing index reusable with
  | zero => rfl
  | succ remaining ih =>
      have hmask : (index + 1) &&& (h.buckets.size - 1) = (index + 1) % h.buckets.size := by
        obtain ⟨k, -, hsize⟩ := ht.power
        rw [hsize]
        exact Nat.and_two_pow_sub_one_eq_mod (index + 1) k
      have hnext : (index + 1) % h.buckets.size < h.buckets.size := Nat.mod_lt _ (by omega)
      simp only [probe, Hashed.probe, hmask, Array.getD_eq_getD_getElem?,
        Array.getElem?_eq_getElem hlt, Option.getD_some, Option.bind_eq_bind, Option.bind_some]
      cases h.buckets[index] with
      | empty => rfl
      | tombstone => exact ih hnext _
      | occupied entry =>
          by_cases hkey : entry.key = v
          · simp only [if_pos hkey]
            rfl
          · simp only [if_neg hkey]
            exact ih hnext _

theorem locate_eq (ht : h.Table) (v : VariableId) : locate h v = h.locate v :=
  probe_eq ht v _ (ht.home_lt v) none

/-! ## Changing the chain -/

theorem modifyEntry_eq (hentry : h.entryAt? i = some entry) (f : HashedEntry α → HashedEntry α) :
    modifyEntry h i f = some (h.modifyEntry i f) := by
  rw [modifyEntry, hentry]
  rfl

theorem linkForward_eq {previous : Option Nat} (hlink : h.Leads previous) (following : Option Nat) :
    linkForward h previous following = some (h.linkForward previous following) := by
  cases previous with
  | none => rfl
  | some i =>
      obtain ⟨entry, hentry⟩ := hlink i rfl
      exact modifyEntry_eq hentry _

theorem linkBackward_eq {next : Option Nat} (hlink : h.Leads next) (preceding : Option Nat) :
    linkBackward h next preceding = some (h.linkBackward next preceding) := by
  cases next with
  | none => rfl
  | some i =>
      obtain ⟨entry, hentry⟩ := hlink i rfl
      exact modifyEntry_eq hentry _

theorem successor_eq (ht : h.Threaded (left ++ right)) :
    successor h (lastBucket left) = some (firstBucket right) := by
  obtain ⟨hnone, hsome⟩ := ht.next_eq
  cases hlast : lastBucket left with
  | none => exact congrArg some (hnone hlast)
  | some i =>
      obtain ⟨entry, hentry⟩ := ht.leads_last rfl i hlast
      have hnext := hsome i hlast
      rw [hentry, Option.bind_some] at hnext
      rw [successor, hentry]
      exact congrArg some hnext

theorem insertAt_eq (hr : h.Represents m) (hfinds : h.Finds v (.absent i)) (x : α) :
    insertAt h i v x = some (h.insertAt i v x) := by
  have hnot := hr.not_mem hfinds
  obtain ⟨-, hlt, -, -⟩ := hfinds
  obtain ⟨left, right, ht, -, -, hpredecessor, -, -⟩ := hr.exists_gap hnot
  have hlast := (ht.leads_last rfl).placed hlt ⟨v, x, lastBucket left, firstBucket right⟩
  have hfirst := (ht.leads_first rfl).placed hlt ⟨v, x, lastBucket left, firstBucket right⟩
  rw [ht.insertAt_eq hpredecessor, insertAt]
  simp only [Option.bind_eq_bind, Option.bind_some, hpredecessor, successor_eq ht,
    Array.getElem?_eq_getElem hlt, linkForward_eq hlast]
  exact linkBackward_eq (hfirst.linkForward _ _) (some i)

theorem removeAt_eq (hr : h.Represents m) (hentry : h.entryAt? i = some entry) :
    removeAt h i = some (h.removeAt i entry, entry.value) := by
  obtain ⟨cells, ht, hlength, -⟩ := hr.chain
  obtain ⟨left, right, rfl, hprevious, hnext⟩ := ht.exists_cell hentry
  have hleft := ht.linked.previous hentry
  have hright := ht.linked.next hentry
  rw [List.length_append, List.length_cons] at hlength
  rw [removeAt, Hashed.removeAt]
  simp only [hentry, Option.bind_eq_bind, Option.bind_some, linkForward_eq hleft,
    linkBackward_eq (hright.linkForward _ _), counts_linkBackward, counts_linkForward]
  by_cases hone : h.size = 1
  · -- The only entry has no neighbours, so both ends of the chain are gone with it.
    obtain rfl : left = [] := List.length_eq_zero_iff.mp (by omega)
    obtain rfl : right = [] := List.length_eq_zero_iff.mp (by omega)
    rw [if_pos (by omega), if_pos hone, hprevious, hnext, hone]
    rfl
  · rw [if_neg (by omega), if_neg hone]
    rfl

theorem remove_eq (hr : h.Represents m) (v : VariableId) :
    remove h v = some (h.erase v, h.find? v) := by
  obtain ⟨location, hlocate, hfinds⟩ := hr.table.locate_spec v
  rw [remove, locate_eq hr.table, Hashed.erase, Hashed.find?, hlocate]
  cases location with
  | present i =>
      obtain ⟨entry, hentry, -⟩ := hfinds
      simp only [Option.bind_eq_bind, Option.bind_some, removeAt_eq hr hentry, hentry,
        Option.map_some]
      rfl
  | absent i => rfl

/-! ## Rebuilding -/

theorem toList_eq (hr : h.Represents m) : toList h = some h.toList := by
  obtain ⟨entries, hentries, -⟩ := hr.chain_spec
  rw [toList, Hashed.toList, hentries]
  rfl

theorem insertNew_eq (hr : h.Represents m) (v : VariableId) (x : α) :
    insertNew h v x = some (h.insertNew v x) := by
  obtain ⟨location, hlocate, hfinds⟩ := hr.table.locate_spec v
  rw [insertNew, Hashed.insertNew, locate_eq hr.table, hlocate]
  cases location with
  | present i => rfl
  | absent i => exact insertAt_eq hr hfinds x

/-- A loop whose steps all have an answer, as long as they keep what makes them have one. -/
theorem foldlM_eq {β : Type} {step : Hashed α → β → Option (Hashed α)}
    {plain : Hashed α → β → Hashed α} (Good : Hashed α → List β → Prop)
    (hstep : ∀ {h b bs}, Good h (b :: bs) → step h b = some (plain h b) ∧ Good (plain h b) bs)
    {bs : List β} (hgood : Good h bs) : bs.foldlM step h = some (bs.foldl plain h) := by
  induction bs generalizing h with
  | nil => rfl
  | cons b bs ih =>
      obtain ⟨hanswer, hnext⟩ := hstep hgood
      rw [List.foldlM_cons, hanswer, List.foldl_cons]
      exact ih hnext

theorem rehash_eq (hr : h.Represents m) : rehash h = some h.rehash := by
  obtain ⟨hstart, -⟩ := hr.filling
  rw [rehash, toList_eq hr]
  show h.toList.foldlM _ _ = some (h.toList.foldl _ (ofBucketCount h.rebuiltCount))
  rw [← hr.toList_eq] at hstart
  -- Each table on the way holds the entries placed so far, so that the next search is answered.
  refine foldlM_eq (fun table rest => ∃ m, table.Filling m rest) ?_ ⟨_, hstart⟩
  rintro table entry rest ⟨m, hfilling⟩
  exact ⟨insertNew_eq hfilling.represents entry.1 entry.2, _, hfilling.step.1⟩

/-! ## Operations -/

section Operations

variable [Scalar α]

theorem get_eq (hr : h.Represents m) (v : VariableId) : get h v = some (RowStore.get h v) := by
  obtain ⟨location, hlocate, hfinds⟩ := hr.table.locate_spec v
  show get h v = some ((h.find? v).getD 0)
  rw [get, Hashed.find?, locate_eq hr.table, hlocate]
  cases location with
  | present i =>
      obtain ⟨entry, hentry, -⟩ := hfinds
      simp only [Option.bind_eq_bind, Option.bind_some, hentry, Option.map_some, Option.getD_some]
      rfl
  | absent i => rfl

theorem put_eq (hr : h.Represents m) (v : VariableId) (x : α) : put h v x = some (h.put v x) := by
  rw [put, Hashed.put]
  by_cases hzero : x == 0
  · rw [if_pos hzero, if_pos hzero, remove_eq hr]
    rfl
  · rw [if_neg hzero, if_neg hzero, locate_eq hr.table]
    obtain ⟨location, hlocate, hfinds⟩ := hr.table.locate_spec v
    rw [hlocate]
    cases location with
    | present i =>
        obtain ⟨entry, hentry, -⟩ := hfinds
        exact modifyEntry_eq hentry _
    | absent i =>
        show (if h.isOverloaded then _ else _) = some (if h.isOverloaded then _ else _)
        split
        · -- The variable is absent from the rebuilt table too, which is searched anew.
          obtain ⟨hrebuilt, -⟩ := hr.rehash
          obtain ⟨j, hsearch, hfree⟩ := hrebuilt.locate_absent (hr.not_mem hfinds)
          rw [rehash_eq hr, Hashed.insertNew, hsearch]
          show (locate h.rehash v >>= _) = _
          rw [locate_eq hrebuilt.table, hsearch]
          exact insertAt_eq hrebuilt hfree x
        · exact insertAt_eq hr hfinds x

theorem divideBy_eq (hr : h.Represents m) (divisor : α) :
    divideBy h divisor = some (h.divideBy divisor) := by
  have hdivided := hr.mapValues fun x => x / divisor
  -- The zeros that are still stored do no harm: a table may represent a map with zero values.
  refine foldlM_eq (fun table _ => ∃ m, table.Represents m) ?_ ⟨_, hdivided⟩
  rintro table v rest ⟨m, hm⟩
  rw [remove_eq hm]
  exact ⟨rfl, _, hm.erase v⟩

/-- Every operation has an answer, and it is the one of the plain operation. -/
theorem perform_eq (hr : h.Represents m) (op : StoreOp α) : perform h op = some (op.apply h) := by
  cases op with
  | put v x =>
      rw [perform, put_eq hr]
      rfl
  | add v delta =>
      rw [perform, get_eq hr]
      simp only [Option.bind_eq_bind, Option.bind_some, put_eq hr]
      rfl
  | remove v => exact remove_eq hr v
  | divideBy divisor =>
      rw [perform, divideBy_eq hr]
      rfl
  | negate => rfl
  | clear => rfl

/-- So does every sequence of operations: each of them starts from a table of a map. -/
theorem run_eq (hr : h.Represents m) (ops : List (StoreOp α)) :
    run h ops = some (StoreOp.run h ops) := by
  induction ops generalizing h m with
  | nil => rfl
  | cons op ops ih =>
      obtain ⟨-, hnext⟩ := StoreOp.apply_represents (S := Hashed α) hr op
      rw [run, perform_eq hr]
      simp only [Option.bind_eq_bind, Option.bind_some, ih hnext]
      rfl

end Operations

end Strict

/-! ## Tables in order -/

/-- What searches and walks rely on: there are enough buckets, counted correctly and not too many of
them in use, and the chain stays among the entries. -/
structure Intact (h : Hashed α) : Prop where
  power : h.buckets.size.isPowerOfTwo
  least : 8 ≤ h.buckets.size
  occupied : h.size = h.buckets.countP Bucket.isOccupied
  deleted : h.tombstones = h.buckets.countP Bucket.isTombstone
  load : (h.size + h.tombstones) * 4 ≤ h.buckets.size * 3
  vacant : ∃ i < h.buckets.size, h.bucketAt i = .empty
  /-- A search is over within one round of the table. -/
  search : ∀ v, ∃ location, Strict.locate h v = some location ∧ h.Finds v location
  links : h.Linked
  /-- Following the chain comes by every entry and ends. -/
  forward : ∃ entries, h.chain = some entries ∧ entries.length = h.size
  /-- Walking back to the place of a variable ends. -/
  backward : ∀ v, ∃ previous, h.predecessor v = some previous

theorem Represents.intact (hr : h.Represents m) : h.Intact := by
  obtain ⟨k, -, hsize⟩ := hr.table.power
  obtain ⟨cells, ht, hlength, -⟩ := hr.chain
  obtain ⟨entries, hentries, hpairs⟩ := hr.chain_spec
  refine ⟨⟨k, hsize⟩, hr.table.eight_le, hr.table.occupied, hr.table.deleted, hr.table.load,
    hr.table.exists_empty, fun v => ?_, ht.linked, ⟨entries, hentries, ?_⟩, fun v => ?_⟩
  · rw [Strict.locate_eq hr.table]
    exact hr.table.locate_spec v
  · rw [← hr.length_eq, ← hpairs, List.length_map]
  · obtain ⟨left, right, -, hfound, -, -⟩ :=
      ht.exists_predecessor (hlength ▸ hr.table.size_le) v
    exact ⟨lastBucket left, hfound⟩

end Hashed

/-- After any sequence of operations a hashed storage has a power of two of at least eight buckets,
at most three quarters of them in use or tombstones; a search ends within one round of the table, and
the chain leads through the entries and ends.  On the way no operation looked beyond the table, asked
a free bucket for an entry or kept searching or walking, and neither does reading the storage. -/
theorem hashed_never_stuck {α : Type} [Scalar α] (capacity : Nat) (ops : List (StoreOp α)) :
    let start : Hashed α := Hashed.withCapacity capacity
    let last := (StoreOp.run start ops).1
    last.Intact ∧ Hashed.Strict.run start ops = some (StoreOp.run start ops) ∧
      (∀ v, Hashed.Strict.get last v = some (RowStore.get last v)) ∧
        Hashed.Strict.toList last = some (RowStore.toList last) := by
  have hstart : LawfulStore.Represents (Hashed.withCapacity capacity : Hashed α) .empty :=
    Hashed.represents_ofBucketCount (Nat.le_max_left 3 _)
  obtain ⟨-, hlast⟩ := StoreOp.run_represents hstart ops
  exact ⟨Hashed.Represents.intact hlast, Hashed.Strict.run_eq hstart ops,
    Hashed.Strict.get_eq hlast, Hashed.Strict.toList_eq hlast⟩

/-- Six entries load eight buckets to the limit, and the seventh doubles the table. -/
example :
    let filled (count : Nat) : Hashed Rat :=
      (StoreOp.run (Hashed.withCapacity 0) ((List.range count).map fun i => .put ⟨i⟩ 1)).1
    (filled 6).buckets.size = 8 ∧ (filled 7).buckets.size = 16 := by
  decide +kernel

end LexSimplex
