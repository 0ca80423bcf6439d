import LexSimplex.Storage.Basic

/-!
# Hashed row storage

A table whose number of buckets is a power of two, with linear probing. An entry that is removed
leaves a tombstone behind, which keeps searches going past it and is used again by a later entry
that passes it. The occupied buckets are chained in ascending order of their variables, so that
visiting the entries needs no sorting.

Searching and following the chain are bounded by the number of buckets. Their answer is `none` when
the bound is reached or the chain points at a free bucket, which no table built by the operations of
this module shows.
-/

namespace LexSimplex

/-- An entry of the table with its neighbours in the chain. -/
structure HashedEntry (α : Type) where
  key : VariableId
  value : α
  previous : Option Nat
  next : Option Nat
deriving DecidableEq

/-- A place of the table. -/
inductive Bucket (α : Type) where
  | empty
  /-- An entry was removed here. -/
  | tombstone
  | occupied (entry : HashedEntry α)
deriving DecidableEq

namespace Bucket

variable {α : Type}

/-- The entry in a bucket. -/
def content : Bucket α → Option (HashedEntry α)
  | occupied entry => some entry
  | _ => none

/-- Change the entry in a bucket, if there is one. -/
def mapEntry (f : HashedEntry α → HashedEntry α) : Bucket α → Bucket α
  | occupied entry => occupied (f entry)
  | other => other

/-- Whether an entry was removed from a bucket. -/
def isTombstone : Bucket α → Bool
  | tombstone => true
  | _ => false

/-- Whether a bucket holds an entry. -/
def isOccupied : Bucket α → Bool
  | occupied _ => true
  | _ => false

end Bucket

/-- A hash table keyed by variables with a sorted chain through its entries. -/
structure Hashed (α : Type) where
  buckets : Array (Bucket α)
  /-- The number of occupied buckets. -/
  size : Nat
  /-- The number of tombstones. -/
  tombstones : Nat
  /-- The bucket of the lowest variable. -/
  head : Option Nat
  /-- The bucket of the highest variable. -/
  tail : Option Nat

namespace Hashed

section Table

variable {α : Type}

/-- The number of buckets that hold `capacity` entries at three quarters load: the least power of
two that does, and at least eight. -/
def bucketCount (capacity : Nat) : Nat :=
  Nat.pow 2 (max 3 (Nat.log2 (capacity * 4 / 3) + 1))

/-- A table of empty buckets. -/
def ofBucketCount (count : Nat) : Hashed α :=
  ⟨Array.replicate count .empty, 0, 0, none, none⟩

/-- A table that holds `capacity` entries without growing. -/
def withCapacity (capacity : Nat) : Hashed α :=
  ofBucketCount (bucketCount capacity)

/-- The multiplier that spreads the numbers of variables over 64-bit words. -/
def multiplier : Nat := 0x9E3779B97F4A7C15

/-- The bucket at which the search for a variable starts: the top bits of the product, which are
the best mixed. -/
def home (h : Hashed α) (v : VariableId) : Nat :=
  v.index * multiplier % Nat.pow 2 64 / Nat.pow 2 (64 - Nat.log2 h.buckets.size)

/-- Follow the search path of a variable from `index` on. The first tombstone on the path is where
a new entry goes. -/
def probe (buckets : Array (Bucket α)) (v : VariableId) :
    (remaining : Nat) → (index : Nat) → (reusable : Option Nat) → Option Location
  | 0, _, _ => none
  | remaining + 1, index, reusable =>
      let following := (index + 1) % buckets.size
      match buckets.getD index .empty with
      | .empty => some (.absent (reusable.getD index))
      | .tombstone => probe buckets v remaining following (reusable.or (some index))
      | .occupied entry =>
          if entry.key = v then some (.present index)
          else probe buckets v remaining following reusable

/-- The bucket of a variable, searched in one round of the table. -/
def locate (h : Hashed α) (v : VariableId) : Option Location :=
  probe h.buckets v h.buckets.size (h.home v) none

/-- The entry in a bucket. -/
def entryAt? (h : Hashed α) (index : Nat) : Option (HashedEntry α) :=
  (h.buckets.getD index .empty).content

/-- The entries of the chain from a bucket on. -/
def chainFrom (h : Hashed α) : (remaining : Nat) → Option Nat → Option (List (HashedEntry α))
  | _, none => some []
  | 0, some _ => none
  | remaining + 1, some index => do
      let entry ← h.entryAt? index
      let rest ← h.chainFrom remaining entry.next
      return entry :: rest

/-- The entries in the order of the chain. -/
def chain (h : Hashed α) : Option (List (HashedEntry α)) :=
  h.chainFrom h.buckets.size h.head

/-- The entries in ascending order of their variables. -/
def toList (h : Hashed α) : List (VariableId × α) :=
  (h.chain.getD []).map fun entry => (entry.key, entry.value)

/-- Walk back along the chain to the last entry with a smaller variable. -/
def predecessorFrom (h : Hashed α) (v : VariableId) :
    (remaining : Nat) → Option Nat → Option (Option Nat)
  | _, none => some none
  | 0, some _ => none
  | remaining + 1, some index => do
      let entry ← h.entryAt? index
      if entry.key.index < v.index then return some index
      else h.predecessorFrom v remaining entry.previous

/-- The bucket after which a variable belongs in the chain. -/
def predecessor (h : Hashed α) (v : VariableId) : Option (Option Nat) :=
  h.predecessorFrom v h.buckets.size h.tail

/-- Change the entry in a bucket, if there is one. -/
def modifyEntry (h : Hashed α) (index : Nat) (f : HashedEntry α → HashedEntry α) : Hashed α :=
  { h with buckets := h.buckets.modify index (Bucket.mapEntry f) }

/-- Make `successor` follow `previous` in the chain, or lead it. -/
def linkForward (h : Hashed α) (previous successor : Option Nat) : Hashed α :=
  match previous with
  | some index => h.modifyEntry index fun entry => { entry with next := successor }
  | none => { h with head := successor }

/-- Make `predecessor` precede `next` in the chain, or end it. -/
def linkBackward (h : Hashed α) (next predecessor : Option Nat) : Hashed α :=
  match next with
  | some index => h.modifyEntry index fun entry => { entry with previous := predecessor }
  | none => { h with tail := predecessor }

/-- Place a new entry in a free bucket and link it into the chain. -/
def insertAt (h : Hashed α) (index : Nat) (v : VariableId) (x : α) : Hashed α :=
  match h.predecessor v with
  | none => h
  | some previous =>
      let next := match previous with
        | some p => (h.entryAt? p).bind HashedEntry.next
        | none => h.head
      let reclaimed := (h.buckets.getD index .empty).isTombstone
      let placed := { h with
        buckets := h.buckets.setIfInBounds index (.occupied ⟨v, x, previous, next⟩)
        tombstones := if reclaimed then h.tombstones - 1 else h.tombstones
        size := h.size + 1 }
      (placed.linkForward previous (some index)).linkBackward next (some index)

/-- Make every bucket empty. -/
def clear (h : Hashed α) : Hashed α := ofBucketCount h.buckets.size

/-- Take the entry of a bucket out of the chain and leave a tombstone. Removing the last entry
empties all buckets. -/
def removeAt (h : Hashed α) (index : Nat) (entry : HashedEntry α) : Hashed α :=
  if h.size = 1 then h.clear
  else
    let unlinked := (h.linkForward entry.previous entry.next).linkBackward entry.next entry.previous
    { unlinked with
      buckets := unlinked.buckets.setIfInBounds index .tombstone
      tombstones := h.tombstones + 1
      size := h.size - 1 }

/-- Drop the entry of a variable. -/
def erase (h : Hashed α) (v : VariableId) : Hashed α :=
  match h.locate v with
  | some (.present index) =>
      match h.entryAt? index with
      | some entry => h.removeAt index entry
      | none => h
  | _ => h

/-- Whether one more entry would load the table beyond three quarters. -/
def isOverloaded (h : Hashed α) : Bool :=
  h.buckets.size * 3 < (h.size + h.tombstones + 1) * 4

/-- Place a variable that is not in the table. -/
def insertNew (h : Hashed α) (v : VariableId) (x : α) : Hashed α :=
  match h.locate v with
  | some (.absent index) => h.insertAt index v x
  | _ => h

/-- Rebuild the table, doubled unless most of its load are tombstones. -/
def rehash (h : Hashed α) : Hashed α :=
  let count := if h.buckets.size < (h.size + 1) * 2 then h.buckets.size * 2 else h.buckets.size
  h.toList.foldl (fun table entry => table.insertNew entry.1 entry.2) (ofBucketCount count)

end Table

section Operations

variable {α : Type} [Scalar α]

/-- The stored value of a variable. -/
def find? (h : Hashed α) (v : VariableId) : Option α :=
  match h.locate v with
  | some (.present index) => (h.entryAt? index).map HashedEntry.value
  | _ => none

/-- Store a value; a zero removes the entry. -/
def put (h : Hashed α) (v : VariableId) (x : α) : Hashed α :=
  if x == 0 then h.erase v
  else
    match h.locate v with
    | some (.present index) => h.modifyEntry index fun entry => { entry with value := x }
    | some (.absent index) =>
        if h.isOverloaded then h.rehash.insertNew v x else h.insertAt index v x
    | none => h

/-- Change every value, whatever its place in the chain. -/
def mapValues (h : Hashed α) (f : α → α) : Hashed α :=
  let change := Bucket.mapEntry fun entry => { entry with value := f entry.value }
  { h with buckets := h.buckets.map change }

/-- The variables whose value is zero, in the order of the buckets. -/
def zeros (h : Hashed α) : List VariableId :=
  h.buckets.toList.filterMap fun bucket =>
    bucket.content.bind fun entry => if entry.value == 0 then some entry.key else none

/-- Divide every value, dropping the entries that become zero. -/
def divideBy (h : Hashed α) (divisor : α) : Hashed α :=
  let divided := h.mapValues fun x => x / divisor
  divided.zeros.foldl erase divided

instance : RowStore (Hashed α) α where
  forRow settings width := withCapacity (settings.capacity width)
  find? := find?
  put := put
  erase := erase
  toList := toList
  size := size
  divideBy := divideBy
  negate h := h.mapValues fun x => -x
  clear := clear

end Operations

end Hashed

end LexSimplex
