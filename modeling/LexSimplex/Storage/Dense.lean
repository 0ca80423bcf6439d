import LexSimplex.Storage.Basic

/-!
# Dense row storage

The entries stand in two parallel arrays in the order in which they were written. A third array
lists their positions in ascending order of the variables: that is the order in which entries are
searched and visited. Small storages are scanned, larger ones searched by bisection.

Removing an entry moves the last entry of the arrays into its place.
-/

namespace LexSimplex

/-- Parallel arrays of variables and values with their sorted order. -/
structure Dense (α : Type) where
  keys : Array VariableId
  values : Array α
  /-- Positions in the two arrays, in ascending order of the variables there. -/
  order : Array Nat
  /-- From this many entries on, searching is by bisection. -/
  searchThreshold : Nat

namespace Dense

/-- The storage without entries. -/
def empty {α : Type} (searchThreshold : Nat) : Dense α :=
  ⟨#[], #[], #[], searchThreshold⟩

section Search

variable {α : Type}

/-- The number of the variable at a place of the sorted order. -/
def keyAt (d : Dense α) (place : Nat) : Nat :=
  (d.keys.getD (d.order.getD place 0) ⟨0⟩).index

/-- Walk along the sorted order up to the first variable that is not smaller. -/
def scan (d : Dense α) (key : Nat) : (remaining : Nat) → (place : Nat) → Location
  | 0, place => .absent place
  | remaining + 1, place =>
      if d.keyAt place = key then .present place
      else if key < d.keyAt place then .absent place
      else d.scan key remaining (place + 1)

/-- Halve the part of the sorted order from `low` up to `high` until the variable is found. -/
def bisect (d : Dense α) (key low high : Nat) : Location :=
  if low < high then
    let middle := low + (high - low) / 2
    if d.keyAt middle = key then .present middle
    else if d.keyAt middle < key then d.bisect key (middle + 1) high
    else d.bisect key low middle
  else
    .absent low
termination_by high - low

/-- The place of a variable in the sorted order. -/
def locate (d : Dense α) (v : VariableId) : Location :=
  if d.order.size < d.searchThreshold then d.scan v.index d.order.size 0
  else d.bisect v.index 0 d.order.size

end Search

section Operations

variable {α : Type} [Scalar α]

/-- The entry at a position of the arrays. -/
def entryAt (d : Dense α) (position : Nat) : VariableId × α :=
  (d.keys.getD position ⟨0⟩, d.values.getD position 0)

/-- The stored value of a variable. -/
def find? (d : Dense α) (v : VariableId) : Option α :=
  match d.locate v with
  | .present place => some (d.entryAt (d.order.getD place 0)).2
  | .absent _ => none

/-- The entries in ascending order of their variables. -/
def toList (d : Dense α) : List (VariableId × α) :=
  d.order.toList.map d.entryAt

/-- Remove an element of an array by moving the last one into its place. -/
def swapRemove {β : Type} (xs : Array β) (position : Nat) : Array β :=
  match xs.back? with
  | some last => (xs.setIfInBounds position last).pop
  | none => xs

/-- Drop the entry of a variable. The entry that was last takes its position. -/
def erase (d : Dense α) (v : VariableId) : Dense α :=
  match d.locate v with
  | .absent _ => d
  | .present place =>
      let position := d.order.getD place 0
      let last := d.keys.size - 1
      { d with
        keys := swapRemove d.keys position
        values := swapRemove d.values position
        order := (d.order.eraseIdxIfInBounds place).map fun p => if p = last then position else p }

/-- Store a value; a zero removes the entry. -/
def put (d : Dense α) (v : VariableId) (x : α) : Dense α :=
  if x == 0 then d.erase v
  else
    match d.locate v with
    | .present place => { d with values := d.values.setIfInBounds (d.order.getD place 0) x }
    | .absent place =>
        { d with
          keys := d.keys.push v
          values := d.values.push x
          order := d.order.insertIdxIfInBounds place d.keys.size }

/-- The storage that holds the given entries, written in ascending order of their variables. -/
def ofAscending (searchThreshold : Nat) (entries : List (VariableId × α)) : Dense α where
  keys := (entries.map Prod.fst).toArray
  values := (entries.map Prod.snd).toArray
  order := Array.range entries.length
  searchThreshold := searchThreshold

/-- Rebuild the arrays without the entries that became zero, if there are any. -/
def pruned (d : Dense α) : Dense α :=
  if d.values.all fun x => x != 0 then d
  else ofAscending d.searchThreshold (d.toList.filter fun entry => entry.2 != 0)

instance : RowStore (Dense α) α where
  forRow settings _ := empty settings.denseSearchThreshold
  find? := find?
  put := put
  erase := erase
  toList := toList
  size d := d.order.size
  divideBy d divisor := pruned { d with values := d.values.map fun x => x / divisor }
  negate d := { d with values := d.values.map fun x => -x }
  clear d := empty d.searchThreshold

end Operations

end Dense

end LexSimplex
