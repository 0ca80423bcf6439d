import LexSimplex.Settings
import LexSimplex.SortedMap

/-!
# Row storage

A row holds one coefficient for each variable it mentions. The tableau uses a row storage through
the operations of `RowStore`; it is a map from variables to scalars in which

* no stored value tests as zero: writing a zero removes the entry;
* the entries are visited in ascending order of their variables.

The instance for sorted maps in this module is the plain reading of these rules.
-/

namespace LexSimplex

/-- What the tableau needs of the storage of a row. -/
class RowStore (S : Type) (α : outParam Type) where
  /-- The empty storage for a row that is expected to hold `width` terms. -/
  forRow : (settings : Settings) → (width : Nat) → S
  /-- The stored value of a variable. -/
  find? : S → VariableId → Option α
  /-- Store a value; a zero removes the entry. -/
  put : S → VariableId → α → S
  /-- Drop the entry of a variable. -/
  erase : S → VariableId → S
  /-- The entries in ascending order of their variables. -/
  toList : S → List (VariableId × α)
  /-- The number of entries. -/
  size : S → Nat
  /-- Divide every value, dropping the entries that become zero. -/
  divideBy : S → α → S
  /-- Change the sign of every value. -/
  negate : S → S
  /-- Drop all entries. -/
  clear : S → S

namespace RowStore

section Derived

variable {S α : Type} [Scalar α] [RowStore S α]

/-- The coefficient of a variable, zero if it is not stored. -/
def get (s : S) (v : VariableId) : α := (find? s v).getD 0

/-- Drop the entry of a variable and return the value it had. -/
def remove (s : S) (v : VariableId) : S × Option α := (erase s v, find? s v)

/-- Add to the coefficient of a variable and return the sum. -/
def add (s : S) (v : VariableId) (delta : α) : S × α :=
  let value := get s v + delta
  (put s v value, value)

/-- Whether no entry is stored. -/
def isEmpty (s : S) : Bool := size s == 0

/-- Whether a variable has a coefficient other than zero. -/
def contains (s : S) (v : VariableId) : Bool := get s v != 0

/-- Write the entries between braces. -/
def text (s : S) : String :=
  let entries := (toList s).map fun (v, x) => s!"{v}: {Scalar.text x}"
  "\x7b" ++ ", ".intercalate entries ++ "\x7d"

end Derived

section Comparison

variable {S T α : Type} [Scalar α] [RowStore S α] [RowStore T α]

/-- Whether two storages, of whatever strategy, hold the same entries. -/
def same (s : S) (t : T) : Bool :=
  size s == size t &&
    (toList s).length == (toList t).length &&
    ((toList s).zip (toList t)).all fun (p, q) => p.1 = q.1 && p.2 == q.2

end Comparison

end RowStore

/-- An operation on a row storage. -/
inductive StoreOp (α : Type) where
  | put (v : VariableId) (x : α)
  | add (v : VariableId) (delta : α)
  | remove (v : VariableId)
  | divideBy (divisor : α)
  | negate
  | clear

namespace StoreOp

variable {S α : Type} [Scalar α] [RowStore S α]

/-- Carry out an operation; the sum of an addition and the value of a removal are returned. -/
def apply (op : StoreOp α) (s : S) : S × Option α :=
  match op with
  | put v x => (RowStore.put s v x, none)
  | add v delta =>
      let (s, value) := RowStore.add s v delta
      (s, some value)
  | remove v => RowStore.remove s v
  | divideBy divisor => (RowStore.divideBy s divisor, none)
  | negate => (RowStore.negate s, none)
  | clear => (RowStore.clear s, none)

/-- Carry out a sequence of operations and collect what they return. -/
def run (s : S) : List (StoreOp α) → S × List (Option α)
  | [] => (s, [])
  | op :: ops =>
      let (next, answer) := op.apply s
      let (last, answers) := run next ops
      (last, answer :: answers)

end StoreOp

/-- Where a search for a variable ended: at its entry, or where a new entry would go. -/
inductive Location where
  | present (position : Nat)
  | absent (position : Nat)
deriving DecidableEq

namespace SortedMap

variable {α : Type} [Scalar α]

/-- Put a scalar at a variable, or drop the entry if the scalar is zero. -/
def putScalar (m : SortedMap VariableId α) (v : VariableId) (x : α) : SortedMap VariableId α :=
  if x == 0 then m.erase v else m.insert v x

instance : RowStore (SortedMap VariableId α) α where
  forRow _ _ := empty
  find? := find?
  put := putScalar
  erase := erase
  toList := toList
  size := size
  divideBy m divisor := (m.map fun x => x / divisor).filter fun x => x != 0
  negate m := m.map fun x => -x
  clear _ := empty

end SortedMap

end LexSimplex
