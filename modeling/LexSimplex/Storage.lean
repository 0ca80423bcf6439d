import LexSimplex.Storage.Dense
import LexSimplex.Storage.Hashed

/-!
# Storage of either strategy

The strategy of a row is chosen from the settings when the row is made and stays fixed. Rows of
different strategies are added into each other and compared by their entries alone.
-/

namespace LexSimplex

/-- A row storage of either strategy. -/
inductive Storage (α : Type) where
  | dense (storage : Dense α)
  | hashed (storage : Hashed α)

namespace Storage

/-- Whether this is the dense strategy. -/
def isDense {α : Type} : Storage α → Bool
  | dense _ => true
  | hashed _ => false

variable {α : Type} [Scalar α]

/-- The empty storage for a row that is expected to hold `width` terms. -/
def forRow (settings : Settings) (width : Nat) : Storage α :=
  if settings.usesHashed width then hashed (RowStore.forRow settings width)
  else dense (RowStore.forRow settings width)

instance : RowStore (Storage α) α where
  forRow := forRow
  find?
    | dense s, v => RowStore.find? s v
    | hashed s, v => RowStore.find? s v
  put
    | dense s, v, x => dense (RowStore.put s v x)
    | hashed s, v, x => hashed (RowStore.put s v x)
  erase
    | dense s, v => dense (RowStore.erase s v)
    | hashed s, v => hashed (RowStore.erase s v)
  toList
    | dense s => RowStore.toList s
    | hashed s => RowStore.toList s
  size
    | dense s => RowStore.size s
    | hashed s => RowStore.size s
  divideBy
    | dense s, divisor => dense (RowStore.divideBy s divisor)
    | hashed s, divisor => hashed (RowStore.divideBy s divisor)
  negate
    | dense s => dense (RowStore.negate s)
    | hashed s => hashed (RowStore.negate s)
  clear
    | dense s => dense (RowStore.clear s)
    | hashed s => hashed (RowStore.clear s)

end Storage

end LexSimplex
