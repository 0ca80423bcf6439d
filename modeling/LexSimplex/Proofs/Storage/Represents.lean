import LexSimplex.Proofs.SortedMap
import LexSimplex.Proofs.Transfer.Rows

/-!
# Storages that represent sorted maps

A row storage is lawful when it represents a sorted map at all times: the empty storage represents
the empty map, and every operation leads from a storage of a map to one of the changed map.  Nothing
is assumed about the scalars.

A storage paired with its map is a row storage again, and the two projections commute with the
operations (`Paired.toStore`, `Paired.toMap`).  In this way a relation between two storages is used
like a pair of functions.
-/

namespace LexSimplex

/-- A row storage that represents sorted maps. -/
class LawfulStore (S : Type) (α : outParam Type) [Scalar α] [RowStore S α] where
  Represents : S → SortedMap VariableId α → Prop
  forRow : ∀ settings width, Represents (RowStore.forRow settings width) .empty
  find? : ∀ {s m}, Represents s m → ∀ v, RowStore.find? s v = m.find? v
  toList : ∀ {s m}, Represents s m → RowStore.toList s = m.toList
  size : ∀ {s m}, Represents s m → RowStore.size s = m.size
  put : ∀ {s m}, Represents s m → ∀ v x, Represents (RowStore.put s v x) (m.putScalar v x)
  erase : ∀ {s m}, Represents s m → ∀ v, Represents (RowStore.erase s v) (m.erase v)
  divideBy : ∀ {s m}, Represents s m → ∀ divisor,
    Represents (RowStore.divideBy s divisor) (RowStore.divideBy m divisor)
  negate : ∀ {s m}, Represents s m → Represents (RowStore.negate s) (RowStore.negate m)
  clear : ∀ {s m}, Represents s m → Represents (RowStore.clear s) .empty

section Paired

variable (S α : Type) [Scalar α] [RowStore S α] [LawfulStore S α]

/-- A storage together with the map it represents. -/
structure Paired where
  store : S
  map : SortedMap VariableId α
  represents : LawfulStore.Represents store map

namespace Paired

instance : RowStore (Paired S α) α where
  forRow settings width := ⟨RowStore.forRow settings width, .empty, LawfulStore.forRow _ _⟩
  find? p v := RowStore.find? p.store v
  put p v x := ⟨RowStore.put p.store v x, p.map.putScalar v x, LawfulStore.put p.represents v x⟩
  erase p v := ⟨RowStore.erase p.store v, p.map.erase v, LawfulStore.erase p.represents v⟩
  toList p := RowStore.toList p.store
  size p := RowStore.size p.store
  divideBy p divisor := ⟨RowStore.divideBy p.store divisor, RowStore.divideBy p.map divisor,
    LawfulStore.divideBy p.represents divisor⟩
  negate p := ⟨RowStore.negate p.store, RowStore.negate p.map, LawfulStore.negate p.represents⟩
  clear p := ⟨RowStore.clear p.store, .empty, LawfulStore.clear p.represents⟩

/-- Forget the map. -/
def toStore : StoreMap (Paired S α) S α where
  toFun := store
  settings := id
  forRow _ _ := rfl
  find? _ _ := rfl
  put _ _ _ := rfl
  erase _ _ := rfl
  toList _ := rfl
  size _ := rfl
  divideBy _ _ := rfl
  negate _ := rfl

/-- Forget the storage. -/
def toMap : StoreMap (Paired S α) (SortedMap VariableId α) α where
  toFun := map
  settings := id
  forRow _ _ := rfl
  find? p v := (LawfulStore.find? p.represents v).symm
  put _ _ _ := rfl
  erase _ _ := rfl
  toList p := (LawfulStore.toList p.represents).symm
  size p := (LawfulStore.size p.represents).symm
  divideBy _ _ := rfl
  negate _ := rfl

end Paired

end Paired

end LexSimplex
