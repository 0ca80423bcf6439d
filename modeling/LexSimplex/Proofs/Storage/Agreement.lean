import LexSimplex.Proofs.Storage.Dense
import LexSimplex.Proofs.Storage.Hashed
import LexSimplex.Storage

/-!
# All storages agree

One operation on a storage and on the map it represents returns the same and leads to a storage of
the changed map.  So does a sequence of them, and the two strategies cannot be told apart: whatever
capacity and search threshold they were started with, they answer like a sorted map, and afterwards
they read like it (`storages_agree`).
-/

namespace LexSimplex

section Lawful

variable {S α : Type} [Scalar α] [RowStore S α] [LawfulStore S α] {s : S}
  {m : SortedMap VariableId α}

/-- One operation returns what it returns on the map, and leads to a storage of the changed map. -/
theorem StoreOp.apply_represents (h : LawfulStore.Represents s m) (op : StoreOp α) :
    (op.apply s).2 = (op.apply m).2 ∧ LawfulStore.Represents (op.apply s).1 (op.apply m).1 := by
  cases op with
  | put v x => exact ⟨rfl, LawfulStore.put h v x⟩
  | add v delta =>
      have hget : RowStore.get s v = RowStore.get m v := by
        unfold RowStore.get
        rw [LawfulStore.find? h]
        rfl
      have hsum : RowStore.get s v + delta = RowStore.get m v + delta := by rw [hget]
      refine ⟨congrArg some hsum, ?_⟩
      change LawfulStore.Represents (RowStore.put s v (RowStore.get s v + delta)) _
      rw [hsum]
      exact LawfulStore.put h v _
  | remove v => exact ⟨LawfulStore.find? h v, LawfulStore.erase h v⟩
  | divideBy divisor => exact ⟨rfl, LawfulStore.divideBy h divisor⟩
  | negate => exact ⟨rfl, LawfulStore.negate h⟩
  | clear => exact ⟨rfl, LawfulStore.clear h⟩

/-- A sequence of operations returns what it returns on the map, and leads to a storage of the map it
leads to. -/
theorem StoreOp.run_represents (h : LawfulStore.Represents s m) (ops : List (StoreOp α)) :
    (run s ops).2 = (run m ops).2 ∧ LawfulStore.Represents (run s ops).1 (run m ops).1 := by
  induction ops generalizing s m with
  | nil => exact ⟨rfl, h⟩
  | cons op ops ih =>
      obtain ⟨hanswer, hnext⟩ := apply_represents h op
      obtain ⟨hanswers, hlast⟩ := ih hnext
      refine ⟨?_, hlast⟩
      change (op.apply s).2 :: (run (op.apply s).1 ops).2 = _
      rw [hanswer, hanswers]
      rfl

end Lawful

namespace RowStore

variable {S T α : Type} [Scalar α] [RowStore S α] [RowStore T α]

/-- Two storages that cannot be told apart by reading them. -/
structure Alike (s : S) (t : T) : Prop where
  get : ∀ v, get s v = get t v
  size : size s = size t
  isEmpty : isEmpty s = isEmpty t
  contains : ∀ v, contains s v = contains t v
  toList : toList s = toList t

/-- A storage reads like the map it represents. -/
theorem alike_of_represents [LawfulStore S α] {s : S} {m : SortedMap VariableId α}
    (h : LawfulStore.Represents s m) : Alike s m := by
  have hget : ∀ v, RowStore.get s v = RowStore.get m v := by
    intro v
    unfold RowStore.get
    rw [LawfulStore.find? h]
    rfl
  refine ⟨hget, LawfulStore.size h, ?_, fun v => ?_, LawfulStore.toList h⟩
  · unfold RowStore.isEmpty
    rw [LawfulStore.size h]
    rfl
  · unfold RowStore.contains
    rw [hget]

end RowStore

/-- After any sequence of operations the dense and the hashed storage have returned what a sorted map
returns, and they read like it; its entries ascend strictly. -/
theorem storages_agree {α : Type} [Scalar α] (capacity searchThreshold : Nat)
    (ops : List (StoreOp α)) :
    let dense := StoreOp.run (Dense.empty searchThreshold : Dense α) ops
    let hashed := StoreOp.run (Hashed.withCapacity capacity : Hashed α) ops
    let plain := StoreOp.run (SortedMap.empty : SortedMap VariableId α) ops
    dense.2 = plain.2 ∧ hashed.2 = plain.2 ∧
      RowStore.Alike dense.1 plain.1 ∧ RowStore.Alike hashed.1 plain.1 ∧
        (RowStore.toList plain.1).Pairwise fun p q => p.1.index < q.1.index := by
  have hdenseStart : LawfulStore.Represents (Dense.empty searchThreshold : Dense α) .empty :=
    Dense.Represents.empty searchThreshold
  have hhashedStart : LawfulStore.Represents (Hashed.withCapacity capacity : Hashed α) .empty :=
    Hashed.represents_ofBucketCount (Nat.le_max_left 3 _)
  obtain ⟨hdense, hdenseLast⟩ := StoreOp.run_represents hdenseStart ops
  obtain ⟨hhashed, hhashedLast⟩ := StoreOp.run_represents hhashedStart ops
  exact ⟨hdense, hhashed, RowStore.alike_of_represents hdenseLast,
    RowStore.alike_of_represents hhashedLast,
    (StoreOp.run (SortedMap.empty : SortedMap VariableId α) ops).1.ascending⟩

namespace Storage

variable {α : Type} [Scalar α]

/-- A storage of either strategy represents what its strategy represents. -/
def Represents : Storage α → SortedMap VariableId α → Prop
  | dense s, m => LawfulStore.Represents s m
  | hashed s, m => LawfulStore.Represents s m

instance : LawfulStore (Storage α) α where
  Represents := Represents
  forRow settings width := by
    change Represents (forRow settings width) .empty
    unfold forRow
    split
    · exact LawfulStore.forRow (S := Hashed α) settings width
    · exact LawfulStore.forRow (S := Dense α) settings width
  find? {s m} h v := by
    cases s with
    | dense s => exact LawfulStore.find? (S := Dense α) h v
    | hashed s => exact LawfulStore.find? (S := Hashed α) h v
  toList {s m} h := by
    cases s with
    | dense s => exact LawfulStore.toList (S := Dense α) h
    | hashed s => exact LawfulStore.toList (S := Hashed α) h
  size {s m} h := by
    cases s with
    | dense s => exact LawfulStore.size (S := Dense α) h
    | hashed s => exact LawfulStore.size (S := Hashed α) h
  put {s m} h v x := by
    cases s with
    | dense s => exact LawfulStore.put (S := Dense α) h v x
    | hashed s => exact LawfulStore.put (S := Hashed α) h v x
  erase {s m} h v := by
    cases s with
    | dense s => exact LawfulStore.erase (S := Dense α) h v
    | hashed s => exact LawfulStore.erase (S := Hashed α) h v
  divideBy {s m} h divisor := by
    cases s with
    | dense s => exact LawfulStore.divideBy (S := Dense α) h divisor
    | hashed s => exact LawfulStore.divideBy (S := Hashed α) h divisor
  negate {s m} h := by
    cases s with
    | dense s => exact LawfulStore.negate (S := Dense α) h
    | hashed s => exact LawfulStore.negate (S := Hashed α) h
  clear {s m} h := by
    cases s with
    | dense s => exact LawfulStore.clear (S := Dense α) h
    | hashed s => exact LawfulStore.clear (S := Hashed α) h

end Storage

end LexSimplex
