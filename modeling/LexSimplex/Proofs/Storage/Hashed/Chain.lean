import LexSimplex.Proofs.Storage.Hashed.Buckets

/-!
# The chain through a hashed storage

The occupied buckets of a table are threaded on a doubly linked chain.  `Threaded` says that the
chain runs through a given list of cells: each bucket of the list holds its variable and value and
points at its two neighbours, every occupied bucket is on the list, and the variables ascend.

Inserting and removing an entry both replace a part of the list by another one and relink the two
neighbours.  That is one statement (`Threaded.splice`), of which `Threaded.insert` and
`Threaded.remove` are the cases of a new and of an old cell.
-/

namespace LexSimplex

open Ranked (rank)

namespace Hashed

variable {α : Type} {h next : Hashed α} {v : VariableId} {x : α} {i j : Nat}
  {entry : HashedEntry α}

/-- A bucket on the chain with its variable and value. -/
abbrev Cell (α : Type) := Nat × VariableId × α

variable {cells left middle middle' right : List (Cell α)} {cell : Cell α}

/-- The bucket of the first cell. -/
def firstBucket (cells : List (Cell α)) : Option Nat := cells.head?.map Prod.fst

/-- The bucket of the last cell. -/
def lastBucket (cells : List (Cell α)) : Option Nat := cells.getLast?.map Prod.fst

@[simp] theorem firstBucket_nil : firstBucket ([] : List (Cell α)) = none := rfl

@[simp] theorem firstBucket_cons : firstBucket (cell :: cells) = some cell.1 := rfl

@[simp] theorem lastBucket_nil : lastBucket ([] : List (Cell α)) = none := rfl

@[simp] theorem lastBucket_concat : lastBucket (cells ++ [cell]) = some cell.1 := by
  simp [lastBucket]

/-- Before a cell only the last one matters, whatever comes first. -/
theorem lastBucket_append_cons : lastBucket (left ++ cell :: right) = lastBucket (cell :: right) := by
  simp [lastBucket, List.getLast?_append, List.getLast?_cons]

/-- The bucket of the last cell belongs to a cell of the list. -/
theorem exists_of_lastBucket (hlast : lastBucket cells = some i) :
    ∃ front cell, cells = front ++ [cell] ∧ cell.1 = i := by
  rcases List.eq_nil_or_concat cells with rfl | ⟨front, cell, rfl⟩
  · simp at hlast
  · rw [List.concat_eq_append, lastBucket_concat, Option.some.injEq] at hlast
    exact ⟨front, cell, List.concat_eq_append, hlast⟩

theorem firstBucket_ne (hne : ∀ cell ∈ cells, cell.1 ≠ i) : firstBucket cells ≠ some i := by
  cases cells with
  | nil => simp
  | cons cell cells =>
      rw [firstBucket_cons, ne_eq, Option.some.injEq]
      exact hne cell List.mem_cons_self

theorem lastBucket_ne (hne : ∀ cell ∈ cells, cell.1 ≠ i) : lastBucket cells ≠ some i := by
  intro hlast
  obtain ⟨front, cell, rfl, hsame⟩ := exists_of_lastBucket hlast
  exact hne cell (by simp) hsame

/-- The chain runs through a list of cells in ascending order of their variables. -/
structure Threaded (h : Hashed α) (cells : List (Cell α)) : Prop where
  head : h.head = firstBucket cells
  tail : h.tail = lastBucket cells
  entry : ∀ {left cell right}, cells = left ++ cell :: right →
    h.entryAt? cell.1 = some ⟨cell.2.1, cell.2.2, lastBucket left, firstBucket right⟩
  covered : ∀ {i entry}, h.entryAt? i = some entry → i ∈ cells.map Prod.fst
  ascending : (cells.map Prod.snd).Pairwise fun p q => rank p.1 < rank q.1

namespace Threaded

/-- No bucket is on the chain twice. -/
theorem distinct (ht : h.Threaded cells) (hcells : cells = left ++ cell :: right) :
    (∀ other ∈ left, other.1 ≠ cell.1) ∧ ∀ other ∈ right, other.1 ≠ cell.1 := by
  have hself := ht.entry hcells
  have hsorted := ht.ascending
  rw [hcells, List.map_append, List.map_cons, List.pairwise_append] at hsorted
  obtain ⟨-, hafter, hacross⟩ := hsorted
  have hkey : ∀ other ∈ cells, other.1 = cell.1 → other.2.1 = cell.2.1 := by
    intro other hother hsame
    obtain ⟨before, after, hsplit⟩ := List.append_of_mem hother
    have hentry := ht.entry hsplit
    rw [hsame, hself, Option.some.injEq, HashedEntry.mk.injEq] at hentry
    exact hentry.1.symm
  constructor
  · intro other hother hsame
    have hlt := hacross _ (List.mem_map_of_mem hother) _ List.mem_cons_self
    rw [hkey other (by rw [hcells]; exact List.mem_append_left _ hother) hsame] at hlt
    exact Nat.lt_irrefl _ hlt
  · intro other hother hsame
    have hlt := (List.pairwise_cons.mp hafter).1 _ (List.mem_map_of_mem hother)
    rw [hkey other (by rw [hcells]; simp [hother]) hsame] at hlt
    exact Nat.lt_irrefl _ hlt

/-- An entry has its place on the chain, and its links are those of that place. -/
theorem exists_cell (ht : h.Threaded cells) (hentry : h.entryAt? i = some entry) :
    ∃ left right, cells = left ++ (i, entry.key, entry.value) :: right ∧
      entry.previous = lastBucket left ∧ entry.next = firstBucket right := by
  obtain ⟨cell, hcell, rfl⟩ := List.mem_map.mp (ht.covered hentry)
  obtain ⟨left, right, hsplit⟩ := List.append_of_mem hcell
  have hfound := ht.entry hsplit
  rw [hentry, Option.some.injEq] at hfound
  subst hfound
  exact ⟨left, right, hsplit, rfl, rfl⟩

/-! ## Walking along the chain -/

/-- Following the chain lists the cells in order. -/
theorem chainFrom_spec (ht : h.Threaded cells) {remaining : Nat} (hcells : cells = left ++ right)
    (hle : right.length ≤ remaining) :
    ∃ entries, h.chainFrom remaining (firstBucket right) = some entries ∧
      (entries.map fun entry => (entry.key, entry.value)) = right.map Prod.snd := by
  induction right generalizing left remaining with
  | nil => exact ⟨[], by cases remaining <;> rfl, rfl⟩
  | cons cell right ih =>
      cases remaining with
      | zero => simp at hle
      | succ remaining =>
          rw [List.length_cons] at hle
          obtain ⟨entries, hentries, hpairs⟩ :=
            ih (show cells = (left ++ [cell]) ++ right by simp [hcells])
              (Nat.le_of_succ_le_succ hle)
          refine ⟨⟨cell.2.1, cell.2.2, lastBucket left, firstBucket right⟩ :: entries, ?_, ?_⟩
          · rw [firstBucket_cons, chainFrom, ht.entry hcells]
            simp [hentries]
          · simp [hpairs]

/-- Walking back from a cell finds the last one with a smaller variable. -/
theorem predecessorFrom_spec (ht : h.Threaded cells) {remaining : Nat}
    (hcells : cells = left ++ right) (hle : left.length ≤ remaining)
    (hright : ∀ cell ∈ right, rank v ≤ rank cell.2.1) :
    ∃ smaller larger, cells = smaller ++ larger ∧
      h.predecessorFrom v remaining (lastBucket left) = some (lastBucket smaller) ∧
        (∀ cell ∈ smaller, rank cell.2.1 < rank v) ∧ ∀ cell ∈ larger, rank v ≤ rank cell.2.1 := by
  induction remaining generalizing left right with
  | zero =>
      obtain rfl : left = [] := List.length_eq_zero_iff.mp (Nat.le_zero.mp hle)
      exact ⟨[], right, hcells, rfl, by simp, hright⟩
  | succ remaining ih =>
      rcases List.eq_nil_or_concat left with rfl | ⟨front, cell, rfl⟩
      · exact ⟨[], right, hcells, rfl, by simp, hright⟩
      · rw [List.concat_eq_append] at hcells hle ⊢
        have hsplit : cells = front ++ cell :: right := by simp [hcells]
        rw [lastBucket_concat, predecessorFrom, ht.entry hsplit]
        simp only [Option.bind_eq_bind, Option.bind_some]
        split
        next hlt =>
          refine ⟨front ++ [cell], right, hcells, by rw [lastBucket_concat]; rfl, ?_, hright⟩
          intro other hother
          -- All cells before a smaller one are smaller.
          rcases List.mem_append.mp hother with hmem | hmem
          · have hsorted := ht.ascending
            rw [hsplit, List.map_append, List.map_cons, List.pairwise_append] at hsorted
            exact Nat.lt_trans (hsorted.2.2 _ (List.mem_map_of_mem hmem) _ List.mem_cons_self) hlt
          · rw [List.mem_singleton.mp hmem]
            exact hlt
        next hge =>
          refine ih hsplit (by simpa using hle) fun other hother => ?_
          rcases List.mem_cons.mp hother with rfl | hmem
          · exact Nat.le_of_not_lt hge
          · exact hright other hmem

/-! ## Changing the chain -/

omit cells in
/-- A cell of two lists in a row is in the first or in the second. -/
theorem split_append {front back : List (Cell α)} (hsplit : left ++ right = front ++ cell :: back) :
    (∃ rest, left = front ++ cell :: rest ∧ back = rest ++ right) ∨
      ∃ rest, front = left ++ rest ∧ right = rest ++ cell :: back := by
  rcases List.append_eq_append_iff.mp hsplit with ⟨rest, hfront, hright⟩ | ⟨rest, hleft, hback⟩
  · exact Or.inr ⟨rest, hfront, hright⟩
  · cases rest with
    | nil => exact Or.inr ⟨[], by simpa using hleft.symm, by simpa using hback.symm⟩
    | cons first rest =>
        rw [List.cons_append, List.cons.injEq] at hback
        obtain ⟨rfl, rfl⟩ := hback
        exact Or.inl ⟨rest, hleft, rfl⟩

/-- The head of a chain whose cells after a part were replaced. -/
theorem head_replaced (ht : h.Threaded (left ++ right)) (right' : List (Cell α)) :
    (if lastBucket left = none then firstBucket right' else h.head) =
      firstBucket (left ++ right') := by
  rcases List.eq_nil_or_concat left with rfl | ⟨front, cell, rfl⟩
  · simp
  · rw [List.concat_eq_append, lastBucket_concat, if_neg (by simp), ht.head]
    cases front <;> simp

/-- The tail of a chain whose cells before a part were replaced. -/
theorem tail_replaced (ht : h.Threaded (left ++ right)) (left' : List (Cell α)) :
    (if firstBucket right = none then lastBucket left' else h.tail) =
      lastBucket (left' ++ right) := by
  cases right with
  | nil => simp
  | cons cell right =>
      rw [firstBucket_cons, if_neg (by simp), ht.tail, lastBucket_append_cons,
        lastBucket_append_cons]

/-- An entry with the links of a cell next to a part of the chain that was replaced: the last cell
before it gets a new successor and the first cell after it a new predecessor. -/
def relinked (left right : List (Cell α)) (successor predecessor : Option Nat) (i : Nat)
    (entry : HashedEntry α) : HashedEntry α :=
  { entry with
    next := if lastBucket left = some i then successor else entry.next
    previous := if firstBucket right = some i then predecessor else entry.previous }

/-- A part of the chain is replaced by other cells, and its neighbours are linked to those. -/
theorem splice (ht : h.Threaded (left ++ (middle ++ right)))
    (hhead : next.head = firstBucket (left ++ (middle' ++ right)))
    (htail : next.tail = lastBucket (left ++ (middle' ++ right)))
    (hkept : ∀ {i entry}, h.entryAt? i = some entry → i ∉ middle.map Prod.fst →
      next.entryAt? i = some (relinked left right (firstBucket (middle' ++ right))
        (lastBucket (left ++ middle')) i entry))
    (hnew : ∀ {front cell back}, middle' = front ++ cell :: back → next.entryAt? cell.1 =
      some ⟨cell.2.1, cell.2.2, lastBucket (left ++ front), firstBucket (back ++ right)⟩)
    (hcovered : ∀ {i entry}, next.entryAt? i = some entry →
      i ∈ middle'.map Prod.fst ∨ i ∈ left.map Prod.fst ∨ i ∈ right.map Prod.fst)
    (hascending : ((left ++ (middle' ++ right)).map Prod.snd).Pairwise
      fun p q => rank p.1 < rank q.1) : next.Threaded (left ++ (middle' ++ right)) := by
  refine ⟨hhead, htail, ?_, ?_, hascending⟩
  · intro front cell back hsplit
    rcases split_append hsplit with ⟨rest, rfl, rfl⟩ | ⟨rest, rfl, hrest⟩
    · -- A cell before the new part: only the last one gets another successor.
      have hold : front ++ cell :: rest ++ (middle ++ right) =
          front ++ cell :: (rest ++ (middle ++ right)) := by simp
      obtain ⟨-, hafter⟩ := ht.distinct hold
      rw [hkept (ht.entry hold) fun hmem => ?_]
      · have hfirst : firstBucket right ≠ some cell.1 :=
          firstBucket_ne fun other hother => hafter other (by simp [hother])
        unfold relinked
        simp only [if_neg hfirst]
        cases rest with
        | nil => simp
        | cons other rest =>
            have hlast : lastBucket (front ++ cell :: other :: rest) ≠ some cell.1 := by
              rw [List.append_cons, lastBucket_append_cons]
              exact lastBucket_ne fun last hmem => hafter last (List.mem_append_left _ hmem)
            simp [if_neg hlast]
      · obtain ⟨other, hother, hsame⟩ := List.mem_map.mp hmem
        exact hafter other (by simp [hother]) hsame
    · rcases split_append hrest with ⟨inner, hinner, rfl⟩ | ⟨inner, rfl, hinner⟩
      · -- A cell of the new part.
        exact hnew hinner
      · -- A cell after the new part: only the first one gets another predecessor.
        have hold : left ++ (middle ++ right) = left ++ (middle ++ inner) ++ cell :: back := by
          rw [hinner]
          simp
        obtain ⟨hbefore, -⟩ := ht.distinct hold
        rw [hkept (ht.entry hold) fun hmem => ?_]
        · have hlast : lastBucket left ≠ some cell.1 :=
            lastBucket_ne fun other hother => hbefore other (by simp [hother])
          unfold relinked
          simp only [if_neg hlast]
          cases inner with
          | nil =>
              rw [List.nil_append] at hinner
              simp [hinner]
          | cons other inner =>
              have hfirst : firstBucket right ≠ some cell.1 := by
                rw [hinner, List.cons_append, firstBucket_cons, ne_eq, Option.some.injEq]
                exact hbefore other (by simp)
              rw [if_neg hfirst, ← List.append_assoc, ← List.append_assoc, lastBucket_append_cons,
                lastBucket_append_cons]
        · obtain ⟨other, hother, hsame⟩ := List.mem_map.mp hmem
          exact hbefore other (by simp [hother]) hsame
  · intro i entry hentry
    simp only [List.map_append, List.mem_append]
    rcases hcovered hentry with hmem | hmem | hmem
    · exact Or.inr (Or.inl hmem)
    · exact Or.inl hmem
    · exact Or.inr (Or.inr hmem)

end Threaded

end Hashed

end LexSimplex
