import LexSimplex.Variable

/-!
# Finite maps in ascending order

A sorted map is the list of its entries in strictly ascending order of their keys. It holds the
terms of the goal and the constraints of a solver, and it is the plain reading of a row storage
against which the faster ones are compared.

Keys are compared through a natural number that identifies them, so that every question about the
order is one about natural numbers. The order is part of the type, which makes a map determined by
its look-ups (`ext_find?`).
-/

namespace LexSimplex

/-- Keys identified by a natural number. -/
class Ranked (κ : Type) where
  rank : κ → Nat
  rank_injective : ∀ {a b : κ}, rank a = rank b → a = b

instance : Ranked VariableId where
  rank := VariableId.index
  rank_injective := fun {a b} h => by
    cases a
    cases b
    simp_all

instance : Ranked ConstraintNumber where
  rank c := c.number.toNat
  rank_injective := fun {a b} h => by
    cases a
    cases b
    simp_all [UInt32.toNat_inj]

open Ranked (rank rank_injective)

/-- A list of entries in strictly ascending order of their keys. -/
structure SortedMap (κ β : Type) [Ranked κ] where
  toList : List (κ × β)
  ascending : toList.Pairwise fun p q => rank p.1 < rank q.1

namespace SortedMap

variable {κ β : Type} [Ranked κ]

instance [DecidableEq κ] [DecidableEq β] : DecidableEq (SortedMap κ β) := fun m n =>
  if h : m.toList = n.toList then
    isTrue (by cases m; cases n; simp_all)
  else
    isFalse (by intro e; exact h (congrArg toList e))

/-- The map without entries. -/
def empty : SortedMap κ β := ⟨[], List.Pairwise.nil⟩

/-- The number of entries. -/
def size (m : SortedMap κ β) : Nat := m.toList.length

/-- Whether there is no entry. -/
def isEmpty (m : SortedMap κ β) : Bool := m.toList.isEmpty

/-- The value at a key in a list of entries. -/
def findIn (k : κ) : List (κ × β) → Option β
  | [] => none
  | (key, value) :: rest => if rank key = rank k then some value else findIn k rest

/-- The value at a key. -/
def find? (m : SortedMap κ β) (k : κ) : Option β := findIn k m.toList

/-- Put a value at a key, before the first entry with a larger key. -/
def insertIn (k : κ) (x : β) : List (κ × β) → List (κ × β)
  | [] => [(k, x)]
  | (key, value) :: rest =>
      if rank k < rank key then (k, x) :: (key, value) :: rest
      else if rank key = rank k then (k, x) :: rest
      else (key, value) :: insertIn k x rest

/-- Drop the entry of a key. -/
def eraseIn (k : κ) (entries : List (κ × β)) : List (κ × β) :=
  entries.filter fun entry => rank entry.1 != rank k

theorem mem_insertIn {k : κ} {x : β} {entries : List (κ × β)} {p : κ × β}
    (h : p ∈ insertIn k x entries) : p = (k, x) ∨ p ∈ entries := by
  induction entries with
  | nil => simpa [insertIn] using h
  | cons entry rest ih =>
      obtain ⟨key, value⟩ := entry
      unfold insertIn at h
      split at h
      · simpa using h
      · split at h
        · rcases List.mem_cons.mp h with h | h
          · exact Or.inl h
          · exact Or.inr (List.mem_cons_of_mem _ h)
        · rcases List.mem_cons.mp h with h | h
          · exact Or.inr (h ▸ List.mem_cons_self)
          · rcases ih h with h | h
            · exact Or.inl h
            · exact Or.inr (List.mem_cons_of_mem _ h)

theorem ascending_insertIn (k : κ) (x : β) {entries : List (κ × β)}
    (h : entries.Pairwise fun p q => rank p.1 < rank q.1) :
    (insertIn k x entries).Pairwise fun p q => rank p.1 < rank q.1 := by
  induction entries with
  | nil => simp [insertIn]
  | cons entry rest ih =>
      obtain ⟨key, value⟩ := entry
      obtain ⟨hhead, hrest⟩ := List.pairwise_cons.mp h
      unfold insertIn
      split
      next hlt =>
        refine List.pairwise_cons.mpr ⟨?_, h⟩
        intro p hp
        rcases List.mem_cons.mp hp with rfl | hp
        · exact hlt
        · exact Nat.lt_trans hlt (hhead p hp)
      next hge =>
        split
        next heq =>
          refine List.pairwise_cons.mpr ⟨?_, hrest⟩
          intro p hp
          simpa [← heq] using hhead p hp
        next hne =>
          refine List.pairwise_cons.mpr ⟨?_, ih hrest⟩
          intro p hp
          rcases mem_insertIn hp with rfl | hp
          · simp only
            omega
          · exact hhead p hp

/-- Put a value at a key, replacing the one that was there. -/
def insert (m : SortedMap κ β) (k : κ) (x : β) : SortedMap κ β :=
  ⟨insertIn k x m.toList, ascending_insertIn k x m.ascending⟩

/-- Drop the entry of a key, if there is one. -/
def erase (m : SortedMap κ β) (k : κ) : SortedMap κ β :=
  ⟨eraseIn k m.toList, m.ascending.filter _⟩

/-- Change every value. -/
def map (m : SortedMap κ β) (f : β → β) : SortedMap κ β :=
  ⟨m.toList.map fun entry => (entry.1, f entry.2), by
    rw [List.pairwise_map]
    exact m.ascending⟩

/-- Keep the entries whose value passes a test. -/
def filter (m : SortedMap κ β) (keep : β → Bool) : SortedMap κ β :=
  ⟨m.toList.filter fun entry => keep entry.2, m.ascending.filter _⟩

theorem findIn_eq_none {k : κ} {entries : List (κ × β)}
    (h : ∀ p ∈ entries, rank p.1 ≠ rank k) : findIn k entries = none := by
  induction entries with
  | nil => rfl
  | cons entry rest ih =>
      have hhead := h entry List.mem_cons_self
      simp only [findIn, hhead, if_false]
      exact ih fun p hp => h p (List.mem_cons_of_mem _ hp)

theorem findIn_eq_some {k : κ} {x : β} {entries : List (κ × β)}
    (h : entries.Pairwise fun p q => rank p.1 < rank q.1) :
    findIn k entries = some x ↔ (k, x) ∈ entries := by
  induction entries with
  | nil => simp [findIn]
  | cons entry rest ih =>
      obtain ⟨key, value⟩ := entry
      obtain ⟨hhead, hrest⟩ := List.pairwise_cons.mp h
      by_cases hkey : rank key = rank k
      · have hk : key = k := rank_injective hkey
        subst hk
        have habsent : (key, x) ∉ rest := fun hmem => Nat.lt_irrefl _ (hhead (key, x) hmem)
        simp only [findIn, if_true, Option.some.injEq, List.mem_cons, Prod.mk.injEq, true_and,
          habsent, or_false]
        exact eq_comm
      · have hne : (k, x) ≠ (key, value) := by
          intro e
          exact hkey (congrArg (fun p => rank p.1) e).symm
        simp only [findIn, hkey, if_false, List.mem_cons, hne, false_or]
        exact ih hrest

/-- A look-up finds exactly the entries of the list. -/
theorem find?_eq_some {m : SortedMap κ β} {k : κ} {x : β} :
    m.find? k = some x ↔ (k, x) ∈ m.toList :=
  findIn_eq_some m.ascending

theorem findIn_insertIn (k j : κ) (x : β) (entries : List (κ × β))
    (h : entries.Pairwise fun p q => rank p.1 < rank q.1) :
    findIn j (insertIn k x entries) =
      if rank k = rank j then some x else findIn j entries := by
  induction entries with
  | nil => simp [insertIn, findIn]
  | cons entry rest ih =>
      obtain ⟨key, value⟩ := entry
      obtain ⟨hhead, hrest⟩ := List.pairwise_cons.mp h
      unfold insertIn
      split
      next hlt => rfl
      next hge =>
        split
        next heq =>
          by_cases hj : rank k = rank j
          · simp [findIn, hj]
          · simp [findIn, heq, hj]
        next hne =>
          by_cases hj : rank key = rank j
          · have hkj : rank k ≠ rank j := by omega
            simp [findIn, hj, hkj]
          · simp only [findIn, hj, if_false]
            exact ih hrest

/-- A value that was put at a key is found there, and nothing else changes. -/
theorem find?_insert (m : SortedMap κ β) (k j : κ) (x : β) :
    (m.insert k x).find? j = if rank k = rank j then some x else m.find? j :=
  findIn_insertIn k j x m.toList m.ascending

theorem findIn_eraseIn (k j : κ) (entries : List (κ × β)) :
    findIn j (eraseIn k entries) = if rank k = rank j then none else findIn j entries := by
  induction entries with
  | nil => simp [eraseIn, findIn]
  | cons entry rest ih =>
      obtain ⟨key, value⟩ := entry
      unfold eraseIn at ih ⊢
      rw [List.filter_cons]
      by_cases hkey : rank key = rank k
      · by_cases hj : rank k = rank j
        · simpa [hkey, hj] using ih
        · simpa [findIn, hkey, hj] using ih
      · have hkept : (rank key != rank k) = true := by simpa using hkey
        rw [if_pos hkept]
        by_cases hj : rank key = rank j
        · have hkj : rank k ≠ rank j := by omega
          simp [findIn, hj, hkj]
        · simpa [findIn, hj] using ih

/-- A key that was dropped is not found, and nothing else changes. -/
theorem find?_erase (m : SortedMap κ β) (k j : κ) :
    (m.erase k).find? j = if rank k = rank j then none else m.find? j :=
  findIn_eraseIn k j m.toList

/-- Two lists in strictly ascending order with the same members are equal. -/
theorem eq_of_mem_iff {xs ys : List (κ × β)}
    (hx : xs.Pairwise fun p q => rank p.1 < rank q.1)
    (hy : ys.Pairwise fun p q => rank p.1 < rank q.1)
    (h : ∀ p, p ∈ xs ↔ p ∈ ys) : xs = ys := by
  induction xs generalizing ys with
  | nil =>
      cases ys with
      | nil => rfl
      | cons y ys => exact absurd ((h y).mpr List.mem_cons_self) List.not_mem_nil
  | cons x xs ih =>
      cases ys with
      | nil => exact absurd ((h x).mp List.mem_cons_self) List.not_mem_nil
      | cons y ys =>
          obtain ⟨hxhead, hxrest⟩ := List.pairwise_cons.mp hx
          obtain ⟨hyhead, hyrest⟩ := List.pairwise_cons.mp hy
          have hxy : x = y := by
            rcases List.mem_cons.mp ((h x).mp List.mem_cons_self) with e | hxmem
            · exact e
            · rcases List.mem_cons.mp ((h y).mpr List.mem_cons_self) with e | hymem
              · exact e.symm
              · exact absurd (Nat.lt_trans (hxhead y hymem) (hyhead x hxmem)) (Nat.lt_irrefl _)
          subst hxy
          congr 1
          refine ih hxrest hyrest fun p => ⟨fun hp => ?_, fun hp => ?_⟩
          · rcases List.mem_cons.mp ((h p).mp (List.mem_cons_of_mem _ hp)) with e | hmem
            · exact absurd (e ▸ hxhead p hp) (Nat.lt_irrefl _)
            · exact hmem
          · rcases List.mem_cons.mp ((h p).mpr (List.mem_cons_of_mem _ hp)) with e | hmem
            · exact absurd (e ▸ hyhead p hp) (Nat.lt_irrefl _)
            · exact hmem

/-- A sorted map is determined by its look-ups. -/
theorem ext_find? {m n : SortedMap κ β} (h : ∀ k, m.find? k = n.find? k) : m = n := by
  have hlist : m.toList = n.toList := by
    refine eq_of_mem_iff m.ascending n.ascending fun p => ?_
    rw [← find?_eq_some, ← find?_eq_some, h]
  cases m
  cases n
  simp_all

end SortedMap

end LexSimplex
