import LexSimplex.Scalar

/-!
# Strengths

Soft constraints are ranked by a discrete strength, and a violation at a higher level is never
traded for any amount of violation at a lower one. Coefficients of the objective therefore carry one
component for each level and are compared lexicographically, the highest level first.
-/

namespace LexSimplex

/-- The priority of a soft constraint, from lowest to highest. -/
inductive Strength where
  | lowest
  | low
  | medium
  | high
  | highest
  | equality
deriving DecidableEq

namespace Strength

/-- All levels from lowest to highest. -/
def ascending : List Strength := [lowest, low, medium, high, highest, equality]

/-- All levels from highest to lowest, the order in which vectors are compared. -/
def descending : List Strength := [equality, highest, high, medium, low, lowest]

/-- The number of levels. -/
def count : Nat := 6

/-- The position of a level, zero being the lowest. -/
def level : Strength → Nat
  | lowest => 0
  | low => 1
  | medium => 2
  | high => 3
  | highest => 4
  | equality => 5

/-- The strength at a position, if there is one. -/
def ofLevel? (level : Nat) : Option Strength := ascending[level]?

/-- The name of a level. -/
def name : Strength → String
  | lowest => "Lowest"
  | low => "Low"
  | medium => "Medium"
  | high => "High"
  | highest => "Highest"
  | equality => "Equality"

/-- Compare two levels by their position. -/
def compare (s t : Strength) : Ordering := Ord.compare s.level t.level

end Strength

/-- One scalar for each level. -/
structure StrengthVector (α : Type) where
  lowest : α
  low : α
  medium : α
  high : α
  highest : α
  equality : α
deriving DecidableEq

namespace StrengthVector

/-- The component at one level. -/
def get {α : Type} (v : StrengthVector α) : Strength → α
  | .lowest => v.lowest
  | .low => v.low
  | .medium => v.medium
  | .high => v.high
  | .highest => v.highest
  | .equality => v.equality

/-- The vector with the given components. -/
def ofFn {α : Type} (f : Strength → α) : StrengthVector α where
  lowest := f .lowest
  low := f .low
  medium := f .medium
  high := f .high
  highest := f .highest
  equality := f .equality

@[simp] theorem get_ofFn {α : Type} (f : Strength → α) (s : Strength) : (ofFn f).get s = f s := by
  cases s <;> rfl

/-- Vectors with equal components are equal. -/
theorem ext_get {α : Type} {v w : StrengthVector α} (h : ∀ s, v.get s = w.get s) : v = w := by
  cases v
  cases w
  simp only [mk.injEq]
  exact ⟨h .lowest, h .low, h .medium, h .high, h .highest, h .equality⟩

/-- The components from lowest to highest. -/
def toList {α : Type} (v : StrengthVector α) : List α := Strength.ascending.map v.get

variable {α : Type} [Scalar α]

/-- The vector that is zero at every level. -/
def zero : StrengthVector α := ofFn fun _ => 0

/-- The vector with a one at `strength` and zeros elsewhere. -/
def unit (strength : Strength) : StrengthVector α :=
  ofFn fun s => if s = strength then 1 else 0

/-- Add a multiple of another vector. -/
def addMultiple (v w : StrengthVector α) (factor : α) : StrengthVector α :=
  ofFn fun s => v.get s + w.get s * factor

/-- Multiply every component. -/
def scaled (v : StrengthVector α) (factor : α) : StrengthVector α :=
  ofFn fun s => v.get s * factor

/-- Whether every component is zero. -/
def isZero (v : StrengthVector α) : Bool := Strength.ascending.all fun s => v.get s == 0

/-- The highest level with a component other than zero. -/
def highestLevel (v : StrengthVector α) : Option Strength :=
  Strength.descending.find? fun s => v.get s != 0

/-- The lexicographic sign: the first component other than zero decides. -/
def sign (v : StrengthVector α) : Ordering :=
  match v.highestLevel with
  | none => .eq
  | some s => if v.get s < 0 then .lt else .gt

/-- Whether the vector is lexicographically negative. -/
def isNegative (v : StrengthVector α) : Bool := v.sign == .lt

/-- Compare two vectors lexicographically, the highest level first. -/
def compare (v w : StrengthVector α) : Ordering :=
  Strength.descending.foldr (fun s rest => (Scalar.compare (v.get s) (w.get s)).then rest) .eq

/-- Whether all components test as equal. -/
def beq (v w : StrengthVector α) : Bool :=
  Strength.ascending.all fun s => v.get s == w.get s

/-- Write the components from lowest to highest. -/
def text (v : StrengthVector α) : String :=
  "[" ++ ", ".intercalate (v.toList.map Scalar.text) ++ "]"

end StrengthVector

end LexSimplex
