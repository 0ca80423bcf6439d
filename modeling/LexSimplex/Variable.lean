import LexSimplex.Strength

/-!
# Variables and their handles

Every unknown is identified inside one solve session by a small natural number, which is used again
once the variable was released. Code outside the solver holds handles instead: a handle also
remembers its session and how often its number had been released when it was made, so that a handle
which outlived its variable is recognised.
-/

namespace LexSimplex

/-- The number of a variable within one session. -/
structure VariableId where
  index : Nat
deriving DecidableEq

instance : ToString VariableId where
  toString id := s!"v{id.index}"

/-- The position of a row in the tableau. -/
structure RowId where
  index : Nat
deriving DecidableEq

instance : ToString RowId where
  toString id := s!"r{id.index}"

/-- One solve session of one registry. Sessions are numbered by a 32-bit counter that wraps. -/
structure SessionId where
  number : UInt32
deriving DecidableEq

/-- The number of a constraint within its session, drawn from a 32-bit counter. -/
structure ConstraintNumber where
  number : UInt32
deriving DecidableEq

instance : ToString ConstraintNumber where
  toString c := toString c.number.toNat

namespace ConstraintNumber

/-- The first number of a session. -/
def first : ConstraintNumber := ⟨0⟩

/-- The number after this one; the largest number has none. -/
def next? (c : ConstraintNumber) : Option ConstraintNumber :=
  if c.number + 1 = 0 then none else some ⟨c.number + 1⟩

end ConstraintNumber

/-- The handle of a variable, as held outside the solver. -/
structure Variable where
  session : SessionId
  id : VariableId
  /-- How often the number had been released when the handle was made. -/
  generation : UInt32
deriving DecidableEq

instance : ToString Variable where
  toString v := toString v.id

/-- The handle of a constraint in the solver that accepted it. -/
structure ConstraintHandle where
  session : SessionId
  number : ConstraintNumber
deriving DecidableEq

instance : ToString ConstraintHandle where
  toString h := s!"c{h.number}"

/-- The role of a variable in the tableau. -/
inductive VariableKind where
  /-- A layout unknown that may take any value. -/
  | unrestricted
  /-- A non-negative variable that turns an inequality into an equation. -/
  | slack
  /-- A non-negative variable that measures the violation of a soft constraint. -/
  | error
  /-- A variable pinned at zero, which marks a required equation. -/
  | constant
  /-- A non-negative variable without a role of its own, such as the artificial variable. -/
  | unknown
deriving DecidableEq

namespace VariableKind

/-- The name of a kind. -/
def name : VariableKind → String
  | unrestricted => "unrestricted"
  | slack => "slack"
  | error => "error"
  | constant => "constant"
  | unknown => "unknown"

/-- Whether a variable of this kind has to be non-negative. -/
def isRestricted : VariableKind → Bool
  | unrestricted => false
  | _ => true

/-- Whether a new row may be solved for its own variable of this kind. -/
def isPivotable : VariableKind → Bool
  | slack | error => true
  | _ => false

/-- Whether a variable of this kind may be brought into the basis to improve the goal. -/
def canEnter : VariableKind → Bool
  | slack | error | unknown => true
  | _ => false

end VariableKind

/-- The kinds that layout code may declare. -/
inductive DeclaredKind where
  | unrestricted
  | slack
  | error
  | constant
deriving DecidableEq

namespace DeclaredKind

/-- The kind of the declared variable in the tableau. -/
def toKind : DeclaredKind → VariableKind
  | unrestricted => .unrestricted
  | slack => .slack
  | error => .error
  | constant => .constant

end DeclaredKind

end LexSimplex
