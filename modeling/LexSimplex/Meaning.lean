import LexSimplex.Tableau.Lowering

/-!
# What rows, objectives and constraints say

Expressions, rows and objectives are syntax; an assignment of scalars to variables gives them a
value. On this reading

* a row holds when its basic variable has the value of its right-hand side;
* a constraint holds when its expression stands in its relation to zero, and otherwise it is
  violated by the distance to doing so;
* an assignment is admissible when it satisfies the required constraints and the ranges of the
  declared variables;
* an accepted constraint stands for one equation, in which its own variables take up the slack and
  the error of its expression.
-/

namespace LexSimplex

/-- A scalar for every variable. -/
abbrev Assignment (α : Type) := VariableId → α

variable {S α : Type} [Scalar α] [RowStore S α]

/-- The value of an expression. -/
def Expression.eval (e : Expression α) (a : Assignment α) : α :=
  e.terms.foldr (fun term sum => term.1 * a term.2.id + sum) e.constant

/-- The total coefficient of a variable in an expression, over all terms that mention it. -/
def Expression.netCoefficient (e : Expression α) (id : VariableId) : α :=
  e.terms.foldr (fun term sum => if term.2.id = id then term.1 + sum else sum) 0

namespace Constraint

/-- Whether a constraint holds. -/
def Holds (c : Constraint α) (a : Assignment α) : Prop :=
  match c.relation with
  | .equal => c.expression.eval a = 0
  | .lessOrEqual => c.expression.eval a ≤ 0
  | .greaterOrEqual => 0 ≤ c.expression.eval a

/-- The part of a scalar above zero. -/
def excess (x : α) : α := if 0 < x then x else 0

/-- By how much a constraint is violated. -/
def violation (c : Constraint α) (a : Assignment α) : α :=
  let x := c.expression.eval a
  match c.relation with
  | .equal => if x < 0 then -x else x
  | .lessOrEqual => excess x
  | .greaterOrEqual => excess (-x)

/-- Whether the expression of some constraint depends on a variable. -/
def DependOn (constraints : List (Constraint α)) (v : VariableId) : Prop :=
  ∃ c ∈ constraints, c.expression.netCoefficient v ≠ 0

/-- By how much the soft constraints of each strength are violated in total. -/
def violations (constraints : List (Constraint α)) (a : Assignment α) : StrengthVector α :=
  .ofFn fun level => constraints.foldr
    (fun c sum => if c.strength = some level then c.violation a + sum else sum) 0

end Constraint

namespace Row

/-- The value of the right-hand side. -/
def eval (row : Row S α) (a : Assignment α) : α :=
  row.entries.foldr (fun entry sum => entry.2 * a entry.1 + sum) row.constant

/-- Whether the left-hand side, zero without a basic variable, has the value of the right-hand
side. -/
def Holds (row : Row S α) (a : Assignment α) : Prop :=
  match row.basic with
  | some basic => a basic = row.eval a
  | none => 0 = row.eval a

end Row

/-- The value of an objective at every level. -/
def Goal.eval (g : Goal α) (a : Assignment α) : StrengthVector α :=
  g.terms.toList.foldr (fun entry sum => sum.addMultiple entry.2 (a entry.1)) g.constant

/-- Whether a variable of this kind may have this value. -/
def VariableKind.Allows (kind : VariableKind) (x : α) : Prop :=
  match kind with
  | .unrestricted => True
  | .constant => x = 0
  | _ => 0 ≤ x

/-- Whether an assignment satisfies the required constraints of a list and gives the declared
variables values that their kinds allow. -/
structure Admissible (constraints : List (Constraint α))
    (declared : List (Variable × DeclaredKind)) (a : Assignment α) : Prop where
  required : ∀ c ∈ constraints, c.strength = none → c.Holds a
  allowed : ∀ entry ∈ declared, entry.2.toKind.Allows (a entry.1.id)

namespace Tag

/-- The value of the second variable of a constraint, zero without one. -/
def partnerValue (tag : Tag α) (a : Assignment α) : α :=
  match tag.partner with
  | some partner => a partner
  | none => 0

/-- The expression of a constraint with its own variables added, which an accepted constraint sets
equal to zero. -/
def residual (tag : Tag α) (a : Assignment α) : α :=
  let x := tag.constraint.expression.eval a
  match tag.constraint.relation, tag.partner with
  | .equal, none => x + a tag.marker
  | .equal, some minus => x - a tag.marker + a minus
  | .lessOrEqual, _ => x + a tag.marker - tag.partnerValue a
  | .greaterOrEqual, _ => x - a tag.marker + tag.partnerValue a

/-- Whether the equation of an accepted constraint holds. -/
def Holds (tag : Tag α) (a : Assignment α) : Prop := tag.residual a = 0

end Tag

/-- Whether every row of a tableau holds. -/
def Tableau.Holds (t : Tableau S α) (a : Assignment α) : Prop :=
  ∀ entry ∈ t.rowList, entry.2.Holds a

end LexSimplex
