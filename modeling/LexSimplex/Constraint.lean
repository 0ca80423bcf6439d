import LexSimplex.Amount
import LexSimplex.Variable

/-!
# Constraints

Layout code states relations between variables as `expression relation 0`, where the expression is
affine. The constructors at the end build the shapes that relative layout needs most: a definition,
equality and one-sided bounds with a margin, biased centering and exact ratios.
-/

namespace LexSimplex

/-- How the expression of a constraint relates to zero. -/
inductive Relation where
  | equal
  | lessOrEqual
  | greaterOrEqual
deriving DecidableEq

namespace Relation

/-- The sign of a relation. -/
def text : Relation → String
  | equal => "="
  | lessOrEqual => "<="
  | greaterOrEqual => ">="

end Relation

/-- An affine expression `constant + Σ coefficient · variable`. A variable may occur in several
terms. -/
structure Expression (α : Type) where
  constant : α
  terms : List (α × Variable)
deriving DecidableEq

namespace Expression

/-- Add a term. -/
def plus {α : Type} (e : Expression α) (coefficient : α) (v : Variable) : Expression α :=
  { e with terms := e.terms ++ [(coefficient, v)] }

variable {α : Type} [Scalar α]

/-- Add to the constant. -/
def plusConstant (e : Expression α) (x : α) : Expression α :=
  { e with constant := e.constant + x }

/-- The expression that is a single variable. -/
def ofVariable (v : Variable) : Expression α := ⟨0, [(1, v)]⟩

/-- Whether two expressions have the same constant and the same terms in the same order. -/
def beq (e f : Expression α) : Bool :=
  e.constant == f.constant &&
    e.terms.length == f.terms.length &&
    (e.terms.zip f.terms).all fun (p, q) => p.1 == q.1 && p.2 = q.2

/-- Write an expression. -/
def text (e : Expression α) : String :=
  let terms := e.terms.map fun (coefficient, v) => s!"{Scalar.text coefficient} {v}"
  " + ".intercalate (Scalar.text e.constant :: terms)

end Expression

/-- A relation between variables, required or soft. -/
structure Constraint (α : Type) where
  expression : Expression α
  relation : Relation
  /-- The level at which a violation counts; a required constraint has none. -/
  strength : Option Strength
deriving DecidableEq

namespace Constraint

section Plain

variable {α : Type}

/-- A required constraint. -/
def required (expression : Expression α) (relation : Relation) : Constraint α :=
  ⟨expression, relation, none⟩

/-- The constraint at a strength, or as it is if none is given. -/
def withStrength (c : Constraint α) : Option Strength → Constraint α
  | some strength => { c with strength := some strength }
  | none => c

/-- Whether the constraint has to hold exactly. -/
def isRequired (c : Constraint α) : Bool := c.strength.isNone

end Plain

variable {α : Type} [Scalar α]

/-- Whether two constraints have the same expression, relation and strength. -/
def beq (c d : Constraint α) : Bool :=
  c.expression.beq d.expression && c.relation = d.relation && c.strength = d.strength

/-- Write a constraint. -/
def text (c : Constraint α) : String :=
  let relation := s!"{c.expression.text} {c.relation.text} 0"
  match c.strength with
  | some strength => s!"{relation} ({strength.name})"
  | none => relation

/-- The constraint `basic = constant + Σ coefficient · variable`. -/
def definition (basic : Variable) (constant : α) (terms : List (α × Variable)) : Constraint α :=
  required ((Expression.mk constant terms).plus (-1) basic) .equal

/-- The constraint `a = b + margin`. -/
def equal (a b : Variable) (margin : α) : Constraint α :=
  required ⟨-margin, [(1, a), (-1, b)]⟩ .equal

/-- The constraint `a ≥ b + margin`. -/
def greaterThan (a b : Variable) (margin : α) : Constraint α :=
  required ⟨-margin, [(1, a), (-1, b)]⟩ .greaterOrEqual

/-- The constraint `a ≤ b - margin`. -/
def lowerThan (a b : Variable) (margin : α) : Constraint α :=
  required ⟨margin, [(1, a), (-1, b)]⟩ .lessOrEqual

/-- A span between two anchors with a margin on either side. -/
structure Placement (α : Type) where
  start : Variable
  startAnchor : Variable
  startMargin : α
  bias : α
  stop : Variable
  stopAnchor : Variable
  stopMargin : α
deriving DecidableEq

/-- Divide the free space around a span: the share before it is the bias, kept between zero and
one. -/
def centering (p : Placement α) : Constraint α :=
  let bias := Scalar.clamp 0 1 p.bias
  required
    ⟨-(1 - bias) * p.startMargin + bias * p.stopMargin,
      [(1 - bias, p.start), (-(1 - bias), p.startAnchor), (-bias, p.stopAnchor), (bias, p.stop)]⟩
    .equal

/-- The constraint `a = ratio · b`, multiplied by the denominator of the ratio. -/
def ratio (a b : Variable) (ratio : Amount) : Constraint α :=
  required
    ⟨0, [(Scalar.ofInt ratio.denominator.toInt, a), (-Scalar.ofInt ratio.numerator.toInt, b)]⟩
    .equal

end Constraint

end LexSimplex
