import LexSimplex.Tableau.Pivot

/-!
# Pivot loops

Two loops drive a tableau: the primal one improves an objective while all restricted rows stay in
range, the dual one brings rows back into range while the goal stays optimal. Each is a single step
that either halts with a verdict or goes on, and both are iterated in the same way. The number of
steps is limited by an argument, and a loop that reaches the limit says so instead of giving a
verdict.
-/

namespace LexSimplex

/-- The outcome of driving a tableau to a fixed point. -/
inductive Outcome where
  /-- No pivot improves the goal any further. -/
  | optimal
  /-- A row out of range could not be repaired. -/
  | infeasible
  /-- A variable improves the goal and no row limits it. -/
  | unbounded
deriving DecidableEq

namespace Outcome

/-- The name of an outcome. -/
def name : Outcome → String
  | optimal => "Optimal"
  | infeasible => "Infeasible"
  | unbounded => "Unbounded"

end Outcome

/-- Why a pivot loop halted. -/
inductive Verdict where
  | optimal
  /-- This row cannot be brought back into range. -/
  | infeasible (row : RowId)
  /-- The objective improves without limit in the direction of this variable. -/
  | unbounded (entering : VariableId)
deriving DecidableEq

namespace Verdict

/-- The outcome a verdict stands for. -/
def outcome : Verdict → Outcome
  | optimal => .optimal
  | infeasible _ => .infeasible
  | unbounded _ => .unbounded

end Verdict

/-- One step of a loop over states of type `σ`. -/
inductive Step (σ : Type) where
  | halt (state : σ) (verdict : Verdict)
  | proceed (state : σ) (exchange : Option Exchange)

/-- A finished loop: where it ended, the pivots on the way and the verdict. -/
structure Course (σ : Type) where
  final : σ
  exchanges : List Exchange
  verdict : Verdict

/-- Repeat a step until it halts, at most `limit` times. The pivots made before it are given, the last
one first. -/
def iterateAfter {σ : Type} (step : σ → Except Failure (Step σ)) :
    (limit : Nat) → (made : List Exchange) → σ → Except Failure (Course σ)
  | 0, _, _ => .error .outOfSteps
  | limit + 1, made, state => do
      match ← step state with
      | .halt final verdict => return ⟨final, made.reverse, verdict⟩
      | .proceed next exchange => iterateAfter step limit (exchange.toList ++ made) next

/-- Repeat a step until it halts, at most `limit` times. -/
def iterate {σ : Type} (step : σ → Except Failure (Step σ)) (limit : Nat) (state : σ) :
    Except Failure (Course σ) :=
  iterateAfter step limit [] state

section Unfolding

variable {σ : Type} (step : σ → Except Failure (Step σ)) (limit : Nat) (state : σ)

/-- Pivots made before are a prefix of those reported. -/
theorem iterateAfter_eq (made : List Exchange) :
    iterateAfter step limit made state = do
      let course ← iterate step limit state
      return { course with exchanges := made.reverse ++ course.exchanges } := by
  unfold iterate
  induction limit generalizing made state with
  | zero => rfl
  | succ limit ih =>
      unfold iterateAfter
      cases step state with
      | error failure => rfl
      | ok now =>
          cases now with
          | halt final verdict =>
              show Except.ok _ = Except.ok _
              rw [List.reverse_nil, List.append_nil]
          | proceed next exchange =>
              show iterateAfter step limit (exchange.toList ++ made) next =
                (iterateAfter step limit (exchange.toList ++ []) next >>= fun course => _)
              rw [ih next (exchange.toList ++ made), ih next (exchange.toList ++ [])]
              cases iterateAfter step limit [] next with
              | error failure => rfl
              | ok course =>
                  show Except.ok _ = Except.ok _
                  simp only [List.append_nil, List.reverse_append, List.append_assoc]

/-- The first step of a loop. -/
theorem iterate_succ : iterate step (limit + 1) state = do
    match ← step state with
    | .halt final verdict => return ⟨final, [], verdict⟩
    | .proceed next exchange =>
        let course ← iterate step limit next
        return { course with exchanges := exchange.toList ++ course.exchanges } := by
  show iterateAfter step (limit + 1) [] state = _
  unfold iterateAfter
  cases step state with
  | error failure => rfl
  | ok now =>
      cases now with
      | halt final verdict => rfl
      | proceed next exchange =>
          show iterateAfter step limit (exchange.toList ++ []) next = _
          rw [iterateAfter_eq]
          cases exchange <;> rfl

end Unfolding

/-- Which objective the primal loop minimises. -/
inductive Objective where
  /-- The goal of the soft constraints. -/
  | main
  /-- The value of the artificial variable. -/
  | artificial
deriving DecidableEq

namespace Tableau

variable {S α : Type} [Scalar α] [RowStore S α]

/-- The objective to minimise. -/
def objective (t : Tableau S α) : Objective → Except SolverError (Goal α)
  | .main => .ok t.goal
  | .artificial =>
      match t.artificial with
      | some goal => .ok goal
      | none => .error (.inconsistent .noArtificialObjective)

/-- Bring a variable that improves the objective into the basis. -/
def primalStep (objective : Objective) (t : Tableau S α) :
    Except Failure (Step (Tableau S α)) := do
  let goal ← t.objective objective
  match ← goal.pivotColumn t.registry with
  | none => return .halt t .optimal
  | some entering =>
      match ← t.leavingRow entering with
      | none => return .halt t (.unbounded entering)
      | some id =>
          let (next, exchange) ← t.pivot entering id
          return .proceed next (some exchange)

/-- Minimise an objective. -/
def optimize (t : Tableau S α) (objective : Objective) (limit : Nat) :
    Except Failure (Course (Tableau S α)) :=
  iterate (primalStep objective) limit t

/-- The variable to bring into the basis through a row that is out of range. Only a negative value
can be repaired by letting another variable grow. -/
def repairEntering (t : Tableau S α) (row : Row S α) : Except AccessFault (Option VariableId) :=
  if row.constant < 0 then t.goal.dualEntering row t.registry else .ok none

/-- Bring a row that was taken from the queue back into range. A row that was repaired or dropped in
the meantime is skipped; one that cannot be repaired is queued again. -/
def repairStep (t : Tableau S α) (id : RowId) : Except Failure (Step (Tableau S α)) :=
  match t.row? id with
  | none => return .proceed t none
  | some row => do
      if ← t.isInfeasible row then
        match ← t.repairEntering row with
        | some entering =>
            let (next, exchange) ← t.pivot entering id
            return .proceed next (some exchange)
        | none =>
            return .halt { t with infeasible := t.infeasible.push id } (.infeasible id)
      else
        return .proceed t none

/-- Take the oldest queued row and bring it back into range. -/
def dualStep (t : Tableau S α) : Except Failure (Step (Tableau S α)) :=
  match t.infeasible.pop with
  | none => return .halt t .optimal
  | some (id, rest) => repairStep { t with infeasible := rest } id

/-- Bring the queued rows back into range. -/
def dualOptimize (t : Tableau S α) (limit : Nat) : Except Failure (Course (Tableau S α)) :=
  iterate dualStep limit t

end Tableau

end LexSimplex
