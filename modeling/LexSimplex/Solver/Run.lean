import LexSimplex.Solver.Calls

/-!
# Runs

A run is a history of calls on a solver that was started with some settings, each with its answer.
A call that was refused is part of the run, together with the state it left. A call that did not
come back at all, for want of steps or because it demanded the record of a variable that is not
live, ends the run before it.
-/

namespace LexSimplex

/-- A call and its answer. -/
inductive Turn (α : Type) where
  | answered (call : Call α) (reply : Reply α)
  | refused (call : Call α) (cause : SolverError)
deriving DecidableEq

namespace Turn

/-- The call of a turn. -/
def call {α : Type} : Turn α → Call α
  | answered call _ => call
  | refused call _ => call

/-- The variables that stand declared after a turn, each with its kind, given those before it. -/
def declaredAfter {α : Type} (before : List (Variable × DeclaredKind)) :
    Turn α → List (Variable × DeclaredKind)
  | answered (.declare _ kind) (.declared v) => (v, kind) :: before
  | answered (.release v) _ => before.filter fun entry => entry.1 ≠ v
  | answered (.reset _) _ => []
  | _ => before

/-- The variables mentioned by the constraint that a turn offered. A constraint that was turned away
because one of its handles is foreign or stale counts as mentioning none. -/
def mentioned {α : Type} : Turn α → List Variable
  | refused _ (.foreignVariable _) | refused _ (.staleVariable _) => []
  | answered (.add constraint) _ | refused (.add constraint) _ =>
      constraint.expression.terms.map Prod.snd
  | _ => []

end Turn

variable {S α : Type} [Scalar α] [RowStore S α]

/-- The states that a history of calls can lead to. Each call may take its own number of steps. -/
inductive Run (settings : Settings) (session : SessionId) : List (Turn α) → Solver S α → Prop
  | start : Run settings session [] (.start settings session)
  | answered {turns : List (Turn α)} {s next : Solver S α} {call : Call α} {reply : Reply α}
      {limit : Nat} :
      Run settings session turns s → (call.perform limit).run s = .ok reply next →
      Run settings session (turns ++ [.answered call reply]) next
  | refused {turns : List (Turn α)} {s next : Solver S α} {call : Call α} {cause : SolverError}
      {limit : Nat} :
      Run settings session turns s → (call.perform limit).run s = .error (.error cause) next →
      Run settings session (turns ++ [.refused call cause]) next

/-- The variables that a history leaves declared, each with its kind: those handed out since the last
reset and not released since. -/
def declaredIn (turns : List (Turn α)) : List (Variable × DeclaredKind) :=
  turns.foldl Turn.declaredAfter []

/-- Every constraint offered in a history mentions only variables that stand declared at that
time. -/
def OnlyDeclared (turns : List (Turn α)) : Prop :=
  ∀ earlier turn later, turns = earlier ++ turn :: later →
    ∀ v ∈ turn.mentioned, v ∈ (declaredIn earlier).map Prod.fst

end LexSimplex
