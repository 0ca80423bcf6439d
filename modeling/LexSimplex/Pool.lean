import LexSimplex.Variable

/-!
# Sessions shared between members

Registries and solvers draw their sessions from one counter, so that the handles of one are
recognised as foreign by every other and by itself after a reset. A pool keeps the counter together
with the members that draw from it.
-/

namespace LexSimplex

/-- Members that draw their sessions from one 32-bit counter, which wraps. -/
structure Pool (σ : Type) where
  nextSession : UInt32
  members : Array σ

namespace Pool

variable {σ : Type}

/-- A pool without members. -/
def empty : Pool σ := ⟨0, #[]⟩

/-- Add a member made with the next session. -/
def join (p : Pool σ) (make : SessionId → σ) : Pool σ :=
  ⟨p.nextSession + 1, p.members.push (make ⟨p.nextSession⟩)⟩

/-- Change a member that starts the next session. -/
def renew (p : Pool σ) (index : Nat) (restart : SessionId → σ → σ) : Pool σ :=
  ⟨p.nextSession + 1, p.members.modify index (restart ⟨p.nextSession⟩)⟩

/-- Change a member. -/
def set (p : Pool σ) (index : Nat) (member : σ) : Pool σ :=
  { p with members := p.members.setIfInBounds index member }

end Pool

end LexSimplex
