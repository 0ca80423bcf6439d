import LexSimplex.Variable

/-!
# Worklists of rows

A first-in, first-out queue in which no row stands twice: a row that is queued already keeps its
place. It stands for the queue of the library `fifo-set`, of which only this much is assumed: `push`
appends a value unless it is queued, and `pop` takes the value that was queued first.
-/

namespace LexSimplex

/-- Rows waiting to be looked at, the oldest first. -/
structure Worklist where
  rows : List RowId
deriving DecidableEq

namespace Worklist

/-- The queue without rows. -/
def empty : Worklist := ⟨[]⟩

/-- Append a row unless it is queued already. -/
def push (w : Worklist) (id : RowId) : Worklist :=
  if id ∈ w.rows then w else ⟨w.rows ++ [id]⟩

/-- Take the oldest row. -/
def pop (w : Worklist) : Option (RowId × Worklist) :=
  match w.rows with
  | [] => none
  | id :: rest => some (id, ⟨rest⟩)

end Worklist

end LexSimplex
