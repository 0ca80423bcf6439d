import LexSimplex.Registry

/-!
# Numbers of 32 bits

Inside the solver a variable is numbered by a natural number. A handle has room for 32 bits of it:
the number of a new slot is its position cut to 32 bits, so that a registry with more slots than that
hands out a number again which is in use. This module holds the registry with such numbers. What it
reads and writes it finds by position, as the registry with natural numbers does (`widen`), and the
two differ only where a number is cut.
-/

namespace LexSimplex

/-- The number of a variable in 32 bits. -/
structure NarrowId where
  word : UInt32
deriving DecidableEq

namespace NarrowId

/-- The number for the slot at a position, of which 32 bits are kept. -/
def ofPosition (position : Nat) : NarrowId := ⟨.ofNat position⟩

/-- The position of the slot with this number. -/
def index (id : NarrowId) : Nat := id.word.toNat

/-- The same number as a natural number. -/
def widen (id : NarrowId) : VariableId := ⟨id.index⟩

end NarrowId

instance : ToString NarrowId where
  toString id := toString id.widen

/-- The handle of a variable with a number of 32 bits. -/
structure NarrowHandle where
  session : SessionId
  id : NarrowId
  /-- How often the number had been released when the handle was made. -/
  generation : UInt32
deriving DecidableEq

instance : ToString NarrowHandle where
  toString v := toString v.id

/-- The same handle with a natural number. -/
def NarrowHandle.widen (v : NarrowHandle) : Variable := ⟨v.session, v.id.widen, v.generation⟩

/-- The variables of a session, with numbers of 32 bits. -/
structure NarrowRegistry (α : Type) where
  session : SessionId
  slots : Array (Slot α)
  /-- Released numbers, the most recent first. -/
  free : List NarrowId
  /-- The number of live variables. -/
  live : Nat

namespace NarrowRegistry

section Plain

variable {α : Type}

/-- The same registry with natural numbers. -/
def widen (r : NarrowRegistry α) : Registry α :=
  ⟨r.session, r.slots, r.free.map NarrowId.widen, r.live⟩

/-- The registry of a new session. -/
def start (session : SessionId) : NarrowRegistry α := ⟨session, #[], [], 0⟩

/-- How often a number was released. -/
def generation? (r : NarrowRegistry α) (id : NarrowId) : Option UInt32 :=
  r.slots[id.index]?.map Slot.generation

/-- The record of a live identifier. -/
def get? (r : NarrowRegistry α) (id : NarrowId) : Option (Record α) := r.widen.get? id.widen

/-- The record of an identifier that has to be live. -/
def record (r : NarrowRegistry α) (id : NarrowId) : Except AccessFault (Record α) :=
  r.widen.record id.widen

/-- The handle that a number has now. -/
def stamp (r : NarrowRegistry α) (id : NarrowId) : NarrowHandle :=
  ⟨r.session, id, (r.generation? id).getD 0⟩

/-- The handle of a live identifier. -/
def handle? (r : NarrowRegistry α) (id : NarrowId) : Option NarrowHandle :=
  (r.get? id).map fun _ => r.stamp id

/-- Give a record the most recently released number, or that of a new slot. -/
def allocate (r : NarrowRegistry α) (record : Record α) : NarrowHandle × NarrowRegistry α :=
  match r.free with
  | id :: rest =>
      let next := { r with
        slots := r.slots.modify id.index fun slot => { slot with record := some record }
        free := rest
        live := r.live + 1 }
      (next.stamp id, next)
  | [] =>
      let id := NarrowId.ofPosition r.slots.size
      let next := { r with slots := r.slots.push ⟨0, some record⟩, live := r.live + 1 }
      (next.stamp id, next)

/-- Free the number of a live variable. Nothing happens to a number that is free already. -/
def releaseId (r : NarrowRegistry α) (id : NarrowId) : NarrowRegistry α :=
  match r.get? id with
  | none => r
  | some _ =>
      { r with
        slots := r.slots.modify id.index fun slot => ⟨slot.generation + 1, none⟩
        free := id :: r.free
        live := r.live - 1 }

/-- Check a handle and give its identifier. -/
def resolve (r : NarrowRegistry α) (v : NarrowHandle) : Except SolverError NarrowId :=
  if v.session ≠ r.session then .error (.foreignVariable v.id.widen)
  else
    match r.slots[v.id.index]? with
    | some slot =>
        if slot.generation = v.generation && slot.record.isSome then .ok v.id
        else .error (.staleVariable v.id.widen)
    | none => .error (.staleVariable v.id.widen)

/-- Free the number behind a handle. -/
def release (r : NarrowRegistry α) (v : NarrowHandle) : Except SolverError (NarrowRegistry α) := do
  return r.releaseId (← r.resolve v)

/-- The record behind a handle. -/
def lookup (r : NarrowRegistry α) (v : NarrowHandle) : Except Failure (Record α) := do
  let id ← r.resolve v
  r.record id

/-- Release all variables and start a new session. -/
def reset (_ : NarrowRegistry α) (session : SessionId) : NarrowRegistry α := start session

end Plain

variable {α : Type} [Scalar α]

/-- Create a variable. -/
def create (r : NarrowRegistry α) (name : String) (kind : VariableKind) :
    NarrowHandle × NarrowRegistry α :=
  r.allocate ⟨name, kind, 0, none, none⟩

/-- Create an error variable that penalises violations at one level. -/
def createError (r : NarrowRegistry α) (name : String) (strength : Strength) :
    NarrowHandle × NarrowRegistry α :=
  r.allocate ⟨name, .error, 0, none, some (.unit strength)⟩

end NarrowRegistry

end LexSimplex
