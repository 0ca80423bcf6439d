import LexSimplex.Error

/-!
# The registry of variables

A registry owns the records of all variables of a session. Numbers of released variables are kept on
a stack and handed out again, most recently released first, so that the numbers in use stay small.
Each number counts its releases, which is how a stale handle is told from a valid one. A number is
the position of its slot, whatever its size; `Registry.Narrow` has the registry whose numbers are cut
to 32 bits, which is the same up to `2 ^ 32` slots.
-/

namespace LexSimplex

/-- What is known about one variable. -/
structure Record (α : Type) where
  /-- Used in texts only. -/
  name : String
  kind : VariableKind
  /-- The value stored when the solver was last resolved. -/
  value : α
  /-- The row that defines the variable, if it is basic. -/
  definition : Option RowId
  /-- The levels at which an error variable is penalised. -/
  strength : Option (StrengthVector α)
deriving DecidableEq

/-- A number with its current variable, if it has one. -/
structure Slot (α : Type) where
  /-- How often the number was released, modulo `2 ^ 32`. -/
  generation : UInt32
  record : Option (Record α)
deriving DecidableEq

/-- The variables of a session. -/
structure Registry (α : Type) where
  session : SessionId
  slots : Array (Slot α)
  /-- Released numbers, the most recent first. -/
  free : List VariableId
  /-- The number of live variables. -/
  live : Nat
deriving DecidableEq

namespace Registry

section Plain

variable {α : Type}

/-- The registry of a new session. -/
def start (session : SessionId) : Registry α := ⟨session, #[], [], 0⟩

/-- The record of a live identifier. -/
def get? (r : Registry α) (id : VariableId) : Option (Record α) :=
  r.slots[id.index]?.bind Slot.record

/-- The record of an identifier that has to be live. -/
def record (r : Registry α) (id : VariableId) : Except AccessFault (Record α) :=
  match r.slots[id.index]? with
  | none => .error .outOfBounds
  | some slot =>
      match slot.record with
      | some record => .ok record
      | none => .error (.notLive id)

/-- The kind of an identifier that has to be live. -/
def kind (r : Registry α) (id : VariableId) : Except AccessFault VariableKind :=
  return (← r.record id).kind

/-- The first variable of a list whose kind passes a test; all before it have to be live. -/
def firstOfKind {β : Type} (r : Registry α) (test : VariableKind → Bool) :
    List (VariableId × β) → Except AccessFault (Option VariableId)
  | [] => .ok none
  | (id, _) :: rest => do
      if test (← r.kind id) then return some id
      else r.firstOfKind test rest

/-- Replace the record of a slot and leave its generation as it is. -/
def setRecord (r : Registry α) (id : VariableId) (record : Record α) : Registry α :=
  { r with slots := r.slots.modify id.index fun slot => { slot with record := some record } }

/-- Note by which row a live variable is defined. -/
def setDefinition (r : Registry α) (id : VariableId) (definition : Option RowId) :
    Except AccessFault (Registry α) := do
  let record ← r.record id
  return r.setRecord id { record with definition }

/-- The handle of a live identifier. -/
def handle? (r : Registry α) (id : VariableId) : Option Variable := do
  let slot ← r.slots[id.index]?
  let _ ← slot.record
  return ⟨r.session, id, slot.generation⟩

/-- The number that is handed out next, unless it is new, has to be free. -/
def checkFree (r : Registry α) : Except AccessFault Unit :=
  match r.free with
  | [] => .ok ()
  | id :: _ =>
      match r.slots[id.index]? with
      | none => .error .outOfBounds
      | some slot => if slot.record.isSome then .error (.notFree id) else .ok ()

/-- A variable that is released has to be live, and no row may define it. -/
def checkReleased (r : Registry α) (id : VariableId) : Except AccessFault Unit := do
  let record ← r.record id
  if record.definition.isSome then .error (.defined id) else .ok ()

/-- Give a record the most recently released number, or a new one. -/
def allocate (r : Registry α) (record : Record α) : Variable × Registry α :=
  match r.free with
  | id :: rest =>
      let generation := (r.slots[id.index]?.map Slot.generation).getD 0
      (⟨r.session, id, generation⟩,
        { r.setRecord id record with free := rest, live := r.live + 1 })
  | [] =>
      (⟨r.session, ⟨r.slots.size⟩, 0⟩,
        { r with slots := r.slots.push ⟨0, some record⟩, live := r.live + 1 })

/-- Free the number of a live variable. Nothing happens to a number that is free already. -/
def releaseId (r : Registry α) (id : VariableId) : Registry α :=
  match r.get? id with
  | none => r
  | some _ =>
      { r with
        slots := r.slots.modify id.index fun slot => ⟨slot.generation + 1, none⟩
        free := id :: r.free
        live := r.live - 1 }

/-- Check a handle and give the identifier used inside rows. -/
def resolve (r : Registry α) (v : Variable) : Except SolverError VariableId :=
  if v.session ≠ r.session then .error (.foreignVariable v.id)
  else
    match r.slots[v.id.index]? with
    | some slot =>
        if slot.generation = v.generation && slot.record.isSome then .ok v.id
        else .error (.staleVariable v.id)
    | none => .error (.staleVariable v.id)

/-- Free the number behind a handle. -/
def release (r : Registry α) (v : Variable) : Except SolverError (Registry α) := do
  return r.releaseId (← r.resolve v)

/-- The record behind a handle. -/
def lookup (r : Registry α) (v : Variable) : Except Failure (Record α) := do
  let id ← r.resolve v
  r.record id

/-- The live variables in ascending order. -/
def toList (r : Registry α) : List (VariableId × Record α) :=
  r.slots.toList.zipIdx.filterMap fun (slot, index) =>
    slot.record.map fun record => (⟨index⟩, record)

/-- Change the record of every live variable. -/
def mapRecords (r : Registry α) (f : VariableId → Record α → Record α) : Registry α :=
  { r with slots := r.slots.mapIdx fun index slot =>
      { slot with record := slot.record.map (f ⟨index⟩) } }

/-- The name of a variable for use in texts: its number, if it has no name of its own. -/
def nameOf (r : Registry α) (id : VariableId) : String :=
  match r.get? id with
  | some record => if record.name.isEmpty then toString id else record.name
  | none => toString id

/-- Release all variables and start a new session. -/
def reset (_ : Registry α) (session : SessionId) : Registry α := start session

end Plain

variable {α : Type} [Scalar α]

/-- Create a variable. -/
def create (r : Registry α) (name : String) (kind : VariableKind) : Variable × Registry α :=
  r.allocate ⟨name, kind, 0, none, none⟩

/-- Create an error variable that penalises violations at one level. -/
def createError (r : Registry α) (name : String) (strength : Strength) : Variable × Registry α :=
  r.allocate ⟨name, .error, 0, none, some (.unit strength)⟩

end Registry

end LexSimplex
