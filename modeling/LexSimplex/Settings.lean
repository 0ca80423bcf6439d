/-!
# Settings

How the rows of a tableau are stored. No setting has an influence on what is computed.
-/

namespace LexSimplex

/-- Which storage new rows get. -/
inductive StorageChoice where
  /-- Chosen for each row from the number of terms it is expected to hold. -/
  | automatic
  | dense
  | hashed
deriving DecidableEq

namespace StorageChoice

/-- The name of a choice. -/
def name : StorageChoice → String
  | automatic => "automatic"
  | dense => "dense"
  | hashed => "hashed"

end StorageChoice

/-- The settings of a solver. -/
structure Settings where
  storage : StorageChoice := .automatic
  /-- Rows expected to hold at least this many terms are hashed under the automatic choice. -/
  hashedStorageWidth : Nat := 32
  /-- From this many entries on, the dense storage searches by bisection. -/
  denseSearchThreshold : Nat := 16
  /-- The capacity of a new row that is expected to hold fewer terms. -/
  initialRowCapacity : Nat := 8
deriving DecidableEq

namespace Settings

/-- The number of terms a new row has room for. -/
def capacity (settings : Settings) (width : Nat) : Nat :=
  max width settings.initialRowCapacity

/-- Whether a row expected to hold `width` terms is hashed. -/
def usesHashed (settings : Settings) (width : Nat) : Bool :=
  match settings.storage with
  | .automatic => settings.hashedStorageWidth ≤ width
  | .dense => false
  | .hashed => true

end Settings

end LexSimplex
