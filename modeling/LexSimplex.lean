import LexSimplex.Meaning
import LexSimplex.Pool
import LexSimplex.Solver.Run
import LexSimplex.Storage
import LexSimplex.Proofs.Exact.Operations
import LexSimplex.Proofs.Exact.Subjects
import LexSimplex.Proofs.Exact.Optimum
import LexSimplex.Proofs.Exact.Tags
import LexSimplex.Proofs.Rows
import LexSimplex.Proofs.Transfer.Calls
import LexSimplex.Proofs.Storage.Represents
import LexSimplex.Proofs.Storage.Dense
import LexSimplex.Proofs.Storage.Hashed.Buckets
import LexSimplex.Proofs.Storage.Hashed.Chain
import LexSimplex.Proofs.Storage.Hashed
import LexSimplex.Proofs.Storage.Agreement
import LexSimplex.Proofs.Storage.Hashed.Strict
import LexSimplex.Proofs.History
import LexSimplex.Proofs.Transfer.Exact
import LexSimplex.Proofs.Solutions
import LexSimplex.Proofs.ReducedForm
import LexSimplex.Proofs.Rejection
import LexSimplex.Proofs.Frame
import LexSimplex.Proofs.Loops
import LexSimplex.Proofs.Exact.Cycling
import LexSimplex.Proofs.Termination
import LexSimplex.Proofs.Handles
import LexSimplex.Proofs.Transfer.Walks
import LexSimplex.Proofs.Transfer.Likeness
import LexSimplex.Proofs.Transfer.Sessions
import LexSimplex.Proofs.Transfer.SessionCalls
import LexSimplex.Proofs.Transcript
import LexSimplex.Proofs.Penalties
import LexSimplex.Proofs.Queue
import LexSimplex.Proofs.Repair
import LexSimplex.Proofs.Safety
import LexSimplex.Proofs.Complementarity
import LexSimplex.Proofs.Inventory
import LexSimplex.Proofs.Amount
import LexSimplex.Proofs.Ledger
import LexSimplex.Proofs.Transfer.Forms
import LexSimplex.Proofs.Improvement
import LexSimplex.Proofs.DualRatio
import LexSimplex.Proofs.Restoration
import LexSimplex.Proofs.RoundTrip
import LexSimplex.Proofs.Kinds
import LexSimplex.Proofs.Release
import LexSimplex.Proofs.Borrowing
import LexSimplex.Proofs.LifeCycle
