import LexSimplex.Proofs.Ends
import LexSimplex.Solver.Run
import LexSimplex.Storage

/-!
# Histories that can be computed

A list of calls is carried out one by one, and the answers are noted as they come (`Solver.play`).
What is noted is a run (`Run.play`), so that every statement about runs can be tried on a list of
calls.  Whether all constraints offered in a history mention declared variables only is checked in
one pass from the front (`onlyDeclared_iff`), with the list of declared variables as its state.

The history of a small layout (`layout`) serves as an instance of the statements about runs.
-/

namespace LexSimplex

section Playing

variable {S α : Type} [Scalar α] [RowStore S α]

/-- Make calls one after the other and note their answers.  A call that does not come back ends the
history before it. -/
def Solver.play (limit : Nat) (s : Solver S α) : List (Call α) → List (Turn α) × Solver S α
  | [] => ([], s)
  | call :: calls =>
      match (call.perform limit).run s with
      | .ok reply next =>
          let (turns, last) := next.play limit calls
          (.answered call reply :: turns, last)
      | .error (.error cause) next =>
          let (turns, last) := next.play limit calls
          (.refused call cause :: turns, last)
      | .error _ _ => ([], s)

/-- Calls made after a run continue it. -/
theorem Run.play {settings : Settings} {session : SessionId} {turns : List (Turn α)}
    {s : Solver S α} (hrun : Run settings session turns s) (limit : Nat) (calls : List (Call α)) :
    Run settings session (turns ++ (s.play limit calls).1) (s.play limit calls).2 := by
  induction calls generalizing turns s with
  | nil =>
      show Run settings session (turns ++ []) s
      rw [List.append_nil]
      exact hrun
  | cons call calls ih =>
      unfold Solver.play
      split
      next reply next hperform =>
        rw [List.append_cons]
        exact ih (hrun.answered hperform)
      next cause next hperform =>
        rw [List.append_cons]
        exact ih (hrun.refused hperform)
      next =>
        show Run settings session (turns ++ []) s
        rw [List.append_nil]
        exact hrun

end Playing

/-! ## Answers -/

namespace SolverM

variable {S α β : Type} {call : SolverM S α β} {s next : Solver S α}
  {answer : Except SolverError β}

/-- A call came back with an answer: a result or the cause of a refusal. -/
def Answers (call : SolverM S α β) (s : Solver S α) (answer : Except SolverError β)
    (next : Solver S α) : Prop :=
  call.run s = match answer with
    | .ok result => .ok result next
    | .error cause => .error (.error cause) next

/-- The answer of a call, if it comes back. -/
def answer? (call : SolverM S α β) (s : Solver S α) : Option (Except SolverError β) :=
  match call.run s with
  | .ok result _ => some (.ok result)
  | .error (.error cause) _ => some (.error cause)
  | .error _ _ => none

/-- The solver that a call leaves. -/
def left (call : SolverM S α β) (s : Solver S α) : Solver S α :=
  match call.run s with
  | .ok _ next | .error _ next => next

/-- The failure of a call, if it fails. -/
def failure? (call : SolverM S α β) (s : Solver S α) : Option Failure :=
  match call.run s with
  | .ok _ _ => none
  | .error failure _ => some failure

theorem answers_left (h : answer? call s = some answer) : Answers call s answer (left call s) := by
  unfold answer? at h
  unfold Answers left
  split at h
  next result last hrun =>
    cases h
    rw [hrun]
  next cause last hrun =>
    cases h
    rw [hrun]
  next => simp at h

theorem run_of_failure? {failure : Failure} (h : failure? call s = some failure) :
    call.run s = .error failure (left call s) := by
  unfold failure? at h
  unfold left
  split at h
  next => cases h
  next cause last hrun =>
    cases h
    rw [hrun]

/-- What holds at the end of a call holds of the solver that it leaves. -/
theorem ends_iff_left {p : Solver S α → Prop} :
    Ends call s (fun _ next => p next) ↔ p (left call s) := by
  unfold Ends left
  cases call.run s <;> rfl

theorem left_discard : left (do let _ ← call) s = left call s := by
  have hleft : Ends call s fun _ next => next = left call s := ends_iff_left.mpr rfl
  have hdiscard : Ends (do let _ ← call) s fun _ next => next = left call s := by
    refine ends_bind.mpr (hleft.mono ?_)
    rintro (failure | x) next hnext <;> exact hnext
  exact (ends_iff_left (p := (· = left call s))).mp hdiscard

/-- Asking for the value of a live variable gives its current value and changes nothing. -/
theorem valueOf_run [Scalar α] [RowStore S α] {v : Variable}
    (hlive : s.tableau.registry.resolve v = .ok v.id) :
    (valueOf v).run s = .ok (s.tableau.value v.id) s := by
  show (liftM (s.tableau.registry.resolve v) >>= fun id =>
    pure (s.tableau.value id) : SolverM S α α).run s = _
  rw [hlive]
  rfl

end SolverM

/-! ## Declared variables -/

section Declared

variable {α : Type}

/-- Whether the constraints offered in a history mention only variables that stand declared, given
those that are declared before it. -/
def offersDeclared (declared : List (Variable × DeclaredKind)) : List (Turn α) → Bool
  | [] => true
  | turn :: turns =>
      (turn.mentioned.all fun v => (declared.map Prod.fst).contains v) &&
        offersDeclared (turn.declaredAfter declared) turns

theorem offersDeclared_iff (declared : List (Variable × DeclaredKind)) (turns : List (Turn α)) :
    offersDeclared declared turns = true ↔
      ∀ earlier turn later, turns = earlier ++ turn :: later → ∀ v ∈ turn.mentioned,
        v ∈ (earlier.foldl Turn.declaredAfter declared).map Prod.fst := by
  induction turns generalizing declared with
  | nil => simp [offersDeclared]
  | cons first turns ih =>
      unfold offersDeclared
      rw [Bool.and_eq_true, ih, List.all_eq_true]
      constructor
      · rintro ⟨hfirst, hrest⟩ earlier turn later hsplit v hv
        cases earlier with
        | nil =>
            rw [List.nil_append, List.cons.injEq] at hsplit
            obtain ⟨rfl, -⟩ := hsplit
            simpa using hfirst v hv
        | cons head earlier =>
            rw [List.cons_append, List.cons.injEq] at hsplit
            obtain ⟨rfl, hsplit⟩ := hsplit
            exact hrest earlier turn later hsplit v hv
      · intro hall
        refine ⟨fun v hv => ?_, fun earlier turn later hsplit v hv => ?_⟩
        · simpa using hall [] first turns rfl v hv
        · exact hall (first :: earlier) turn later (by rw [hsplit, List.cons_append]) v hv

theorem onlyDeclared_iff (turns : List (Turn α)) :
    OnlyDeclared turns ↔ offersDeclared [] turns = true :=
  (offersDeclared_iff [] turns).symm

instance (turns : List (Turn α)) : Decidable (OnlyDeclared turns) :=
  decidable_of_iff _ (onlyDeclared_iff turns).symm

end Declared

/-! ## A small layout -/

/-- The only variable of the small layout. -/
def width : Variable := ⟨⟨0⟩, ⟨0⟩, 0⟩

/-- A width between 0 and 10 that should be 20 if possible.  A width of at least 15 is asked for and
turned down. -/
def layoutCalls : List (Call Rat) :=
  [.declare "width" .unrestricted,
    .add (.required ⟨0, [(1, width)]⟩ .greaterOrEqual),
    .add (.required ⟨-10, [(1, width)]⟩ .lessOrEqual),
    .add ⟨⟨-20, [(1, width)]⟩, .equal, some .low⟩,
    .add (.required ⟨-15, [(1, width)]⟩ .greaterOrEqual),
    .resolve]

/-- The small layout with default settings. -/
def layout : List (Turn Rat) × Solver (Storage Rat) Rat :=
  (Solver.start {} ⟨0⟩).play 9 layoutCalls

theorem run_layout : Run {} ⟨0⟩ layout.1 layout.2 := Run.start.play 9 layoutCalls

theorem onlyDeclared_layout : OnlyDeclared layout.1 := by decide +kernel

end LexSimplex
