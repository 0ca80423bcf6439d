import LexSimplex.Solver.Calls

/-!
# Loops with a limit

The pivot loops take the number of steps they may make as an argument.  Without a limit a loop either
halts or goes on for ever.  This module relates the two readings:

* `walk` follows a loop for a number of steps; a loop runs out of steps exactly while the walk goes
  on (`iterate_of_walk`), and once the walk has ended the limit does not matter
  (`iterate_of_stopped`);
* a call with a limit comes to the same end for all limits that are large enough, and a limit with
  which it does not run out of steps is large enough (`SolverM.Stabilizes`), because each of its loops
  does;
* a call that fails before the first step of a loop that never halts fails whatever the limit is
  (`SolverM.Persists`).

Nothing is assumed about the scalars or the storage of rows.
-/

namespace LexSimplex

section Walking

variable {σ : Type} {step : σ → Except Failure (Step σ)} {state : σ}

/-- The state after a number of steps of a loop, if it goes on for as long. -/
def walk (step : σ → Except Failure (Step σ)) : Nat → σ → Option σ
  | 0, state => some state
  | count + 1, state =>
      match step state with
      | .ok (.proceed next _) => walk step count next
      | _ => none

theorem walk_succ (count : Nat) (state : σ) : walk step (count + 1) state =
    match step state with
    | .ok (.proceed next _) => walk step count next
    | _ => none := rfl

theorem walk_add (first second : Nat) (state : σ) :
    walk step (first + second) state = (walk step first state).bind (walk step second) := by
  induction first generalizing state with
  | zero => rw [Nat.zero_add]; rfl
  | succ first ih =>
      rw [Nat.succ_add, walk_succ, walk_succ]
      split
      · exact ih _
      · rfl

theorem step_of_walk_one {next : σ} (h : walk step 1 state = some next) :
    ∃ exchange, step state = .ok (.proceed next exchange) := by
  rw [walk_succ] at h
  split at h
  next reached exchange hstep =>
    cases h
    exact ⟨exchange, hstep⟩
  next => cases h

/-- A walk that has gone on for a number of steps has gone on for fewer. -/
theorem walk_isSome_of_le {count later : Nat} (h : (walk step later state).isSome)
    (hle : count ≤ later) : (walk step count state).isSome := by
  obtain ⟨more, rfl⟩ := Nat.exists_eq_add_of_le hle
  rw [walk_add] at h
  exact Option.isSome_of_isSome_bind h

/-- A loop that comes back to where it started goes on for ever. -/
theorem walk_isSome_of_returns {period : Nat} (hperiod : 0 < period)
    (h : walk step period state = some state) (count : Nat) : (walk step count state).isSome := by
  have hrounds : ∀ rounds, walk step (rounds * period) state = some state := by
    intro rounds
    induction rounds with
    | zero => rw [Nat.zero_mul]; rfl
    | succ rounds ih => rw [Nat.succ_mul, walk_add, ih, Option.bind_some, h]
  have hgoes : (walk step (count * period) state).isSome := by rw [hrounds]; rfl
  exact walk_isSome_of_le hgoes (Nat.le_mul_of_pos_right count hperiod)

/-- While the walk goes on, a loop runs out of steps. -/
theorem iterate_of_walk {limit : Nat} (h : (walk step limit state).isSome) :
    iterate step limit state = .error .outOfSteps := by
  induction limit generalizing state with
  | zero => rfl
  | succ limit ih =>
      rw [walk_succ] at h
      rw [iterate_succ]
      split at h
      next next exchange hstep =>
        rw [hstep]
        show (iterate step limit next >>= fun course =>
          pure { course with exchanges := exchange.toList ++ course.exchanges }) = _
        rw [ih h]
        rfl
      next => simp at h

/-- Once the walk has ended, more steps make no difference. -/
theorem iterate_of_stopped {count limit : Nat} (h : walk step count state = none)
    (hle : count ≤ limit) : iterate step limit state = iterate step count state := by
  induction count generalizing state limit with
  | zero => simp [walk] at h
  | succ count ih =>
      obtain ⟨more, rfl⟩ : ∃ more, limit = more + 1 := ⟨limit - 1, by omega⟩
      rw [walk_succ] at h
      rw [iterate_succ, iterate_succ]
      cases hstep : step state with
      | error failure => rfl
      | ok made =>
          cases made with
          | halt final verdict => rfl
          | proceed next exchange =>
              rw [hstep] at h
              show (iterate step more next >>= _) = (iterate step count next >>= _)
              rw [ih h (by omega)]

/-- A loop that does not run out of steps comes to the same end with more of them. -/
theorem iterate_of_le {limit more : Nat} (h : iterate step limit state ≠ .error .outOfSteps)
    (hle : limit ≤ more) : iterate step more state = iterate step limit state := by
  refine iterate_of_stopped (Option.eq_none_iff_forall_ne_some.mpr fun next hnext => ?_) hle
  exact h (iterate_of_walk (by rw [hnext]; rfl))

/-- A loop comes to the same end for all limits that are large enough. -/
theorem iterate_eventually (step : σ → Except Failure (Step σ)) (state : σ) :
    ∃ enough, ∀ limit, enough ≤ limit → iterate step limit state = iterate step enough state := by
  by_cases hstops : ∃ count, walk step count state = none
  · -- A loop that halts is not affected by steps it does not make.
    obtain ⟨count, hcount⟩ := hstops
    exact ⟨count, fun limit hle => iterate_of_stopped hcount hle⟩
  · -- A loop that goes on for ever runs out of steps whatever the limit is.
    have hgoes : ∀ count, (walk step count state).isSome := by
      intro count
      rw [Option.isSome_iff_ne_none]
      exact fun hnone => hstops ⟨count, hnone⟩
    refine ⟨0, fun limit _ => ?_⟩
    rw [iterate_of_walk (hgoes limit), iterate_of_walk (hgoes 0)]

end Walking

/-! ## The loops of a tableau -/

namespace Tableau

variable {S α : Type} [Scalar α] [RowStore S α]

/-- Without rows to repair the dual loop halts at once. -/
theorem dualOptimize_settled {t : Tableau S α} (h : t.infeasible = .empty) (limit : Nat) :
    (limit = 0 ∧ t.dualOptimize limit = .error .outOfSteps) ∨
      t.dualOptimize limit = .ok ⟨t, [], .optimal⟩ := by
  cases limit with
  | zero => exact Or.inl ⟨rfl, rfl⟩
  | succ limit =>
      right
      unfold dualOptimize
      rw [iterate_succ]
      have hstep : dualStep t = .ok (.halt t .optimal) := by
        unfold dualStep
        rw [h]
        rfl
      rw [hstep]
      rfl

/-- What is written in a tableau: the variables, the objectives, and for each position the basic
variable, the constant and the terms of its row.  How a row is stored is left out. -/
def contents (t : Tableau S α) :
    Registry α × Goal α × Option (Goal α) ×
      (RowId → Option (Option VariableId × α × List (VariableId × α))) :=
  (t.registry, t.goal, t.artificial,
    fun id => (t.row? id).map fun row => (row.basic, row.constant, row.entries))

/-- The objective that is being minimised, which is that of phase one as long as there is one. -/
def pursued (t : Tableau S α) : Objective := if t.artificial.isSome then .artificial else .main

/-- The primal loop comes to an end after some number of steps. -/
def Halts (t : Tableau S α) (which : Objective) : Prop :=
  ∃ count, walk (primalStep which) count t = none

theorem not_halts {t : Tableau S α} {which : Objective} :
    ¬t.Halts which ↔ ∀ count, (walk (primalStep which) count t).isSome := by
  unfold Halts
  simp only [not_exists, Option.isSome_iff_ne_none, ne_eq]

/-- A primal loop that comes back to where it started does not come to an end. -/
theorem not_halts_of_returns {t : Tableau S α} {which : Objective} {period : Nat}
    (hperiod : 0 < period) (h : walk (primalStep which) period t = some t) : ¬t.Halts which :=
  not_halts.mpr (walk_isSome_of_returns hperiod h)

/-- The primal loop goes on for ever: from some step on it goes through the same tableaus again and
again, and no step changes the value of any variable. -/
def Cycles (t : Tableau S α) (which : Objective) : Prop :=
  ∃ start period, 0 < period ∧ ∀ count, start ≤ count → ∃ here next again,
    walk (primalStep which) count t = some here ∧
    walk (primalStep which) (count + 1) t = some next ∧
    walk (primalStep which) (count + period) t = some again ∧
    again.contents = here.contents ∧ next.value = here.value

end Tableau

/-! ## Calls -/

namespace SolverM

variable {S α β γ : Type}

/-- A call ran out of steps. -/
def RanOut : EStateM.Result Failure (Solver S α) β → Prop
  | .ok _ _ => False
  | .error failure _ => failure = .outOfSteps

/-- A call comes to the same end for all limits that are large enough, and any limit is with which it
does not run out of steps. -/
structure Stabilizes (call : Nat → SolverM S α β) : Prop where
  eventually : ∀ s, ∃ enough, ∀ limit, enough ≤ limit → (call limit).run s = (call enough).run s
  of_le : ∀ s limit more, limit ≤ more → ¬RanOut ((call limit).run s) →
    (call more).run s = (call limit).run s

theorem stabilizes_const (call : SolverM S α β) : Stabilizes fun _ => call where
  eventually _ := ⟨0, fun _ _ => rfl⟩
  of_le _ _ _ _ _ := rfl

theorem stabilizes_iterate {σ : Type} (step : σ → Except Failure (Step σ)) (state : σ) :
    Stabilizes fun limit => (liftM (iterate step limit state) : SolverM S α (Course σ)) where
  eventually s := by
    obtain ⟨enough, henough⟩ := iterate_eventually step state
    refine ⟨enough, fun limit hle => ?_⟩
    show (liftM (iterate step limit state) : SolverM S α (Course σ)).run s = _
    rw [henough limit hle]
  of_le s limit more hle hsteps := by
    have hnot : iterate step limit state ≠ .error .outOfSteps := fun hout => by
      refine hsteps ?_
      show RanOut ((liftM (iterate step limit state) : SolverM S α (Course σ)).run s)
      rw [hout]
      rfl
    show (liftM (iterate step more state) : SolverM S α (Course σ)).run s = _
    rw [iterate_of_le hnot hle]

section Sequencing

variable {first : SolverM S α γ} {rest : γ → SolverM S α β} {s next : Solver S α}

theorem run_bind_of_ok {x : γ} (h : first.run s = .ok x next) :
    (first >>= rest).run s = (rest x).run next := by
  change first s = .ok x next at h
  show EStateM.bind first rest s = _
  unfold EStateM.bind
  rw [h]
  rfl

theorem run_bind_of_error {failure : Failure} (h : first.run s = .error failure next) :
    (first >>= rest).run s = .error failure next := by
  change first s = .error failure next at h
  show EStateM.bind first rest s = _
  unfold EStateM.bind
  rw [h]

variable {call : SolverM S α β} {handler : Failure → SolverM S α β}

theorem run_tryCatch_of_ok {x : β} (h : call.run s = .ok x next) :
    (tryCatch call handler).run s = .ok x next := by
  change call s = .ok x next at h
  show EStateM.tryCatch call handler s = _
  unfold EStateM.tryCatch
  rw [h]

theorem run_tryCatch_of_error {failure : Failure} (h : call.run s = .error failure next) :
    (tryCatch call handler).run s = (handler failure).run next := by
  change call s = .error failure next at h
  show EStateM.tryCatch call handler s = _
  unfold EStateM.tryCatch
  simp only [h]
  rfl

end Sequencing

/-- The second part starts in the same state for all limits that are large enough for the first. -/
theorem Stabilizes.bind {first : Nat → SolverM S α γ} {rest : Nat → γ → SolverM S α β}
    (hfirst : Stabilizes first) (hrest : ∀ x, Stabilizes fun limit => rest limit x) :
    Stabilizes fun limit => first limit >>= rest limit where
  eventually s := by
    obtain ⟨enough, henough⟩ := hfirst.eventually s
    cases hend : (first enough).run s with
    | ok x next =>
        -- From the larger of the two limits on both parts have come to their ends.
        obtain ⟨more, hmore⟩ := (hrest x).eventually next
        have hboth : ∀ limit, max enough more ≤ limit →
            (first limit >>= rest limit).run s = (rest more x).run next := by
          intro limit hle
          rw [run_bind_of_ok ((henough limit (by omega)).trans hend)]
          exact hmore limit (by omega)
        exact ⟨max enough more, fun limit hle => (hboth limit hle).trans
          (hboth _ (Nat.le_refl _)).symm⟩
    | error failure next =>
        have hfails : ∀ limit, enough ≤ limit →
            (first limit >>= rest limit).run s = .error failure next :=
          fun limit hle => run_bind_of_error ((henough limit hle).trans hend)
        exact ⟨enough, fun limit hle => (hfails limit hle).trans (hfails _ (Nat.le_refl _)).symm⟩
  of_le s limit more hle hsteps := by
    change ¬RanOut ((first limit >>= rest limit).run s) at hsteps
    show (first more >>= rest more).run s = (first limit >>= rest limit).run s
    cases hend : (first limit).run s with
    | ok x next =>
        have hmore := (hfirst.of_le s limit more hle (by rw [hend]; exact id)).trans hend
        rw [run_bind_of_ok hend] at hsteps ⊢
        rw [run_bind_of_ok hmore]
        exact (hrest x).of_le next limit more hle hsteps
    | error failure next =>
        rw [run_bind_of_error hend] at hsteps ⊢
        exact run_bind_of_error
          ((hfirst.of_le s limit more hle (by rw [hend]; exact hsteps)).trans hend)

/-- A handler that passes on a want of steps is reached for the same reason. -/
theorem Stabilizes.tryCatch {call : Nat → SolverM S α β} {handler : Failure → SolverM S α β}
    (hcall : Stabilizes call) (hpasses : handler .outOfSteps = throw .outOfSteps) :
    Stabilizes fun limit => tryCatch (call limit) handler where
  eventually s := by
    obtain ⟨enough, henough⟩ := hcall.eventually s
    refine ⟨enough, fun limit hle => ?_⟩
    show (MonadExcept.tryCatch (call limit) handler).run s =
      (MonadExcept.tryCatch (call enough) handler).run s
    cases hend : (call enough).run s with
    | ok x next =>
        rw [run_tryCatch_of_ok ((henough limit hle).trans hend), run_tryCatch_of_ok hend]
    | error failure next =>
        rw [run_tryCatch_of_error ((henough limit hle).trans hend), run_tryCatch_of_error hend]
  of_le s limit more hle hsteps := by
    change ¬RanOut ((MonadExcept.tryCatch (call limit) handler).run s) at hsteps
    show (MonadExcept.tryCatch (call more) handler).run s =
      (MonadExcept.tryCatch (call limit) handler).run s
    cases hend : (call limit).run s with
    | ok x next =>
        have hmore := (hcall.of_le s limit more hle (by rw [hend]; exact id)).trans hend
        rw [run_tryCatch_of_ok hend, run_tryCatch_of_ok hmore]
    | error failure next =>
        rw [run_tryCatch_of_error hend] at hsteps
        have hother : failure ≠ .outOfSteps := by
          rintro rfl
          rw [hpasses] at hsteps
          exact hsteps rfl
        have hmore := (hcall.of_le s limit more hle (by rw [hend]; exact hother)).trans hend
        rw [run_tryCatch_of_error hend, run_tryCatch_of_error hmore]

/-- A call that comes back without a step of a loop does so whatever the limit is. -/
theorem Stabilizes.of_zero {call : Nat → SolverM S α β} (h : Stabilizes call) {s next : Solver S α}
    {x : β} (hrun : (call 0).run s = .ok x next) (limit : Nat) :
    (call limit).run s = .ok x next :=
  (h.of_le s 0 limit (Nat.zero_le limit) (by rw [hrun]; exact id)).trans hrun

/-! ## Failures that no limit prevents -/

section Persisting

variable [Scalar α] [RowStore S α]

/-- A call that fails without a step of a loop fails in the same way whatever the limit is.  If it
fails for want of steps, that is so as long as the loop of phase one does not halt from there. -/
def Persists (call : Nat → SolverM S α β) : Prop :=
  ∀ s failure next, (call 0).run s = .error failure next →
    (failure = .outOfSteps → ¬next.tableau.Halts .artificial) →
      ∀ limit, (call limit).run s = .error failure next

theorem persists_const (call : SolverM S α β) : Persists fun _ => call :=
  fun _ _ _ h _ _ => h

/-- The first part either fails, or it comes back whatever the limit is and the second part fails. -/
theorem Persists.bind {first : Nat → SolverM S α γ} {rest : Nat → γ → SolverM S α β}
    (hfirst : Persists first) (hstable : Stabilizes first)
    (hrest : ∀ x, Persists fun limit => rest limit x) :
    Persists fun limit => first limit >>= rest limit := by
  intro s failure next h hgoes limit
  change (first 0 >>= rest 0).run s = .error failure next at h
  show (first limit >>= rest limit).run s = .error failure next
  cases hbefore : (first 0).run s with
  | error cause middle =>
      rw [run_bind_of_error hbefore] at h
      cases h
      exact run_bind_of_error (hfirst s failure next hbefore hgoes limit)
  | ok x middle =>
      rw [run_bind_of_ok hbefore] at h
      rw [run_bind_of_ok (hstable.of_zero hbefore limit)]
      exact hrest x middle failure next h hgoes limit

/-- A handler that passes on a want of steps meets the same failure whatever the limit is. -/
theorem Persists.tryCatch {call : Nat → SolverM S α β} {handler : Failure → SolverM S α β}
    (hcall : Persists call) (hpasses : handler .outOfSteps = throw .outOfSteps) :
    Persists fun limit => tryCatch (call limit) handler := by
  intro s failure next h hgoes limit
  change (MonadExcept.tryCatch (call 0) handler).run s = .error failure next at h
  show (MonadExcept.tryCatch (call limit) handler).run s = .error failure next
  cases hbefore : (call 0).run s with
  | ok x middle =>
      rw [run_tryCatch_of_ok hbefore] at h
      cases h
  | error cause middle =>
      rw [run_tryCatch_of_error hbefore] at h
      have hmiddle : cause = .outOfSteps → ¬middle.tableau.Halts .artificial := by
        rintro rfl
        rw [hpasses] at h
        cases h
        exact hgoes rfl
      rw [run_tryCatch_of_error (hcall s cause middle hbefore hmiddle limit)]
      exact h

end Persisting

/-! ## The calls of a solver -/

variable [Scalar α] [RowStore S α]

theorem optimize_stabilizes (objective : Objective) :
    Stabilizes fun limit => (optimize objective limit : SolverM S α Outcome) := by
  refine (stabilizes_const _).bind fun _ => (stabilizes_const _).bind fun t => ?_
  exact (stabilizes_iterate _ t).bind fun _ => stabilizes_const _

theorem dualOptimize_stabilizes :
    Stabilizes fun limit => (dualOptimize limit : SolverM S α Outcome) :=
  (stabilizes_const _).bind fun t => (stabilizes_iterate _ t).bind fun _ => stabilizes_const _

theorem reoptimize_stabilizes :
    Stabilizes fun limit => (reoptimize limit : SolverM S α Outcome) :=
  dualOptimize_stabilizes.bind fun _ => (optimize_stabilizes .main).bind fun _ =>
    stabilizes_const _

theorem insertThroughArtificial_stabilizes (row : Row S α) :
    Stabilizes fun limit => (insertThroughArtificial row limit : SolverM S α Unit) := by
  refine (stabilizes_const _).bind fun artificial => (stabilizes_const _).bind fun row => ?_
  refine (stabilizes_const _).bind fun _ => ?_
  exact (optimize_stabilizes .artificial).bind fun _ => stabilizes_const _

theorem enterBasis_stabilizes (row : Row S α) (tag : Tag α) :
    Stabilizes fun limit => (enterBasis row tag limit : SolverM S α Unit) := by
  refine (stabilizes_const _).bind fun t => (stabilizes_const _).bind fun subject => ?_
  cases subject with
  | «variable» entering => exact stabilizes_const _
  | contradiction => exact stabilizes_const _
  | artificial =>
      exact (stabilizes_const _).bind fun _ =>
        (insertThroughArtificial_stabilizes row).tryCatch rfl

theorem resolve_stabilizes : Stabilizes fun limit => (resolve limit : SolverM S α Outcome) :=
  reoptimize_stabilizes.bind fun _ => stabilizes_const _

theorem optimize_persists :
    Persists fun limit => (optimize .artificial limit : SolverM S α Outcome) := by
  intro s failure next h hgoes limit
  cases h
  -- Without steps the loop has not begun, so that the walk starts from the tableau of the call.
  have hout : s.tableau.optimize .artificial limit = .error .outOfSteps :=
    iterate_of_walk (Tableau.not_halts.mp (hgoes rfl) limit)
  show (liftM (s.tableau.optimize .artificial limit) >>= _ : SolverM S α Outcome).run
    { s with state := .optimizing } = _
  rw [hout]
  rfl

theorem insertThroughArtificial_persists (row : Row S α) :
    Persists fun limit => (insertThroughArtificial row limit : SolverM S α Unit) := by
  refine (persists_const _).bind (stabilizes_const _) fun artificial => ?_
  refine (persists_const _).bind (stabilizes_const _) fun row => ?_
  refine (persists_const _).bind (stabilizes_const _) fun _ => ?_
  exact optimize_persists.bind (optimize_stabilizes .artificial) fun _ => persists_const _

theorem enterBasis_persists (row : Row S α) (tag : Tag α) :
    Persists fun limit => (enterBasis row tag limit : SolverM S α Unit) := by
  refine (persists_const _).bind (stabilizes_const _) fun t => ?_
  refine (persists_const _).bind (stabilizes_const _) fun subject => ?_
  cases subject with
  | «variable» entering => exact persists_const _
  | contradiction => exact persists_const _
  | artificial =>
      refine (persists_const _).bind (stabilizes_const _) fun _ => ?_
      exact (insertThroughArtificial_persists row).tryCatch rfl

/-! ## The part of an addition before the goal is optimised -/

/-- Bring the row of a constraint into the basis and keep the constraint under its number. -/
def accept (c : Constraint α) (limit : Nat) : SolverM S α ConstraintNumber := do
  let terms ← resolveTerms (← tableau).registry c.expression.terms
  enter .building
  let number := (← get).nextConstraint
  let (row, tag) ← lower number c terms
  enterBasis row tag limit
  enlist number tag
  count fun counters => { counters with added := counters.added + 1 }
  report [.added number c]
  return number

theorem add_eq_accept (c : Constraint α) (limit : Nat) :
    (add c limit : SolverM S α ConstraintHandle) = do
      let number ← accept c limit
      let _ ← reoptimize limit
      return ⟨(← get).session, number⟩ := by
  unfold add accept
  simp only [bind_assoc, pure_bind]

theorem accept_stabilizes (c : Constraint α) :
    Stabilizes fun limit => (accept c limit : SolverM S α ConstraintNumber) := by
  refine (stabilizes_const _).bind fun t => (stabilizes_const _).bind fun terms => ?_
  refine (stabilizes_const _).bind fun _ => (stabilizes_const _).bind fun s => ?_
  refine (stabilizes_const _).bind fun lowered => ?_
  exact (enterBasis_stabilizes lowered.1 lowered.2).bind fun _ => stabilizes_const _

theorem accept_persists (c : Constraint α) :
    Persists fun limit => (accept c limit : SolverM S α ConstraintNumber) := by
  refine (persists_const _).bind (stabilizes_const _) fun t => ?_
  refine (persists_const _).bind (stabilizes_const _) fun terms => ?_
  refine (persists_const _).bind (stabilizes_const _) fun _ => ?_
  refine (persists_const _).bind (stabilizes_const _) fun s => ?_
  refine (persists_const _).bind (stabilizes_const _) fun lowered => ?_
  exact (enterBasis_persists lowered.1 lowered.2).bind (enterBasis_stabilizes lowered.1 lowered.2)
    fun _ => persists_const _

theorem add_stabilizes (c : Constraint α) :
    Stabilizes fun limit => (add c limit : SolverM S α ConstraintHandle) := by
  simp only [add_eq_accept]
  exact (accept_stabilizes c).bind fun _ => reoptimize_stabilizes.bind fun _ => stabilizes_const _

/-! ## The part of a removal before the goal is optimised -/

/-- Take a constraint and its row out. -/
def withdraw (handle : ConstraintHandle) : SolverM S α Unit := do
  let tag ← (← get).tag handle
  modify fun s => { s with constraints := s.constraints.erase handle.number }
  enter .building
  tag.own.forM removePenalty
  dropMarker handle tag.marker
  tag.own.forM releaseUnreferenced
  count fun counters => { counters with removed := counters.removed + 1 }
  report [.removed handle]

theorem remove_eq_withdraw (handle : ConstraintHandle) (limit : Nat) :
    (remove handle limit : SolverM S α Unit) = do
      withdraw handle
      let _ ← reoptimize limit
      return () := by
  unfold remove withdraw
  simp only [bind_assoc]

theorem remove_stabilizes (handle : ConstraintHandle) :
    Stabilizes fun limit => (remove handle limit : SolverM S α Unit) := by
  simp only [remove_eq_withdraw]
  exact (stabilizes_const _).bind fun _ => reoptimize_stabilizes.bind fun _ => stabilizes_const _

end SolverM

open SolverM in
/-- Every call comes to the same end for all limits that are large enough. -/
theorem Call.perform_stabilizes {S α : Type} [Scalar α] [RowStore S α] (call : Call α) :
    Stabilizes fun limit => (call.perform limit : SolverM S α (Reply α)) := by
  cases call with
  | add c => exact (add_stabilizes c).bind fun _ => stabilizes_const _
  | remove handle => exact (remove_stabilizes handle).bind fun _ => stabilizes_const _
  | resolve => exact resolve_stabilizes.bind fun _ => stabilizes_const _
  | _ => exact stabilizes_const _

/-- What a call does before it optimises the goal.  A call that changes no constraint has nothing to
do then. -/
def Call.opening {S α : Type} [Scalar α] [RowStore S α] (limit : Nat) :
    Call α → SolverM S α Unit
  | add c => do
      let _ ← SolverM.accept c limit
  | remove handle => SolverM.withdraw handle
  | _ => pure ()

end LexSimplex
