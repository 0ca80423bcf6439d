import LexSimplex.Solver.Calls

/-!
# Calls in step

Two solvers may differ in ways that no call looks at.  A `Likeness` says which solvers, and which
failures, are taken to be alike.  Two calls are in step when from solvers that are alike they end
alike: both return related results or both fail alike, and they leave solvers that are alike again
(`SolverM.InStep`).

There is one lemma for each building block of a call, so that a whole call is seen to be in step with
its counterpart by going through it from the first step to the last.
-/

namespace LexSimplex

/-- Which solvers are alike, and which failures.  A failure is like itself. -/
structure Likeness (S T α : Type) where
  solvers : Solver S α → Solver T α → Prop
  failures : Failure → Failure → Prop
  refl : ∀ failure, failures failure failure

namespace SolverM

variable {S T α β γ δ ε : Type} {L : Likeness S T α} {Q : β → γ → Prop} {Q' : δ → ε → Prop}

/-- From solvers that are alike two calls end alike, with results in the relation `Q`. -/
def InStep (L : Likeness S T α) (Q : β → γ → Prop) (x : SolverM S α β) (y : SolverM T α γ) : Prop :=
  ∀ s q, L.solvers s q →
    match x.run s, y.run q with
    | .ok result s', .ok result' q' => Q result result' ∧ L.solvers s' q'
    | .error failure s', .error failure' q' => L.failures failure failure' ∧ L.solvers s' q'
    | _, _ => False

namespace InStep

variable {x : SolverM S α β} {y : SolverM T α γ} {s : Solver S α} {q : Solver T α}

/-- The two ways in which calls in step end. -/
theorem cases (h : InStep L Q x y) (hs : L.solvers s q) :
    (∃ result result' s' q', x.run s = .ok result s' ∧ y.run q = .ok result' q' ∧
      Q result result' ∧ L.solvers s' q') ∨
    ∃ failure failure' s' q', x.run s = .error failure s' ∧ y.run q = .error failure' q' ∧
      L.failures failure failure' ∧ L.solvers s' q' := by
  have hends := h s q hs
  cases hx : x.run s with
  | ok result s' =>
      cases hy : y.run q with
      | ok result' q' =>
          rw [hx, hy] at hends
          exact Or.inl ⟨result, result', s', q', rfl, rfl, hends⟩
      | error failure' q' =>
          rw [hx, hy] at hends
          exact hends.elim
  | error failure s' =>
      cases hy : y.run q with
      | ok result' q' =>
          rw [hx, hy] at hends
          exact hends.elim
      | error failure' q' =>
          rw [hx, hy] at hends
          exact Or.inr ⟨failure, failure', s', q', rfl, rfl, hends⟩

/-- The second parts start from solvers that are alike, with related results of the first parts. -/
theorem bind {k : β → SolverM S α δ} {l : γ → SolverM T α ε} (h : InStep L Q x y)
    (hrest : ∀ result result', Q result result' → InStep L Q' (k result) (l result')) :
    InStep L Q' (x >>= k) (y >>= l) := by
  intro s q hs
  change match EStateM.bind x k s, EStateM.bind y l q with
    | .ok _ _, .ok _ _ => _
    | .error _ _, .error _ _ => _
    | _, _ => False
  unfold EStateM.bind
  rcases h.cases hs with ⟨result, result', s', q', hx, hy, hresult, hleft⟩ |
    ⟨failure, failure', s', q', hx, hy, hends⟩
  · change x s = _ at hx
    change y q = _ at hy
    rw [hx, hy]
    exact hrest result result' hresult s' q' hleft
  · change x s = _ at hx
    change y q = _ at hy
    rw [hx, hy]
    exact hends

theorem tryCatch {handler : Failure → SolverM S α β} {handler' : Failure → SolverM T α γ}
    (h : InStep L Q x y)
    (hcatch : ∀ failure failure', L.failures failure failure' →
      InStep L Q (handler failure) (handler' failure')) :
    InStep L Q (tryCatch x handler) (tryCatch y handler') := by
  intro s q hs
  change match EStateM.tryCatch x handler s, EStateM.tryCatch y handler' q with
    | .ok _ _, .ok _ _ => _
    | .error _ _, .error _ _ => _
    | _, _ => False
  unfold EStateM.tryCatch
  rcases h.cases hs with ⟨result, result', s', q', hx, hy, hends⟩ |
    ⟨failure, failure', s', q', hx, hy, hfailure, hleft⟩
  · change x s = _ at hx
    change y q = _ at hy
    rw [hx, hy]
    exact hends
  · change x s = _ at hx
    change y q = _ at hy
    rw [hx, hy]
    exact hcatch failure failure' hfailure s' q' hleft

end InStep

/-! ## Building blocks -/

theorem inStep_pure {result : β} {result' : γ} (h : Q result result') :
    InStep L Q (pure result : SolverM S α β) (pure result') :=
  fun _ _ hs => ⟨h, hs⟩

theorem inStep_throw {failure failure' : Failure} (h : L.failures failure failure') :
    InStep L Q (throw failure : SolverM S α β) (throw failure') :=
  fun _ _ hs => ⟨h, hs⟩

theorem inStep_refuse (cause : SolverError) :
    InStep L Q (refuse cause : SolverM S α β) (refuse cause) :=
  inStep_throw (L.refl _)

theorem inStep_get : InStep L L.solvers get get := fun _ _ hs => ⟨hs, hs⟩

theorem inStep_modify {h : Solver S α → Solver S α} {h' : Solver T α → Solver T α}
    (hsame : ∀ s q, L.solvers s q → L.solvers (h s) (h' q)) :
    InStep L Eq (modify h : SolverM S α Unit) (modify h') :=
  fun s q hs => ⟨rfl, hsame s q hs⟩

section Lifting

variable {f : β → γ}

theorem inStep_lift {x : Except Failure β} {y : Except Failure γ} (h : y = f <$> x)
    (hQ : ∀ result, x = .ok result → Q result (f result)) :
    InStep L Q (liftM x : SolverM S α β) (liftM y) := by
  subst h
  intro s q hs
  cases x with
  | error failure => exact ⟨L.refl _, hs⟩
  | ok result => exact ⟨hQ result rfl, hs⟩

theorem inStep_lift_access {x : Except AccessFault β} {y : Except AccessFault γ} (h : y = f <$> x)
    (hQ : ∀ result, x = .ok result → Q result (f result)) :
    InStep L Q (liftM x : SolverM S α β) (liftM y) := by
  subst h
  intro s q hs
  cases x with
  | error failure => exact ⟨L.refl _, hs⟩
  | ok result => exact ⟨hQ result rfl, hs⟩

theorem inStep_lift_answer {x : Except SolverError β} {y : Except SolverError γ} (h : y = f <$> x)
    (hQ : ∀ result, x = .ok result → Q result (f result)) :
    InStep L Q (liftM x : SolverM S α β) (liftM y) := by
  subst h
  intro s q hs
  cases x with
  | error failure => exact ⟨L.refl _, hs⟩
  | ok result => exact ⟨hQ result rfl, hs⟩

end Lifting

/-- Both calls look up the same record, or whatever else does not depend on the solver. -/
theorem inStep_same_access (x : Except AccessFault β) :
    InStep L Eq (liftM x : SolverM S α β) (liftM x) :=
  inStep_lift_access (f := id) (id_map x).symm fun _ _ => rfl

theorem inStep_same_answer (x : Except SolverError β) :
    InStep L Eq (liftM x : SolverM S α β) (liftM x) :=
  inStep_lift_answer (f := id) (id_map x).symm fun _ _ => rfl

theorem inStep_ite {c : Prop} [Decidable c] {x x' : SolverM S α β} {y y' : SolverM T α γ}
    (h : InStep L Q x y) (h' : InStep L Q x' y') :
    InStep L Q (if c then x else x') (if c then y else y') := by
  by_cases hc : c
  · rw [if_pos hc, if_pos hc]
    exact h
  · rw [if_neg hc, if_neg hc]
    exact h'

theorem inStep_forM {ι : Type} {k : ι → SolverM S α Unit} {l : ι → SolverM T α Unit}
    (h : ∀ i, InStep L Eq (k i) (l i)) (xs : List ι) :
    InStep L Eq (xs.forM k) (xs.forM l) := by
  induction xs with
  | nil => exact inStep_pure rfl
  | cons x xs ih => exact (h x).bind fun _ _ _ => ih

theorem inStep_filterM {ι : Type} {p : ι → SolverM S α Bool} {p' : ι → SolverM T α Bool}
    (h : ∀ i, InStep L Eq (p i) (p' i)) (xs : List ι) :
    InStep L Eq (xs.filterM p) (xs.filterM p') := by
  have haux : ∀ (xs kept : List ι),
      InStep L Eq (List.filterAuxM p xs kept) (List.filterAuxM p' xs kept) := by
    intro xs
    induction xs with
    | nil => exact fun kept => inStep_pure rfl
    | cons x xs ih =>
        intro kept
        refine (h x).bind ?_
        rintro chosen _ rfl
        exact ih _
  refine (haux xs []).bind ?_
  rintro kept _ rfl
  exact inStep_pure rfl

end SolverM

end LexSimplex
