import LexSimplex.Proofs.Ends
import LexSimplex.Proofs.Registry

/-!
# Handles

The handles of a call are checked before anything else happens.  The check of a variable fails for a
handle that is foreign or stale (`Registry.resolve_eq_error`), that of an expression for the first
such handle in it (`SolverM.resolveTerms_spec`), and that of a constraint for a handle of another
session or of a constraint that is not present (`SolverM.tag_cases`).

So a call that is refused because of its handles has changed nothing.  The calls that do no more than
to look something up or to release a variable are read here from end to end (`SolverM.Reads`,
`SolverM.release_cases`); the others are refused before they start (`SolverM.add_of_unresolved`,
`SolverM.remove_of_unknown`).

Nothing is assumed about the scalars or the storage of rows.
-/

namespace LexSimplex

/-- The refusals that are due to the handles of a call. -/
def SolverError.isMisuse : SolverError → Bool
  | foreignVariable _ | staleVariable _ | variableInUse _ | unknownConstraint _ => true
  | _ => false

theorem SolverError.ne_unsatisfiable {cause : SolverError} (h : cause.isMisuse = true) :
    cause ≠ .unsatisfiable := by
  rintro rfl
  cases h

/-- A handle that is not current is foreign or stale. -/
theorem Registry.resolve_eq_error {α : Type} {r : Registry α} {v : Variable} {cause : SolverError}
    (h : r.resolve v = .error cause) :
    cause = .foreignVariable v.id ∨ cause = .staleVariable v.id := by
  unfold Registry.resolve at h
  by_cases hsession : v.session ≠ r.session
  · rw [if_pos hsession] at h
    exact Or.inl (Except.error.inj h).symm
  · rw [if_neg hsession] at h
    right
    cases hslot : r.slots[v.id.index]? with
    | none =>
        rw [hslot] at h
        exact (Except.error.inj h).symm
    | some slot =>
        rw [hslot] at h
        simp only at h
        split at h
        · simp at h
        · exact (Except.error.inj h).symm

theorem Registry.isMisuse_of_resolve {α : Type} {r : Registry α} {v : Variable}
    {cause : SolverError} (h : r.resolve v = .error cause) : cause.isMisuse = true := by
  rcases resolve_eq_error h with rfl | rfl <;> rfl

namespace SolverM

/-- The check of the handles succeeds when all are current, and otherwise names one that is not. -/
theorem resolveTerms_spec {α : Type} {r : Registry α} (terms : List (α × Variable)) :
    (resolveTerms r terms = .ok (terms.map fun term => (term.1, term.2.id)) ∧
        ∀ term ∈ terms, r.resolve term.2 = .ok term.2.id) ∨
      ∃ term ∈ terms, ∃ cause, resolveTerms r terms = .error cause ∧
        r.resolve term.2 = .error cause := by
  unfold resolveTerms
  induction terms with
  | nil => exact Or.inl ⟨rfl, by simp⟩
  | cons term rest ih =>
      obtain ⟨x, v⟩ := term
      rw [List.mapM_cons]
      simp only
      cases hresolve : r.resolve v with
      | error cause =>
          exact Or.inr ⟨(x, v), List.mem_cons_self, cause, rfl, hresolve⟩
      | ok id =>
          obtain ⟨-, rfl, -⟩ := Registry.resolve_eq_ok_iff.mp hresolve
          rcases ih with ⟨hrest, hall⟩ | ⟨other, hother, cause, hrest, hcause⟩
          · refine Or.inl ⟨?_, fun other hother => ?_⟩
            · rw [hrest]
              rfl
            · rcases List.mem_cons.mp hother with rfl | hmem
              · exact hresolve
              · exact hall other hmem
          · refine Or.inr ⟨other, List.mem_cons_of_mem _ hother, cause, ?_, hcause⟩
            rw [hrest]
            rfl

theorem isMisuse_of_resolveTerms {α : Type} {r : Registry α} {terms : List (α × Variable)}
    {cause : SolverError} (h : resolveTerms r terms = .error cause) : cause.isMisuse = true := by
  rcases resolveTerms_spec (r := r) terms with ⟨hresolved, -⟩ | ⟨term, -, other, hother, hresolve⟩
  · rw [hresolved] at h
    cases h
  · rw [hother] at h
    cases h
    exact Registry.isMisuse_of_resolve hresolve

variable {S α : Type}

/-- A handle is recognised when it belongs to the session and its number to a constraint. -/
theorem tag_cases (s : Solver S α) (handle : ConstraintHandle) :
    (∃ tag, s.tag handle = .ok tag ∧ handle.session = s.session ∧
      s.constraints.find? handle.number = some tag) ∨
    s.tag handle = .error (.unknownConstraint handle.number) := by
  unfold Solver.tag
  by_cases hsession : handle.session = s.session
  · rw [if_neg (not_not.mpr hsession)]
    cases hfound : s.constraints.find? handle.number with
    | none => exact Or.inr rfl
    | some tag => exact Or.inl ⟨tag, rfl, hsession, rfl⟩
  · exact Or.inr (if_pos hsession)

theorem tag_eq_ok_iff {s : Solver S α} {handle : ConstraintHandle} {tag : Tag α} :
    s.tag handle = .ok tag ↔
      handle.session = s.session ∧ s.constraints.find? handle.number = some tag := by
  constructor
  · intro htag
    rcases tag_cases s handle with ⟨found, hfound, hsession, hnumber⟩ | hunknown
    · rw [htag, Except.ok.injEq] at hfound
      exact ⟨hsession, hfound ▸ hnumber⟩
    · rw [htag] at hunknown
      cases hunknown
  · rintro ⟨hsession, hnumber⟩
    unfold Solver.tag
    rw [if_neg (not_not.mpr hsession), hnumber]

theorem isMisuse_of_tag {s : Solver S α} {handle : ConstraintHandle} {cause : SolverError}
    (h : s.tag handle = .error cause) : cause.isMisuse = true := by
  rcases tag_cases s handle with ⟨tag, hfound, -⟩ | hunknown
  · rw [hfound] at h
    cases h
  · rw [hunknown] at h
    cases h
    rfl

/-! ## Calls that look something up -/

variable {β : Type} {s : Solver S α}

/-- How a call ends that only reads. -/
def Reads (s : Solver S α) : Except Failure β → Solver S α → Prop
  | .ok _, next => next = s
  | .error (.error cause), next => cause.isMisuse = true ∧ next = s
  | .error _, _ => False

theorem Reads.refused {failure : Failure} {next : Solver S α}
    (h : Reads s (.error failure : Except Failure β) next) :
    ∃ cause, failure = .error cause ∧ cause.isMisuse = true ∧ next = s := by
  cases failure with
  | error cause => exact ⟨cause, rfl, h⟩
  | _ => exact h.elim

theorem Reads.unchanged {result : Except Failure β} {next : Solver S α} (h : Reads s result next) :
    next = s := by
  rcases result with failure | x
  · obtain ⟨_, _, _, hsame⟩ := h.refused
    exact hsame
  · exact h

theorem reads_map {γ : Type} {call : SolverM S α β} (h : Ends call s (Reads s)) (f : β → γ) :
    Ends (call >>= fun x => pure (f x)) s (Reads s) := by
  refine ends_bind.mpr (h.mono ?_)
  rintro (failure | x) next hread
  · obtain ⟨cause, rfl, hrefused⟩ := hread.refused
    exact hrefused
  · exact hread

/-- A choice that only reads, made for each element of a list. -/
theorem filterM_reads {ι : Type} {f : ι → SolverM S α Bool} {xs : List ι}
    (hf : ∀ x ∈ xs, Ends (f x) s (Returns fun _ next => next = s)) :
    Ends (xs.filterM f) s (Returns fun _ next => next = s) := by
  have haux : ∀ kept : List ι,
      Ends (List.filterAuxM f xs kept) s (Returns fun _ next => next = s) := by
    induction xs with
    | nil => exact fun kept => rfl
    | cons x xs ih =>
        intro kept
        refine (hf x List.mem_cons_self).bind ?_
        rintro keep next rfl
        exact ih (fun y hy => hf y (List.mem_cons_of_mem _ hy)) _
  refine (haux []).bind ?_
  rintro kept next rfl
  rfl

theorem tag_reads (handle : ConstraintHandle) :
    Ends (liftM (s.tag handle) : SolverM S α (Tag α)) s fun result next =>
      Reads s result next ∧ ∀ tag, result = .ok tag → s.tag handle = .ok tag := by
  rcases tag_cases s handle with ⟨tag, hfound, -⟩ | hunknown
  · rw [hfound]
    exact ⟨rfl, fun other hother => by cases hother; rfl⟩
  · rw [hunknown]
    exact ⟨⟨rfl, rfl⟩, by simp⟩

theorem strengthOf_reads (handle : ConstraintHandle) :
    Ends (strengthOf handle) s (Reads s) := by
  unfold strengthOf
  simp only [ends_bind, ends_get]
  refine (tag_reads handle).mono ?_
  rintro (failure | tag) next ⟨hread, -⟩
  · cases failure <;> exact hread
  · exact hread

/-- The error variables of a constraint can be asked for if the variables it brought are live. -/
theorem errorVariables_reads {handle : ConstraintHandle}
    (hlive : ∀ tag, s.tag handle = .ok tag → ∀ v ∈ tag.own,
      (s.tableau.registry.get? v).isSome) :
    Ends (errorVariables handle) s (Reads s) := by
  unfold errorVariables
  simp only [ends_bind, ends_get]
  refine (tag_reads handle).mono ?_
  rintro (failure | tag) next ⟨hread, htag⟩
  · cases failure <;> exact hread
  · obtain rfl : next = s := hread
    refine (filterM_reads fun v hv => ?_).of_returns fun _ last hlast => hlast
    obtain ⟨record, hrecord⟩ := Option.isSome_iff_exists.mp (hlive tag (htag tag rfl) v hv)
    simp only [ends_bind]
    rw [Registry.kind_eq_ok hrecord]
    rfl

section Scalars

variable [Scalar α]

/-- A handle that is current is answered with the value of its variable. -/
theorem valueOf_ends (v : Variable) :
    Ends (valueOf v) s fun result next => Reads s result next ∧
      ∀ x, result = .ok x → x = s.tableau.value v.id := by
  unfold valueOf
  simp only [ends_bind, ends_tableau]
  cases hresolve : s.tableau.registry.resolve v with
  | error cause => exact ⟨⟨Registry.isMisuse_of_resolve hresolve, rfl⟩, by simp⟩
  | ok id =>
      obtain ⟨-, rfl, -⟩ := Registry.resolve_eq_ok_iff.mp hresolve
      exact ⟨rfl, fun x hx => (Except.ok.inj hx).symm⟩

theorem valueOf_reads (v : Variable) : Ends (valueOf v) s (Reads s) :=
  (valueOf_ends v).mono fun _ _ h => h.1

variable [RowStore S α]

/-- A variable is released if its handle is current, no constraint brought it and nothing mentions
it. -/
theorem release_cases (v : Variable) :
    Ends (release v) s fun result next =>
      match result with
      | .ok _ => s.tableau.registry.resolve v = .ok v.id ∧
          (∀ entry ∈ s.constraints.toList, v.id ∉ entry.2.own) ∧
          s.tableau.isReferenced v.id = .ok false ∧
          next = { s with tableau := { s.tableau with
            registry := s.tableau.registry.releaseId v.id } }
      | .error failure => Reads s (.error failure : Except Failure Unit) next := by
  unfold release
  simp only [ends_bind, ends_get]
  cases hresolve : s.tableau.registry.resolve v with
  | error cause => exact ⟨Registry.isMisuse_of_resolve hresolve, rfl⟩
  | ok id =>
      obtain ⟨-, rfl, -, hlive⟩ := Registry.resolve_eq_ok_iff.mp hresolve
      obtain ⟨record, hrecord⟩ := Option.isSome_iff_exists.mp hlive
      simp only [ends_lift_answer]
      split
      next => exact ⟨rfl, rfl⟩
      next hfree =>
        have hapart : ∀ entry ∈ s.constraints.toList, v.id ∉ entry.2.own := by
          intro entry hentry hown
          exact hfree (List.any_eq_true.mpr ⟨entry, hentry, by simpa using hown⟩)
        obtain ⟨answer, hanswer⟩ : ∃ answer, s.tableau.isReferenced v.id = .ok answer := by
          unfold Tableau.isReferenced
          rw [Registry.record_eq_ok hrecord]
          exact ⟨_, rfl⟩
        simp only [ends_bind]
        rw [hanswer]
        cases answer with
        | true => exact ⟨rfl, rfl⟩
        | false =>
            rw [ends_lift_access]
            exact (ends_releaseId (Tableau.checkReleased_of_isReferenced hanswer)).mpr
              ⟨trivial, hapart, rfl, rfl⟩

/-! ## Calls that are refused before they start -/

theorem add_of_unresolved {c : Constraint α} {cause : SolverError}
    (h : resolveTerms s.tableau.registry c.expression.terms = .error cause) (limit : Nat) :
    Ends (add c limit) s fun result next => result = .error (.error cause) ∧ next = s := by
  unfold add
  simp only [ends_bind, ends_tableau]
  rw [h]
  exact ⟨rfl, rfl⟩

theorem remove_of_unknown {handle : ConstraintHandle} {cause : SolverError}
    (h : s.tag handle = .error cause) (limit : Nat) :
    Ends (remove handle limit) s fun result next => result = .error (.error cause) ∧ next = s := by
  unfold remove
  simp only [ends_bind, ends_get]
  rw [h]
  exact ⟨rfl, rfl⟩

end Scalars

end SolverM

end LexSimplex
