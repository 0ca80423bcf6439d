import LexSimplex.Proofs.Termination

/-!
# Calls do not go wrong

With exact scalars no call meets a record that is missing, a position that is out of bounds, an
assertion about the variables that fails, a pivot that is zero or a tableau that has lost one of its
properties.  A call is refused for one of two reasons only (`Solver.Refuses`):
its handles are not current, and then it has changed nothing, or it offers a required constraint that
contradicts the ones present.  The removal of a constraint that is present is never refused.

What remains is that a session may run out of numbers for constraints and that a loop may cycle, so
that the call does not come back (`calls_safe`).  The latter can happen to the removal of a present
constraint too (`degenerate_removal_runs_on`).
-/

namespace LexSimplex

open Tableau

/-! ## Numbers -/

namespace ConstraintNumber

theorem toNat_next {number next : ConstraintNumber} (h : number.next? = some next) :
    next.number.toNat = number.number.toNat + 1 := by
  unfold next? at h
  split at h
  next => cases h
  next hmore =>
    cases h
    have hnot : (number.number + 1).toNat ≠ 0 := fun hzero => hmore (UInt32.toNat_inj.mp hzero)
    rw [UInt32.toNat_add] at hnot ⊢
    have hlt := number.number.toNat_lt
    have hone : (1 : UInt32).toNat = 1 := rfl
    omega

theorem toNat_of_last {number : ConstraintNumber} (h : number.next? = none) :
    number.number.toNat + 1 = 2 ^ 32 := by
  unfold next? at h
  split at h
  next hlast =>
    have hzero := congrArg UInt32.toNat hlast
    rw [UInt32.toNat_add] at hzero
    have hlt := number.number.toNat_lt
    have hone : (1 : UInt32).toNat = 1 := rfl
    have hnone : (0 : UInt32).toNat = 0 := rfl
    omega
  next => cases h

end ConstraintNumber

section Accepted

variable {α : Type}

/-- The number of constraints that a session has accepted after a turn, given the number before
it. -/
def Turn.acceptedAfter (before : Nat) : Turn α → Nat
  | answered (.add _) _ => before + 1
  | answered (.reset _) _ => 0
  | _ => before

/-- The number of constraints that a history has accepted since the last reset, also those that were
removed again. -/
def acceptedIn (turns : List (Turn α)) : Nat := turns.foldl Turn.acceptedAfter 0

theorem acceptedIn_concat (turns : List (Turn α)) (turn : Turn α) :
    acceptedIn (turns ++ [turn]) = turn.acceptedAfter (acceptedIn turns) := by
  unfold acceptedIn
  rw [List.foldl_append]
  rfl

end Accepted

/-- A turn moves on to the next number exactly when it accepts a constraint. -/
theorem Solver.Effect.nextConstraint {s next : Solver LinearForm Rat} {turn : Turn Rat}
    (h : s.Effect next turn) :
    next.nextConstraint.number.toNat = turn.acceptedAfter s.nextConstraint.number.toNat := by
  have of_books (hbooks : s.SameBooks next) :
      next.nextConstraint.number.toNat = s.nextConstraint.number.toNat :=
    congrArg (·.number.toNat) hbooks.2
  match turn, h with
  | .answered (.declare _ _) (.declared _), hdeclares => exact of_books hdeclares.books
  | .answered (.add _) (.added _), ⟨_, _, haccepts, _⟩ =>
      exact ConstraintNumber.toNat_next haccepts.numbers
  | .answered (.remove _) .done, ⟨_, _, hwithdraws, _⟩ =>
      exact congrArg (·.number.toNat) hwithdraws.numbers
  | .answered .resolve (.resolved _), ⟨hkeeps, _⟩ => exact of_books hkeeps.books
  | .answered (.release _) .done, hreleases => exact of_books hreleases.books
  | .answered (.reset _) .done, hrestarts => exact congrArg (·.number.toNat) hrestarts.2.2
  | .answered (.valueOf _) (.value _), hsame => exact hsame.1 ▸ rfl
  | .answered (.errorVariables _) (.errors _), hsame => exact hsame ▸ rfl
  | .answered (.strengthOf _) (.strength _), hsame => exact hsame ▸ rfl
  | .refused (.add _) .unsatisfiable, ⟨hkeeps, _⟩ => exact of_books hkeeps.books
  | .refused (.add _) (.foreignVariable _), hsame | .refused (.add _) (.staleVariable _), hsame =>
      exact hsame.1 ▸ rfl
  | .refused (.declare _ _) _, hsame | .refused (.remove _) _, hsame
  | .refused (.release _) _, hsame | .refused (.reset _) _, hsame | .refused (.valueOf _) _, hsame
  | .refused (.errorVariables _) _, hsame | .refused (.strengthOf _) _, hsame =>
      exact hsame.1 ▸ rfl

/-- The next number is the number of constraints accepted so far. -/
theorem Run.nextConstraint_eq {settings : Settings} {session : SessionId} {turns : List (Turn Rat)}
    {s : Solver LinearForm Rat} (hrun : Run settings session turns s) :
    s.nextConstraint.number.toNat = acceptedIn turns := by
  refine (hrun.preserves (P := fun turns s => s.nextConstraint.number.toNat = acceptedIn turns)
    rfl ?_).2
  intro turns turn s next _ _ heffect hbefore
  rw [heffect.nextConstraint, hbefore, acceptedIn_concat]

/-! ## Positions of rows

A row that is added in a hole is put at a position that is checked.  The other rows are put where a
row was read before, and the positions do not become fewer in between. -/

namespace Tableau

variable {S α : Type} {t next : Tableau S α} {id : RowId} {row : Row S α}

theorem index_lt_of_row (h : t.row id = .ok row) : id.index < t.rows.size := by
  unfold Tableau.row at h
  split at h
  next found hrow => exact index_lt_of_row? hrow
  next => cases h

theorem index_lt_of_dropRow (h : t.dropRow id = .ok (row, next)) : id.index < t.rows.size := by
  obtain ⟨found, hfound, -⟩ := ok_of_bind h
  exact index_lt_of_row (ok_of_lift_answer hfound)

/-- A pivot puts its row back at the position where it took it out. -/
theorem index_lt_of_pivot [Scalar α] [RowStore S α] {entering : VariableId} {exchange : Exchange}
    (h : t.pivot entering id = .ok (next, exchange)) :
    ∃ leaving solved taken substituted, id.index < t.rows.size ∧
      (t.setRow id none).define (some leaving) none = .ok taken ∧
      taken.substitute entering solved = .ok substituted ∧ id.index < substituted.rows.size := by
  obtain ⟨leaving, solved, taken, substituted, htaken, hsubstituted, -⟩ := pivot_parts h
  obtain ⟨found, hfound, -⟩ := ok_of_bind h
  have hlt := index_lt_of_row (ok_of_lift_answer hfound)
  have hframe := (Frame.setRow t id none).trans
    ((Frame.define htaken).trans (Frame.substitute hsubstituted))
  exact ⟨leaving, solved, taken, substituted, hlt, htaken, hsubstituted, hframe.size ▸ hlt⟩

end Tableau

/-! ## Refusals -/

section Refusals

variable {S α : Type} {s next : Solver S α}

namespace Solver

/-- A handle belongs to a constraint that is present. -/
def Has (s : Solver S α) (handle : ConstraintHandle) : Prop :=
  handle.session = s.session ∧ (s.constraints.find? handle.number).isSome

theorem Has.tag {handle : ConstraintHandle} (h : s.Has handle) :
    ∃ tag, s.tag handle = .ok tag := by
  obtain ⟨hsession, hpresent⟩ := h
  obtain ⟨tag, htag⟩ := Option.isSome_iff_exists.mp hpresent
  refine ⟨tag, ?_⟩
  unfold Solver.tag
  rw [if_neg (not_not.mpr hsession), htag]

/-- The reasons for which a call is refused: a constraint that contradicts the ones present, or
handles that the call should not have been made with. -/
def Refuses (s : Solver S α) : Call α → SolverError → Prop
  | .add c, cause => cause = .unsatisfiable ∨
      SolverM.resolveTerms s.tableau.registry c.expression.terms = .error cause
  | .remove handle, cause => s.tag handle = .error cause
  | .declare _ _, _ | .resolve, _ | .reset _, _ => False
  | .release _, cause | .valueOf _, cause | .errorVariables _, cause | .strengthOf _, cause =>
      cause.isMisuse = true

end Solver

variable {call : Call α} {cause : SolverError}

theorem Solver.Refuses.cases (h : s.Refuses call cause) :
    (∃ c, call = .add c) ∧ cause = .unsatisfiable ∨ cause.isMisuse = true := by
  cases call with
  | add c =>
      rcases h with hunsatisfiable | hunresolved
      · exact Or.inl ⟨⟨c, rfl⟩, hunsatisfiable⟩
      · exact Or.inr (SolverM.isMisuse_of_resolveTerms hunresolved)
  | remove handle => exact Or.inr (SolverM.isMisuse_of_tag h)
  | release v => exact Or.inr h
  | valueOf v => exact Or.inr h
  | errorVariables handle => exact Or.inr h
  | strengthOf handle => exact Or.inr h
  | _ => exact h.elim

variable [Scalar α] [RowStore S α]

/-- A call that is refused because of its handles has changed nothing. -/
theorem Solver.Refuses.unchanged (h : s.Refuses call cause) (hmisuse : cause.isMisuse = true)
    (hlive : ∀ handle tag, s.tag handle = .ok tag → ∀ v ∈ tag.own,
      (s.tableau.registry.get? v).isSome) (limit : Nat) :
    SolverM.Ends (call.perform limit) s fun result next =>
      result = .error (.error cause) → next = s := by
  cases call with
  | add c =>
      rcases h with rfl | hunresolved
      · cases hmisuse
      · refine SolverM.ends_bind.mpr ((SolverM.add_of_unresolved hunresolved limit).mono ?_)
        rintro _ next ⟨rfl, rfl⟩ _
        rfl
  | remove handle =>
      refine SolverM.ends_bind.mpr ((SolverM.remove_of_unknown h limit).mono ?_)
      rintro _ next ⟨rfl, rfl⟩ _
      rfl
  | release v =>
      refine SolverM.ends_bind.mpr ((SolverM.release_cases v).mono ?_)
      rintro (failure | _) next hreleased hrefused
      · exact SolverM.Reads.unchanged hreleased
      · cases hrefused
  | valueOf v =>
      refine (SolverM.reads_map (SolverM.valueOf_reads v) _).mono ?_
      exact fun _ _ hread _ => hread.unchanged
  | errorVariables handle =>
      refine (SolverM.reads_map (SolverM.errorVariables_reads (hlive handle)) _).mono ?_
      exact fun _ _ hread _ => hread.unchanged
  | strengthOf handle =>
      refine (SolverM.reads_map (SolverM.strengthOf_reads handle) _).mono ?_
      exact fun _ _ hread _ => hread.unchanged
  | _ => exact h.elim

end Refusals

/-! ## Calls on linear forms -/

namespace SolverM

variable {s : Solver LinearForm Rat}

/-- How a call ends. -/
def Performed (limit : Nat) (s : Solver LinearForm Rat) (call : Call Rat) :
    Except Failure (Reply Rat) → Solver LinearForm Rat → Prop
  | .ok _, _ => True
  | .error (.error cause), _ => s.Refuses call cause
  | .error (.access _), _ => False
  | .error .outOfNumbers, _ => (∃ c, call = .add c) ∧ s.nextConstraint.next? = none
  | .error .outOfSteps, next => next.Exhausted limit

theorem performed_of_reads {β : Type} {limit : Nat} {call : Call Rat}
    {read : SolverM LinearForm Rat β} {answer : β → Reply Rat} (hreads : Ends read s (Reads s))
    (hrefuses : ∀ cause, cause.isMisuse = true → s.Refuses call cause) :
    Ends (read >>= fun x => pure (answer x)) s (Performed limit s call) := by
  refine (reads_map hreads answer).mono ?_
  rintro (failure | reply) next hread
  · obtain ⟨cause, rfl, hmisuse, -⟩ := hread.refused
    exact hrefuses cause hmisuse
  · trivial

theorem perform_ends (hs : s.Sound) (call : Call Rat) (limit : Nat) :
    Ends (call.perform limit) s (Performed limit s call) := by
  cases call with
  | declare name kind => exact (declare_ends hs name kind).bind fun _ _ _ => trivial
  | reset session => trivial
  | add c =>
      -- Once all handles are current, none of them can be the reason for a refusal.
      rcases resolveTerms_spec (r := s.tableau.registry) c.expression.terms with
        ⟨-, hcurrent⟩ | ⟨-, -, cause, hunresolved, -⟩
      · refine ends_bind.mpr ((add_ends hs c limit).mono ?_)
        rintro (failure | handle) next hadded
        · cases failure with
          | error cause =>
              cases cause with
              | unsatisfiable => exact Or.inl rfl
              | foreignVariable | staleVariable =>
                  obtain ⟨-, term, hterm, hstale⟩ := hadded
                  exact absurd (hcurrent term hterm) hstale
              | _ => exact hadded.elim
          | access fault => exact hadded
          | outOfNumbers => exact ⟨⟨c, rfl⟩, hadded⟩
          | outOfSteps => exact hadded
        · trivial
      · refine ends_bind.mpr ((add_of_unresolved hunresolved limit).mono ?_)
        rintro _ next ⟨rfl, rfl⟩
        exact Or.inr hunresolved
  | remove handle =>
      refine ends_bind.mpr ((remove_ends hs handle limit).mono ?_)
      rintro (failure | _) next hremoved
      · cases failure with
        | error cause =>
            cases cause with
            | unknownConstraint => exact hremoved.2
            | _ => exact hremoved.elim
        | access fault => exact hremoved
        | outOfNumbers => exact hremoved.elim
        | outOfSteps => exact hremoved
      · trivial
  | resolve => exact (resolve_ends hs limit).bindOr (fun _ hout => hout) fun _ _ _ => trivial
  | release v =>
      refine ends_bind.mpr ((release_cases v).mono ?_)
      rintro (failure | _) next hreleased
      · obtain ⟨cause, rfl, hmisuse, -⟩ := Reads.refused hreleased
        exact hmisuse
      · trivial
  | valueOf v => exact performed_of_reads (valueOf_reads v) fun _ hmisuse => hmisuse
  | errorVariables handle =>
      have hlive : ∀ tag, s.tag handle = .ok tag → ∀ v ∈ tag.own,
          (s.tableau.registry.get? v).isSome := fun _ htag _ => hs.own_live htag
      exact performed_of_reads (errorVariables_reads hlive) fun _ hmisuse => hmisuse
  | strengthOf handle => exact performed_of_reads (strengthOf_reads handle) fun _ hmisuse => hmisuse

theorem perform_returnsOrCycles (hs : s.Sound) (call : Call Rat) :
    ReturnsOrCycles (fun limit => call.perform limit) s :=
  returnsOrCycles_of_ends call.perform_stabilizes (perform_ends hs call) (fun _ _ h => h)
    (fun _ _ h => h.2) fun _ _ _ h => h

end SolverM

/-! ## Runs -/

namespace Solver.AsForms

variable {S : Type} [RowStore S Rat] [LawfulStore S Rat] {s : Solver S Rat}
  {l : Solver LinearForm Rat}

theorem refuses (h : s.AsForms l) : l.Refuses = s.Refuses :=
  h.agree (fun s => s.Refuses) fun _ _ => rfl

end Solver.AsForms

/-- How a call may end that has as many steps as it needs, on a solver that has accepted a number of
constraints in its session.  It may be refused because a constraint contradicts the ones present or
because of its handles, and in the latter case nothing has changed; the removal of a present
constraint is not refused.  It may run out of numbers, or one of its loops cycles.  It never meets a
missing record, a position out of bounds or an assertion that fails. -/
def Call.EndsSafely {S : Type} [RowStore S Rat] (s : Solver S Rat) (accepted : Nat)
    (call : Call Rat) : EStateM.Result Failure (Solver S Rat) (Reply Rat) → Prop
  | .ok _ _ => True
  | .error (.error cause) next =>
      ((∃ c, call = .add c) ∧ cause = .unsatisfiable ∨ cause.isMisuse = true ∧ next = s) ∧
        ∀ handle, call = .remove handle → ¬s.Has handle
  | .error (.access _) _ => False
  | .error .outOfNumbers _ => (∃ c, call = .add c) ∧ accepted + 1 = 2 ^ 32
  | .error .outOfSteps next => next.tableau.Cycles next.tableau.pursued

variable {settings : Settings} {session : SessionId} {turns : List (Turn Rat)}
  {s : Solver (Storage Rat) Rat}

/-- After every run every call ends safely. -/
theorem calls_safe (hrun : Run settings session turns s) (call : Call Rat) :
    ∃ enough result, (∀ limit, enough ≤ limit → (call.perform limit).run s = result) ∧
      call.EndsSafely s (acceptedIn turns) result := by
  obtain ⟨l, hforms, has⟩ := hrun.exists_asForms
  obtain ⟨enough, result, henough, hends⟩ := has.returnsOrCycles (fun limit => call.perform limit)
    (fun m limit => call.perform_corresponds m limit) call.perform_stabilizes
    (SolverM.perform_returnsOrCycles hforms.sound call)
  refine ⟨enough, result, henough, ?_⟩
  -- The reason for a failure is read off the solver over linear forms.  That nothing has changed
  -- cannot be: linear forms do not tell how rows are stored.  It follows from the reason.
  have hperform := henough enough (Nat.le_refl _)
  have hsame := has.run (call.perform enough) fun m => call.perform_corresponds m enough
  rw [hperform] at hsame
  cases result with
  | ok reply next => trivial
  | error failure next =>
      obtain ⟨l', hformsPerform, -⟩ := hsame
      have hperformed := (SolverM.perform_ends hforms.sound call enough).of_error hformsPerform
      cases failure with
      | error cause =>
          have hrefuses : s.Refuses call cause := has.refuses ▸ hperformed
          have hlive : ∀ handle tag, s.tag handle = .ok tag → ∀ v ∈ tag.own,
              (s.tableau.registry.get? v).isSome := fun handle tag htag v hv =>
            has.registry ▸ hforms.sound.own_live (has.tag ▸ htag) hv
          refine ⟨hrefuses.cases.imp_right fun hmisuse => ⟨hmisuse, ?_⟩, ?_⟩
          · exact (hrefuses.unchanged hmisuse hlive enough).of_error hperform rfl
          · rintro handle rfl hhas
            obtain ⟨tag, htag⟩ := hhas.tag
            have hunknown : s.tag handle = .error cause := hrefuses
            rw [htag] at hunknown
            cases hunknown
      | access fault => exact hends
      | outOfNumbers =>
          refine ⟨hperformed.1, ?_⟩
          rw [← hforms.nextConstraint_eq]
          exact ConstraintNumber.toNat_of_last hperformed.2
      | outOfSteps => exact hends

/-- In the small layout three constraints were accepted, and the upper bound on the width is among
those present.  Nine steps are enough to remove it, which leaves the width at 20, and to refuse a
removal by the handle of another session, which leaves the layout as it was. -/
theorem calls_safe_layout :
    acceptedIn layout.1 = 3 ∧ layout.2.Has ⟨⟨0⟩, ⟨1⟩⟩ ∧
    (∃ next, (∀ limit, 9 ≤ limit →
      ((Call.remove ⟨⟨0⟩, ⟨1⟩⟩).perform limit).run layout.2 = .ok .done next) ∧
      next.tableau.value width.id = 20 ∧
      (Call.remove ⟨⟨0⟩, ⟨1⟩⟩).EndsSafely layout.2 3 (.ok .done next)) ∧
    (∀ limit, 9 ≤ limit → ((Call.remove ⟨⟨7⟩, ⟨1⟩⟩).perform limit).run layout.2 =
      .error (.error (.unknownConstraint ⟨1⟩)) layout.2) ∧
    (Call.remove ⟨⟨7⟩, ⟨1⟩⟩).EndsSafely layout.2 3
      (.error (.error (.unknownConstraint ⟨1⟩)) layout.2) := by
  have hlayout : acceptedIn layout.1 = 3 ∧
      (layout.2.constraints.find? ⟨1⟩).isSome ∧ layout.2.session = ⟨0⟩ ∧
      SolverM.answer? ((Call.remove ⟨⟨0⟩, ⟨1⟩⟩).perform 9) layout.2 = some (.ok .done) ∧
      (SolverM.left ((Call.remove ⟨⟨0⟩, ⟨1⟩⟩).perform 9) layout.2).tableau.value width.id = 20 ∧
      SolverM.answer? ((Call.remove ⟨⟨7⟩, ⟨1⟩⟩).perform 9) layout.2 =
        some (.error (.unknownConstraint ⟨1⟩)) := by
    decide +kernel
  obtain ⟨haccepted, hpresent, hsession, hremoved, htwenty, hrefused⟩ := hlayout
  have hends : ∀ limit, 9 ≤ limit →
      ((Call.remove ⟨⟨0⟩, ⟨1⟩⟩).perform limit).run layout.2 = .ok .done
        (SolverM.left ((Call.remove ⟨⟨0⟩, ⟨1⟩⟩).perform 9) layout.2) := fun limit hle =>
    (Call.perform_stabilizes _).answers (SolverM.answers_left hremoved) hle
  have hstays : ∀ limit, 9 ≤ limit → ((Call.remove ⟨⟨7⟩, ⟨1⟩⟩).perform limit).run layout.2 =
      .error (.error (.unknownConstraint ⟨1⟩))
        (SolverM.left ((Call.remove ⟨⟨7⟩, ⟨1⟩⟩).perform 9) layout.2) := fun limit hle =>
    (Call.perform_stabilizes _).answers (SolverM.answers_left hrefused) hle
  -- With enough steps for both, the ends are those that are safe.
  obtain ⟨enough, result, henough, hsafe⟩ := calls_safe run_layout (.remove ⟨⟨0⟩, ⟨1⟩⟩)
  obtain ⟨more, result', hmore, hsafe'⟩ := calls_safe run_layout (.remove ⟨⟨7⟩, ⟨1⟩⟩)
  rw [haccepted] at hsafe hsafe'
  obtain rfl := (henough (max enough 9) (by omega)).symm.trans (hends _ (by omega))
  obtain rfl := (hmore (max more 9) (by omega)).symm.trans (hstays _ (by omega))
  obtain ⟨-, hleft⟩ := hsafe'.1.resolve_left (by simp)
  rw [hleft] at hsafe' hstays
  exact ⟨haccepted, ⟨hsession.symm, hpresent⟩, ⟨_, hends, htwenty, hsafe⟩, hstays, hsafe'⟩

/-! ## A removal that does not come back -/

/-- The corner with a bound that keeps the first variable at zero, and then the wish. -/
def boundedCornerCalls : List (Call Rat) :=
  cornerCalls ++ [.add (.required ⟨0, [(1, edge 0)]⟩ .lessOrEqual), .add cornerWish]

/-- The bounded corner with default settings. -/
def boundedCorner (S : Type) [RowStore S Rat] : List (Turn Rat) × Solver S Rat :=
  (Solver.start {} ⟨0⟩).play 9 boundedCornerCalls

/-- The handle of the bound. -/
def bound : ConstraintHandle := ⟨⟨0⟩, ⟨2⟩⟩

/-- The corner after the bound was withdrawn and before the goal is optimised. -/
def cornerUnbound : Solver LinearForm Rat :=
  SolverM.left (SolverM.withdraw bound) (boundedCorner LinearForm).2

/-- The bound is withdrawn without leaving a row to repair, and after six pivots the loop of the goal
is back where it started. -/
theorem cornerUnbound_returns :
    SolverM.answer? (SolverM.withdraw bound) (boundedCorner LinearForm).2 = some (.ok ()) ∧
      cornerUnbound.tableau.infeasible = .empty ∧
      walk (primalStep .main) 6 cornerUnbound.tableau = some cornerUnbound.tableau := by
  decide +kernel

/-- Removing the bound does not come back, whatever the limit is. -/
theorem remove_bound_ends (limit : Nat) :
    SolverM.Ends (SolverM.remove bound limit) (boundedCorner LinearForm).2 fun result next =>
      result = .error .outOfSteps ∧ ¬next.tableau.Halts .main := by
  obtain ⟨hwithdrawn, hsettled, hreturns⟩ := cornerUnbound_returns
  have hround : cornerUnbound.RunsOn := ⟨hsettled, not_halts_of_returns (by decide) hreturns⟩
  exact SolverM.remove_runs_on (SolverM.answers_left hwithdrawn) hround limit

/-- At the bounded corner the removal of a constraint that is present goes on for ever: whatever the
limit is, the call runs out of steps, at a tableau from which the loop of the goal does not come to
an end. -/
theorem degenerate_removal_runs_on :
    Run {} ⟨0⟩ (boundedCorner (Storage Rat)).1 (boundedCorner (Storage Rat)).2 ∧
      (boundedCorner (Storage Rat)).2.Has bound ∧
      ∀ limit, ∃ next, (SolverM.remove bound limit).run (boundedCorner (Storage Rat)).2 =
        .error .outOfSteps next ∧ ¬next.tableau.Halts .main := by
  have has : (boundedCorner (Storage Rat)).2.AsForms (boundedCorner LinearForm).2 :=
    ((Solver.AsForms.start {} ⟨0⟩).play 9 boundedCornerCalls).2
  refine ⟨Run.start.play 9 boundedCornerCalls, ⟨by decide +kernel, by decide +kernel⟩,
    fun limit => ?_⟩
  exact has.runs_on (SolverM.remove bound limit)
    (fun m => SolverM.corresponds_remove bound limit) (remove_bound_ends limit)

end LexSimplex
