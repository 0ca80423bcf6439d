import LexSimplex.Proofs.Inventory
import LexSimplex.Proofs.Transfer.Walks

/-!
# Variables borrowed from other constraints

A constraint may mention the error variables of another one, whose handles a solver gives out.  When
the other constraint is removed, its variables should stay as long as a constraint depends on them.

The second variable of the removed constraint does stay.  The marker does not: its row is taken out
before anything is released, so nothing mentions it any more and it is released whether another
constraint depends on it or not (`Withdraws.marker_gone`, `borrowed_marker_released`).  Its handle is
stale then, and the row that was taken out may have carried the other constraint.

This is the only way in which a handle of a present constraint becomes stale.  As long as constraints
are removed only when no other one depends on their marker (`CarefulRun`), the rows say what the
equations say, and all handles that the constraints depend on are current (`handles_stay_current`).
-/

namespace LexSimplex

open Tableau

section Handles

variable {S : Type}

/-- No constraint but the one that a handle stands for depends on the marker of that one. -/
def Solver.MarkerUnshared (s : Solver S Rat) (handle : ConstraintHandle) : Prop :=
  ∀ tag ∈ s.constraints.find? handle.number, ∀ entry ∈ s.constraints.toList,
    entry.1 ≠ handle.number → entry.2.constraint.expression.netCoefficient tag.marker = 0

instance (s : Solver S Rat) (handle : ConstraintHandle) : Decidable (s.MarkerUnshared handle) :=
  inferInstanceAs (Decidable (∀ tag ∈ s.constraints.find? handle.number,
    ∀ entry ∈ s.constraints.toList, _))

/-- The handles of the variables that the present constraints depend on are current. -/
def Solver.HandlesCurrent (s : Solver S Rat) : Prop :=
  ∀ c ∈ s.accepted, ∀ term ∈ c.expression.terms, c.expression.netCoefficient term.2.id ≠ 0 →
    s.tableau.registry.resolve term.2 = .ok term.2.id

/-- The states that a history of calls can lead to in which constraints are removed only when no other
one depends on their marker. -/
inductive CarefulRun [RowStore S Rat] (settings : Settings) (session : SessionId) :
    List (Turn Rat) → Solver S Rat → Prop
  | start : CarefulRun settings session [] (.start settings session)
  | answered {turns : List (Turn Rat)} {s next : Solver S Rat} {call : Call Rat}
      {reply : Reply Rat} {limit : Nat} :
      CarefulRun settings session turns s →
      (∀ handle, call = .remove handle → s.MarkerUnshared handle) →
      (call.perform limit).run s = .ok reply next →
      CarefulRun settings session (turns ++ [.answered call reply]) next
  | refused {turns : List (Turn Rat)} {s next : Solver S Rat} {call : Call Rat}
      {cause : SolverError} {limit : Nat} :
      CarefulRun settings session turns s →
      (call.perform limit).run s = .error (.error cause) next →
      CarefulRun settings session (turns ++ [.refused call cause]) next

variable [RowStore S Rat] {settings : Settings} {session : SessionId} {turns : List (Turn Rat)}
  {s : Solver S Rat}

/-- A run without removals is careful. -/
theorem Run.careful (h : Run settings session turns s)
    (hkept : ∀ turn ∈ turns, ∀ handle, turn.call ≠ .remove handle) :
    CarefulRun settings session turns s := by
  induction h with
  | start => exact .start
  | answered _ hperform ih =>
      refine (ih fun turn hturn => hkept turn (List.mem_append_left _ hturn)).answered ?_ hperform
      rintro handle rfl
      exact absurd rfl (hkept _ (List.mem_append_right _ List.mem_cons_self) handle)
  | refused _ hperform ih =>
      exact (ih fun turn hturn => hkept turn (List.mem_append_left _ hturn)).refused hperform

end Handles

open SolverM in
/-- A constraint is accepted only if its handles are current. -/
theorem Call.resolves_of_add {S α : Type} [Scalar α] [RowStore S α] {s next : Solver S α}
    {c : Constraint α} {limit : Nat} {reply : Reply α}
    (h : ((Call.add c).perform limit).run s = .ok reply next) :
    ∀ term ∈ c.expression.terms, s.tableau.registry.resolve term.2 = .ok term.2.id := by
  rcases resolveTerms_spec (r := s.tableau.registry) c.expression.terms with
    ⟨-, hall⟩ | ⟨-, -, cause, hcause, -⟩
  · exact hall
  · have hrefused : Ends ((Call.add c).perform limit) s
        fun result _ => result = .error (.error cause) := by
      unfold Call.perform
      rw [ends_bind]
      refine (add_of_unresolved hcause limit).mono ?_
      rintro _ _ ⟨rfl, -⟩
      rfl
    cases hrefused.of_ok h

/-! ## Linear forms -/

namespace Solver

variable {s next : Solver LinearForm Rat} {tag : Tag Rat} {number : ConstraintNumber}

/-- Removing a constraint always releases its marker: what is left does not depend on it. -/
theorem Withdraws.marker_gone (h : s.Withdraws next number tag) :
    next.tableau.roleOf tag.marker = none := by
  rcases h.own tag.marker List.mem_cons_self with ⟨-, hbusy⟩ | hgone
  · refine absurd (fun a ha x => ?_) hbusy
    obtain ⟨y, hy⟩ := (h.holds a).mp ha
    have hsame : Function.update (Function.update a tag.marker x) tag.marker y =
        Function.update a tag.marker y := Function.update_idem x y a
    refine ⟨(h.holds _).mpr ⟨y, by rwa [hsame]⟩, fun level => ?_⟩
    rw [h.goal level a y hy, h.goal level _ y (by rwa [hsame]), hsame]
  · exact hgone

theorem live_of_resolve {v : Variable} (h : s.tableau.registry.resolve v = .ok v.id) :
    (s.tableau.kindOf v.id).isSome := by
  obtain ⟨-, -, -, hlive⟩ := Registry.resolve_eq_ok_iff.mp h
  rwa [kindOf, Option.isSome_map]

/-- The rows say what the equations say, no expression depends on the variables that its own
constraint brought, and the handles that the constraints depend on are current. -/
structure Sustains (s : Solver LinearForm Rat) : Prop where
  reflects : s.Reflects
  own : ∀ tag, s.Present tag → ∀ v ∈ tag.own, tag.constraint.expression.netCoefficient v = 0
  current : s.HandlesCurrent

namespace Sustains

theorem current_of_present (h : s.Sustains) (htag : s.Present tag) {term : Rat × Variable}
    (hterm : term ∈ tag.constraint.expression.terms)
    (hnet : tag.constraint.expression.netCoefficient term.2.id ≠ 0) :
    s.tableau.registry.resolve term.2 = .ok term.2.id :=
  h.current tag.constraint (mem_accepted.mpr ⟨tag, htag, rfl⟩) term hterm hnet

/-- The constraints are the same, and the variables that they depend on keep their numbers. -/
theorem of_same (h : s.Sustains) (hbooks : s.SameBooks next)
    (hholds : ∀ a, next.tableau.Holds a ↔ s.tableau.Holds a)
    (hkept : ∀ tag, s.Present tag → ∀ term ∈ tag.constraint.expression.terms,
      tag.constraint.expression.netCoefficient term.2.id ≠ 0 →
      s.tableau.registry.resolve term.2 = .ok term.2.id →
      next.tableau.registry.resolve term.2 = .ok term.2.id) : next.Sustains where
  reflects := h.reflects.of_same hbooks hholds
  own := fun tag htag => h.own tag ((present_of_books hbooks tag).mp htag)
  current := by
    intro c hc term hterm hnet
    obtain ⟨tag, htag, rfl⟩ := mem_accepted.mp hc
    have hbefore := (present_of_books hbooks tag).mp htag
    exact hkept tag hbefore term hterm hnet (h.current_of_present hbefore hterm hnet)

theorem keeps (h : s.Sustains) (hkeeps : s.Keeps next) : next.Sustains :=
  h.of_same hkeeps.books hkeeps.holds fun _ _ _ _ _ hcurrent =>
    resolve_of_same hcurrent hkeeps.session (hkeeps.generation _ (live_of_resolve hcurrent))
      (hkeeps.role _)

theorem declares {v : Variable} {kind : VariableKind} (h : s.Sustains)
    (hdeclares : s.Declares next v kind) : next.Sustains := by
  refine h.of_same hdeclares.books hdeclares.holds fun _ _ term _ _ hcurrent => ?_
  have hlive := live_of_resolve hcurrent
  have hne : term.2.id ≠ v.id := by
    intro hid
    rw [hid, kindOf_of_dead hdeclares.new] at hlive
    simp at hlive
  exact resolve_of_same hcurrent hdeclares.session (hdeclares.generation _ hlive)
    (hdeclares.others _ hne)

/-- Only a variable that no constraint depends on can be released. -/
theorem releases {v : Variable} (h : s.Sustains) (hs : s.Sound) (hreleases : s.Releases next v) :
    next.Sustains := by
  refine h.of_same hreleases.books hreleases.holds fun tag htag term _ hnet hcurrent => ?_
  have hne : term.2.id ≠ v.id := by
    intro hid
    rw [hid] at hnet
    exact hnet (h.reflects.netCoefficient_unused hs hreleases.unused htag
      (hreleases.apart tag htag))
  exact resolve_of_same hcurrent hreleases.session (hreleases.generation _ hne)
    (hreleases.others _ hne)

theorem accepts (h : s.Sustains) (hs : s.Sound) (haccepts : s.Accepts next tag)
    (hresolves : ∀ term ∈ tag.constraint.expression.terms,
      s.tableau.registry.resolve term.2 = .ok term.2.id) : next.Sustains where
  reflects := h.reflects.accepts hs haccepts
  own := by
    intro other hother v hv
    rcases haccepts.present_cases hother with rfl | hold
    · exact haccepts.netCoefficient_own hv
    · exact h.own other hold v hv
  current := by
    intro c hc term hterm hnet
    obtain ⟨other, hother, rfl⟩ := mem_accepted.mp hc
    have hcurrent : s.tableau.registry.resolve term.2 = .ok term.2.id := by
      rcases haccepts.present_cases hother with rfl | hold
      · exact hresolves term hterm
      · exact h.current_of_present hold hterm hnet
    have hlive := live_of_resolve hcurrent
    exact resolve_of_same hcurrent haccepts.session (haccepts.generation _ hlive)
      (haccepts.others _ (not_mem_of_live hlive haccepts.new))

/-- A removed constraint leaves the variables that the others depend on, if its marker is not among
them. -/
theorem withdraws (h : s.Sustains) (hs : s.Sound) (hnext : next.Sound)
    (htag : s.constraints.find? number = some tag) (hwithdraws : s.Withdraws next number tag)
    (hunshared : ∀ other, next.Present other →
      other.constraint.expression.netCoefficient tag.marker = 0) : next.Sustains := by
  have hold : ∀ other, next.Present other → s.Present other := by
    intro other hother
    obtain ⟨found, -, hfound⟩ := hwithdraws.present_iff.mp hother
    exact ⟨found, hfound⟩
  have hreflects : next.Reflects := by
    refine h.reflects.withdraws hs htag hwithdraws ?_
    rintro other ⟨found, hfound⟩
    by_cases hnumber : found = number
    · rw [hnumber, htag, Option.some.injEq] at hfound
      exact hfound ▸ h.own tag ⟨number, htag⟩ tag.marker List.mem_cons_self
    · exact hunshared other (hwithdraws.present_iff.mpr ⟨found, hnumber, hfound⟩)
  refine ⟨hreflects, fun other hother => h.own other (hold other hother), ?_⟩
  intro c hc term hterm hnet
  obtain ⟨other, hother, rfl⟩ := mem_accepted.mp hc
  have hcurrent := h.current_of_present (hold other hother) hterm hnet
  by_cases hown : term.2.id ∈ tag.own
  · rcases hwithdraws.own _ hown with ⟨hrole, -⟩ | hgone
    · refine resolve_of_same hcurrent hwithdraws.session (hwithdraws.generation _ (Or.inr ?_)) hrole
      rw [hrole]
      have hlive := live_of_resolve hcurrent
      rwa [kindOf_eq_roleOf, Option.isSome_map] at hlive
    · -- What is released occurs in no row, and so in no equation that the rows reflect.
      have hdead : next.tableau.registry.get? term.2.id = none := Option.map_eq_none_iff.mp hgone
      exact absurd (hreflects.netCoefficient_unused hnext (hnext.proper.unused_of_dead hdead) hother
        fun hmem => hwithdraws.not_mem_own hs htag hother hmem hown) hnet
  · exact resolve_of_same hcurrent hwithdraws.session (hwithdraws.generation _ (Or.inl hown))
      (hwithdraws.others _ hown)

theorem restarts {session : SessionId} (hrestarts : next.Restarts session) : next.Sustains where
  reflects := .restarts hrestarts
  own := fun tag htag => absurd htag (hrestarts.not_present tag)
  current := by
    intro c hc
    obtain ⟨tag, htag, -⟩ := mem_accepted.mp hc
    exact absurd htag (hrestarts.not_present tag)

theorem withdraws_unshared (h : s.Sustains) (hs : s.Sound) (hnext : next.Sound)
    {handle : ConstraintHandle} (htag : s.constraints.find? handle.number = some tag)
    (hwithdraws : s.Withdraws next handle.number tag) (hunshared : s.MarkerUnshared handle) :
    next.Sustains := by
  refine h.withdraws hs hnext htag hwithdraws fun other hother => ?_
  obtain ⟨found, hne, hfound⟩ := hwithdraws.present_iff.mp hother
  exact hunshared tag htag (found, other) (SortedMap.find?_eq_some.mp hfound) hne

/-- Every effect but the removal of a marker that others depend on. -/
theorem step (h : s.Sustains) (hs : s.Sound) (hnext : next.Sound) {turn : Turn Rat}
    (heffect : s.Effect next turn)
    (hresolves : ∀ c handle, turn = .answered (.add c) (.added handle) →
      ∀ term ∈ c.expression.terms, s.tableau.registry.resolve term.2 = .ok term.2.id)
    (hremoves : ∀ handle, turn = .answered (.remove handle) .done → s.MarkerUnshared handle) :
    next.Sustains := by
  rcases heffect.cases with ⟨hkeeps, -⟩ | ⟨_, _, _, -, hdeclares⟩ |
    ⟨c, handle, tag, hturn, rfl, haccepts⟩ | ⟨handle, tag, hturn, htag, hwithdraws⟩ |
    ⟨_, -, hreleases⟩ | ⟨_, -, hrestarts⟩
  · exact h.keeps hkeeps
  · exact h.declares hdeclares
  · exact h.accepts hs haccepts (hresolves _ handle hturn)
  · exact h.withdraws_unshared hs hnext htag hwithdraws (hremoves handle hturn)
  · exact h.releases hs hreleases
  · exact restarts hrestarts

/-- Removing a constraint spares the variables that the others depend on exactly if its marker is not
among them. -/
theorem remove_spares_iff (h : s.Sustains) (hs : s.Sound) (hnext : next.Sound)
    {handle : ConstraintHandle} (htag : s.constraints.find? handle.number = some tag)
    (hwithdraws : s.Withdraws next handle.number tag) :
    s.MarkerUnshared handle ↔
      ∀ v, s.Live v → ¬next.Live v → ∀ c ∈ next.accepted, c.expression.netCoefficient v = 0 := by
  constructor
  · intro hunshared v _ hgone c hc
    have hsustains := h.withdraws_unshared hs hnext htag hwithdraws hunshared
    by_contra hnet
    obtain ⟨term, hterm, rfl⟩ := Expression.exists_mention hnet
    exact hgone (live_iff_kindOf.mpr (live_of_resolve (hsustains.current c hc term hterm hnet)))
  · intro hspares found hfound entry hentry hne
    rw [Option.mem_def, htag, Option.some.injEq] at hfound
    subst hfound
    have hstays : next.Present entry.2 :=
      hwithdraws.present_iff.mpr ⟨entry.1, hne, SortedMap.find?_eq_some.mpr hentry⟩
    exact hspares tag.marker
      (live_iff_kindOf.mpr ((hs.formed tag ⟨_, htag⟩).live List.mem_cons_self))
      (not_live_of_role hwithdraws.marker_gone) _ (mem_accepted.mpr ⟨entry.2, hstays, rfl⟩)

end Sustains

end Solver

/-! ## Runs -/

variable {settings : Settings} {session : SessionId} {turns : List (Turn Rat)}
  {s next : Solver (Storage Rat) Rat}

theorem Solver.AsForms.markerUnshared {S : Type} [RowStore S Rat] [LawfulStore S Rat]
    {s : Solver S Rat} {l : Solver LinearForm Rat} (h : s.AsForms l) (handle : ConstraintHandle) :
    l.MarkerUnshared handle ↔ s.MarkerUnshared handle := by
  unfold MarkerUnshared
  rw [h.constraints]

theorem Solver.AsForms.handlesCurrent {S : Type} [RowStore S Rat] [LawfulStore S Rat]
    {s : Solver S Rat} {l : Solver LinearForm Rat} (h : s.AsForms l) :
    l.HandlesCurrent ↔ s.HandlesCurrent := by
  unfold HandlesCurrent
  rw [h.accepted, h.registry]

/-- A careful run is followed by one over linear forms. -/
theorem CarefulRun.exists_sustains (hrun : CarefulRun settings session turns s) :
    ∃ l : Solver LinearForm Rat, l.Sound ∧ s.AsForms l ∧ l.Sustains := by
  induction hrun with
  | start =>
      exact ⟨.start settings session, Solver.sound_start settings session,
        Solver.AsForms.start settings session, Solver.Sustains.restarts ⟨rfl, rfl, rfl⟩⟩
  | @answered _ _ _ call reply limit _ hcareful hperform ih =>
      obtain ⟨l, hs, has, hsustains⟩ := ih
      have hstep := has.run (call.perform limit) fun m => call.perform_corresponds m limit
      rw [hperform] at hstep
      obtain ⟨l', hl, has'⟩ := hstep
      obtain ⟨hs', heffect⟩ := (Solver.perform_effect hs call limit).of_ok hl
      refine ⟨l', hs', has', hsustains.step hs hs' heffect ?_ ?_⟩
      · intro c handle hturn
        cases hturn
        exact Call.resolves_of_add hl
      · intro handle hturn
        cases hturn
        exact (has.markerUnshared handle).mpr (hcareful handle rfl)
  | @refused _ _ _ call cause limit _ hperform ih =>
      obtain ⟨l, hs, has, hsustains⟩ := ih
      have hstep := has.run (call.perform limit) fun m => call.perform_corresponds m limit
      rw [hperform] at hstep
      obtain ⟨l', hl, has'⟩ := hstep
      obtain ⟨hs', heffect⟩ := (Solver.perform_effect hs call limit).of_error hl
      exact ⟨l', hs', has', hsustains.keeps heffect.refused⟩

/-- After every careful run the handles that the present constraints depend on are current.  A removal
that follows releases variables of the removed constraint only, and always its marker.  So it spares
the variables that the constraints which stay depend on exactly if no other constraint depends on the
marker, and then their handles stay current as well. -/
theorem handles_stay_current (hrun : CarefulRun settings session turns s) :
    s.HandlesCurrent ∧
    ∀ handle limit next, SolverM.Answers (SolverM.remove handle limit) s (.ok ()) next →
      (∃ tag, s.constraints.find? handle.number = some tag ∧ ¬next.Live tag.marker ∧
        ∀ v, s.Live v → ¬next.Live v → v ∈ tag.own) ∧
      (s.MarkerUnshared handle ↔
        ∀ v, s.Live v → ¬next.Live v → ∀ c ∈ next.accepted, c.expression.netCoefficient v = 0) ∧
      (s.MarkerUnshared handle → next.HandlesCurrent) := by
  obtain ⟨l, hs, has, hsustains⟩ := hrun.exists_sustains
  refine ⟨has.handlesCurrent.mp hsustains.current, fun handle limit next hremove => ?_⟩
  obtain ⟨l', hl, has'⟩ := has.answers (SolverM.remove handle limit)
    (fun _ => SolverM.corresponds_remove handle limit) hremove
  obtain ⟨tag, hfound, hwithdraws, hs', -⟩ := (SolverM.remove_ends hs handle limit).of_ok hl
  have htag := (SolverM.tag_eq_ok_iff.mp hfound).2
  rw [← has.markerUnshared, ← has'.accepted, ← has'.handlesCurrent, ← has.constraints]
  simp only [← has.live_iff, ← has'.live_iff]
  refine ⟨⟨tag, htag, Solver.not_live_of_role hwithdraws.marker_gone, fun v hv hgone => ?_⟩,
    hsustains.remove_spares_iff hs hs' htag hwithdraws, fun hunshared => ?_⟩
  · by_contra hother
    exact hgone ((Solver.live_iff_of_role (hwithdraws.others v hother)).mpr hv)
  · exact (hsustains.withdraws_unshared hs hs' htag hwithdraws hunshared).current

/-! ## A limit on the error of a wish -/

/-- The error of a wish for a width that is exceeded.  It marks the wish. -/
def above : Variable := ⟨⟨0⟩, ⟨1⟩, 0⟩

/-- The error of a wish for a width that is not reached. -/
def below : Variable := ⟨⟨0⟩, ⟨2⟩, 0⟩

/-- A wish for a width of 20, and a limit on one of its errors. -/
def borrowingCalls (error : Variable) : List (Call Rat) :=
  [.declare "width" .unrestricted,
    .add ⟨⟨-20, [(1, width)]⟩, .equal, some .low⟩,
    .errorVariables ⟨⟨0⟩, ⟨0⟩⟩,
    .add (.required ⟨-3, [(1, error)]⟩ .lessOrEqual)]

/-- The wish and the limit with default settings. -/
def borrowing (error : Variable) : List (Turn Rat) × Solver (Storage Rat) Rat :=
  (Solver.start {} ⟨0⟩).play 9 (borrowingCalls error)

/-- The solver after the wish was removed. -/
def returned (error : Variable) : Solver (Storage Rat) Rat :=
  SolverM.left (SolverM.remove ⟨⟨0⟩, ⟨0⟩⟩ 9) (borrowing error).2

/-- If the error below the wish is limited, it outlives the wish. -/
theorem handles_stay_current_below :
    (borrowing below).2.MarkerUnshared ⟨⟨0⟩, ⟨0⟩⟩ ∧
    SolverM.answer? (SolverM.remove ⟨⟨0⟩, ⟨0⟩⟩ 9) (borrowing below).2 = some (.ok ()) ∧
    (returned below).HandlesCurrent ∧
    (returned below).accepted = [.required ⟨-3, [(1, below)]⟩ .lessOrEqual] ∧
    (returned below).tableau.registry.resolve below = .ok below.id := by
  have hrun : Run {} ⟨0⟩ (borrowing below).1 (borrowing below).2 :=
    Run.start.play 9 (borrowingCalls below)
  have hcalls : (borrowing below).1.map Turn.call = borrowingCalls below := by decide +kernel
  have hcareful : CarefulRun {} ⟨0⟩ (borrowing below).1 (borrowing below).2 := by
    refine hrun.careful fun turn hturn handle hremove => ?_
    have hcall := List.mem_map_of_mem (f := Turn.call) hturn
    rw [hcalls, hremove] at hcall
    simp [borrowingCalls] at hcall
  have hunshared : (borrowing below).2.MarkerUnshared ⟨⟨0⟩, ⟨0⟩⟩ := by decide +kernel
  have hremoved : SolverM.answer? (SolverM.remove ⟨⟨0⟩, ⟨0⟩⟩ 9) (borrowing below).2 =
      some (.ok ()) := by decide +kernel
  obtain ⟨-, -, hcurrent⟩ :=
    (handles_stay_current hcareful).2 _ 9 _ (SolverM.answers_left hremoved)
  exact ⟨hunshared, hremoved, hcurrent hunshared, by decide +kernel, by decide +kernel⟩

/-- If the error above the wish is limited, which marks it, that error goes with it.  The limit
is still present and depends on it, but its handle is stale. -/
theorem borrowed_marker_released :
    Run {} ⟨0⟩ (borrowing above).1 (borrowing above).2 ∧ (borrowing above).1.length = 4 ∧
    SolverM.answer? (SolverM.remove ⟨⟨0⟩, ⟨0⟩⟩ 9) (borrowing above).2 = some (.ok ()) ∧
    (borrowing above).2.tableau.registry.resolve above = .ok above.id ∧
    (returned above).accepted = [.required ⟨-3, [(1, above)]⟩ .lessOrEqual] ∧
    (returned above).tableau.registry.resolve above = .error (.staleVariable above.id) :=
  ⟨Run.start.play 9 (borrowingCalls above), by decide +kernel, by decide +kernel, by decide +kernel,
    by decide +kernel, by decide +kernel⟩

end LexSimplex
