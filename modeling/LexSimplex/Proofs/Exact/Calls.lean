import LexSimplex.Proofs.Exact.Remove
import LexSimplex.Solver.Run

/-!
# What a call does

Every call on a sound solver leaves a sound solver, and its effect is one of a few
(`Effect`, `perform_effect`):

* nothing that matters changes, as for queries, refused calls and resolving;
* a constraint is accepted or withdrawn;
* a variable is declared or released;
* the solver starts over.

A history of calls is a sequence of such effects, so that whatever they preserve holds after every
run (`Run.sound`).
-/

namespace LexSimplex

open Tableau

namespace Solver

variable {s next : Solver LinearForm Rat}

/-- The constraints, the solutions and the variables are the same. -/
structure Keeps (s next : Solver LinearForm Rat) : Prop where
  books : s.SameBooks next
  holds : ∀ a, next.tableau.Holds a ↔ s.tableau.Holds a
  role : ∀ v, next.tableau.roleOf v = s.tableau.roleOf v
  session : next.tableau.registry.session = s.tableau.registry.session
  generation : ∀ v, (s.tableau.kindOf v).isSome →
    next.tableau.registry.generation? v = s.tableau.registry.generation? v

/-- A variable was declared. -/
structure Declares (s next : Solver LinearForm Rat) (v : Variable) (kind : VariableKind) : Prop where
  books : s.SameBooks next
  holds : ∀ a, next.tableau.Holds a ↔ s.tableau.Holds a
  new : s.tableau.registry.get? v.id = none
  role : next.tableau.roleOf v.id = some (kind, none)
  others : ∀ w, w ≠ v.id → next.tableau.roleOf w = s.tableau.roleOf w
  session : next.tableau.registry.session = s.tableau.registry.session
  generation : ∀ w, (s.tableau.kindOf w).isSome →
    next.tableau.registry.generation? w = s.tableau.registry.generation? w
  current : next.tableau.registry.resolve v = .ok v.id

/-- A variable that is not used was released. -/
structure Releases (s next : Solver LinearForm Rat) (v : Variable) : Prop where
  books : s.SameBooks next
  holds : ∀ a, next.tableau.Holds a ↔ s.tableau.Holds a
  current : s.tableau.registry.resolve v = .ok v.id
  unused : s.tableau.Unused v.id
  apart : ∀ tag, s.Present tag → v.id ∉ tag.own
  gone : next.tableau.roleOf v.id = none
  others : ∀ w, w ≠ v.id → next.tableau.roleOf w = s.tableau.roleOf w
  session : next.tableau.registry.session = s.tableau.registry.session
  generation : ∀ w, w ≠ v.id →
    next.tableau.registry.generation? w = s.tableau.registry.generation? w

/-- The solver is as at its start, in another session. -/
def Restarts (next : Solver LinearForm Rat) (session : SessionId) : Prop :=
  next.tableau = .start session ∧ next.constraints = .empty ∧ next.nextConstraint = .first

/-- The effect of a turn. -/
def Effect (s next : Solver LinearForm Rat) : Turn Rat → Prop
  | .answered (.declare _ kind) (.declared v) => s.Declares next v kind.toKind
  | .answered (.add c) (.added handle) => ∃ tag, tag.constraint = c ∧ s.Accepts next tag ∧
      next.Settled ∧ handle = ⟨s.session, s.nextConstraint⟩
  | .answered (.remove handle) .done => ∃ tag, s.tag handle = .ok tag ∧
      s.Withdraws next handle.number tag ∧ next.Settled
  | .answered .resolve (.resolved outcome) => s.Keeps next ∧ next.Settled ∧ outcome = .optimal
  | .answered (.release v) .done => s.Releases next v
  | .answered (.reset session) .done => next.Restarts session
  | .answered (.valueOf v) (.value x) => next = s ∧ x = s.tableau.value v.id
  | .answered (.errorVariables _) (.errors _) | .answered (.strengthOf _) (.strength _) => next = s
  | .answered _ _ => False
  | .refused (.add c) .unsatisfiable => s.Keeps next ∧
      (∀ term ∈ c.expression.terms, (s.tableau.kindOf term.2.id).isSome) ∧ c.strength = none ∧
      ∀ a, s.tableau.Feasible a → ¬c.Holds a
  | .refused (.add c) (.foreignVariable _) | .refused (.add c) (.staleVariable _) => next = s ∧
      ∃ term ∈ c.expression.terms, s.tableau.registry.resolve term.2 ≠ .ok term.2.id
  | .refused (.add _) _ | .refused .resolve _ => False
  | .refused _ cause => next = s ∧ cause ≠ .unsatisfiable

namespace Keeps

theorem of_agrees (hbooks : s.SameBooks next) (h : Agrees s.tableau next.tableau) : s.Keeps next :=
  ⟨hbooks, h.holds, h.role, h.session, fun v _ => h.generation v⟩

theorem of_narrows (hbooks : s.SameBooks next)
    (h : Narrows s.tableau next.tableau fun _ => True) : s.Keeps next :=
  ⟨hbooks, fun a => by rw [h.holds, and_true], h.role, h.session, h.generation⟩

theorem refl (s : Solver LinearForm Rat) : s.Keeps s :=
  ⟨⟨rfl, rfl⟩, fun _ => Iff.rfl, fun _ => rfl, rfl, fun _ _ => rfl⟩

end Keeps

namespace Effect

variable {turn : Turn Rat}

/-- A refused call changes nothing that matters. -/
theorem refused {call : Call Rat} {cause : SolverError} (h : s.Effect next (.refused call cause)) :
    s.Keeps next := by
  match call, cause, h with
  | .add _, .unsatisfiable, ⟨hkeeps, _⟩ => exact hkeeps
  | .add _, .foreignVariable _, hsame | .add _, .staleVariable _, hsame =>
      exact hsame.1 ▸ Keeps.refl s
  | .declare _ _, _, hsame | .remove _, _, hsame | .release _, _, hsame | .reset _, _, hsame
  | .valueOf _, _, hsame | .errorVariables _, _, hsame | .strengthOf _, _, hsame =>
      exact hsame.1 ▸ Keeps.refl s

/-- What a turn can have done. -/
theorem cases (h : s.Effect next turn) :
    s.Keeps next ∧ (∀ declared, turn.declaredAfter declared = declared) ∨
    (∃ name kind v, turn = .answered (.declare name kind) (.declared v) ∧
      s.Declares next v kind.toKind) ∨
    (∃ c handle tag, turn = .answered (.add c) (.added handle) ∧ tag.constraint = c ∧
      s.Accepts next tag) ∨
    (∃ handle tag, turn = .answered (.remove handle) .done ∧
      s.constraints.find? handle.number = some tag ∧ s.Withdraws next handle.number tag) ∨
    (∃ v, turn = .answered (.release v) .done ∧ s.Releases next v) ∨
    ∃ session, turn = .answered (.reset session) .done ∧ next.Restarts session := by
  match turn, h with
  | .answered (.declare name kind) (.declared v), hdeclares =>
      exact Or.inr (Or.inl ⟨name, kind, v, rfl, hdeclares⟩)
  | .answered (.add c) (.added handle), ⟨tag, hconstraint, haccepts, _⟩ =>
      exact Or.inr (Or.inr (Or.inl ⟨c, handle, tag, rfl, hconstraint, haccepts⟩))
  | .answered (.remove handle) .done, ⟨tag, htag, hwithdraws, _⟩ =>
      exact Or.inr (Or.inr (Or.inr (Or.inl
        ⟨handle, tag, rfl, (SolverM.tag_eq_ok_iff.mp htag).2, hwithdraws⟩)))
  | .answered (.release v) .done, hreleases =>
      exact Or.inr (Or.inr (Or.inr (Or.inr (Or.inl ⟨v, rfl, hreleases⟩))))
  | .answered (.reset session) .done, hrestarts =>
      exact Or.inr (Or.inr (Or.inr (Or.inr (Or.inr ⟨session, rfl, hrestarts⟩))))
  | .answered .resolve (.resolved _), ⟨hkeeps, _⟩ => exact Or.inl ⟨hkeeps, fun _ => rfl⟩
  | .answered (.valueOf _) (.value _), hsame =>
      exact Or.inl ⟨hsame.1 ▸ Keeps.refl s, fun _ => rfl⟩
  | .answered (.errorVariables _) (.errors _), hsame
  | .answered (.strengthOf _) (.strength _), hsame =>
      exact Or.inl ⟨hsame ▸ Keeps.refl s, fun _ => rfl⟩
  | .refused call cause, hrefused => exact Or.inl ⟨refused hrefused, fun _ => rfl⟩

end Effect

end Solver

namespace Tableau

variable {t : Tableau LinearForm Rat}

/-- The tableau of a new session. -/
theorem proper_start (session : SessionId) : (start session : Tableau LinearForm Rat).Proper where
  registry := Registry.sound_start session
  holes_nodup := List.nodup_nil
  mem_holes := by simp [start]
  row_basic := by
    intro id row hrow
    rw [row?_start] at hrow
    simp at hrow
  row_of_definition := by
    intro v id hdefined
    simp [definitionOf, start, Registry.start, Registry.get?] at hdefined
  terms_free := by
    intro id row v hrow
    rw [row?_start] at hrow
    simp at hrow
  goal := ⟨Goal.clean_zero, by simp [start, Goal.zero, Goal.coefficient?],
    by simp [start, Goal.zero, Goal.coefficient?]⟩
  artificial := by simp [start]
  settled := rfl

theorem roleOf_start (session : SessionId) (v : VariableId) :
    (start session : Tableau LinearForm Rat).roleOf v = none := by
  simp [roleOf, start, Registry.start, Registry.get?]

/-- Storing the values in the records keeps a tableau proper and in agreement. -/
theorem storeValues_spec (h : t.Proper) : t.storeValues.Proper ∧ Agrees t t.storeValues := by
  have hget : ∀ v, t.storeValues.registry.get? v = (t.registry.get? v).map fun record =>
      { record with value := t.valueBy record.definition } :=
    fun v => Registry.get?_mapRecords _ _ v
  refine ⟨h.reregister (Registry.sound_mapRecords h.registry _) fun v => Or.inl ?_, ?_⟩
  · unfold Registry.core?
    rw [Registry.get?_mapRecords, Option.map_map]
    rfl
  · refine ⟨fun _ => Iff.rfl, fun v => ?_, rfl, fun v => Registry.generation?_mapRecords _ _ v,
      fun _ _ _ => rfl, (Agrees.refl t).artificial⟩
    unfold roleOf
    rw [hget, Option.map_map]
    rfl

end Tableau

namespace SolverM

variable {s : Solver LinearForm Rat}

/-- A new variable without a definition. -/
theorem declares_of_allocate {next : Solver LinearForm Rat} (hs : s.Sound)
    (name : String) {kind : VariableKind} (hkind : kind ≠ .unknown) (hbooks : s.SameBooks next)
    (htableau : next.tableau = { s.tableau with
      registry := (s.tableau.registry.allocate ⟨name, kind, 0, none, none⟩).2 }) :
    next.Sound ∧
      s.Declares next (s.tableau.registry.allocate ⟨name, kind, 0, none, none⟩).1 kind := by
  have hext := (Extends.nil hs.proper).create ⟨name, kind, 0, none, none⟩ rfl
  rw [List.nil_append, ← htableau] at hext
  have hself := hext.role _ List.mem_cons_self
  have hnew := hext.new _ List.mem_cons_self
  have hdeclares : s.Declares next
      (s.tableau.registry.allocate ⟨name, kind, 0, none, none⟩).1 kind := {
    books := hbooks
    holds := fun a => hext.holds
    new := hnew
    role := hself
    others := fun w hw => hext.others w (by simpa using hw)
    session := hext.session
    generation := hext.generation
    current := by rw [htableau]; exact Registry.resolve_allocate hs.proper.registry _ }
  refine ⟨hs.of_same hbooks hext.proper (hext.artificial.trans hs.artificial) (fun w => ?_)
    (fun tag htag w hw => hdeclares.others w ?_) hdeclares.holds fun level a _ => ?_, hdeclares⟩
  · by_cases hw : w = (s.tableau.registry.allocate ⟨name, kind, 0, none, none⟩).1.id
    · rw [kindOf_eq_roleOf, hw, hdeclares.role, Option.map_some, ne_eq, Option.some.injEq]
      exact hkind
    · rw [kindOf_eq_roleOf, hdeclares.others w hw, ← kindOf_eq_roleOf]
      exact hs.known w
  · rintro rfl
    have hlive := (hs.formed tag htag).live hw
    rw [kindOf_of_dead hnew] at hlive
    simp at hlive
  · rw [htableau]

/-- Declaring a variable. -/
theorem declare_ends (hs : s.Sound) (name : String) (kind : DeclaredKind) :
    Ends (declare name kind) s (Returns fun v next => next.Sound ∧
      s.Declares next v kind.toKind) := by
  unfold declare
  simp only [ends_bind, ends_enter]
  refine (ends_create ?_).mpr ?_
  · exact hs.proper.registry
  exact declares_of_allocate hs name (by cases kind <;> simp [DeclaredKind.toKind]) ⟨rfl, rfl⟩ rfl

/-- Resolving. -/
theorem resolve_ends (hs : s.Sound) (limit : Nat) :
    Ends (resolve limit) s (ReturnsOr (Solver.Exhausted limit) fun outcome next => next.Sound ∧
      s.Keeps next ∧ next.Settled ∧ outcome = .optimal) := by
  unfold resolve
  refine (reoptimize_ends hs.proper hs.artificial (fun level a ha => hs.goal_nonneg ha level)
    limit).bindOr (fun _ hout => hout) ?_
  rintro outcome next ⟨hbooks, hproper, hagrees, hsettled, rfl⟩
  obtain ⟨hstored, hstoredAgrees⟩ := storeValues_spec hproper
  have hall := hagrees.trans hstoredAgrees
  refine ⟨hs.agrees hbooks hstored hall, Solver.Keeps.of_agrees hbooks hall, ?_, rfl⟩
  rintro v ⟨kind, vector, hkind, hcanEnter, hvector, hnegative⟩
  refine hsettled v ⟨kind, vector, ?_, hcanEnter, hvector, hnegative⟩
  rw [← hstoredAgrees.kindOf]
  exact hkind

/-- A variable that is not used was released. -/
theorem releases_of_unreferenced {v : Variable} (hs : s.Sound)
    (hcurrent : s.tableau.registry.resolve v = .ok v.id)
    (hapart : ∀ entry ∈ s.constraints.toList, v.id ∉ entry.2.own)
    (hanswer : s.tableau.isReferenced v.id = .ok false) {next : Solver LinearForm Rat}
    (hnext : next = { s with tableau := { s.tableau with
      registry := s.tableau.registry.releaseId v.id } }) : next.Sound ∧ s.Releases next v := by
  obtain ⟨-, -, -, hlive⟩ := Registry.resolve_eq_ok_iff.mp hcurrent
  obtain ⟨record, hrecord⟩ := Option.isSome_iff_exists.mp hlive
  obtain ⟨answer, hsame, hiff⟩ := isReferenced_eq_ok hrecord hs.artificial
  have hunused : s.tableau.Unused v.id := by
    rw [hanswer, Except.ok.injEq] at hsame
    exact hiff.mp hsame.symm
  have hfree : ∀ tag, s.Present tag → v.id ∉ tag.own := fun tag ⟨number, hfound⟩ =>
    hapart (number, tag) (SortedMap.find?_eq_some.mp hfound)
  subst hnext
  have hothers : ∀ w, w ≠ v.id →
      ({ s.tableau with registry := s.tableau.registry.releaseId v.id } :
        Tableau LinearForm Rat).roleOf w = s.tableau.roleOf w := by
    intro w hw
    unfold roleOf
    simp only
    rw [Registry.get?_releaseId, if_neg hw]
  have hgone : ({ s.tableau with registry := s.tableau.registry.releaseId v.id } :
      Tableau LinearForm Rat).roleOf v.id = none := by
    unfold roleOf
    simp only
    rw [Registry.get?_releaseId, if_pos rfl]
    rfl
  refine ⟨hs.of_same ⟨rfl, rfl⟩ (hs.proper.released hunused) hs.artificial (fun w => ?_)
    (fun tag htag w hw => hothers w ?_) (fun _ => Iff.rfl) fun _ _ _ => rfl, ⟨rfl, rfl⟩,
    fun _ => Iff.rfl, hcurrent, hunused, hfree, hgone, hothers, Registry.session_releaseId _ _,
    fun w hw => Registry.generation?_releaseId _ hw⟩
  · by_cases hw : w = v.id
    · rw [kindOf_eq_roleOf, hw, hgone]
      simp
    · rw [kindOf_eq_roleOf, hothers w hw, ← kindOf_eq_roleOf]
      exact hs.known w
  · rintro rfl
    exact hfree tag htag hw

end SolverM

open SolverM

namespace Solver

variable {s : Solver LinearForm Rat}

/-- A solver that starts over has no constraints. -/
theorem Restarts.not_present {session : SessionId} (h : s.Restarts session) (tag : Tag Rat) :
    ¬s.Present tag := by
  rintro ⟨number, hfound⟩
  rw [h.2.1] at hfound
  simp at hfound

/-- A solver that starts over is sound. -/
theorem Restarts.sound {session : SessionId} (h : s.Restarts session) : s.Sound := by
  have hempty := h.not_present
  obtain ⟨htableau, hconstraints, -⟩ := h
  refine {
    proper := htableau ▸ proper_start session
    artificial := by rw [htableau]; rfl
    known := fun v => ?_
    formed := fun tag htag => absurd htag (hempty tag)
    disjoint := fun hfound => absurd ⟨_, hfound⟩ (hempty _)
    numbered := fun hfound => absurd ⟨_, hfound⟩ (hempty _)
    goal := fun level a _ => ?_
    determined := fun a b _ _ hsame => funext fun v => hsame v fun tag htag =>
      absurd htag (hempty tag) }
  · rw [htableau, kindOf_eq_roleOf, roleOf_start]
    simp
  · have hgoal : s.tableau.goal = Goal.zero := by
      rw [htableau]
      rfl
    unfold penalties
    rw [hconstraints, SortedMap.weigh_empty, hgoal, Goal.level_eq]
    simp only [Goal.zero, StrengthVector.get_zero, SortedMap.weigh_empty, add_zero]

theorem sound_start (settings : Settings) (session : SessionId) :
    (start settings session : Solver LinearForm Rat).Sound := by
  have hrestarts : (start settings session : Solver LinearForm Rat).Restarts session :=
    ⟨rfl, rfl, rfl⟩
  exact hrestarts.sound

/-- The variables that a present constraint brought are live. -/
theorem Sound.own_live (hs : s.Sound) {handle : ConstraintHandle} {tag : Tag Rat}
    (htag : s.tag handle = .ok tag) {v : VariableId} (hv : v ∈ tag.own) :
    (s.tableau.registry.get? v).isSome := by
  rcases tag_cases s handle with ⟨found, hfound, -, hpresent⟩ | hunknown
  · rw [htag, Except.ok.injEq] at hfound
    subst hfound
    have hlive := (hs.formed tag ⟨_, hpresent⟩).live hv
    rwa [kindOf, Option.isSome_map] at hlive
  · rw [htag] at hunknown
    cases hunknown

/-- A call that came back had the effect of its turn and left a sound solver. -/
def Performs (s : Solver LinearForm Rat) (call : Call Rat) :
    Except Failure (Reply Rat) → Solver LinearForm Rat → Prop
  | .ok reply, next => next.Sound ∧ s.Effect next (.answered call reply)
  | .error (.error cause), next => next.Sound ∧ s.Effect next (.refused call cause)
  | .error _, _ => True

/-- A call that only reads. -/
theorem performs_of_reads {β : Type} {call : Call Rat} {read : SolverM LinearForm Rat β}
    {answer : β → Reply Rat} {post : Except Failure β → Solver LinearForm Rat → Prop}
    (hs : s.Sound) (hends : Ends read s post)
    (hreads : ∀ result next, post result next → Reads s result next)
    (hanswered : ∀ x, post (.ok x) s → s.Effect s (.answered call (answer x)))
    (hrefused : ∀ cause, cause ≠ .unsatisfiable → s.Effect s (.refused call cause)) :
    Ends (read >>= fun x => pure (answer x)) s (s.Performs call) := by
  rw [ends_bind]
  refine hends.mono ?_
  rintro (failure | x) next hpost
  · obtain ⟨cause, rfl, hmisuse, rfl⟩ := (hreads _ _ hpost).refused
    exact ⟨hs, hrefused cause (SolverError.ne_unsatisfiable hmisuse)⟩
  · obtain rfl : next = s := hreads _ _ hpost
    exact ⟨hs, hanswered x hpost⟩

/-- The effect of a call on a sound solver, which stays sound. -/
theorem perform_effect (hs : s.Sound) (call : Call Rat) (limit : Nat) :
    Ends (call.perform limit) s (s.Performs call) := by
  cases call with
  | declare name kind =>
      exact (declare_ends hs name kind).bind fun v next h => h
  | add c =>
      unfold Call.perform
      rw [ends_bind]
      refine (add_ends hs c limit).mono ?_
      rintro (failure | handle) next hadded
      · cases failure with
        | error cause =>
            cases cause with
            | unsatisfiable =>
                obtain ⟨hbooks, hsound, hnarrows, hrest⟩ := hadded
                exact ⟨hsound, Keeps.of_narrows hbooks hnarrows, hrest⟩
            | foreignVariable | staleVariable =>
                exact ⟨hadded.1 ▸ hs, hadded⟩
            | _ => exact hadded.elim
        | _ => trivial
      · obtain ⟨tag, hconstraint, haccepts, hsound, hsettled, hhandle⟩ := hadded
        exact ⟨hsound, tag, hconstraint, haccepts, hsettled, hhandle⟩
  | remove handle =>
      unfold Call.perform
      rw [ends_bind]
      refine (remove_ends hs handle limit).mono ?_
      rintro (failure | _) next hremoved
      · cases failure with
        | error cause =>
            cases cause with
            | unknownConstraint => exact ⟨hremoved.1 ▸ hs, hremoved.1, by simp⟩
            | _ => exact hremoved.elim
        | _ => trivial
      · obtain ⟨tag, htag, hwithdraws, hsound, hsettled⟩ := hremoved
        exact ⟨hsound, tag, htag, hwithdraws, hsettled⟩
  | resolve =>
      exact (resolve_ends hs limit).bindOr (fun _ _ => trivial) fun outcome next h => h
  | release v =>
      unfold Call.perform
      rw [ends_bind]
      refine (release_cases v).mono ?_
      rintro (failure | _) next hreleased
      · obtain ⟨cause, rfl, hmisuse, rfl⟩ := Reads.refused hreleased
        exact ⟨hs, rfl, SolverError.ne_unsatisfiable hmisuse⟩
      · obtain ⟨hcurrent, hapart, hanswer, hnext⟩ := hreleased
        exact releases_of_unreferenced hs hcurrent hapart hanswer hnext
  | reset session =>
      have hrestarts : ∀ next : Solver LinearForm Rat, next.Restarts session →
          next.Sound ∧ next.Restarts session :=
        fun next hnext => ⟨hnext.sound, hnext⟩
      exact hrestarts _ ⟨rfl, rfl, rfl⟩
  | valueOf v =>
      exact performs_of_reads hs (valueOf_ends v) (fun _ _ h => h.1)
        (fun x h => ⟨rfl, h.2 x rfl⟩) fun _ h => ⟨rfl, h⟩
  | errorVariables handle =>
      exact performs_of_reads hs (errorVariables_reads fun _ htag _ hv => hs.own_live htag hv)
        (fun _ _ h => h) (fun _ _ => rfl) fun _ h => ⟨rfl, h⟩
  | strengthOf handle =>
      exact performs_of_reads hs (strengthOf_reads handle) (fun _ _ h => h) (fun _ _ => rfl)
        fun _ h => ⟨rfl, h⟩

/-- What a call does to a sound solver before it optimises the goal: if that much succeeds the solver
is sound, if it runs out of steps a row is on its way into the basis, and in any case the tableau is
proper. -/
theorem opening_ends (hs : s.Sound) (call : Call Rat) (limit : Nat) :
    Ends (call.opening limit) s fun result next =>
      next.tableau.Proper ∧ (result = .ok () → next.Sound) ∧
      (result = .error .outOfSteps → s.SameBooks next ∧ Suspends s.tableau next.tableau) := by
  cases call with
  | add c =>
      unfold Call.opening
      rw [ends_bind]
      refine (accept_ends hs c limit).mono ?_
      rintro (failure | number) next haccepted
      · obtain ⟨-, hproper, hsuspends⟩ := haccepted
        exact ⟨hproper, by simp, fun hout => hsuspends (Except.error.inj hout)⟩
      · obtain ⟨-, tag, -, -, hsound⟩ := haccepted
        exact ⟨hsound.proper, fun _ => hsound, by simp⟩
  | remove handle =>
      refine (withdraw_ends hs handle).mono ?_
      rintro (failure | _) next hwithdrawn
      · obtain ⟨-, rfl, rfl⟩ := hwithdrawn
        exact ⟨hs.proper, by simp, by simp⟩
      · obtain ⟨tag, -, -, hsound⟩ := hwithdrawn
        exact ⟨hsound.proper, fun _ => hsound, by simp⟩
  | _ => exact ⟨hs.proper, fun _ => hs, by simp⟩

end Solver

/-! ## Runs -/

section Runs

variable {settings : Settings} {session : SessionId} {turns : List (Turn Rat)}
  {s next : Solver LinearForm Rat} {turn : Turn Rat}

/-- Whatever holds at the start and is kept by every effect on a sound solver holds after every
run. -/
theorem Run.preserves {P : List (Turn Rat) → Solver LinearForm Rat → Prop}
    (hstart : P [] (.start settings session))
    (hstep : ∀ turns turn s next, s.Sound → next.Sound → s.Effect next turn → P turns s →
      P (turns ++ [turn]) next)
    (hrun : Run settings session turns s) : s.Sound ∧ P turns s := by
  induction hrun with
  | start => exact ⟨Solver.sound_start settings session, hstart⟩
  | answered _ hperform ih =>
      obtain ⟨hsound, heffect⟩ := (Solver.perform_effect ih.1 _ _).of_ok hperform
      exact ⟨hsound, hstep _ _ _ _ ih.1 hsound heffect ih.2⟩
  | refused _ hperform ih =>
      obtain ⟨hsound, heffect⟩ := (Solver.perform_effect ih.1 _ _).of_error hperform
      exact ⟨hsound, hstep _ _ _ _ ih.1 hsound heffect ih.2⟩

/-- Every run leads to a sound solver. -/
theorem Run.sound (hrun : Run settings session turns s) : s.Sound :=
  (hrun.preserves (P := fun _ _ => True) trivial fun _ _ _ _ _ _ _ _ => trivial).1

/-- The last turn of a run had an effect on the solver that the turns before it led to. -/
theorem Run.last (hrun : Run settings session (turns ++ [turn]) next) :
    ∃ s : Solver LinearForm Rat, Run settings session turns s ∧ s.Effect next turn := by
  generalize hall : turns ++ [turn] = all at hrun
  cases hrun with
  | start => simp at hall
  | answered hbefore hperform =>
      obtain ⟨rfl, hturn⟩ := List.append_inj' hall rfl
      rw [List.singleton_inj] at hturn
      subst hturn
      exact ⟨_, hbefore, ((Solver.perform_effect hbefore.sound _ _).of_ok hperform).2⟩
  | refused hbefore hperform =>
      obtain ⟨rfl, hturn⟩ := List.append_inj' hall rfl
      rw [List.singleton_inj] at hturn
      subst hturn
      exact ⟨_, hbefore, ((Solver.perform_effect hbefore.sound _ _).of_error hperform).2⟩

end Runs

end LexSimplex
