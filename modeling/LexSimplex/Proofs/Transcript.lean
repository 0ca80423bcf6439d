import LexSimplex.Proofs.Storage.Agreement
import LexSimplex.Proofs.Transfer.Calls
import LexSimplex.Proofs.Transfer.SessionCalls

/-!
# Transcripts

A transcript notes for each call of a history what came back and what can be seen of the solver
afterwards (`Solver.transcript`).  Session numbers are left out of it: they differ from one solver to
the next, and nothing but the check of a handle looks at them.  In the same way two histories are the
same calls if they agree once every handle is replaced by the answer to the question whether it
belongs to the session at that time (`Call.seenAll`).

The transcript does not depend on how rows are stored (`Solver.transcript_mapStore`) nor on the
session (`Solver.transcript_forget`).  So every solver has the transcript of a solver with default
settings whose rows are plain sorted maps, and the settings cannot be told from it
(`settings_unobservable`).
-/

namespace LexSimplex

/-! ## What can be observed -/

/-- Leave out which session it is. -/
def SessionId.forget (_ : SessionId) : SessionId := ⟨0⟩

/-- Leave out which session it is, but not whether it is the one at hand. -/
def SessionId.seenFrom (σ τ : SessionId) : SessionId := if τ = σ then ⟨0⟩ else ⟨1⟩

namespace Call

variable {α : Type}

/-- A call with each handle reduced to whether it belongs to the session at hand. -/
def seenFrom (σ : SessionId) : Call α → Call α
  | add constraint => add (constraint.mapSession σ.seenFrom)
  | remove handle => remove (handle.mapSession σ.seenFrom)
  | release v => release (v.mapSession σ.seenFrom)
  | reset session => reset session.forget
  | valueOf v => valueOf (v.mapSession σ.seenFrom)
  | errorVariables handle => errorVariables (handle.mapSession σ.seenFrom)
  | strengthOf handle => strengthOf (handle.mapSession σ.seenFrom)
  | call => call

/-- The session after a call. -/
def sessionAfter (σ : SessionId) : Call α → SessionId
  | reset session => session
  | _ => σ

/-- The calls of a history, each as it is seen from the session of its time. -/
def seenAll (σ : SessionId) : List (Call α) → List (Call α)
  | [] => []
  | call :: calls => call.seenFrom σ :: seenAll (call.sessionAfter σ) calls

end Call

/-- The exchange that an event reports, if it reports one. -/
def Event.exchange? {α : Type} : Event α → Option Exchange
  | pivoted exchange => some exchange
  | _ => none

/-- What can be seen of a solver between calls, the number of its session apart. -/
structure View (α : Type) where
  rows : Nat
  constraints : Nat
  state : State
  counters : Counters
  /-- The records of the variables, with the generations of their numbers. -/
  slots : Array (Slot α)
  free : List VariableId
  live : Nat
  text : String
  /-- The pivots made so far, in order. -/
  pivots : List Exchange

namespace Solver

variable {S α : Type} [Scalar α] [RowStore S α]

/-- What can be seen of a solver. -/
def view (s : Solver S α) : View α where
  rows := s.tableau.rowCount
  constraints := s.constraints.size
  state := s.state
  counters := s.counters
  slots := s.tableau.registry.slots
  free := s.tableau.registry.free
  live := s.tableau.registry.live
  text := s.text
  pivots := s.journal.toList.filterMap Event.exchange?

/-- Make calls one after the other and note what comes back and what is seen afterwards.  A call that
does not come back is the last one. -/
def transcript (limit : Nat) (s : Solver S α) :
    List (Call α) → List (Except Failure (Reply α) × View α)
  | [] => []
  | call :: calls =>
      match (call.perform limit).run s with
      | .ok reply next => (.ok (reply.mapSession .forget), next.view) :: next.transcript limit calls
      | .error (.error cause) next =>
          (.error (.error (cause.mapSession .forget)), next.view) :: next.transcript limit calls
      | .error failure next => [(.error failure, next.view)]

end Solver

/-! ## Other storages -/

section Storages

variable {S T α : Type} [Scalar α] [RowStore S α] [RowStore T α] (m : StoreMap S T α)

theorem Tableau.text_mapStore (t : Tableau S α) : (t.mapStore m).text = t.text := by
  unfold text
  simp only [rowList_mapStore, List.map_map, Function.comp_def, Row.describe, Row.textWith,
    Row.basic_mapStore, Row.entries_mapStore, Row.constant_mapStore, registry_mapStore,
    goal_mapStore]

namespace Solver

theorem view_mapStore (s : Solver S α) : (s.mapStore m).view = s.view := by
  have hrows : (s.mapStore m).tableau.rowCount = s.tableau.rowCount :=
    Tableau.rowCount_mapStore m s.tableau
  have htext : (s.mapStore m).text = s.text := Tableau.text_mapStore m s.tableau
  unfold view
  rw [hrows, htext]
  rfl

/-- Solvers whose rows correspond have the same transcript. -/
theorem transcript_mapStore (limit : Nat) (s : Solver S α) (calls : List (Call α)) :
    (s.mapStore m).transcript limit calls = s.transcript limit calls := by
  induction calls generalizing s with
  | nil => rfl
  | cons call calls ih =>
      unfold transcript
      rw [call.perform_corresponds m limit s]
      cases (call.perform limit).run s with
      | ok reply next =>
          simp only [id_eq]
          rw [view_mapStore, ih next]
      | error failure next =>
          cases failure with
          | error cause =>
              simp only
              rw [view_mapStore, ih next]
          | access _ | outOfSteps | outOfNumbers =>
              simp only
              rw [view_mapStore]

end Solver

end Storages

/-! ## Other sessions -/

section Sessions

open SolverM
open Likeness (inSession)

variable {S α : Type} [Scalar α] [RowStore S α]

theorem SessionId.tells_seenFrom (σ : SessionId) : Tells forget σ σ.seenFrom := by
  intro τ
  unfold seenFrom forget
  by_cases hτ : τ = σ <;> simp [hτ]

/-- A call and what is seen of it are in step as long as the session lasts. -/
theorem Call.perform_inStep {σ : SessionId} (call : Call α) (limit : Nat)
    (hlasts : ∀ session, call ≠ .reset session) :
    InStep (inSession .forget σ) (fun reply reply' => reply' = reply.mapSession .forget)
      (call.perform limit : SolverM S α (Reply α)) ((call.seenFrom σ).perform limit) := by
  have htells := σ.tells_seenFrom
  cases call with
  | declare name kind =>
      refine ((inStep_enter _).bind fun _ _ _ => inStep_create name kind.toKind).bind ?_
      rintro v _ rfl
      exact inStep_pure rfl
  | add c =>
      refine (inStep_add htells c limit).bind ?_
      rintro handle _ rfl
      exact inStep_pure rfl
  | remove handle =>
      exact (inStep_remove htells handle limit).bind fun _ _ _ => inStep_pure rfl
  | resolve =>
      refine (inStep_resolve limit).bind ?_
      rintro outcome _ rfl
      exact inStep_pure rfl
  | release v => exact (inStep_release htells v).bind fun _ _ _ => inStep_pure rfl
  | reset session => exact absurd rfl (hlasts session)
  | valueOf v =>
      refine (inStep_valueOf htells v).bind ?_
      rintro x _ rfl
      exact inStep_pure rfl
  | errorVariables handle =>
      refine (inStep_errorVariables htells handle).bind ?_
      rintro errors _ rfl
      exact inStep_pure rfl
  | strengthOf handle =>
      refine (inStep_strengthOf htells handle).bind ?_
      rintro strength _ rfl
      exact inStep_pure rfl

/-- A call on a solver and what is seen of it on the solver without its session number end alike, and
the solver is then in the session that the call leads to. -/
theorem Call.perform_forget (call : Call α) (limit : Nat) (s : Solver S α) :
    (∃ reply next, (call.perform limit).run s = .ok reply next ∧
      ((call.seenFrom s.session).perform limit).run (s.mapSession .forget) =
        .ok (reply.mapSession .forget) (next.mapSession .forget) ∧
      next.session = call.sessionAfter s.session) ∨
    ∃ failure failure' next, (call.perform limit).run s = .error failure next ∧
      ((call.seenFrom s.session).perform limit).run (s.mapSession .forget) =
        .error failure' (next.mapSession .forget) ∧
      failure.UpToSession failure' ∧ next.session = call.sessionAfter s.session := by
  by_cases hreset : ∃ session, call = .reset session
  · -- A reset starts the new session whatever the old one was.
    obtain ⟨session, rfl⟩ := hreset
    refine Or.inl ⟨.done, _, rfl, ?_, rfl⟩
    have hsize : (s.mapSession .forget).constraints.size = s.constraints.size :=
      SortedMap.size_map _ _
    have hjournal : (s.mapSession .forget).journal ++
        #[Event.reset (s.mapSession .forget).constraints.size s.tableau.rowCount] =
          (s.journal ++ #[Event.reset s.constraints.size s.tableau.rowCount]).map
            (Event.mapSession .forget) := by
      rw [hsize]
      simp [Solver.mapSession, Event.mapSession]
    show EStateM.Result.ok Reply.done ({ s.mapSession .forget with
      tableau := .start ⟨0⟩
      constraints := .empty
      nextConstraint := .first
      state := .empty
      counters := { s.counters with resets := s.counters.resets + 1 }
      journal := (s.mapSession .forget).journal ++
        #[.reset (s.mapSession .forget).constraints.size s.tableau.rowCount] } : Solver S α) = _
    rw [hjournal]
    rfl
  · have hlasts : ∀ session, call ≠ .reset session := fun session h => hreset ⟨session, h⟩
    have hafter : call.sessionAfter s.session = s.session := by
      cases call with
      | reset session => exact absurd rfl (hlasts session)
      | _ => rfl
    rw [hafter]
    rcases (call.perform_inStep (S := S) limit hlasts).cases ⟨rfl, rfl⟩ with
      ⟨reply, _, next, _, hrun, hrun', rfl, rfl, hsession⟩ |
      ⟨failure, failure', next, _, hrun, hrun', hfailure, rfl, hsession⟩
    · exact Or.inl ⟨reply, next, hrun, hrun', hsession⟩
    · exact Or.inr ⟨failure, failure', next, hrun, hrun', hfailure, hsession⟩

omit [Scalar α] in
theorem Reply.mapSession_forget (reply : Reply α) :
    (reply.mapSession .forget).mapSession .forget = reply.mapSession .forget := by
  cases reply with
  | errors vs =>
      show Reply.errors _ = Reply.errors _
      rw [List.map_map]
      rfl
  | _ => rfl

namespace Solver

omit [RowStore S α] in
theorem start_forget (settings : Settings) (session : SessionId) :
    (start settings session : Solver S α).mapSession .forget = start settings ⟨0⟩ := by
  have hjournal : (#[] : Array (Event α)).map (Event.mapSession .forget) = #[] := Array.map_empty
  unfold mapSession start
  simp only [hjournal]
  rfl

theorem view_forget (s : Solver S α) : (s.mapSession .forget).view = s.view := by
  have hsize : (s.mapSession .forget).constraints.size = s.constraints.size :=
    SortedMap.size_map _ _
  have hpivots : (s.mapSession .forget).journal.toList.filterMap Event.exchange? =
      s.journal.toList.filterMap Event.exchange? := by
    show (s.journal.map (Event.mapSession .forget)).toList.filterMap _ = _
    rw [Array.toList_map, List.filterMap_map]
    refine congrArg (fun f => List.filterMap f _) (funext fun event => ?_)
    cases event <;> rfl
  unfold view
  rw [hsize, hpivots]
  rfl

/-- A solver has the same transcript without its session number. -/
theorem transcript_forget (limit : Nat) (s : Solver S α) (calls : List (Call α)) :
    (s.mapSession .forget).transcript limit (Call.seenAll s.session calls) =
      s.transcript limit calls := by
  induction calls generalizing s with
  | nil => rfl
  | cons call calls ih =>
      unfold Call.seenAll transcript
      rcases call.perform_forget limit s with ⟨reply, next, hrun, hrun', hsession⟩ |
        ⟨failure, failure', next, hrun, hrun', hfailure, hsession⟩
      · rw [hrun, hrun', ← hsession]
        simp only
        rw [view_forget, ih next, Reply.mapSession_forget]
      · rw [hrun, hrun', ← hsession]
        cases hfailure with
        | same =>
            cases failure with
            | error cause =>
                simp only
                rw [view_forget, ih next]
            | access _ | outOfSteps | outOfNumbers =>
                simp only
                rw [view_forget]
        | marker marker hnumber =>
            -- The failures differ in the session of a handle, which the transcript leaves out.
            simp only [SolverError.mapSession, Inconsistency.mapSession,
              ConstraintHandle.mapSession, hnumber]
            rw [view_forget, ih next]
            rfl

end Solver

end Sessions

/-! ## Settings -/

variable {α : Type} [Scalar α]

/-- Forget the storage and the settings. -/
def Paired.toPlain (S : Type) [RowStore S α] [LawfulStore S α] :
    StoreMap (Paired S α) (SortedMap VariableId α) α :=
  { Paired.toMap S α with
    settings := fun _ => {}
    forRow := fun _ _ => rfl }

/-- Every solver that starts has the transcript of one with default settings over sorted maps, driven
by the calls as they are seen from its session. -/
theorem Solver.transcript_start {S : Type} [RowStore S α] [LawfulStore S α] (settings : Settings)
    (session : SessionId) (limit : Nat) (calls : List (Call α)) :
    (start settings session : Solver S α).transcript limit calls =
      (start {} ⟨0⟩ : Solver (SortedMap VariableId α) α).transcript limit
        (Call.seenAll session calls) := by
  let paired : Solver (Paired S α) α := start settings session
  let plain : Solver (SortedMap VariableId α) α := start {} session
  calc (start settings session : Solver S α).transcript limit calls
      = (paired.mapStore (Paired.toStore S α)).transcript limit calls := by
        rw [Solver.start_mapStore]
        rfl
    _ = (paired.mapStore (Paired.toPlain S)).transcript limit calls := by
        rw [transcript_mapStore, transcript_mapStore]
    _ = plain.transcript limit calls := by
        rw [Solver.start_mapStore]
        rfl
    _ = (plain.mapSession .forget).transcript limit (Call.seenAll session calls) :=
        (transcript_forget limit plain calls).symm
    _ = (start {} ⟨0⟩ : Solver (SortedMap VariableId α) α).transcript limit
        (Call.seenAll session calls) := by rw [start_forget]

/-- Two solvers that are started with any two settings and driven by the same calls give the same
answers, make the same pivots and look the same after every call.  Their sessions, and those of the
handles in the calls, may differ. -/
theorem settings_unobservable (settings settings' : Settings) (session session' : SessionId)
    (limit : Nat) (calls calls' : List (Call α))
    (hsame : Call.seenAll session calls = Call.seenAll session' calls') :
    (Solver.start settings session : Solver (Storage α) α).transcript limit calls =
      (Solver.start settings' session' : Solver (Storage α) α).transcript limit calls' := by
  rw [Solver.transcript_start settings session, Solver.transcript_start settings' session', hsame]

/-- A history over sessions of one's choice: a soft constraint is added, a constraint of another
session is removed in vain, and after a reset the old variable is asked for. -/
def wanderingCalls (own other later : SessionId) : List (Call Rat) :=
  [.declare "width" .unrestricted,
    .add ⟨⟨-20, [(1, ⟨own, ⟨0⟩, 0⟩)]⟩, .equal, some .low⟩,
    .errorVariables ⟨own, ⟨0⟩⟩,
    .remove ⟨other, ⟨0⟩⟩,
    .reset later,
    .valueOf ⟨own, ⟨0⟩, 0⟩]

/-- Hashed rows in one session and dense rows in another give the same transcript. -/
theorem settings_unobservable_wandering :
    Call.seenAll ⟨0⟩ (wanderingCalls ⟨0⟩ ⟨5⟩ ⟨1⟩) = Call.seenAll ⟨7⟩ (wanderingCalls ⟨7⟩ ⟨2⟩ ⟨8⟩) ∧
      (Solver.start { storage := .hashed } ⟨0⟩ : Solver (Storage Rat) Rat).transcript 9
          (wanderingCalls ⟨0⟩ ⟨5⟩ ⟨1⟩) =
        (Solver.start { storage := .dense, denseSearchThreshold := 0 } ⟨7⟩ :
          Solver (Storage Rat) Rat).transcript 9 (wanderingCalls ⟨7⟩ ⟨2⟩ ⟨8⟩) :=
  ⟨by decide, settings_unobservable _ _ ⟨0⟩ ⟨7⟩ 9 _ _ (by decide)⟩

end LexSimplex
