import LexSimplex.Pool
import LexSimplex.Proofs.Registry.Narrow

/-!
# The lifetime of a handle

Several registries draw their sessions from one counter, and each of them hands out its numbers again
and again.  A ledger carries out calls on the registries and notes which handles were handed out and
taken back (`Ledger.play`).  From the notes alone one can tell what became of a handle; that the
registries tell the same is shown in two steps:

* within a session a registry agrees with what was handed out and taken back since its last reset
  (`NarrowRegistry.Tracks`), as long as it has no more than `2 ^ 32` slots and none of its numbers was
  released `2 ^ 32` times;
* a handle with the session of a registry was handed out by it since its last reset, as long as there
  are no more than `2 ^ 32` sessions (`Ledger.Faithful`).

So a registry recognises exactly the handles that it handed out since its last reset and did not take
back (`handles_recognised`).  With one slot more it hands out the number of its first slot again while
that is in use (`handles_recognised_crowded`).
-/

namespace LexSimplex

/-! ## Calls and notes -/

/-- A call on one of several registries, or a new registry. -/
inductive RegistryCall where
  | start
  | create (index : Nat) (name : String) (kind : VariableKind)
  | createError (index : Nat) (name : String) (strength : Strength)
  | release (index : Nat) (v : NarrowHandle)
  | reset (index : Nat)

/-- What is noted about a call. -/
inductive Note (α : Type) where
  | started
  | issued (index : Nat) (v : NarrowHandle) (record : Record α)
  | released (index : Nat) (v : NarrowHandle)
  | restarted (index : Nat)

namespace Note

variable {α : Type}

/-- The handles that a registry handed out since its last reset, each with the record it was created
with; the latest note comes first. -/
def issuedBy (index : Nat) : List (Note α) → List (NarrowHandle × Record α)
  | [] => []
  | issued place v record :: earlier =>
      if place = index then (v, record) :: issuedBy index earlier else issuedBy index earlier
  | restarted place :: earlier => if place = index then [] else issuedBy index earlier
  | _ :: earlier => issuedBy index earlier

/-- The handles that a registry took back since its last reset. -/
def releasedBy (index : Nat) : List (Note α) → List NarrowHandle
  | [] => []
  | released place v :: earlier =>
      if place = index then v :: releasedBy index earlier else releasedBy index earlier
  | restarted place :: earlier => if place = index then [] else releasedBy index earlier
  | _ :: earlier => releasedBy index earlier

/-- The handles that a registry handed out since its last reset and did not take back. -/
def heldBy (index : Nat) (notes : List (Note α)) : List (NarrowHandle × Record α) :=
  (issuedBy index notes).filter fun entry => entry.1 ∉ releasedBy index notes

theorem heldBy_of_released_eq_nil {index : Nat} {notes : List (Note α)}
    (h : releasedBy index notes = []) : heldBy index notes = issuedBy index notes := by
  unfold heldBy
  rw [h]
  exact List.filter_eq_self.mpr fun entry _ => decide_eq_true List.not_mem_nil

/-- All handles ever handed out by any registry. -/
def everIssued : List (Note α) → List NarrowHandle
  | [] => []
  | issued _ v _ :: earlier => v :: everIssued earlier
  | _ :: earlier => everIssued earlier

/-- The number of sessions of all registries. -/
def sessions : List (Note α) → Nat
  | [] => 0
  | started :: earlier | restarted _ :: earlier => sessions earlier + 1
  | _ :: earlier => sessions earlier

end Note

open Note NarrowRegistry

/-- Registries and the notes about what happened to their handles. -/
structure Ledger (α : Type) where
  pool : Pool (NarrowRegistry α)
  notes : List (Note α)

namespace Ledger

section Plain

variable {α : Type} (l : Ledger α)

/-- A registry is added. -/
def start : Ledger α := ⟨l.pool.join NarrowRegistry.start, started :: l.notes⟩

/-- A registry hands out a handle for a record. -/
def issue (index : Nat) (r : NarrowRegistry α) (record : Record α) : Ledger α :=
  ⟨l.pool.set index (r.allocate record).2, issued index (r.allocate record).1 record :: l.notes⟩

/-- A registry takes back a handle. -/
def retire (index : Nat) (r : NarrowRegistry α) (v : NarrowHandle) : Ledger α :=
  ⟨l.pool.set index (r.releaseId v.id), released index v :: l.notes⟩

/-- A registry starts over. -/
def restart (index : Nat) : Ledger α :=
  ⟨l.pool.renew index fun session r => r.reset session, restarted index :: l.notes⟩

end Plain

variable {α : Type} [Scalar α]

/-- Carry out a call.  A call on a registry that does not exist changes nothing, and neither does the
release of a handle that is not recognised. -/
def step (l : Ledger α) : RegistryCall → Ledger α
  | .start => l.start
  | .create index name kind =>
      match l.pool.members[index]? with
      | none => l
      | some r =>
          let (v, next) := r.create name kind
          ⟨l.pool.set index next, issued index v ⟨name, kind, 0, none, none⟩ :: l.notes⟩
  | .createError index name strength =>
      match l.pool.members[index]? with
      | none => l
      | some r =>
          let (v, next) := r.createError name strength
          let record := ⟨name, .error, 0, none, some (.unit strength)⟩
          ⟨l.pool.set index next, issued index v record :: l.notes⟩
  | .release index v =>
      match l.pool.members[index]? with
      | none => l
      | some r =>
          match r.release v with
          | .ok next => ⟨l.pool.set index next, released index v :: l.notes⟩
          | .error _ => l
  | .reset index =>
      match l.pool.members[index]? with
      | none => l
      | some _ => l.restart index

/-- Carry out calls one after the other, starting without registries. -/
def play (calls : List RegistryCall) : Ledger α := calls.foldl step ⟨.empty, []⟩

theorem play_concat (calls : List RegistryCall) (call : RegistryCall) :
    (play (calls ++ [call]) : Ledger α) = (play calls).step call :=
  List.foldl_concat ..

/-- What a call can do. -/
theorem step_cases (l : Ledger α) (call : RegistryCall) :
    l.step call = l ∨ l.step call = l.start ∨
    (∃ index r record, l.pool.members[index]? = some r ∧ l.step call = l.issue index r record) ∨
    (∃ index r v, l.pool.members[index]? = some r ∧ r.resolve v = .ok v.id ∧
      l.step call = l.retire index r v) ∨
    ∃ index r, l.pool.members[index]? = some r ∧ l.step call = l.restart index := by
  cases call with
  | start => exact Or.inr (Or.inl rfl)
  | create index name kind =>
      rw [step]
      cases hr : l.pool.members[index]? with
      | none => exact Or.inl rfl
      | some r => exact Or.inr (Or.inr (Or.inl ⟨index, r, _, hr, rfl⟩))
  | createError index name strength =>
      rw [step]
      cases hr : l.pool.members[index]? with
      | none => exact Or.inl rfl
      | some r => exact Or.inr (Or.inr (Or.inl ⟨index, r, _, hr, rfl⟩))
  | release index v =>
      rw [step]
      cases hr : l.pool.members[index]? with
      | none => exact Or.inl rfl
      | some r =>
          simp only
          rw [NarrowRegistry.release]
          cases hresolve : r.resolve v with
          | error cause => exact Or.inl rfl
          | ok id =>
              obtain rfl := NarrowRegistry.id_of_resolve hresolve
              exact Or.inr (Or.inr (Or.inr (Or.inl ⟨index, r, v, hr, hresolve, rfl⟩)))
  | reset index =>
      rw [step]
      cases hr : l.pool.members[index]? with
      | none => exact Or.inl rfl
      | some r => exact Or.inr (Or.inr (Or.inr (Or.inr ⟨index, r, hr, rfl⟩)))

end Ledger

namespace Pool

variable {σ : Type} {p : Pool σ} {index : Nat} {member : σ}

theorem getElem?_join (p : Pool σ) (make : SessionId → σ) (place : Nat) :
    (p.join make).members[place]? =
      if place = p.members.size then some (make ⟨p.nextSession⟩) else p.members[place]? := by
  unfold join
  rw [Array.getElem?_push]

theorem getElem?_set (h : p.members[index]? = some member) (next : σ) (place : Nat) :
    (p.set index next).members[place]? =
      if place = index then some next else p.members[place]? := by
  have hlt := (Array.getElem?_eq_some_iff.mp h).1
  unfold set
  rw [Array.getElem?_setIfInBounds]
  by_cases hplace : index = place
  · rw [if_pos hplace, if_pos hlt, if_pos hplace.symm]
  · rw [if_neg hplace, if_neg (Ne.symm hplace)]

theorem getElem?_renew (h : p.members[index]? = some member) (restart : SessionId → σ → σ)
    (place : Nat) : (p.renew index restart).members[place]? =
      if place = index then some (restart ⟨p.nextSession⟩ member) else p.members[place]? := by
  unfold renew
  rw [Array.getElem?_modify]
  by_cases hplace : index = place
  · subst hplace
    rw [if_pos rfl, if_pos rfl, h]
    rfl
  · rw [if_neg hplace, if_neg (Ne.symm hplace)]

end Pool

/-! ## Several registries -/

namespace Ledger

variable {α : Type} {l : Ledger α} {index : Nat} {r : NarrowRegistry α}

/-- The registries agree with the notes.  Sessions are numbered in the order in which they started;
as long as the numbers do not repeat, no two registries have the same session, and a handle with the
session of a registry was handed out by it since its last reset. -/
structure Faithful (l : Ledger α) : Prop where
  unused : ∀ place, l.pool.members.size ≤ place →
    issuedBy place l.notes = [] ∧ releasedBy place l.notes = []
  next : l.pool.nextSession = .ofNat (sessions l.notes)
  members : ∀ {place : Nat} {r : NarrowRegistry α}, l.pool.members[place]? = some r →
    ∃ k < sessions l.notes, r.session = ⟨.ofNat k⟩
  handles : ∀ v ∈ everIssued l.notes, ∃ k < sessions l.notes, v.session = ⟨.ofNat k⟩
  tracks : ∀ {place : Nat} {r : NarrowRegistry α}, l.pool.members[place]? = some r →
    r.slots.size ≤ 2 ^ 32 → (∀ id, releases (releasedBy place l.notes) id < 2 ^ 32) →
      r.Tracks (issuedBy place l.notes) (releasedBy place l.notes)
  apart : sessions l.notes ≤ 2 ^ 32 → ∀ {place other : Nat} {r r' : NarrowRegistry α},
    l.pool.members[place]? = some r → l.pool.members[other]? = some r' →
      r.session = r'.session → place = other
  own : sessions l.notes ≤ 2 ^ 32 → ∀ {place : Nat} {r : NarrowRegistry α},
    l.pool.members[place]? = some r → ∀ v ∈ everIssued l.notes, v.session = r.session →
      v ∈ (issuedBy place l.notes).map Prod.fst

namespace Faithful

theorem empty : (⟨.empty, []⟩ : Ledger α).Faithful where
  unused := fun _ _ => ⟨rfl, rfl⟩
  next := rfl
  members := by simp [Pool.empty]
  handles := by simp [everIssued]
  tracks := by simp [Pool.empty]
  apart := by simp [Pool.empty]
  own := by simp [Pool.empty]

/-- The next session is none of those so far. -/
theorem next_ne (h : l.Faithful) (hsessions : sessions l.notes < 2 ^ 32) {k : Nat}
    (hk : k < sessions l.notes) : (⟨l.pool.nextSession⟩ : SessionId) ≠ ⟨.ofNat k⟩ := by
  intro heq
  rw [h.next, SessionId.mk.injEq] at heq
  have hsame := eq_of_ofNat_eq hsessions (by omega) heq
  omega

theorem next_ne_member (h : l.Faithful) (hsessions : sessions l.notes < 2 ^ 32)
    (hr : l.pool.members[index]? = some r) : (⟨l.pool.nextSession⟩ : SessionId) ≠ r.session := by
  obtain ⟨k, hk, hsession⟩ := h.members hr
  rw [hsession]
  exact h.next_ne hsessions hk

theorem next_ne_handle (h : l.Faithful) (hsessions : sessions l.notes < 2 ^ 32) {v : NarrowHandle}
    (hv : v ∈ everIssued l.notes) : v.session ≠ ⟨l.pool.nextSession⟩ := by
  obtain ⟨k, hk, hsession⟩ := h.handles v hv
  rw [hsession]
  exact (h.next_ne hsessions hk).symm

/-- One registry starts a session, and the notes about it start afresh. -/
theorem renewed (h : l.Faithful) (index : Nat) {l' : Ledger α}
    (hnext : l'.pool.nextSession = l.pool.nextSession + 1)
    (hsize : l.pool.members.size ≤ l'.pool.members.size) (hindex : index < l'.pool.members.size)
    (hget : ∀ place : Nat, l'.pool.members[place]? =
      if place = index then some (.start ⟨l.pool.nextSession⟩) else l.pool.members[place]?)
    (hsessions : sessions l'.notes = sessions l.notes + 1)
    (hever : everIssued l'.notes = everIssued l.notes)
    (hhere : issuedBy index l'.notes = [] ∧ releasedBy index l'.notes = [])
    (hthere : ∀ place, place ≠ index → issuedBy place l'.notes = issuedBy place l.notes ∧
      releasedBy place l'.notes = releasedBy place l.notes) : l'.Faithful where
  unused := by
    intro place hplace
    obtain ⟨hissued, hreleased⟩ := hthere place (by omega)
    rw [hissued, hreleased]
    exact h.unused place (by omega)
  next := by
    rw [hnext, h.next, hsessions, UInt32.ofNat_add]
    rfl
  members := by
    intro place r hr
    rw [hget] at hr
    split at hr
    next =>
      cases hr
      exact ⟨sessions l.notes, by omega, congrArg SessionId.mk h.next⟩
    next =>
      obtain ⟨k, hk, hsession⟩ := h.members hr
      exact ⟨k, by omega, hsession⟩
  handles := by
    intro v hv
    obtain ⟨k, hk, hsession⟩ := h.handles v (hever ▸ hv)
    exact ⟨k, by omega, hsession⟩
  tracks := by
    intro place r hr hslots hbound
    rw [hget] at hr
    split at hr
    next hplace =>
      cases hr
      rw [hplace, hhere.1, hhere.2]
      exact NarrowRegistry.tracks_start _
    next hplace =>
      obtain ⟨hissued, hreleased⟩ := hthere place hplace
      rw [hreleased] at hbound
      rw [hissued, hreleased]
      exact h.tracks hr hslots hbound
  apart := by
    intro hall place other r r' hr hr' hsession
    rw [hget] at hr hr'
    split at hr
    next hplace =>
      split at hr'
      next hother => rw [hplace, hother]
      next =>
        cases hr
        exact absurd hsession (h.next_ne_member (by omega) hr')
    next =>
      split at hr'
      next =>
        cases hr'
        exact absurd hsession.symm (h.next_ne_member (by omega) hr)
      next => exact h.apart (by omega) hr hr' hsession
  own := by
    intro hall place r hr v hv hsession
    rw [hever] at hv
    rw [hget] at hr
    split at hr
    next =>
      cases hr
      exact absurd hsession (h.next_ne_handle (by omega) hv)
    next hplace =>
      rw [(hthere place hplace).1]
      exact h.own (by omega) hr v hv hsession

/-- One registry goes on with its session. -/
theorem served (h : l.Faithful) (hr : l.pool.members[index]? = some r) {l' : Ledger α}
    {next : NarrowRegistry α} (hpool : l'.pool = l.pool.set index next)
    (hsession : next.session = r.session) (hsessions : sessions l'.notes = sessions l.notes)
    (hever : ∀ v ∈ everIssued l'.notes, v ∈ everIssued l.notes ∨
      v.session = r.session ∧ v ∈ (issuedBy index l'.notes).map Prod.fst)
    (hgrow : issuedBy index l.notes ⊆ issuedBy index l'.notes)
    (hthere : ∀ place, place ≠ index → issuedBy place l'.notes = issuedBy place l.notes ∧
      releasedBy place l'.notes = releasedBy place l.notes)
    (htracks : next.slots.size ≤ 2 ^ 32 →
      (∀ id, releases (releasedBy index l'.notes) id < 2 ^ 32) →
      next.Tracks (issuedBy index l'.notes) (releasedBy index l'.notes)) : l'.Faithful := by
  have hget : ∀ place : Nat, l'.pool.members[place]? =
      if place = index then some next else l.pool.members[place]? :=
    fun place => by rw [hpool, Pool.getElem?_set hr]
  -- The session at a place is the one that was there before.
  have hbefore : ∀ {place : Nat} {r' : NarrowRegistry α}, l'.pool.members[place]? = some r' →
      ∃ old, l.pool.members[place]? = some old ∧ r'.session = old.session := by
    intro place r' hr'
    rw [hget] at hr'
    split at hr'
    next hplace =>
      cases hr'
      exact ⟨r, hplace ▸ hr, hsession⟩
    next => exact ⟨r', hr', rfl⟩
  refine {
    unused := fun place hplace => ?_
    next := by rw [hpool, hsessions]; exact h.next
    members := fun hmember => ?_
    handles := fun v hv => ?_
    tracks := fun {place r'} hr' hslots hbound => ?_
    apart := fun hall {place other r' r''} hr' hr'' hsame => ?_
    own := fun hall {place r'} hr' v hv hsame => ?_ }
  · have hlt := (Array.getElem?_eq_some_iff.mp hr).1
    have hsize : l'.pool.members.size = l.pool.members.size := by
      rw [hpool]
      exact Array.size_setIfInBounds
    obtain ⟨hissued, hreleased⟩ := hthere place (by omega)
    rw [hissued, hreleased]
    exact h.unused place (by omega)
  · obtain ⟨old, hold, hsame⟩ := hbefore hmember
    rw [hsessions, hsame]
    exact h.members hold
  · rw [hsessions]
    rcases hever v hv with hold | ⟨hsame, -⟩
    · exact h.handles v hold
    · rw [hsame]
      exact h.members hr
  · rw [hget] at hr'
    split at hr'
    next hplace =>
      cases hr'
      subst hplace
      exact htracks hslots hbound
    next hplace =>
      obtain ⟨hissued, hreleased⟩ := hthere place hplace
      rw [hreleased] at hbound
      rw [hissued, hreleased]
      exact h.tracks hr' hslots hbound
  · obtain ⟨old, hold, hsame'⟩ := hbefore hr'
    obtain ⟨old', hold', hsame''⟩ := hbefore hr''
    exact h.apart (hsessions ▸ hall) hold hold' (hsame'.symm.trans (hsame.trans hsame''))
  · rw [hsessions] at hall
    obtain ⟨old, hold, hsame'⟩ := hbefore hr'
    rw [hsame'] at hsame
    rcases hever v hv with hissued | ⟨hsession', hissued⟩
    · have hmem := h.own hall hold v hissued hsame
      by_cases hplace : place = index
      · subst hplace
        exact List.map_subset Prod.fst hgrow hmem
      · rwa [(hthere place hplace).1]
    · obtain rfl := h.apart hall hold hr (hsame.symm.trans hsession')
      exact hissued

theorem start (h : l.Faithful) : l.start.Faithful := by
  refine h.renewed l.pool.members.size rfl ?_ ?_ (l.pool.getElem?_join NarrowRegistry.start)
    rfl rfl (h.unused _ (Nat.le_refl _)) fun _ _ => ⟨rfl, rfl⟩
  · exact Nat.le_of_lt (by simp [Ledger.start, Pool.join])
  · simp [Ledger.start, Pool.join]

theorem restart (h : l.Faithful) (hr : l.pool.members[index]? = some r) :
    (l.restart index).Faithful := by
  have hsize : (l.restart index).pool.members.size = l.pool.members.size := Array.size_modify
  have hlt := (Array.getElem?_eq_some_iff.mp hr).1
  refine h.renewed index rfl (by omega) (by omega)
    (Pool.getElem?_renew hr fun session r => r.reset session) rfl rfl ?_ fun place hplace => ?_
  · simp [Ledger.restart, issuedBy, releasedBy]
  · simp [Ledger.restart, issuedBy, releasedBy, Ne.symm hplace]

theorem issue (h : l.Faithful) (hr : l.pool.members[index]? = some r) (record : Record α) :
    (l.issue index r record).Faithful := by
  have hissued : issuedBy index (l.issue index r record).notes =
      ((r.allocate record).1, record) :: issuedBy index l.notes := if_pos rfl
  refine h.served hr rfl (session_allocate r record) rfl ?_ ?_ (fun place hplace => ?_)
    fun hslots hbound => ?_
  · rintro v (_ | ⟨_, hv⟩)
    · refine Or.inr ⟨session_allocate_handle r record, ?_⟩
      rw [hissued]
      exact List.mem_cons_self
    · exact Or.inl hv
  · rw [hissued]
    exact List.subset_cons_self _ _
  · exact ⟨if_neg (Ne.symm hplace), rfl⟩
  · rw [hissued]
    have hbefore := Nat.le_trans (slots_size_le_allocate r record) hslots
    exact (h.tracks hr hbefore hbound).allocate hbound record hslots

theorem retire (h : l.Faithful) (hr : l.pool.members[index]? = some r) {v : NarrowHandle}
    (hresolve : r.resolve v = .ok v.id) : (l.retire index r v).Faithful := by
  have hreleased : releasedBy index (l.retire index r v).notes = v :: releasedBy index l.notes :=
    if_pos rfl
  refine h.served hr rfl (session_releaseId r v.id) rfl (fun w hw => Or.inl hw)
    (List.Subset.refl _) (fun place hplace => ?_) fun hslots hbound => ?_
  · exact ⟨rfl, if_neg (Ne.symm hplace)⟩
  · rw [slots_size_releaseId] at hslots
    rw [hreleased] at hbound ⊢
    have hbefore : ∀ id, releases (releasedBy index l.notes) id < 2 ^ 32 :=
      fun id => Nat.lt_of_le_of_lt (releases_le_cons _ v id) (hbound id)
    exact (h.tracks hr hslots hbefore).release hresolve

/-- Every call keeps the registries in agreement with the notes. -/
theorem step [Scalar α] (h : l.Faithful) (call : RegistryCall) : (l.step call).Faithful := by
  rcases l.step_cases call with hstep | hstep | ⟨index, r, record, hr, hstep⟩ |
    ⟨index, r, v, hr, hresolve, hstep⟩ | ⟨index, r, hr, hstep⟩ <;> rw [hstep]
  · exact h
  · exact h.start
  · exact h.issue hr record
  · exact h.retire hr hresolve
  · exact h.restart hr

theorem play [Scalar α] (calls : List RegistryCall) : (Ledger.play calls : Ledger α).Faithful := by
  have hfold : ∀ l : Ledger α, l.Faithful → (calls.foldl Ledger.step l).Faithful := by
    induction calls with
    | nil => exact fun l h => h
    | cons call calls ih => exact fun l h => ih (l.step call) (h.step call)
  exact hfold _ empty

end Faithful

end Ledger

variable {α : Type} [Scalar α] {calls : List RegistryCall} {l : Ledger α} {index : Nat}
  {r : NarrowRegistry α}

/-- After any calls on any registries, as long as the counters of sessions and of releases did not
wrap and there are no more slots than numbers, a registry takes a handle for foreign if it did not
hand it out since its last reset, for stale if it took it back since, and recognises it otherwise.
The record behind a handle that is held is the one it was created with, the handles held have
different numbers, and there are as many as the registry counts.  The free numbers are those that
were released and are not held, each once, and all numbers are below the number of handles handed
out. -/
theorem handles_recognised (hplay : Ledger.play calls = l) (hsessions : sessions l.notes ≤ 2 ^ 32)
    (hr : l.pool.members[index]? = some r) (hslots : r.slots.size ≤ 2 ^ 32)
    (hreleases : ∀ id, releases (releasedBy index l.notes) id < 2 ^ 32) :
    (∀ v ∈ everIssued l.notes,
      (r.resolve v = .error (.foreignVariable v.id.widen) ↔
        v ∉ (issuedBy index l.notes).map Prod.fst) ∧
      (r.resolve v = .error (.staleVariable v.id.widen) ↔
        v ∈ (issuedBy index l.notes).map Prod.fst ∧ v ∈ releasedBy index l.notes) ∧
      (r.resolve v = .ok v.id ↔
        v ∈ (issuedBy index l.notes).map Prod.fst ∧ v ∉ releasedBy index l.notes)) ∧
    (∀ entry ∈ heldBy index l.notes, r.lookup entry.1 = .ok entry.2) ∧
    ((heldBy index l.notes).map fun entry => entry.1.id).Nodup ∧
    r.live = (heldBy index l.notes).length ∧
    r.free.Nodup ∧
    (∀ id, id ∈ r.free ↔ (∃ v ∈ releasedBy index l.notes, v.id = id) ∧
      id ∉ (heldBy index l.notes).map fun entry => entry.1.id) ∧
    ∀ entry ∈ issuedBy index l.notes, entry.1.id.index < (issuedBy index l.notes).length := by
  have hfaithful : l.Faithful := hplay ▸ Ledger.Faithful.play calls
  have htracks := hfaithful.tracks hr hslots hreleases
  have hheld : ∀ entry, entry ∈ heldBy index l.notes ↔
      entry ∈ issuedBy index l.notes ∧ entry.1 ∉ releasedBy index l.notes := by
    intro entry
    unfold heldBy
    rw [List.mem_filter, decide_eq_true_iff]
  refine ⟨fun v hv => ?_, fun entry hentry => ?_, ?_, htracks.live, htracks.free_nodup,
    fun id => ?_, fun entry hentry => htracks.index_lt hentry⟩
  · have hsession : v.session = r.session ↔ v ∈ (issuedBy index l.notes).map Prod.fst := by
      refine ⟨hfaithful.own hsessions hr v hv, fun hmem => ?_⟩
      obtain ⟨entry, hentry, rfl⟩ := List.mem_map.mp hmem
      exact htracks.session hentry
    have hok : r.resolve v = .ok v.id ↔
        v ∈ (issuedBy index l.notes).map Prod.fst ∧ v ∉ releasedBy index l.notes := by
      refine ⟨htracks.held_of_resolve, ?_⟩
      rintro ⟨hmem, hnot⟩
      obtain ⟨entry, hentry, rfl⟩ := List.mem_map.mp hmem
      exact (htracks.resolve_of_held hentry hnot).1
    refine ⟨?_, ?_, hok⟩
    · rw [resolve_eq_foreign_iff, ne_eq, hsession]
    · rw [resolve_eq_stale_iff, ne_eq, hok, hsession]
      tauto
  · obtain ⟨hissued, hnot⟩ := (hheld entry).mp hentry
    exact (htracks.resolve_of_held hissued hnot).2
  · have hnodup : (heldBy index l.notes).Nodup :=
      htracks.once.of_map.sublist List.filter_sublist
    refine hnodup.map_on fun entry hentry other hother hid => ?_
    obtain ⟨hissued, hnot⟩ := (hheld entry).mp hentry
    obtain ⟨hissued', hnot'⟩ := (hheld other).mp hother
    exact htracks.eq_of_id hissued hnot hissued' hnot' hid
  · rw [htracks.mem_free_iff]
    simp only [List.mem_map, hheld, not_exists, not_and, and_imp]

/-- Two registries, the first of which uses a number twice while the second one starts over. -/
def recycling : List RegistryCall :=
  [.start, .start, .create 0 "left" .unrestricted, .create 1 "top" .slack,
    .release 0 ⟨⟨0⟩, ⟨0⟩, 0⟩, .create 0 "right" .unrestricted, .reset 1]

/-- The first handle of the first registry is stale once its number is used again, and a handle of
the second registry is foreign to both of them after the reset. -/
theorem handles_recognised_recycling :
    ∃ first second : NarrowRegistry Rat, (Ledger.play recycling).pool.members[0]? = some first ∧
      (Ledger.play recycling).pool.members[1]? = some second ∧
      first.resolve ⟨⟨0⟩, ⟨0⟩, 0⟩ = .error (.staleVariable ⟨0⟩) ∧
      first.resolve ⟨⟨0⟩, ⟨0⟩, 1⟩ = .ok ⟨0⟩ ∧
      first.resolve ⟨⟨1⟩, ⟨0⟩, 0⟩ = .error (.foreignVariable ⟨0⟩) ∧
      second.resolve ⟨⟨1⟩, ⟨0⟩, 0⟩ = .error (.foreignVariable ⟨0⟩) ∧ first.live = 1 := by
  have hfew : ∀ {released : List NarrowHandle}, released.length ≤ 1 →
      ∀ id, releases released id < 2 ^ 32 := by
    intro released hlength id
    have hcount : releases released id ≤ released.length := List.countP_le_length
    omega
  have hsmall : (Ledger.play recycling : Ledger Rat).pool.members.all (·.slots.size ≤ 1) := by
    decide +kernel
  have hslots : ∀ {index : Nat} {r : NarrowRegistry Rat},
      (Ledger.play recycling).pool.members[index]? = some r → r.slots.size ≤ 2 ^ 32 := by
    intro index r hr
    have hsize := of_decide_eq_true (Array.all_eq_true'.mp hsmall r (Array.mem_of_getElem? hr))
    omega
  obtain ⟨first, hfirst⟩ := Option.isSome_iff_exists.mp
    (show ((Ledger.play recycling : Ledger Rat).pool.members[0]?).isSome by decide +kernel)
  obtain ⟨second, hsecond⟩ := Option.isSome_iff_exists.mp
    (show ((Ledger.play recycling : Ledger Rat).pool.members[1]?).isSome by decide +kernel)
  obtain ⟨hresolve, -, -, hlive, -⟩ :=
    handles_recognised rfl (by decide +kernel) hfirst (hslots hfirst) (hfew (by decide +kernel))
  obtain ⟨hresolve', -⟩ :=
    handles_recognised rfl (by decide +kernel) hsecond (hslots hsecond) (hfew (by decide +kernel))
  exact ⟨first, second, hfirst, hsecond,
    (hresolve ⟨⟨0⟩, ⟨0⟩, 0⟩ (by decide +kernel)).2.1.mpr (by decide +kernel),
    (hresolve ⟨⟨0⟩, ⟨0⟩, 1⟩ (by decide +kernel)).2.2.mpr (by decide +kernel),
    (hresolve ⟨⟨1⟩, ⟨0⟩, 0⟩ (by decide +kernel)).1.mpr (by decide +kernel),
    (hresolve' ⟨⟨1⟩, ⟨0⟩, 0⟩ (by decide +kernel)).1.mpr (by decide +kernel),
    hlive.trans (by decide +kernel)⟩

/-! ## More slots than numbers -/

/-- A registry that hands out a handle and then others, none of which it takes back. -/
def crowd (guests : Nat) : List RegistryCall :=
  [.start, .create 0 "first" .unrestricted] ++
    List.replicate guests (.create 0 "guest" .unrestricted)

namespace Ledger

/-- The first registry has so many slots, all of them in use, and the first one holds the record that
was put there first. -/
structure Crowded (l : Ledger α) (record : Record α) (size : Nat) : Prop where
  registry : ∃ r, l.pool.members[0]? = some r ∧ r.session = ⟨0⟩ ∧ r.free = [] ∧
    r.slots.size = size ∧ r.slots[0]? = some ⟨0, some record⟩
  first : (⟨⟨0⟩, ⟨0⟩, 0⟩, record) ∈ issuedBy 0 l.notes
  released : releasedBy 0 l.notes = []
  sessions : Note.sessions l.notes = 1

namespace Crowded

variable {record : Record α} {size : Nat}

/-- With another variable the registry has a slot more. -/
theorem create (h : l.Crowded record size) (name : String) (kind : VariableKind) :
    (l.step (.create 0 name kind)).Crowded record (size + 1) := by
  obtain ⟨r, hr, hsession, hfree, hsize, hfirst⟩ := h.registry
  have hstep : l.step (.create 0 name kind) = l.issue 0 r ⟨name, kind, 0, none, none⟩ := by
    rw [step, hr]
    rfl
  have hlt : 0 < r.slots.size := (Array.getElem?_eq_some_iff.mp hfirst).1
  rw [hstep]
  refine ⟨⟨_, (Pool.getElem?_set hr _ 0).trans (if_pos rfl), ?_⟩, ?_, h.released, h.sessions⟩
  · rw [allocate_of_free_eq_nil hfree]
    refine ⟨hsession, hfree, (Array.size_push _).trans (congrArg (· + 1) hsize), ?_⟩
    rw [Array.getElem?_push, if_neg (Nat.ne_of_lt hlt), hfirst]
  · rw [show issuedBy 0 (l.issue 0 r ⟨name, kind, 0, none, none⟩).notes = _ :: issuedBy 0 l.notes
      from if_pos rfl]
    exact List.mem_cons_of_mem _ h.first

theorem play (guests : Nat) :
    (Ledger.play (crowd guests) : Ledger α).Crowded ⟨"first", .unrestricted, 0, none, none⟩
      (guests + 1) := by
  have hfold : ∀ (l : Ledger α) (size : Nat) {record : Record α}, l.Crowded record size →
      ((List.replicate guests (RegistryCall.create 0 "guest" .unrestricted)).foldl step l).Crowded
        record (guests + size) := by
    induction guests with
    | zero =>
        intro l size record h
        rw [Nat.zero_add]
        exact h
    | succ guests ih =>
        intro l size record h
        rw [List.replicate_succ, List.foldl_cons, Nat.succ_add_eq_add_succ]
        exact ih _ _ (h.create "guest" .unrestricted)
  rw [Ledger.play, crowd, List.foldl_append]
  exact hfold _ 1 ⟨⟨_, rfl, rfl, rfl, rfl, rfl⟩, List.mem_cons_self, rfl, rfl⟩

/-- With as many slots as there are numbers, the next handle is the first one again. -/
theorem issued_again (h : l.Crowded record (2 ^ 32)) (name : String) (kind : VariableKind) :
    issuedBy 0 (l.step (.create 0 name kind)).notes =
      (⟨⟨0⟩, ⟨0⟩, 0⟩, ⟨name, kind, 0, none, none⟩) :: issuedBy 0 l.notes := by
  obtain ⟨r, hr, hsession, hfree, hsize, hfirst⟩ := h.registry
  have hlt : 0 < r.slots.size := (Array.getElem?_eq_some_iff.mp hfirst).1
  have hhandle : (r.allocate ⟨name, kind, 0, none, none⟩).1 = ⟨⟨0⟩, ⟨0⟩, 0⟩ := by
    rw [allocate_of_free_eq_nil hfree, hsize]
    show (⟨r.session, ⟨0⟩, ((r.slots.push _)[0]?.map Slot.generation).getD 0⟩ : NarrowHandle) = _
    rw [Array.getElem?_push, if_neg (Nat.ne_of_lt hlt), hfirst, hsession]
    rfl
  rw [step, hr, ← hhandle]
  exact if_pos rfl

omit [Scalar α] in
/-- The first handle gives the record that it was created with. -/
theorem lookup_first (h : l.Crowded record size) (hr : l.pool.members[0]? = some r) :
    r.lookup ⟨⟨0⟩, ⟨0⟩, 0⟩ = .ok record := by
  obtain ⟨r', hr', hsession, -, -, hfirst⟩ := h.registry
  obtain rfl : r' = r := Option.some.inj (hr'.symm.trans hr)
  have hget : r'.widen.get? ⟨0⟩ = some record := congrArg (·.bind Slot.record) hfirst
  rw [lookup_eq]
  refine Registry.lookup_eq_ok (Registry.resolve_eq_ok_iff.mpr ⟨hsession.symm, rfl, ?_, ?_⟩) hget
  · exact congrArg (Option.map Slot.generation) hfirst
  · exact Option.isSome_of_eq_some hget

end Crowded

end Ledger

/-- With one slot more than there are numbers the last handle is the first one again: two variables
that are held have the same number, and the handle of the last one gives the record of the first. -/
theorem handles_recognised_crowded : ∃ (l : Ledger Rat) (r : NarrowRegistry Rat),
    Ledger.play (crowd (2 ^ 32 - 1) ++ [.create 0 "last" .unrestricted]) = l ∧
    sessions l.notes = 1 ∧ releasedBy 0 l.notes = [] ∧ l.pool.members[0]? = some r ∧
    r.slots.size = 2 ^ 32 + 1 ∧
    ¬((heldBy 0 l.notes).map fun entry => entry.1.id).Nodup ∧
    ¬∀ entry ∈ heldBy 0 l.notes, r.lookup entry.1 = .ok entry.2 := by
  have hfull : (Ledger.play (crowd (2 ^ 32 - 1))).Crowded (α := Rat)
      ⟨"first", .unrestricted, 0, none, none⟩ (2 ^ 32) := Ledger.Crowded.play (2 ^ 32 - 1)
  have hover := hfull.create "last" .unrestricted
  have hheld := heldBy_of_released_eq_nil hover.released
  rw [hfull.issued_again "last" .unrestricted] at hheld
  obtain ⟨r, hr, -, -, hsize, -⟩ := hover.registry
  refine ⟨_, r, Ledger.play_concat _ _, hover.sessions, hover.released, hr, hsize,
    fun hnodup => ?_, fun hlookup => ?_⟩
  · rw [hheld, List.map_cons, List.nodup_cons] at hnodup
    exact hnodup.1 (List.mem_map.mpr ⟨_, hfull.first, rfl⟩)
  · have hlast := hlookup _ (hheld ▸ List.mem_cons_self)
    rw [hover.lookup_first hr, Except.ok.injEq] at hlast
    exact absurd (congrArg Record.name hlast) (by decide)

end LexSimplex
