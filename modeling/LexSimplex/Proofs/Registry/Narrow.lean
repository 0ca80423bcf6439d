import LexSimplex.Proofs.Registry.Tracks
import LexSimplex.Registry.Narrow

/-!
# The narrow registry below its limit

As long as a registry has no more slots than there are numbers of 32 bits, no number is cut, and every
operation does what it does on natural numbers: `widen_allocate`, `widen_releaseId`, `widen_resolve`
and `lookup_eq` say so for the four that others are made of.  So what was shown of a session on
natural numbers holds of the narrow registry as well (`NarrowRegistry.Tracks`).
-/

namespace LexSimplex

namespace NarrowId

variable {v w : NarrowId}

theorem widen_injective : Function.Injective widen := by
  intro v w h
  cases v
  cases w
  exact congrArg NarrowId.mk (UInt32.toNat_inj.mp (VariableId.mk.inj h))

@[simp] theorem widen_inj : v.widen = w.widen ↔ v = w := widen_injective.eq_iff

theorem index_ofPosition {position : Nat} (h : position < 2 ^ 32) :
    (ofPosition position).index = position :=
  UInt32.toNat_ofNat_of_lt' h

end NarrowId

theorem NarrowHandle.widen_injective : Function.Injective NarrowHandle.widen := by
  rintro ⟨session, id, generation⟩ ⟨session', id', generation'⟩ h
  obtain ⟨hsession, hid, hgeneration⟩ := Variable.mk.inj h
  rw [NarrowHandle.mk.injEq]
  exact ⟨hsession, NarrowId.widen_injective hid, hgeneration⟩

namespace NarrowRegistry

variable {α : Type} {r : NarrowRegistry α} {id w : NarrowId} {v : NarrowHandle} {record : Record α}

/-! ## The same operations -/

/-- A handle with a number of 32 bits is made as long as its slot can be told apart by one. -/
theorem widen_allocate (h : (r.allocate record).2.slots.size ≤ 2 ^ 32) :
    r.widen.allocate record = ((r.allocate record).1.widen, (r.allocate record).2.widen) := by
  unfold allocate at h ⊢
  unfold Registry.allocate
  rcases hfree : r.free with _ | ⟨id, rest⟩
  · have hwiden : r.widen.free = [] := by
      show r.free.map NarrowId.widen = []
      rw [hfree]
      rfl
    rw [hfree] at h
    replace h : (r.slots.push ⟨0, some record⟩).size ≤ 2 ^ 32 := h
    rw [Array.size_push] at h
    have hposition : (NarrowId.ofPosition r.slots.size).index = r.slots.size :=
      NarrowId.index_ofPosition h
    rw [hwiden]
    simp only [stamp, generation?, NarrowHandle.widen, NarrowId.widen, hposition,
      Array.getElem?_push_size, Option.map_some, Option.getD_some]
    simp only [widen, hfree, List.map_nil]
  · have hwiden : r.widen.free = id.widen :: rest.map NarrowId.widen := by
      show r.free.map NarrowId.widen = _
      rw [hfree]
      rfl
    rw [hwiden]
    refine Prod.ext ?_ rfl
    -- The generation is read before the record is put there, or after it.
    show (⟨r.session, id.widen, _⟩ : Variable) = ⟨r.session, id.widen, _⟩
    refine congrArg (Variable.mk r.session id.widen) ?_
    have hsame := Registry.generation?_setRecord r.widen id.widen record id.widen
    exact congrArg (Option.getD · 0) hsame.symm

theorem widen_releaseId (r : NarrowRegistry α) (id : NarrowId) :
    (r.releaseId id).widen = r.widen.releaseId id.widen := by
  unfold releaseId Registry.releaseId get?
  cases r.widen.get? id.widen <;> rfl

theorem widen_resolve (r : NarrowRegistry α) (v : NarrowHandle) :
    r.widen.resolve v.widen = (r.resolve v).map NarrowId.widen := by
  unfold resolve Registry.resolve
  have hslot : r.widen.slots[v.widen.id.index]? = r.slots[v.id.index]? := rfl
  have hsession : (v.widen.session ≠ r.widen.session) = (v.session ≠ r.session) := rfl
  rw [hslot]
  simp only [hsession]
  split
  · rfl
  · cases r.slots[v.id.index]? with
    | none => rfl
    | some slot =>
        dsimp only
        rw [apply_ite (Except.map NarrowId.widen)]
        rfl

theorem lookup_eq (r : NarrowRegistry α) (v : NarrowHandle) :
    r.lookup v = r.widen.lookup v.widen := by
  unfold lookup Registry.lookup
  rw [widen_resolve]
  cases r.resolve v <;> rfl

/-- Without a free number a slot is added. -/
theorem allocate_of_free_eq_nil (h : r.free = []) (record : Record α) :
    r.allocate record =
      (NarrowRegistry.stamp { r with slots := r.slots.push ⟨0, some record⟩, live := r.live + 1 }
        (.ofPosition r.slots.size),
      { r with slots := r.slots.push ⟨0, some record⟩, live := r.live + 1 }) := by
  unfold allocate
  rw [h]

/-- The number of slots never goes down in a session. -/
theorem slots_size_le_allocate (r : NarrowRegistry α) (record : Record α) :
    r.slots.size ≤ (r.allocate record).2.slots.size := by
  unfold allocate
  split
  · exact Nat.le_of_eq Array.size_modify.symm
  · show r.slots.size ≤ (r.slots.push _).size
    rw [Array.size_push]
    exact Nat.le_succ _

theorem slots_size_releaseId (r : NarrowRegistry α) (id : NarrowId) :
    (r.releaseId id).slots.size = r.slots.size :=
  (congrArg (·.slots.size) (r.widen_releaseId id)).trans (r.widen.slots_size_releaseId id.widen)

theorem session_allocate (r : NarrowRegistry α) (record : Record α) :
    (r.allocate record).2.session = r.session := by
  unfold allocate
  split <;> rfl

theorem session_allocate_handle (r : NarrowRegistry α) (record : Record α) :
    (r.allocate record).1.session = r.session := by
  unfold allocate
  split <;> rfl

theorem session_releaseId (r : NarrowRegistry α) (id : NarrowId) :
    (r.releaseId id).session = r.session :=
  (congrArg Registry.session (r.widen_releaseId id)).trans
    (r.widen.session_releaseId id.widen)

theorem resolve_eq_ok_iff :
    r.resolve v = .ok id ↔ r.widen.resolve v.widen = .ok id.widen := by
  rw [widen_resolve]
  cases r.resolve v with
  | error cause => exact iff_of_false nofun nofun
  | ok found =>
      show Except.ok found = Except.ok id ↔ Except.ok found.widen = Except.ok id.widen
      rw [Except.ok.injEq, Except.ok.injEq, NarrowId.widen_inj]

theorem resolve_eq_error_iff {cause : SolverError} :
    r.resolve v = .error cause ↔ r.widen.resolve v.widen = .error cause := by
  rw [widen_resolve]
  cases r.resolve v with
  | error found =>
      show Except.error found = Except.error cause ↔ Except.error found = Except.error cause
      rw [Except.error.injEq, Except.error.injEq]
  | ok found => exact iff_of_false nofun nofun

/-- A handle is foreign when its session is not current. -/
theorem resolve_eq_foreign_iff :
    r.resolve v = .error (.foreignVariable v.id.widen) ↔ v.session ≠ r.session :=
  resolve_eq_error_iff.trans Registry.resolve_eq_foreign_iff

/-- A handle of the current session that is not recognised is stale. -/
theorem resolve_eq_stale_iff :
    r.resolve v = .error (.staleVariable v.id.widen) ↔
      v.session = r.session ∧ r.resolve v ≠ .ok v.id := by
  rw [resolve_eq_error_iff, ne_eq, resolve_eq_ok_iff]
  exact Registry.resolve_eq_stale_iff

/-- The number behind a handle that is recognised is the one in it. -/
theorem id_of_resolve (h : r.resolve v = .ok id) : id = v.id :=
  NarrowId.widen_injective (Registry.resolve_eq_ok_iff.mp (resolve_eq_ok_iff.mp h)).2.1

/-! ## One session -/

/-- How often a number was released. -/
def releases (released : List NarrowHandle) (id : NarrowId) : Nat :=
  released.countP fun v => v.id = id

theorem releases_le_cons (released : List NarrowHandle) (v : NarrowHandle) (id : NarrowId) :
    releases released id ≤ releases (v :: released) id :=
  (List.sublist_cons_self v released).countP_le

/-- A number that takes more than 32 bits was never released. -/
theorem releases_widen_lt {released : List NarrowHandle} {bound : Nat} (hbound : 0 < bound)
    (h : ∀ id, releases released id < bound) (id : VariableId) :
    Registry.releases (released.map NarrowHandle.widen) id < bound := by
  unfold Registry.releases
  rw [List.countP_map]
  by_cases hnarrow : ∃ narrow : NarrowId, narrow.widen = id
  · obtain ⟨narrow, rfl⟩ := hnarrow
    refine Nat.lt_of_le_of_lt (List.countP_mono_left fun v _ hv => ?_) (h narrow)
    have hid : v.id.widen = narrow.widen := of_decide_eq_true hv
    exact decide_eq_true (NarrowId.widen_injective hid)
  · rw [List.countP_eq_zero.mpr fun v _ hv => hnarrow ⟨v.id, of_decide_eq_true hv⟩]
    exact hbound

/-- A handle with its record, with a natural number for the handle. -/
def widenEntry (entry : NarrowHandle × Record α) : Variable × Record α :=
  (entry.1.widen, entry.2)

/-- A registry agrees with the handles that it handed out, each with its record, and with those that
it took back: it does so on natural numbers. -/
def Tracks (r : NarrowRegistry α) (issued : List (NarrowHandle × Record α))
    (released : List NarrowHandle) : Prop :=
  r.widen.Tracks (issued.map widenEntry) (released.map NarrowHandle.widen)

variable {issued : List (NarrowHandle × Record α)} {released : List NarrowHandle}

theorem widenEntry_injective : Function.Injective (widenEntry (α := α)) := by
  rintro ⟨v, record⟩ ⟨w, record'⟩ h
  obtain ⟨hv, hrecord⟩ := Prod.mk.inj h
  rw [Prod.mk.injEq]
  exact ⟨NarrowHandle.widen_injective hv, hrecord⟩

theorem mem_released : v.widen ∈ released.map NarrowHandle.widen ↔ v ∈ released :=
  List.mem_map_of_injective NarrowHandle.widen_injective

theorem map_fst_widenEntry (issued : List (NarrowHandle × Record α)) :
    (issued.map widenEntry).map Prod.fst = (issued.map Prod.fst).map NarrowHandle.widen := by
  rw [List.map_map, List.map_map]
  rfl

theorem mem_issued : v.widen ∈ (issued.map widenEntry).map Prod.fst ↔ v ∈ issued.map Prod.fst := by
  rw [map_fst_widenEntry]
  exact List.mem_map_of_injective NarrowHandle.widen_injective

theorem tracks_start (session : SessionId) : (start session : NarrowRegistry α).Tracks [] [] :=
  Registry.tracks_start session

namespace Tracks

theorem session (h : r.Tracks issued released) {entry : NarrowHandle × Record α}
    (hentry : entry ∈ issued) : entry.1.session = r.session :=
  Registry.Tracks.session h _ (List.mem_map_of_mem hentry)

/-- A handle that was handed out and not taken back is recognised, with its record. -/
theorem resolve_of_held (h : r.Tracks issued released) {entry : NarrowHandle × Record α}
    (hentry : entry ∈ issued) (hheld : entry.1 ∉ released) :
    r.resolve entry.1 = .ok entry.1.id ∧ r.lookup entry.1 = .ok entry.2 := by
  have hwide : widenEntry entry ∈ issued.map widenEntry := List.mem_map_of_mem hentry
  have hheld' : (widenEntry entry).1 ∉ released.map NarrowHandle.widen := mt mem_released.mp hheld
  have hresolve := Registry.Tracks.resolve_of_held h hwide hheld'
  refine ⟨resolve_eq_ok_iff.mpr hresolve, ?_⟩
  rw [lookup_eq]
  exact Registry.lookup_eq_ok hresolve (Registry.Tracks.current h _ hwide hheld').2

/-- A handle that is recognised was handed out and not taken back. -/
theorem held_of_resolve (h : r.Tracks issued released) (hresolve : r.resolve v = .ok v.id) :
    v ∈ issued.map Prod.fst ∧ v ∉ released := by
  obtain ⟨record, hmem, hheld⟩ :=
    Registry.Tracks.held_of_resolve h (resolve_eq_ok_iff.mp hresolve)
  exact ⟨mem_issued.mp (List.mem_map_of_mem hmem), mt mem_released.mpr hheld⟩

/-- Two handles that are held have different numbers. -/
theorem eq_of_id (h : r.Tracks issued released) {entry other : NarrowHandle × Record α}
    (hentry : entry ∈ issued) (hheld : entry.1 ∉ released) (hother : other ∈ issued)
    (hheld' : other.1 ∉ released) (hid : entry.1.id = other.1.id) : entry = other :=
  widenEntry_injective <| Registry.Tracks.eq_of_id h (List.mem_map_of_mem hentry)
    (mt mem_released.mp hheld) (List.mem_map_of_mem hother) (mt mem_released.mp hheld')
    (congrArg NarrowId.widen hid)

theorem once (h : r.Tracks issued released) : (issued.map Prod.fst).Nodup := by
  have hwide := Registry.Tracks.once h
  rw [map_fst_widenEntry] at hwide
  exact hwide.of_map

/-- A registry counts the handles that are held. -/
theorem live (h : r.Tracks issued released) :
    r.live = (issued.filter fun entry => entry.1 ∉ released).length := by
  have hsame : ((issued.map widenEntry).filter fun entry =>
      entry.1 ∉ released.map NarrowHandle.widen) =
        (issued.filter fun entry => entry.1 ∉ released).map widenEntry := by
    rw [List.filter_map]
    refine congrArg (List.map widenEntry) (List.filter_congr fun entry _ => ?_)
    rw [Bool.eq_iff_iff, Function.comp_apply, decide_eq_true_iff, decide_eq_true_iff]
    exact not_congr mem_released
  have hlive := Registry.Tracks.live h
  rw [hsame, List.length_map] at hlive
  exact hlive

theorem free_nodup (h : r.Tracks issued released) : r.free.Nodup :=
  (Registry.Tracks.sound h).free_nodup.of_map

/-- The free numbers are those that were released and are not held. -/
theorem mem_free_iff (h : r.Tracks issued released) (id : NarrowId) :
    id ∈ r.free ↔ (∃ v ∈ released, v.id = id) ∧
      ∀ entry ∈ issued, entry.1 ∉ released → entry.1.id ≠ id := by
  have hwide := Registry.Tracks.mem_free_iff h id.widen
  rw [show id.widen ∈ r.widen.free ↔ id ∈ r.free from
    List.mem_map_of_injective NarrowId.widen_injective] at hwide
  rw [hwide, List.forall_mem_map]
  refine and_congr ?_ (forall_congr' fun entry => imp_congr_right fun _ => imp_congr ?_ ?_)
  · simp only [List.mem_map, exists_exists_and_eq_and]
    exact exists_congr fun v => and_congr_right fun _ => NarrowId.widen_inj
  · exact not_congr mem_released
  · exact not_congr NarrowId.widen_inj

/-- All numbers are below the number of handles that were handed out. -/
theorem index_lt (h : r.Tracks issued released) {entry : NarrowHandle × Record α}
    (hentry : entry ∈ issued) : entry.1.id.index < issued.length := by
  have hrange := Registry.Tracks.range h _ (List.mem_map_of_mem hentry)
  have hsize := Registry.Tracks.size h
  rw [List.length_map] at hsize
  exact Nat.lt_of_lt_of_le hrange hsize

/-- Handing out a handle, as long as no number is cut. -/
theorem allocate (h : r.Tracks issued released) (hbound : ∀ id, releases released id < 2 ^ 32)
    (record : Record α) (hslots : (r.allocate record).2.slots.size ≤ 2 ^ 32) :
    (r.allocate record).2.Tracks (((r.allocate record).1, record) :: issued) released := by
  have hwide := Registry.Tracks.allocate h (releases_widen_lt (by decide) hbound) record
  rw [widen_allocate hslots] at hwide
  exact hwide

/-- Taking back a handle that is recognised. -/
theorem release (h : r.Tracks issued released) (hresolve : r.resolve v = .ok v.id) :
    (r.releaseId v.id).Tracks issued (v :: released) := by
  have hwide := Registry.Tracks.release h (resolve_eq_ok_iff.mp hresolve)
  unfold Tracks
  rw [widen_releaseId]
  exact hwide

end Tracks

end NarrowRegistry

end LexSimplex
