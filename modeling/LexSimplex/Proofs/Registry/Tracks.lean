import LexSimplex.Proofs.Registry
import Mathlib.Algebra.Order.Ring.Nat
import Mathlib.Data.List.Basic

/-!
# One session of a registry

Within a session a registry agrees with what was handed out and taken back since its last reset
(`Registry.Tracks`), as long as no number was released `2 ^ 32` times: the handles that were handed
out and not taken back are those that it recognises, and their numbers are different.
-/

namespace LexSimplex

/-- Numbers below the size of a counter are told apart by it. -/
theorem eq_of_ofNat_eq {j k : Nat} (hj : j < 2 ^ 32) (hk : k < 2 ^ 32)
    (h : UInt32.ofNat j = UInt32.ofNat k) : j = k := by
  have hnat := congrArg UInt32.toNat h
  rwa [UInt32.toNat_ofNat_of_lt' hj, UInt32.toNat_ofNat_of_lt' hk] at hnat

namespace Registry

/-- How often a number was released. -/
def releases (released : List Variable) (id : VariableId) : Nat :=
  released.countP fun v => v.id = id

theorem releases_cons_self (released : List Variable) (v : Variable) :
    releases (v :: released) v.id = releases released v.id + 1 :=
  List.countP_cons_of_pos (decide_eq_true rfl)

theorem releases_cons_of_ne {released : List Variable} {v : Variable} {id : VariableId}
    (h : v.id ≠ id) : releases (v :: released) id = releases released id :=
  List.countP_cons_of_neg (by simpa using h)

theorem releases_le_cons (released : List Variable) (v : Variable) (id : VariableId) :
    releases released id ≤ releases (v :: released) id :=
  (List.sublist_cons_self v released).countP_le

variable {α : Type} {r : Registry α} {issued : List (Variable × Record α)}
  {released : List Variable} {v : Variable}

/-- A registry agrees with the handles that it handed out, each with its record, and with those that
it took back. -/
structure Tracks (r : Registry α) (issued : List (Variable × Record α)) (released : List Variable) :
    Prop where
  sound : r.Sound
  session : ∀ entry ∈ issued, entry.1.session = r.session
  range : ∀ entry ∈ issued, entry.1.id.index < r.slots.size
  used : ∀ id : VariableId, id.index < r.slots.size → ∃ entry ∈ issued, entry.1.id = id
  size : r.slots.size ≤ issued.length
  once : (issued.map Prod.fst).Nodup
  subset : ∀ v ∈ released, v ∈ issued.map Prod.fst
  count : ∀ id : VariableId, id.index < r.slots.size →
    r.generation? id = some (.ofNat (releases released id))
  earlier : ∀ v ∈ released, ∃ j < releases released v.id, v.generation = .ofNat j
  current : ∀ entry ∈ issued, entry.1 ∉ released →
    r.generation? entry.1.id = some entry.1.generation ∧ r.get? entry.1.id = some entry.2
  owner : ∀ id, (r.get? id).isSome → ∃ entry ∈ issued, entry.1 ∉ released ∧ entry.1.id = id
  live : r.live = (issued.filter fun entry => entry.1 ∉ released).length

theorem tracks_start (session : SessionId) : (start session : Registry α).Tracks [] [] where
  sound := sound_start session
  session := by simp
  range := by simp
  used := by simp [start]
  size := Nat.le_refl 0
  once := List.nodup_nil
  subset := by simp
  count := by simp [start]
  earlier := by simp
  current := by simp
  owner := by simp [start, get?]
  live := rfl

namespace Tracks

/-- A handle that was handed out and not taken back is recognised. -/
theorem resolve_of_held (h : r.Tracks issued released) {entry : Variable × Record α}
    (hentry : entry ∈ issued) (hheld : entry.1 ∉ released) :
    r.resolve entry.1 = .ok entry.1.id := by
  obtain ⟨hgeneration, hrecord⟩ := h.current entry hentry hheld
  exact resolve_eq_ok_iff.mpr ⟨h.session entry hentry, rfl, hgeneration, by rw [hrecord]; rfl⟩

/-- A handle that is recognised was handed out and not taken back. -/
theorem held_of_resolve (h : r.Tracks issued released) (hresolve : r.resolve v = .ok v.id) :
    ∃ record, (v, record) ∈ issued ∧ v ∉ released := by
  obtain ⟨hsession, -, hgeneration, hlive⟩ := resolve_eq_ok_iff.mp hresolve
  obtain ⟨⟨w, record⟩, hentry, hheld, hid⟩ := h.owner v.id hlive
  have hsame : w = v := by
    have hsession' := (h.session _ hentry).trans hsession.symm
    have hgeneration' := (h.current _ hentry hheld).1
    rw [hid, hgeneration, Option.some.injEq] at hgeneration'
    cases v
    cases w
    simp_all
  exact ⟨record, hsame ▸ hentry, hsame ▸ hheld⟩

/-- Two handles that are held have different numbers. -/
theorem eq_of_id (h : r.Tracks issued released) {entry other : Variable × Record α}
    (hentry : entry ∈ issued) (hheld : entry.1 ∉ released) (hother : other ∈ issued)
    (hheld' : other.1 ∉ released) (hid : entry.1.id = other.1.id) : entry = other := by
  obtain ⟨hgeneration, hrecord⟩ := h.current entry hentry hheld
  obtain ⟨hgeneration', hrecord'⟩ := h.current other hother hheld'
  have hsession := (h.session entry hentry).trans (h.session other hother).symm
  rw [hid, hgeneration', Option.some.injEq] at hgeneration
  rw [hid, hrecord', Option.some.injEq] at hrecord
  obtain ⟨⟨session, id, generation⟩, record⟩ := entry
  obtain ⟨⟨session', id', generation'⟩, record'⟩ := other
  simp_all

/-- The free numbers are those that were released and are not held. -/
theorem mem_free_iff (h : r.Tracks issued released) (id : VariableId) :
    id ∈ r.free ↔ (∃ v ∈ released, v.id = id) ∧
      ∀ entry ∈ issued, entry.1 ∉ released → entry.1.id ≠ id := by
  rw [h.sound.mem_free]
  constructor
  · rintro ⟨hlt, hnone⟩
    have hfree : ∀ entry ∈ issued, entry.1 ∉ released → entry.1.id ≠ id := by
      rintro entry hentry hheld rfl
      rw [(h.current entry hentry hheld).2] at hnone
      cases hnone
    obtain ⟨entry, hentry, hid⟩ := h.used id hlt
    have hreleased : entry.1 ∈ released := by
      by_contra hheld
      exact hfree entry hentry hheld hid
    exact ⟨⟨entry.1, hreleased, hid⟩, hfree⟩
  · rintro ⟨⟨w, hw, rfl⟩, hfree⟩
    obtain ⟨entry, hentry, hsame⟩ := List.mem_map.mp (h.subset w hw)
    refine ⟨hsame ▸ h.range entry hentry, ?_⟩
    by_contra hlive
    obtain ⟨other, hother, hheld, hid⟩ := h.owner w.id (Option.isSome_iff_ne_none.mpr hlive)
    exact hfree other hother hheld hid

/-- Taking back a handle that is held leaves one less. -/
theorem length_held (h : r.Tracks issued released) (hmem : v ∈ issued.map Prod.fst)
    (hheld : v ∉ released) :
    (issued.filter fun entry => entry.1 ∉ v :: released).length =
      (issued.filter fun entry => entry.1 ∉ released).length - 1 := by
  generalize hfilter : (issued.filter fun entry => entry.1 ∉ released) = held
  have hnodup : (held.map Prod.fst).Nodup :=
    hfilter ▸ h.once.sublist (List.filter_sublist.map Prod.fst)
  have hv : v ∈ held.map Prod.fst := by
    obtain ⟨entry, hentry, rfl⟩ := List.mem_map.mp hmem
    refine List.mem_map_of_mem (hfilter ▸ List.mem_filter.mpr ⟨hentry, ?_⟩)
    simpa using hheld
  have hrest : (issued.filter fun entry => entry.1 ∉ v :: released) =
      held.filter fun entry => entry.1 != v := by
    rw [← hfilter, List.filter_filter]
    refine List.filter_congr fun entry _ => ?_
    rw [Bool.eq_iff_iff]
    simp
  calc (issued.filter fun entry => entry.1 ∉ v :: released).length
      = ((held.map Prod.fst).filter (· != v)).length := by
        rw [hrest, List.filter_map, List.length_map]
        rfl
    _ = ((held.map Prod.fst).erase v).length := by rw [hnodup.erase_eq_filter]
    _ = held.length - 1 := by rw [List.length_erase_of_mem hv, List.length_map]

/-- The generation of a new handle is the number of releases so far, also of a new number. -/
theorem generation_allocate (h : r.Tracks issued released) (record : Record α) :
    (r.allocate record).1.generation =
      .ofNat (releases released (r.allocate record).1.id) := by
  rw [Registry.generation_allocate]
  generalize (r.allocate record).1.id = id
  by_cases hlt : id.index < r.slots.size
  · rw [h.count id hlt]
    rfl
  · have hnone : releases released id = 0 := by
      refine List.countP_eq_zero.mpr fun w hw hid => hlt ?_
      obtain ⟨entry, hentry, rfl⟩ := List.mem_map.mp (h.subset w hw)
      exact of_decide_eq_true hid ▸ h.range entry hentry
    rw [hnone]
    unfold generation?
    rw [Array.getElem?_eq_none (Nat.le_of_not_lt hlt)]
    rfl

/-- No handle is handed out twice while the counters of releases do not wrap. -/
theorem allocate_new (h : r.Tracks issued released) (hbound : ∀ id, releases released id < 2 ^ 32)
    (record : Record α) : (r.allocate record).1 ∉ issued.map Prod.fst := by
  intro hmem
  obtain ⟨entry, hentry, heq⟩ := List.mem_map.mp hmem
  have hfresh := get?_allocate_fresh h.sound record
  have hcount := h.generation_allocate record
  rw [← heq] at hfresh hcount
  by_cases hreleased : entry.1 ∈ released
  · obtain ⟨j, hj, hearlier⟩ := h.earlier entry.1 hreleased
    have hbound := hbound entry.1.id
    have hsame := eq_of_ofNat_eq (by omega) hbound (hearlier.symm.trans hcount)
    omega
  · rw [(h.current entry hentry hreleased).2] at hfresh
    cases hfresh

/-- Handing out a handle. -/
theorem allocate (h : r.Tracks issued released) (hbound : ∀ id, releases released id < 2 ^ 32)
    (record : Record α) :
    (r.allocate record).2.Tracks (((r.allocate record).1, record) :: issued) released := by
  have hnew := h.allocate_new hbound record
  have hcount := h.generation_allocate record
  have hfresh := get?_allocate_fresh h.sound record
  obtain ⟨hindex, hsize⟩ := slots_size_allocate h.sound record
  have hget := get?_allocate h.sound record
  have hgenerations := generation?_allocate h.sound record
  have hsession := session_allocate_handle r record
  have hsound := sound_allocate h.sound record
  have hkept := session_allocate r record
  have hcounter := live_allocate r record
  generalize r.allocate record = made at *
  obtain ⟨v, next⟩ := made
  simp only at *
  have hheld : v ∉ released := fun hmem => hnew (h.subset v hmem)
  have hother : ∀ entry ∈ issued, entry.1 ∉ released → entry.1.id ≠ v.id := by
    intro entry hentry hheld hid
    rw [← hid, (h.current entry hentry hheld).2] at hfresh
    cases hfresh
  refine {
    sound := hsound
    session := ?_
    range := ?_
    used := ?_
    size := by rw [hsize, List.length_cons]; have := h.size; omega
    once := List.nodup_cons.mpr ⟨hnew, h.once⟩
    subset := fun w hw => List.mem_cons_of_mem _ (h.subset w hw)
    count := ?_
    earlier := h.earlier
    current := ?_
    owner := ?_
    live := ?_ }
  · rintro entry (_ | ⟨_, hentry⟩)
    · rw [hsession, hkept]
    · rw [h.session entry hentry, hkept]
  · rintro entry (_ | ⟨_, hentry⟩)
    · show v.id.index < next.slots.size
      rw [hsize]
      omega
    · have hlt := h.range entry hentry
      rw [hsize]
      omega
  · intro id hid
    by_cases hsame : id = v.id
    · exact ⟨(v, record), List.mem_cons_self, hsame.symm⟩
    · have hne : id.index ≠ v.id.index := fun heq => hsame (index_injective heq)
      obtain ⟨entry, hentry, hentryId⟩ := h.used id (by rw [hsize] at hid; omega)
      exact ⟨entry, List.mem_cons_of_mem _ hentry, hentryId⟩
  · intro id hid
    rw [hgenerations]
    by_cases hsame : id = v.id
    · rw [if_pos hsame, hsame, hcount]
    · have hne : id.index ≠ v.id.index := fun heq => hsame (index_injective heq)
      rw [if_neg hsame]
      exact h.count id (by rw [hsize] at hid; omega)
  · rintro entry (_ | ⟨_, hentry⟩) hentryHeld
    · exact ⟨by rw [hgenerations, if_pos rfl], by rw [hget, if_pos rfl]⟩
    · rw [hgenerations, hget, if_neg (hother entry hentry hentryHeld),
        if_neg (hother entry hentry hentryHeld)]
      exact h.current entry hentry hentryHeld
  · intro id hlive
    by_cases hsame : id = v.id
    · exact ⟨(v, record), List.mem_cons_self, hheld, hsame.symm⟩
    · rw [hget, if_neg hsame] at hlive
      obtain ⟨entry, hentry, hrest⟩ := h.owner id hlive
      exact ⟨entry, List.mem_cons_of_mem _ hentry, hrest⟩
  · rw [hcounter, h.live, List.filter_cons_of_pos (by simpa using hheld), List.length_cons]

/-- Taking back a handle that is recognised. -/
theorem release (h : r.Tracks issued released) (hresolve : r.resolve v = .ok v.id) :
    (r.releaseId v.id).Tracks issued (v :: released) := by
  obtain ⟨record, hmem, hheld⟩ := h.held_of_resolve hresolve
  obtain ⟨-, -, hgeneration, hlive⟩ := resolve_eq_ok_iff.mp hresolve
  have hcount := h.count v.id (h.range _ hmem)
  have hother : ∀ entry ∈ issued, entry.1 ∉ v :: released →
      entry.1 ∉ released ∧ entry.1.id ≠ v.id := by
    intro entry hentry hentryHeld
    rw [List.mem_cons, not_or] at hentryHeld
    refine ⟨hentryHeld.2, fun hid => hentryHeld.1 ?_⟩
    rw [h.eq_of_id hentry hentryHeld.2 hmem hheld hid]
  refine {
    sound := sound_releaseId h.sound v.id
    session := fun entry hentry => by rw [session_releaseId]; exact h.session entry hentry
    range := fun entry hentry => by rw [slots_size_releaseId]; exact h.range entry hentry
    used := fun id hid => h.used id (by rwa [slots_size_releaseId] at hid)
    size := by rw [slots_size_releaseId]; exact h.size
    once := h.once
    subset := ?_
    count := ?_
    earlier := ?_
    current := ?_
    owner := ?_
    live := ?_ }
  · rintro w (_ | ⟨_, hw⟩)
    · exact List.mem_map_of_mem hmem
    · exact h.subset w hw
  · intro id hid
    rw [slots_size_releaseId] at hid
    by_cases hsame : id = v.id
    · rw [hsame, generation?_releaseId_self hlive, hcount, releases_cons_self, UInt32.ofNat_add]
      rfl
    · rw [generation?_releaseId r hsame, releases_cons_of_ne (Ne.symm hsame), h.count id hid]
  · rintro w (_ | ⟨_, hw⟩)
    · rw [hcount, Option.some.injEq] at hgeneration
      refine ⟨releases released v.id, ?_, hgeneration.symm⟩
      rw [releases_cons_self]
      exact Nat.lt_succ_self _
    · obtain ⟨j, hj, hearlier⟩ := h.earlier w hw
      exact ⟨j, Nat.lt_of_lt_of_le hj (releases_le_cons released v w.id), hearlier⟩
  · intro entry hentry hentryHeld
    obtain ⟨hbefore, hne⟩ := hother entry hentry hentryHeld
    rw [generation?_releaseId r hne, get?_releaseId, if_neg hne]
    exact h.current entry hentry hbefore
  · intro id hid
    rw [get?_releaseId] at hid
    split at hid
    next => cases hid
    next hne =>
      obtain ⟨entry, hentry, hentryHeld, hentryId⟩ := h.owner id hid
      refine ⟨entry, hentry, ?_, hentryId⟩
      rw [List.mem_cons, not_or]
      refine ⟨fun hsame => hne ?_, hentryHeld⟩
      rw [← hentryId, hsame]
  · rw [live_releaseId hlive, h.live, h.length_held (List.mem_map_of_mem hmem) hheld]

end Tracks

end Registry

end LexSimplex
