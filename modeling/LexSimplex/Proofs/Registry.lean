import LexSimplex.Registry
import Mathlib.Data.List.Nodup

/-!
# Records of a registry

A registry is read through two look-ups: `get?` gives the record of a live number and `generation?`
how often a number was released.  Each operation is described by what it does to them.  In a `Sound`
registry the stack of free numbers lists the numbers without a record, each once, so that a number
handed out anew was not in use.
-/

namespace LexSimplex

section Slots

/-! ## Listing what is stored by position -/

variable {σ β κ : Type} {slots : List σ} (content : σ → Option β) (key : Nat → κ)

/-- The listed items are those found at their positions. -/
theorem mem_filterMap_zipIdx (hkey : Function.Injective key) {index : Nat} {item : β} :
    (key index, item) ∈ (slots.zipIdx.filterMap fun entry =>
        (content entry.1).map fun item => (key entry.2, item)) ↔
      slots[index]?.bind content = some item := by
  simp only [List.mem_filterMap, Prod.exists, List.mem_zipIdx_iff_getElem?,
    Option.map_eq_some_iff, Prod.mk.injEq, Option.bind_eq_some_iff]
  constructor
  · rintro ⟨slot, position, hslot, found, hfound, hposition, rfl⟩
    exact ⟨slot, hkey hposition ▸ hslot, hfound⟩
  · rintro ⟨slot, hslot, hfound⟩
    exact ⟨slot, index, hslot, item, hfound, rfl, rfl⟩

/-- No position is listed twice. -/
theorem pairwise_filterMap_zipIdx (hkey : Function.Injective key) :
    (slots.zipIdx.filterMap fun entry =>
        (content entry.1).map fun item => (key entry.2, item)).Pairwise
      fun entry other => entry.1 ≠ other.1 := by
  have hindices : slots.zipIdx.Pairwise fun entry other => entry.2 ≠ other.2 := by
    rw [← List.pairwise_map (f := Prod.snd) (R := (· ≠ ·)), List.zipIdx_map_snd]
    exact List.nodup_range'
  refine List.pairwise_filterMap.mpr (hindices.imp ?_)
  intro entry other hne listed hlisted listed' hlisted'
  obtain ⟨item, -, rfl⟩ := Option.map_eq_some_iff.mp hlisted
  obtain ⟨item', -, rfl⟩ := Option.map_eq_some_iff.mp hlisted'
  exact fun heq => hne (hkey heq)

end Slots

namespace Registry

variable {α : Type} {r : Registry α} {id w : VariableId} {record : Record α}

/-- How often a number was released. -/
def generation? (r : Registry α) (id : VariableId) : Option UInt32 :=
  r.slots[id.index]?.map Slot.generation

/-- The free numbers are those without a record, each listed once. -/
structure Sound (r : Registry α) : Prop where
  free_nodup : r.free.Nodup
  mem_free : ∀ id, id ∈ r.free ↔ id.index < r.slots.size ∧ r.get? id = none

theorem index_lt_of_get? (h : r.get? id = some record) : id.index < r.slots.size := by
  unfold get? at h
  by_contra hlt
  rw [Array.getElem?_eq_none (Nat.le_of_not_lt hlt)] at h
  simp at h

theorem record_eq_ok (h : r.get? id = some record) : r.record id = .ok record := by
  unfold get? at h
  unfold Registry.record
  cases hslot : r.slots[id.index]? with
  | none => rw [hslot] at h; simp at h
  | some slot =>
      rw [hslot] at h
      have hrecord : slot.record = some record := h
      simp only [hrecord]

theorem kind_eq_ok (h : r.get? id = some record) : r.kind id = .ok record.kind := by
  unfold kind
  rw [record_eq_ok h]
  rfl

theorem index_injective {v w : VariableId} (h : v.index = w.index) : v = w := by
  cases v
  cases w
  simpa using h

/-- The listed variables are the live ones. -/
theorem mem_toList : (id, record) ∈ r.toList ↔ r.get? id = some record := by
  unfold toList get?
  rw [← Array.getElem?_toList]
  exact mem_filterMap_zipIdx Slot.record VariableId.mk fun _ _ heq => VariableId.mk.inj heq

theorem mem_map_fst_toList : id ∈ r.toList.map Prod.fst ↔ (r.get? id).isSome := by
  rw [List.mem_map, Option.isSome_iff_exists]
  constructor
  · rintro ⟨⟨found, record⟩, hmem, rfl⟩
    exact ⟨record, mem_toList.mp hmem⟩
  · rintro ⟨record, hrecord⟩
    exact ⟨(id, record), mem_toList.mpr hrecord, rfl⟩

theorem nodup_map_fst_toList (r : Registry α) : (r.toList.map Prod.fst).Nodup :=
  List.pairwise_map.mpr <|
    pairwise_filterMap_zipIdx Slot.record VariableId.mk fun _ _ heq => VariableId.mk.inj heq

/-! ## Changing a record -/

@[simp] theorem slots_size_setRecord (r : Registry α) (id : VariableId) (record : Record α) :
    (r.setRecord id record).slots.size = r.slots.size := by
  simp [setRecord]

theorem get?_setRecord {old : Record α} (h : r.get? id = some old) (record : Record α)
    (w : VariableId) :
    (r.setRecord id record).get? w = if w = id then some record else r.get? w := by
  have hlt := index_lt_of_get? h
  unfold get? setRecord
  simp only [Array.getElem?_modify]
  by_cases hw : w = id
  · subst hw
    simp [hlt]
  · have hindex : id.index ≠ w.index := fun e => hw (index_injective e.symm)
    simp [hw, hindex]

@[simp] theorem generation?_setRecord (r : Registry α) (id : VariableId) (record : Record α)
    (w : VariableId) : (r.setRecord id record).generation? w = r.generation? w := by
  unfold generation? setRecord
  simp only [Array.getElem?_modify]
  split
  · simp [Option.map_map, Function.comp_def]
  · rfl

theorem sound_setRecord {old : Record α} (hr : r.Sound) (h : r.get? id = some old)
    (record : Record α) : (r.setRecord id record).Sound where
  free_nodup := hr.free_nodup
  mem_free := by
    intro w
    change w ∈ r.free ↔ _
    rw [hr.mem_free, slots_size_setRecord, get?_setRecord h]
    by_cases hw : w = id
    · subst hw
      simp [h]
    · simp [hw]

theorem setDefinition_eq_ok (h : r.get? id = some record) (definition : Option RowId) :
    r.setDefinition id definition = .ok (r.setRecord id { record with definition }) := by
  unfold setDefinition
  rw [record_eq_ok h]
  rfl

/-! ## Creating and releasing -/

/-- The numbers on the stack of a sound registry are free. -/
theorem Sound.checkFree (hr : r.Sound) : r.checkFree = .ok () := by
  unfold Registry.checkFree
  cases hfree : r.free with
  | nil => rfl
  | cons id rest =>
      obtain ⟨hlt, hdead⟩ := (hr.mem_free id).mp (by rw [hfree]; exact List.mem_cons_self)
      unfold get? at hdead
      rw [Array.getElem?_eq_getElem hlt] at hdead
      have hnone : r.slots[id.index].record = none := hdead
      simp [hlt, hnone]

theorem checkReleased_eq_ok (h : r.get? id = some record) (hdefinition : record.definition = none) :
    r.checkReleased id = .ok () := by
  unfold checkReleased
  rw [record_eq_ok h]
  simp [hdefinition, bind, Except.bind]

/-- A number handed out by a sound registry had no record. -/
theorem get?_allocate_fresh (hr : r.Sound) (record : Record α) :
    r.get? (r.allocate record).1.id = none := by
  unfold allocate
  split
  next id rest hfree =>
    exact ((hr.mem_free id).mp (by rw [hfree]; exact List.mem_cons_self)).2
  next hfree =>
    unfold get?
    simp

theorem get?_allocate (hr : r.Sound) (record : Record α) (w : VariableId) :
    (r.allocate record).2.get? w =
      if w = (r.allocate record).1.id then some record else r.get? w := by
  unfold allocate
  split
  next id rest hfree =>
    have hlt := ((hr.mem_free id).mp (by rw [hfree]; exact List.mem_cons_self)).1
    unfold get? setRecord
    simp only [Array.getElem?_modify]
    by_cases hw : w = id
    · subst hw
      simp [hlt]
    · have hindex : id.index ≠ w.index := fun e => hw (index_injective e.symm)
      simp [hw, hindex]
  next hfree =>
    unfold get?
    simp only [Array.getElem?_push]
    by_cases hw : w = ⟨r.slots.size⟩
    · subst hw
      simp
    · have hindex : w.index ≠ r.slots.size := fun e => hw (index_injective e)
      simp [hw, hindex]

theorem generation?_allocate (hr : r.Sound) (record : Record α) (w : VariableId) :
    (r.allocate record).2.generation? w =
      if w = (r.allocate record).1.id then some (r.allocate record).1.generation
      else r.generation? w := by
  unfold allocate
  split
  next id rest hfree =>
    have hlt := ((hr.mem_free id).mp (by rw [hfree]; exact List.mem_cons_self)).1
    have hsame : (r.setRecord id record).generation? w = r.generation? w :=
      generation?_setRecord r id record w
    change (r.setRecord id record).generation? w = _
    rw [hsame]
    by_cases hw : w = id
    · subst hw
      simp [generation?, hlt]
    · simp [hw]
  next hfree =>
    unfold generation?
    simp only [Array.getElem?_push]
    by_cases hw : w = ⟨r.slots.size⟩
    · subst hw
      simp
    · have hindex : w.index ≠ r.slots.size := fun e => hw (index_injective e)
      simp [hw, hindex]

@[simp] theorem session_allocate (r : Registry α) (record : Record α) :
    (r.allocate record).2.session = r.session := by
  unfold allocate
  split <;> rfl

theorem session_allocate_handle (r : Registry α) (record : Record α) :
    (r.allocate record).1.session = r.session := by
  unfold allocate
  split <;> rfl

/-- A handle tells how often its number was released before; a new number was not. -/
theorem generation_allocate (r : Registry α) (record : Record α) :
    (r.allocate record).1.generation =
      (r.generation? (r.allocate record).1.id).getD 0 := by
  unfold allocate generation?
  split
  next id rest hfree => rfl
  next hfree =>
    show (0 : UInt32) = (r.slots[r.slots.size]?.map Slot.generation).getD 0
    rw [Array.getElem?_eq_none (Nat.le_refl _)]
    rfl

@[simp] theorem live_allocate (r : Registry α) (record : Record α) :
    (r.allocate record).2.live = r.live + 1 := by
  unfold allocate
  split <;> rfl

/-- A number handed out is one of the numbers so far or the next one. -/
theorem slots_size_allocate (hr : r.Sound) (record : Record α) :
    (r.allocate record).1.id.index ≤ r.slots.size ∧ (r.allocate record).2.slots.size =
      max r.slots.size ((r.allocate record).1.id.index + 1) := by
  unfold allocate
  split
  next id rest hfree =>
    have hlt := ((hr.mem_free id).mp (by rw [hfree]; exact List.mem_cons_self)).1
    refine ⟨Nat.le_of_lt hlt, ?_⟩
    show (r.setRecord id record).slots.size = max r.slots.size (id.index + 1)
    rw [slots_size_setRecord]
    omega
  next hfree =>
    refine ⟨Nat.le_refl _, ?_⟩
    show (r.slots.push _).size = max r.slots.size (r.slots.size + 1)
    rw [Array.size_push]
    omega

theorem sound_allocate (hr : r.Sound) (record : Record α) : (r.allocate record).2.Sound := by
  have hget := get?_allocate hr record
  unfold allocate at hget ⊢
  split at hget
  next id rest hfree =>
    have hnodup := hr.free_nodup
    rw [hfree] at hnodup
    obtain ⟨hid, hrest⟩ := List.nodup_cons.mp hnodup
    refine ⟨hrest, fun w => ?_⟩
    have hmem := hr.mem_free w
    rw [hfree, List.mem_cons] at hmem
    change w ∈ rest ↔ w.index < (r.setRecord id record).slots.size ∧ _
    rw [hget w, slots_size_setRecord]
    by_cases hw : w = id
    · subst hw
      simp [hid]
    · simpa [hw] using hmem
  next hfree =>
    refine ⟨hr.free_nodup, fun w => ?_⟩
    have hmem := hr.mem_free w
    rw [hfree] at hmem
    change w ∈ r.free ↔ w.index < (r.slots.push _).size ∧ _
    rw [hget w, hfree, Array.size_push]
    by_cases hw : w = ⟨r.slots.size⟩
    · simp [hw]
    · have hindex : w.index ≠ r.slots.size := fun e => hw (index_injective e)
      have hlt : w.index < r.slots.size + 1 ↔ w.index < r.slots.size := by omega
      rw [hlt]
      simpa [hw] using hmem

theorem get?_releaseId (r : Registry α) (id w : VariableId) :
    (r.releaseId id).get? w = if w = id then none else r.get? w := by
  unfold releaseId
  split
  next hnone =>
    split
    next hw => rw [hw, hnone]
    next _ => rfl
  next record hsome =>
    have hlt := index_lt_of_get? hsome
    unfold get?
    simp only [Array.getElem?_modify]
    by_cases hw : w = id
    · subst hw
      simp [hlt]
    · have hindex : id.index ≠ w.index := fun e => hw (index_injective e.symm)
      simp [hw, hindex]

theorem generation?_releaseId (r : Registry α) {id w : VariableId} (h : w ≠ id) :
    (r.releaseId id).generation? w = r.generation? w := by
  unfold releaseId
  split
  · rfl
  · have hindex : id.index ≠ w.index := fun e => h (index_injective e.symm)
    unfold generation?
    simp [Array.getElem?_modify, hindex]

theorem generation?_releaseId_self (h : (r.get? id).isSome) :
    (r.releaseId id).generation? id = (r.generation? id).map (· + 1) := by
  obtain ⟨record, hrecord⟩ := Option.isSome_iff_exists.mp h
  unfold releaseId
  rw [hrecord]
  unfold generation?
  simp only [Array.getElem?_modify, if_true, Option.map_map]
  rfl

@[simp] theorem slots_size_releaseId (r : Registry α) (id : VariableId) :
    (r.releaseId id).slots.size = r.slots.size := by
  unfold releaseId
  split
  · rfl
  · exact Array.size_modify

theorem live_releaseId (h : (r.get? id).isSome) : (r.releaseId id).live = r.live - 1 := by
  obtain ⟨record, hrecord⟩ := Option.isSome_iff_exists.mp h
  unfold releaseId
  rw [hrecord]

@[simp] theorem session_releaseId (r : Registry α) (id : VariableId) :
    (r.releaseId id).session = r.session := by
  unfold releaseId
  split <;> rfl

theorem sound_releaseId (hr : r.Sound) (id : VariableId) : (r.releaseId id).Sound := by
  have hget := get?_releaseId r id
  unfold releaseId at hget ⊢
  split at hget
  next hnone => exact hr
  next record hsome =>
    have hlt := index_lt_of_get? hsome
    have hid : id ∉ r.free := by
      intro hmem
      rw [hr.mem_free, hsome] at hmem
      simp at hmem
    refine ⟨List.nodup_cons.mpr ⟨hid, hr.free_nodup⟩, fun w => ?_⟩
    change w ∈ id :: r.free ↔ w.index < (r.slots.modify id.index _).size ∧ _
    rw [List.mem_cons, hr.mem_free, hget w, Array.size_modify]
    by_cases hw : w = id
    · subst hw
      simp [hlt]
    · simp [hw]

theorem sound_start (session : SessionId) : (start session : Registry α).Sound :=
  ⟨List.nodup_nil, by simp [start, get?]⟩

/-! ## Changing all records -/

theorem get?_mapRecords (r : Registry α) (f : VariableId → Record α → Record α)
    (id : VariableId) : (r.mapRecords f).get? id = (r.get? id).map (f id) := by
  unfold get? mapRecords
  simp only [Array.getElem?_mapIdx]
  cases r.slots[id.index]? <;> rfl

@[simp] theorem generation?_mapRecords (r : Registry α) (f : VariableId → Record α → Record α)
    (id : VariableId) : (r.mapRecords f).generation? id = r.generation? id := by
  unfold generation? mapRecords
  simp only [Array.getElem?_mapIdx]
  cases r.slots[id.index]? <;> rfl

theorem sound_mapRecords (hr : r.Sound) (f : VariableId → Record α → Record α) :
    (r.mapRecords f).Sound where
  free_nodup := hr.free_nodup
  mem_free := by
    intro id
    change id ∈ r.free ↔ _
    rw [hr.mem_free, get?_mapRecords, Option.map_eq_none_iff]
    simp [mapRecords]

/-! ## Handles -/

/-- A handle is recognised when its session, its number and its generation are current. -/
theorem resolve_eq_ok_iff {v : Variable} {id : VariableId} :
    r.resolve v = .ok id ↔
      v.session = r.session ∧ id = v.id ∧ r.generation? v.id = some v.generation ∧
        (r.get? v.id).isSome := by
  unfold resolve generation? get?
  by_cases hsession : v.session = r.session
  · simp only [hsession, ne_eq, not_true_eq_false, if_false, true_and]
    cases hslot : r.slots[v.id.index]? with
    | none => simp
    | some slot =>
        by_cases hcurrent : slot.generation = v.generation ∧ slot.record.isSome = true
        · simp [hcurrent.1, hcurrent.2, eq_comm]
        · have htest : (decide (slot.generation = v.generation) && slot.record.isSome) = false := by
            simpa using hcurrent
          simp only [htest, Bool.false_eq_true, if_false, reduceCtorEq, Option.map_some,
            Option.some.injEq, Option.bind_some, false_iff, not_and]
          intro _ hgeneration hrecord
          exact hcurrent ⟨hgeneration, hrecord⟩
  · simp [hsession]

/-- A handle is foreign when its session is not current. -/
theorem resolve_eq_foreign_iff {v : Variable} :
    r.resolve v = .error (.foreignVariable v.id) ↔ v.session ≠ r.session := by
  unfold resolve
  by_cases hsession : v.session = r.session
  · simp only [hsession, ne_eq, not_true_eq_false, if_false, iff_false]
    split
    · split <;> simp
    · simp
  · simp [hsession]

/-- A handle of the current session that is not recognised is stale. -/
theorem resolve_eq_stale_iff {v : Variable} :
    r.resolve v = .error (.staleVariable v.id) ↔ v.session = r.session ∧ r.resolve v ≠ .ok v.id := by
  unfold resolve
  by_cases hsession : v.session = r.session
  · simp only [hsession, ne_eq, not_true_eq_false, if_false, true_and]
    split
    · split <;> simp
    · simp
  · simp [hsession]

/-- The record behind a handle that is recognised. -/
theorem lookup_eq_ok {v : Variable} (h : r.resolve v = .ok v.id)
    (hrecord : r.get? v.id = some record) : r.lookup v = .ok record := by
  unfold lookup
  rw [h]
  show (do r.record v.id : Except Failure (Record α)) = .ok record
  rw [record_eq_ok hrecord]
  rfl

/-- The handle of a live number is recognised. -/
theorem exists_handle (h : (r.get? id).isSome) :
    ∃ v, r.handle? id = some v ∧ v.id = id ∧ r.resolve v = .ok v.id := by
  obtain ⟨record, hrecord⟩ := Option.isSome_iff_exists.mp h
  obtain ⟨slot, hslot, hfound⟩ := Option.bind_eq_some_iff.mp hrecord
  refine ⟨⟨r.session, id, slot.generation⟩, ?_, rfl, ?_⟩
  · unfold handle?
    rw [hslot]
    show (slot.record.bind fun _ => some _) = _
    rw [hfound]
    rfl
  · refine resolve_eq_ok_iff.mpr ⟨rfl, rfl, ?_, h⟩
    unfold generation?
    rw [hslot]
    rfl

/-- The handle of a new variable is recognised. -/
theorem resolve_allocate (hr : r.Sound) (record : Record α) :
    (r.allocate record).2.resolve (r.allocate record).1 = .ok (r.allocate record).1.id := by
  rw [resolve_eq_ok_iff, session_allocate_handle, session_allocate, generation?_allocate hr,
    get?_allocate hr]
  simp

end Registry

end LexSimplex
