import LexSimplex.Proofs.Registry
import LexSimplex.Tableau.Optimize

/-!
# What pivots leave alone

A pivot rewrites the rows and the objectives and changes which variables are defined by a row.  The
number of positions for rows, the holes among them and all else that is known about the variables
stay as they are: two tableaus with these parts in common share a frame (`Tableau.Frame`).

Nothing is assumed about the scalars or the storage of rows.
-/

namespace LexSimplex

namespace Registry

variable {α : Type} {r other : Registry α} {id : VariableId} {record : Record α}

/-- The registry with all definitions dropped. -/
def undefined (r : Registry α) : Registry α :=
  r.mapRecords fun _ record => { record with definition := none }

theorem get?_of_record (h : r.record id = .ok record) : r.get? id = some record := by
  unfold Registry.record at h
  unfold get?
  cases hslot : r.slots[id.index]? with
  | none => rw [hslot] at h; simp at h
  | some slot =>
      rw [hslot] at h
      cases hrecord : slot.record with
      | none => simp [hrecord] at h
      | some found => simpa [hrecord] using h

theorem undefined_setRecord (h : r.get? id = some record) (definition : Option RowId) :
    (r.setRecord id { record with definition }).undefined = r.undefined := by
  unfold undefined mapRecords setRecord
  simp only [mk.injEq, true_and, and_true]
  apply Array.ext_getElem?
  intro i
  rw [Array.getElem?_mapIdx, Array.getElem?_mapIdx, Array.getElem?_modify]
  split
  next hi =>
    subst hi
    unfold get? at h
    cases hslot : r.slots[id.index]? with
    | none => rfl
    | some slot =>
        rw [hslot] at h
        have hrecord : slot.record = some record := h
        simp [hrecord]
  next => rfl

/-- A registry is determined by its definitions and the rest. -/
theorem eq_of_undefined (h : r.undefined = other.undefined)
    (hdefinition : ∀ id, (r.get? id).bind Record.definition =
      (other.get? id).bind Record.definition) : r = other := by
  have hsession := congrArg session h
  have hslots := congrArg slots h
  have hfree := congrArg free h
  have hlive := congrArg live h
  have hsame : r.slots = other.slots := by
    apply Array.ext_getElem?
    intro i
    have hat := congrArg (fun slots : Array (Slot α) => slots[i]?) hslots
    have hdefined := hdefinition ⟨i⟩
    unfold undefined mapRecords at hat
    simp only [Array.getElem?_mapIdx] at hat
    unfold get? at hdefined
    simp only at hdefined
    -- The slots agree up to the definition, and the definitions agree.
    cases hmine : r.slots[i]? with
    | none =>
        rw [hmine] at hat
        cases hyours : other.slots[i]? with
        | none => rfl
        | some slot => rw [hyours] at hat; simp at hat
    | some mine =>
        rw [hmine] at hat hdefined
        cases hyours : other.slots[i]? with
        | none => rw [hyours] at hat; simp at hat
        | some yours =>
            rw [hyours] at hat hdefined
            obtain ⟨generation, record⟩ := mine
            obtain ⟨generation', record'⟩ := yours
            simp only [Option.map_some, Option.some.injEq, Slot.mk.injEq] at hat
            obtain ⟨rfl, hrecord⟩ := hat
            cases record with
            | none =>
                cases record' with
                | none => rfl
                | some found => simp at hrecord
            | some record =>
                cases record' with
                | none => simp at hrecord
                | some record' =>
                    cases record
                    cases record'
                    simp_all
  cases r
  cases other
  simp_all [undefined, mapRecords]

end Registry

section Failing

variable {β γ : Type}

/-- Both parts of a computation that succeeds succeed. -/
theorem ok_of_bind {ε : Type} {x : Except ε β} {f : β → Except ε γ} {result : γ}
    (h : (x >>= f) = .ok result) : ∃ value, x = .ok value ∧ f value = .ok result := by
  cases x with
  | error cause => cases h
  | ok value => exact ⟨value, rfl, h⟩

theorem ok_of_lift_access {x : Except AccessFault β} {value : β}
    (h : (liftM x : Except Failure β) = .ok value) : x = .ok value := by
  cases x with
  | error fault => cases h
  | ok found =>
      cases h
      rfl

theorem ok_of_lift_answer {x : Except SolverError β} {value : β}
    (h : (liftM x : Except Failure β) = .ok value) : x = .ok value := by
  cases x with
  | error cause => cases h
  | ok found =>
      cases h
      rfl

end Failing

namespace Tableau

variable {S α : Type} {t next last : Tableau S α}

section Parts

/-- Only the records change when a definition is noted. -/
theorem define_parts {v : Option VariableId} {definition : Option RowId}
    (h : t.define v definition = .ok next) : ∃ registry, next = { t with registry } := by
  cases v with
  | none =>
      cases h
      exact ⟨t.registry, rfl⟩
  | some id =>
      obtain ⟨registry, -, hnext⟩ := ok_of_bind h
      cases hnext
      exact ⟨registry, rfl⟩

/-- Only the rows, the holes and the records change when a row is added. -/
theorem insertRow_parts {row : Row S α} (h : t.insertRow row = .ok next) :
    ∃ registry rows freeRows, next = { t with registry, rows, freeRows } := by
  unfold insertRow at h
  split at h
  next hole rest hholes =>
    split at h
    next =>
      obtain ⟨registry, rfl⟩ := define_parts h
      exact ⟨registry, _, rest, rfl⟩
    next => cases h
  next hholes =>
    obtain ⟨registry, rfl⟩ := define_parts h
    exact ⟨registry, _, t.freeRows, rfl⟩

/-- Only the rows, the holes and the records change when a row is dropped. -/
theorem dropRow_parts {id : RowId} {row : Row S α} (h : t.dropRow id = .ok (row, next)) :
    ∃ registry rows freeRows, next = { t with registry, rows, freeRows } := by
  obtain ⟨found, -, h⟩ := ok_of_bind h
  obtain ⟨defined, hdefined, h⟩ := ok_of_bind h
  cases h
  obtain ⟨registry, rfl⟩ := define_parts (ok_of_lift_access hdefined)
  exact ⟨registry, _, id :: t.freeRows, rfl⟩

variable [Scalar α] [RowStore S α]

/-- A pivot takes a row out, replaces the entering variable in all other rows and puts the solved row
back. -/
theorem pivot_parts {entering : VariableId} {id : RowId} {exchange : Exchange}
    (h : t.pivot entering id = .ok (next, exchange)) :
    ∃ leaving solved taken substituted,
      (t.setRow id none).define (some leaving) none = .ok taken ∧
      taken.substitute entering solved = .ok substituted ∧
      (substituted.setRow id (some solved)).define solved.basic (some id) = .ok next := by
  obtain ⟨row, -, h⟩ := ok_of_bind h
  split at h
  next => cases h
  next leaving hbasic =>
    obtain ⟨solved, -, h⟩ := ok_of_bind h
    obtain ⟨taken, htaken, h⟩ := ok_of_bind h
    obtain ⟨substituted, hsubstituted, h⟩ := ok_of_bind h
    obtain ⟨restored, hrestored, h⟩ := ok_of_bind h
    cases h
    exact ⟨leaving, solved, taken, substituted, ok_of_lift_access htaken,
      ok_of_lift_access hsubstituted, ok_of_lift_access hrestored⟩

/-- The primal loop goes on by a pivot. -/
theorem pivot_of_primalStep {which : Objective} {exchange : Option Exchange}
    (h : t.primalStep which = .ok (.proceed next exchange)) :
    ∃ entering id made, t.pivot entering id = .ok (next, made) := by
  obtain ⟨goal, -, h⟩ := ok_of_bind h
  obtain ⟨column, -, h⟩ := ok_of_bind h
  cases column with
  | none => cases h
  | some entering =>
      obtain ⟨limiting, -, h⟩ := ok_of_bind h
      cases limiting with
      | none => cases h
      | some id =>
          obtain ⟨⟨pivoted, made⟩, hpivot, h⟩ := ok_of_bind h
          cases h
          exact ⟨entering, id, made, hpivot⟩

/-- The primal loop halts where it is. -/
theorem final_of_primalStep {which : Objective} {verdict : Verdict}
    (h : t.primalStep which = .ok (.halt next verdict)) : next = t := by
  obtain ⟨goal, -, h⟩ := ok_of_bind h
  obtain ⟨column, -, h⟩ := ok_of_bind h
  cases column with
  | none =>
      cases h
      rfl
  | some entering =>
      obtain ⟨limiting, -, h⟩ := ok_of_bind h
      cases limiting with
      | none =>
          cases h
          rfl
      | some id =>
          obtain ⟨⟨pivoted, made⟩, -, h⟩ := ok_of_bind h
          cases h

end Parts

/-- Two tableaus with the same positions for rows, the same holes and the same variables, up to the
definitions of these. -/
structure Frame (t next : Tableau S α) : Prop where
  size : next.rows.size = t.rows.size
  holes : next.freeRows = t.freeRows
  registry : next.registry.undefined = t.registry.undefined

namespace Frame

theorem refl (t : Tableau S α) : Frame t t := ⟨rfl, rfl, rfl⟩

theorem trans (h : Frame t next) (h' : Frame next last) : Frame t last :=
  ⟨h'.size.trans h.size, h'.holes.trans h.holes, h'.registry.trans h.registry⟩

theorem slots_size (h : Frame t next) : next.registry.slots.size = t.registry.slots.size := by
  have hsize := congrArg (fun r : Registry α => r.slots.size) h.registry
  simpa [Registry.undefined, Registry.mapRecords] using hsize

theorem session (h : Frame t next) : next.registry.session = t.registry.session := by
  have hsame := congrArg Registry.session h.registry
  exact hsame

theorem generation (h : Frame t next) (v : VariableId) :
    next.registry.generation? v = t.registry.generation? v := by
  have hsame := congrArg (fun r : Registry α => r.generation? v) h.registry
  simpa only [Registry.undefined, Registry.generation?_mapRecords] using hsame

theorem sound (h : Frame t next) (hr : t.registry.Sound) : next.registry.Sound := by
  have hsame := congrArg Registry.free h.registry
  have hfree : next.registry.free = t.registry.free := hsame
  refine ⟨by rw [hfree]; exact hr.free_nodup, fun id => ?_⟩
  have hdead := congrArg (fun r : Registry α => r.get? id = none) h.registry
  simp only [Registry.undefined, Registry.get?_mapRecords, Option.map_eq_none_iff] at hdead
  rw [hfree, hr.mem_free, h.slots_size, hdead]

theorem setRow (t : Tableau S α) (id : RowId) (row : Option (Row S α)) :
    Frame t (t.setRow id row) :=
  ⟨Array.size_setIfInBounds, rfl, rfl⟩

theorem define {v : Option VariableId} {definition : Option RowId}
    (h : t.define v definition = .ok next) : Frame t next := by
  cases v with
  | none =>
      cases h
      exact refl t
  | some id =>
      obtain ⟨registry, hset, hnext⟩ := ok_of_bind h
      cases hnext
      obtain ⟨record, hrecord, hregistry⟩ := ok_of_bind hset
      cases hregistry
      exact ⟨rfl, rfl, Registry.undefined_setRecord (Registry.get?_of_record hrecord) definition⟩

variable [Scalar α]

theorem queueIfInfeasible {id : RowId} (h : t.queueIfInfeasible id = .ok next) : Frame t next := by
  unfold Tableau.queueIfInfeasible at h
  split at h
  next =>
    cases h
    exact refl t
  next row hrow =>
    obtain ⟨answer, -, hnext⟩ := ok_of_bind h
    cases answer with
    | true =>
        cases hnext
        exact ⟨rfl, rfl, rfl⟩
    | false =>
        cases hnext
        exact refl t

theorem queueAll {ids : List RowId}
    (h : ids.foldlM (fun t id => t.queueIfInfeasible id) t = .ok next) : Frame t next := by
  induction ids generalizing t with
  | nil =>
      cases h
      exact refl next
  | cons id ids ih =>
      rw [List.foldlM_cons] at h
      obtain ⟨queued, hqueued, hrest⟩ := ok_of_bind h
      exact (queueIfInfeasible hqueued).trans (ih hrest)

variable [RowStore S α]

theorem substitute {v : VariableId} {definition : Row S α}
    (h : t.substitute v definition = .ok next) : Frame t next := by
  obtain ⟨queued, hqueued, hnext⟩ := ok_of_bind h
  cases hnext
  have hrewritten : Frame t { t with rows := t.substituteRows v definition } :=
    ⟨Array.size_map, rfl, rfl⟩
  have hall := hrewritten.trans (queueAll hqueued)
  exact ⟨hall.size, hall.holes, hall.registry⟩

/-- A pivot keeps the frame. -/
theorem pivot {entering : VariableId} {id : RowId} {exchange : Exchange}
    (h : t.pivot entering id = .ok (next, exchange)) : Frame t next := by
  -- Taking the row out, rewriting the others and putting it back each keep the frame.
  obtain ⟨leaving, solved, taken, substituted, htaken, hsubstituted, hrestored⟩ := pivot_parts h
  exact (setRow t id none).trans <| (define htaken).trans <| (substitute hsubstituted).trans <|
    (setRow substituted id (some solved)).trans (define hrestored)

/-- A step of the primal loop keeps the frame. -/
theorem primalStep {which : Objective} {exchange : Option Exchange}
    (h : t.primalStep which = .ok (.proceed next exchange)) : Frame t next := by
  obtain ⟨entering, id, made, hpivot⟩ := pivot_of_primalStep h
  exact pivot hpivot

end Frame

end Tableau

end LexSimplex
