import LexSimplex.Proofs.Exact.Replace
import LexSimplex.Proofs.Exact.Selection
import LexSimplex.Proofs.Queue

/-!
# Exchanges in reduced tableaus

A pivot asks for the reduced form only, the rows need not be in range.  It succeeds for every variable
that the row mentions (`Reduced.exists_exchange`), leads to a reduced tableau with the same solutions,
and queues the rows that it rewrites and leaves out of range (`Exchanged.queue`).
-/

namespace LexSimplex

namespace Tableau

variable {t next : Tableau LinearForm Rat} {id j : RowId} {row definition : Row LinearForm Rat}
  {entering leaving v : VariableId} {kind : VariableKind} {a : Assignment Rat}

/-! ## Rows out of range -/

theorem outOfRange_iff {x : Rat} : outOfRange kind x = true ↔ ¬kind.Allows x := by
  cases kind <;> simp [outOfRange, VariableKind.isRestricted, VariableKind.Allows]

theorem isInfeasible_eq_ok (hkind : t.BasicOf row kind) :
    t.isInfeasible row = .ok (outOfRange kind row.constant) := by
  obtain ⟨basic, hbasic, hlookup⟩ := hkind.kind_eq_ok
  unfold isInfeasible
  rw [hbasic]
  simp only
  rw [hlookup]
  rfl

theorem kindOf_of_kind (h : t.registry.kind v = .ok kind) : t.kindOf v = some kind := by
  obtain ⟨record, hrecord, hkind⟩ := ok_of_bind h
  rw [kindOf_eq (Registry.get?_of_record hrecord)]
  exact congrArg some (Except.ok.inj hkind)

/-- A position is out of range if its row gives the basic variable a value that its kind does not
allow. -/
theorem outOfRange_position : t.OutOfRange j ↔
    ∃ row kind, t.row? j = some row ∧ t.BasicOf row kind ∧ ¬kind.Allows row.constant := by
  constructor
  · rintro ⟨row, hrow, hinfeasible⟩
    unfold isInfeasible at hinfeasible
    cases hbasic : row.basic with
    | none =>
        rw [hbasic] at hinfeasible
        simp at hinfeasible
    | some basic =>
        rw [hbasic] at hinfeasible
        obtain ⟨kind, hkind, hout⟩ := ok_of_bind hinfeasible
        exact ⟨row, kind, hrow, (basicOf_iff hbasic).mpr (kindOf_of_kind hkind),
          outOfRange_iff.mp (Except.ok.inj hout)⟩
  · rintro ⟨row, kind, hrow, hkind, hout⟩
    exact ⟨row, hrow, by rw [isInfeasible_eq_ok hkind, outOfRange_iff.mpr hout]⟩

theorem outOfRange_iff_of_row (hrow : t.row? j = some row) (hkind : t.BasicOf row kind) :
    t.OutOfRange j ↔ ¬kind.Allows row.constant := by
  rw [outOfRange_position]
  constructor
  · rintro ⟨found, foundKind, hfound, hfoundKind, hout⟩
    rw [hrow, Option.some.injEq] at hfound
    subst hfound
    rwa [hkind.unique hfoundKind]
  · exact fun hout => ⟨row, kind, hrow, hkind, hout⟩

/-- Whether a position is out of range depends on its row and on the kinds of the variables. -/
theorem outOfRange_congr (hrow : next.row? j = t.row? j) (hkinds : ∀ v, next.kindOf v = t.kindOf v) :
    next.OutOfRange j ↔ t.OutOfRange j := by
  simp only [outOfRange_position, hrow, basicOf_congr hkinds]

/-! ## The parts of an exchange -/

/-- A tableau after a variable was replaced by its definition everywhere. -/
def rewrite (t : Tableau LinearForm Rat) (v : VariableId) (definition : Row LinearForm Rat) :
    Tableau LinearForm Rat :=
  { t with
    rows := t.substituteRows v definition
    goal := t.goal.substitute v definition
    artificial := t.artificial.map fun g => g.substitute v definition }

theorem row?_rewrite (t : Tableau LinearForm Rat) (v : VariableId)
    (definition : Row LinearForm Rat) (j : RowId) :
    (t.rewrite v definition).row? j = (t.row? j).map fun row => row.substitute v definition :=
  row?_mapRows t _ j

@[simp] theorem rows_size_rewrite (t : Tableau LinearForm Rat) (v : VariableId)
    (definition : Row LinearForm Rat) : (t.rewrite v definition).rows.size = t.rows.size := by
  simp [rewrite, substituteRows]

/-- The tableau with a row put at a position or taken from it, which is noted as the definition of a
variable or no longer so. -/
def place (t : Tableau LinearForm Rat) (id : RowId) (slot : Option (Row LinearForm Rat))
    (v : VariableId) (record : Record Rat) : Tableau LinearForm Rat :=
  { t.setRow id slot with
    registry := t.registry.setRecord v { record with definition := slot.map fun _ => id } }

theorem row?_place (hlt : id.index < t.rows.size) (slot : Option (Row LinearForm Rat))
    (v : VariableId) (record : Record Rat) (j : RowId) :
    (t.place id slot v record).row? j = if j = id then slot else t.row? j :=
  row?_setRow hlt slot j

theorem get?_place {record : Record Rat} (hrecord : t.registry.get? v = some record)
    (slot : Option (Row LinearForm Rat)) (w : VariableId) :
    (t.place id slot v record).registry.get? w =
      if w = v then some { record with definition := slot.map fun _ => id }
      else t.registry.get? w :=
  Registry.get?_setRecord hrecord _ w

theorem kindOf_place {record : Record Rat} (hrecord : t.registry.get? v = some record)
    (slot : Option (Row LinearForm Rat)) (w : VariableId) :
    (t.place id slot v record).kindOf w = t.kindOf w := by
  unfold kindOf
  rw [get?_place hrecord]
  split
  next hw => rw [hw, hrecord]; rfl
  next => rfl

theorem define_eq_ok (t : Tableau LinearForm Rat) {record : Record Rat}
    (h : t.registry.get? v = some record) (position : Option RowId) :
    t.define (some v) position =
      .ok { t with registry := t.registry.setRecord v { record with definition := position } } := by
  unfold define
  simp only
  rw [Registry.setDefinition_eq_ok h]
  rfl

/-- A pivot takes the row out, replaces the entering variable and puts the solved row back. -/
theorem pivot_eq_ok (hrow : t.row? id = some row) (hbasic : row.basic = some leaving)
    (hentering : row.coefficient entering ≠ 0) {leavingRecord enteringRecord : Record Rat}
    (hleaving : t.registry.get? leaving = some leavingRecord)
    {substituted : Tableau LinearForm Rat}
    (hsubstitute : (t.place id none leaving leavingRecord).substitute entering
      (row.solved entering) = .ok substituted)
    (hrecord : substituted.registry.get? entering = some enteringRecord) :
    t.pivot entering id = .ok (substituted.place id (some (row.solved entering)) entering
      enteringRecord, ⟨id, entering, leaving⟩) := by
  have htake : (t.setRow id none).define (some leaving) none =
      .ok (t.place id none leaving leavingRecord) := define_eq_ok (t.setRow id none) hleaving none
  have hrestore : (substituted.setRow id (some (row.solved entering))).define (some entering)
      (some id) = .ok (substituted.place id (some (row.solved entering)) entering enteringRecord) :=
    define_eq_ok (substituted.setRow id _) hrecord _
  unfold pivot
  rw [row_eq_ok hrow]
  simp only [liftM, monadLift, MonadLift.monadLift, mapError_eq, bind, Except.bind, hbasic]
  rw [Row.pivot_eq_ok hbasic hentering]
  simp only [htake, hsubstitute]
  rw [Row.basic_solved, hrestore]
  rfl

/-- Looking at a row to queue it succeeds if its basic variable is live. -/
theorem exists_queueIfInfeasible (hlive : ∀ row, t.row? j = some row → ∃ kind, t.BasicOf row kind) :
    ∃ queue, t.queueIfInfeasible j = .ok { t with infeasible := queue } := by
  unfold queueIfInfeasible
  cases hrow : t.row? j with
  | none => exact ⟨t.infeasible, rfl⟩
  | some row =>
      obtain ⟨kind, hkind⟩ := hlive row hrow
      simp only
      rw [isInfeasible_eq_ok hkind]
      cases outOfRange kind row.constant with
      | true => exact ⟨t.infeasible.push j, rfl⟩
      | false => exact ⟨t.infeasible, rfl⟩

/-- A replacement succeeds if the basic variables of all rows are live. -/
theorem exists_substitute (hlive : ∀ j row, t.row? j = some row → ∃ kind, t.BasicOf row kind)
    (v : VariableId) (definition : Row LinearForm Rat) :
    ∃ queue, t.substitute v definition = .ok { t.rewrite v definition with infeasible := queue } := by
  let rewritten : Tableau LinearForm Rat := { t with rows := t.substituteRows v definition }
  have hrewritten : ∀ j row, rewritten.row? j = some row → ∃ kind, rewritten.BasicOf row kind := by
    intro j row hrow
    obtain ⟨old, hold, rfl⟩ := Option.map_eq_some_iff.mp ((row?_mapRows t _ j).symm.trans hrow)
    obtain ⟨kind, hkind⟩ := hlive j old hold
    exact ⟨kind, basicOf_substitute.mpr hkind⟩
  -- The pass over the rewritten rows changes nothing but the queue.
  obtain ⟨queued, hqueued, queue, rfl⟩ := foldlM_ok (f := queueIfInfeasible)
    (fun _ queued => ∃ queue, queued = { rewritten with infeasible := queue })
    (t.rowsMentioning v) rewritten ⟨t.infeasible, rfl⟩ (by
      rintro seen j - - ⟨before, rfl⟩
      obtain ⟨after, hafter⟩ := exists_queueIfInfeasible
        (t := { rewritten with infeasible := before }) (j := j) (hrewritten j)
      exact ⟨_, hafter, after, rfl⟩)
  refine ⟨queue, ?_⟩
  unfold substitute
  simp only
  rw [hqueued]
  rfl

/-- The variable of a row is the only one with its position as the definition. -/
theorem records_place_none (h : t.Reduced) {record : Record Rat}
    (hrow : t.row? id = some row) (hbasic : row.basic = some v)
    (hrecord : t.registry.get? v = some record) (w : VariableId) :
    (t.place id none v record).registry.get? w =
      (t.registry.get? w).map fun record =>
        { record with
          definition := if record.definition = some id then none else record.definition } := by
  have hdefinition : record.definition = some id := by
    rw [← definitionOf_eq hrecord, h.definition_of_basic hrow hbasic]
  rw [get?_place hrecord]
  by_cases hw : w = v
  · subst hw
    simp [hrecord, hdefinition]
  · rw [if_neg hw]
    cases hother : t.registry.get? w with
    | none => rfl
    | some other =>
        have hne : other.definition ≠ some id := by
          intro hsame
          obtain ⟨found, hfound, hfoundBasic⟩ :=
            h.row_of_definition (v := w) (by rw [definitionOf_eq hother, hsame])
          rw [hrow, Option.some.injEq] at hfound
          rw [← hfound, hbasic, Option.some.injEq] at hfoundBasic
          exact hw hfoundBasic.symm
        simp [hne]

theorem mem_rowsMentioning : j ∈ t.rowsMentioning v ↔
    ∃ row, t.row? j = some row ∧ row.coefficient v ≠ 0 := by
  unfold rowsMentioning
  simp only [List.mem_map, List.mem_filter, Prod.exists, exists_and_right, exists_eq_right,
    mem_rowList]
  refine exists_congr fun row => and_congr_right fun _ => ?_
  unfold Row.mentions
  rw [Option.isSome_iff_ne_none, ne_eq, LinearForm.find?_eq_none]
  rfl

/-! ## Exchanges -/

/-- The row at `id` was solved for `entering`, which was replaced everywhere else. -/
structure Exchanged (t next : Tableau LinearForm Rat) (id : RowId) (entering : VariableId)
    (row : Row LinearForm Rat) : Prop
    extends Rewritten t next id entering (row.solved entering) (some (row.solved entering)) where
  goal : next.goal = t.goal.substitute entering (row.solved entering)
  artificial : next.artificial = t.artificial.map fun g => g.substitute entering (row.solved entering)
  frame : Frame t next
  /-- The rows that were rewritten and left out of range are queued, besides those that were. -/
  queue : ∀ j, j ∈ next.infeasible.rows ↔ j ∈ t.infeasible.rows ∨
    j ≠ id ∧ (∃ old, t.row? j = some old ∧ old.coefficient entering ≠ 0) ∧ next.OutOfRange j

/-- With its row taken out, a variable can be replaced in the rows that are left. -/
theorem Reduced.exists_substituted (h : t.Reduced) (hrow : t.row? id = some row)
    {record : Record Rat} (hleaving : t.registry.get? leaving = some record)
    (entering : VariableId) (definition : Row LinearForm Rat) :
    ∃ substituted : Tableau LinearForm Rat,
      (t.place id none leaving record).substitute entering definition = .ok substituted ∧
      substituted.registry = (t.place id none leaving record).registry ∧
      substituted.rows.size = t.rows.size ∧
      (∀ j, j ≠ id → substituted.row? j =
        (t.row? j).map fun other => other.substitute entering definition) ∧
      substituted.goal = t.goal.substitute entering definition ∧
      substituted.artificial = t.artificial.map (fun g => g.substitute entering definition) ∧
      ∀ j, j ∈ substituted.infeasible.rows ↔ j ∈ t.infeasible.rows ∨
        j ≠ id ∧ (∃ old, t.row? j = some old ∧ old.coefficient entering ≠ 0) ∧
          substituted.OutOfRange j := by
  let taken := t.place id none leaving record
  have htaken : ∀ j, taken.row? j = if j = id then none else t.row? j :=
    row?_place (index_lt_of_row? hrow) none _ _
  have hlive : ∀ j other, taken.row? j = some other → ∃ kind, taken.BasicOf other kind := by
    intro j other hother
    rw [htaken] at hother
    split at hother
    · simp at hother
    · obtain ⟨kind, hkind⟩ := h.exists_basicOf hother
      exact ⟨kind, (basicOf_congr (kindOf_place hleaving none)).mpr hkind⟩
  obtain ⟨queue, hsubstitute⟩ := exists_substitute hlive entering definition
  refine ⟨_, hsubstitute, rfl, by simp [taken, place], fun j hj => ?_, rfl, rfl, fun j => ?_⟩
  · change (taken.rewrite entering definition).row? j = _
    rw [row?_rewrite, htaken, if_neg hj]
  · rw [mem_infeasible_substitute hsubstitute j, mem_rowsMentioning, htaken]
    change j ∈ t.infeasible.rows ∨ _ ↔ _
    by_cases hj : j = id
    · simp [hj]
    · simp [hj]

/-- A pivot succeeds in every reduced tableau. -/
theorem Reduced.exists_exchange (h : t.Reduced) (hrow : t.row? id = some row)
    (hbasic : row.basic = some leaving) (hentering : row.coefficient entering ≠ 0) :
    ∃ next, t.pivot entering id = .ok (next, ⟨id, entering, leaving⟩) ∧
      Exchanged t next id entering row := by
  obtain ⟨leavingRecord, hleaving, -⟩ :=
    Option.bind_eq_some_iff.mp (h.definition_of_basic hrow hbasic)
  obtain ⟨enteringRecord, hrecord, hundefined⟩ := h.terms_free hrow hentering
  obtain ⟨substituted, hsubstitute, hregistry, hsize, hrows, hgoal, hartificial, hqueue⟩ :=
    h.exists_substituted hrow hleaving entering (row.solved entering)
  have hrecords := records_place_none h hrow hbasic hleaving
  have hfound : substituted.registry.get? entering = some enteringRecord := by
    rw [hregistry, hrecords, hrecord, Option.map_some, if_neg (by rw [hundefined]; simp)]
  -- The solved row comes back to its position as the definition of the entering variable.
  have hpivot := pivot_eq_ok hrow hbasic hentering hleaving hsubstitute hfound
  let restored := substituted.place id (some (row.solved entering)) entering enteringRecord
  have hrestored : ∀ j, restored.row? j = if j = id then some (row.solved entering)
      else substituted.row? j :=
    row?_place (by rw [hsize]; exact index_lt_of_row? hrow) _ _ _
  refine ⟨restored, hpivot, ⟨fun j => ?_, fun w => ?_⟩, hgoal, hartificial, Frame.pivot hpivot,
    fun j => ?_⟩
  · rw [hrestored]
    split
    next => rfl
    next hj => exact hrows j hj
  · rw [get?_place hfound]
    by_cases hw : w = entering
    · subst hw
      simp [hrecord]
    · simp only [if_neg hw, hregistry]
      exact hrecords w
  · -- The other rows and all kinds are as they were before the solved row came back.
    change j ∈ substituted.infeasible.rows ↔ _
    rw [hqueue]
    refine or_congr_right (and_congr_right fun hj => and_congr_right fun _ => ?_)
    exact (outOfRange_congr (by rw [hrestored, if_neg hj]) (kindOf_place hfound _)).symm

namespace Exchanged

/-- The solved row mentions what the row did, and the variable that it defined. -/
theorem terms_solved (h : t.Reduced) (hrow : t.row? id = some row)
    (hv : (row.solved entering).coefficient v ≠ 0) : t.Free v ∨ t.definitionOf v = some id := by
  rcases Row.coefficient_solved_ne_zero hv with hleaving | ⟨-, hterm⟩
  · exact Or.inr (h.definition_of_basic hrow hleaving)
  · exact Or.inl (h.terms_free hrow hterm)

theorem solved_self (h : t.Reduced) (hrow : t.row? id = some row)
    (hentering : row.coefficient entering ≠ 0) : (row.solved entering).coefficient entering = 0 := by
  refine Row.coefficient_solved_self fun hbasic => hentering ?_
  exact h.coefficient_of_defined hrow (h.definition_of_basic hrow hbasic)

/-- An exchange keeps the reduced form. -/
theorem reduced (h : t.Reduced) (hrow : t.row? id = some row)
    (hentering : row.coefficient entering ≠ 0) (hr : Exchanged t next id entering row) :
    next.Reduced :=
  hr.toRewritten.reduced h (Or.inr rfl) rfl (Or.inl (h.terms_free hrow hentering))
    (solved_self h hrow hentering) fun _ => terms_solved h hrow

theorem objective (hr : Exchanged t next id entering row) {which : Objective} {g : Goal Rat}
    (hg : t.objective which = .ok g) :
    next.objective which = .ok (g.substitute entering (row.solved entering)) := by
  cases which with
  | main =>
      obtain rfl : t.goal = g := Except.ok.inj hg
      exact congrArg Except.ok hr.goal
  | artificial =>
      unfold Tableau.objective at hg ⊢
      rw [hr.artificial]
      cases hartificial : t.artificial with
      | none => rw [hartificial] at hg; simp at hg
      | some found =>
          rw [hartificial] at hg
          obtain rfl : found = g := Except.ok.inj hg
          rfl

end Exchanged

end Tableau

end LexSimplex
