import LexSimplex.Proofs.Exact.Exchange

/-!
# The operations on a proper tableau

Each operation that rewrites rows succeeds on a proper tableau and replaces a variable by its
definition in the sense of `Replaced`:

* `exists_pivot`: a pivot, provided the rewritten rows fit their kinds;
* `exists_adopt`: a new row that is solved for a variable, substituted and added;
* `exists_insertRow`: a new row whose basic variable occurs nowhere;
* `exists_dropRow`: a row dropped together with its basic variable;
* `exists_withdraw`: a row dropped after solving it for another variable.
-/

namespace LexSimplex

namespace Tableau

variable {t : Tableau LinearForm Rat} {id : RowId} {row definition : Row LinearForm Rat}
  {entering leaving v : VariableId}

/-! ## The parts of an operation -/

theorem isInfeasible_of_fits {kinds : VariableId → Option VariableKind} {record : Record Rat}
    (hbasic : row.basic = some v) (hrecord : t.registry.get? v = some record)
    (h : row.Fits kinds record.kind) :
    t.isInfeasible row = .ok false := by
  have hkind : t.BasicOf row record.kind := (basicOf_iff hbasic).mpr (kindOf_eq hrecord)
  rw [isInfeasible_eq_ok hkind, Except.ok.injEq, ← Bool.not_eq_true, outOfRange_iff, not_not]
  exact h.allows

/-- If all rewritten rows are in range, none is queued. -/
theorem substitute_eq_ok
    (h : ∀ j row, t.row? j = some row → t.isInfeasible (row.substitute v definition) = .ok false) :
    t.substitute v definition = .ok (t.rewrite v definition) := by
  have hqueue : ∀ touched : List RowId,
      touched.foldlM queueIfInfeasible { t with rows := t.substituteRows v definition } =
        .ok { t with rows := t.substituteRows v definition } := by
    intro touched
    induction touched with
    | nil => rfl
    | cons j touched ih =>
        have hone : queueIfInfeasible { t with rows := t.substituteRows v definition } j =
            .ok { t with rows := t.substituteRows v definition } := by
          unfold queueIfInfeasible
          have hrow : ({ t with rows := t.substituteRows v definition } :
              Tableau LinearForm Rat).row? j = (t.row? j).map fun row => row.substitute v definition :=
            row?_mapRows t _ j
          rw [hrow]
          cases hj : t.row? j with
          | none => rfl
          | some row =>
              have hrange : isInfeasible { t with rows := t.substituteRows v definition }
                  (row.substitute v definition) = .ok false := h j row hj
              simp only [Option.map_some]
              rw [hrange]
              rfl
        rw [List.foldlM_cons, hone]
        exact ih
  unfold substitute
  simp only
  rw [hqueue]
  rfl

/-- A new row goes to a free position and becomes the definition of its basic variable. -/
theorem insertRow_eq_ok {record : Record Rat} (hnodup : t.freeRows.Nodup)
    (hholes : ∀ j, j ∈ t.freeRows ↔ j.index < t.rows.size ∧ t.row? j = none)
    (hbasic : row.basic = some v) (hrecord : t.registry.get? v = some record) :
    ∃ (next : Tableau LinearForm Rat) (id : RowId), t.insertRow row = .ok next ∧
      t.row? id = none ∧ (∀ j, next.row? j = if j = id then some row else t.row? j) ∧
      next.registry = t.registry.setRecord v { record with definition := some id } ∧
      next.freeRows.Nodup ∧
      (∀ j, j ∈ next.freeRows ↔ j.index < next.rows.size ∧ next.row? j = none) ∧
      next.goal = t.goal ∧ next.artificial = t.artificial ∧ next.infeasible = t.infeasible := by
  unfold insertRow
  cases hfree : t.freeRows with
  | nil =>
      simp only
      rw [hbasic, define_eq_ok { t with rows := t.rows.push (some row), freeRows := [] } hrecord]
      have hrows := row?_push t row
      have hempty : t.row? ⟨t.rows.size⟩ = none := by simp [row?]
      refine ⟨_, ⟨t.rows.size⟩, rfl, hempty, hrows, rfl, List.nodup_nil, ?_, rfl, rfl, rfl⟩
      intro j
      change j ∈ [] ↔ j.index < (t.rows.push (some row)).size ∧
        ({ t with rows := t.rows.push (some row) } : Tableau LinearForm Rat).row? j = none
      rw [hrows, ← hfree, hholes, Array.size_push]
      by_cases hj : j = ⟨t.rows.size⟩
      · subst hj
        simp
      · have hindex : j.index ≠ t.rows.size := fun e => hj (rowId_ext e)
        have hlt : j.index < t.rows.size + 1 ↔ j.index < t.rows.size := by omega
        rw [if_neg hj, hlt]
  | cons id rest =>
      rw [hfree] at hnodup
      obtain ⟨hid, hrest⟩ := List.nodup_cons.mp hnodup
      obtain ⟨hlt, hempty⟩ := (hholes id).mp (by rw [hfree]; exact List.mem_cons_self)
      simp only
      rw [if_pos hlt, hbasic,
        define_eq_ok { t.setRow id (some row) with freeRows := rest } hrecord]
      have hrows := row?_setRow hlt (some row)
      refine ⟨_, id, rfl, hempty, hrows, rfl, hrest, ?_, rfl, rfl, rfl⟩
      intro j
      have hold := hholes j
      rw [hfree, List.mem_cons] at hold
      change j ∈ rest ↔ j.index < (t.setRow id (some row)).rows.size ∧
        (t.setRow id (some row)).row? j = none
      rw [hrows, rows_size_setRow]
      by_cases hj : j = id
      · subst hj
        simp [hid]
      · rw [if_neg hj, ← hold]
        simp [hj]

/-- A dropped row leaves a hole, and its basic variable loses its definition. -/
theorem dropRow_eq_ok {record : Record Rat} (hnodup : t.freeRows.Nodup)
    (hholes : ∀ j, j ∈ t.freeRows ↔ j.index < t.rows.size ∧ t.row? j = none)
    (hrow : t.row? id = some row) (hbasic : row.basic = some v)
    (hrecord : t.registry.get? v = some record) :
    ∃ next : Tableau LinearForm Rat, t.dropRow id = .ok (row, next) ∧
      (∀ j, next.row? j = if j = id then none else t.row? j) ∧
      next.registry = t.registry.setRecord v { record with definition := none } ∧
      next.freeRows.Nodup ∧
      (∀ j, j ∈ next.freeRows ↔ j.index < next.rows.size ∧ next.row? j = none) ∧
      next.goal = t.goal ∧ next.artificial = t.artificial ∧ next.infeasible = t.infeasible := by
  have hlt := index_lt_of_row? hrow
  have hdefine := define_eq_ok { t.setRow id none with freeRows := id :: t.freeRows } hrecord none
  have hrows := row?_setRow hlt (none : Option (Row LinearForm Rat))
  refine ⟨{ t.setRow id none with
    freeRows := id :: t.freeRows
    registry := t.registry.setRecord v { record with definition := none } }, ?_, hrows, rfl, ?_, ?_,
    rfl, rfl, rfl⟩
  · unfold dropRow
    rw [row_eq_ok hrow]
    change (do
      let after ← (liftM (define { t.setRow id none with freeRows := id :: t.freeRows }
        row.basic none) : Except Failure (Tableau LinearForm Rat))
      pure (row, after)) = _
    rw [hbasic, hdefine]
    rfl
  · refine List.nodup_cons.mpr ⟨?_, hnodup⟩
    intro hmem
    rw [hholes, hrow] at hmem
    simp at hmem
  · intro j
    change j ∈ id :: t.freeRows ↔ j.index < (t.setRow id none).rows.size ∧
      (t.setRow id none).row? j = none
    rw [List.mem_cons, hholes, hrows, rows_size_setRow]
    by_cases hj : j = id
    · subst hj
      simp [hlt]
    · simp [hj]

/-! ## Taking a row out -/

/-- The row at `id` was taken out, and whatever it defined lost its definition. -/
structure Vacated (t taken : Tableau LinearForm Rat) (id : RowId) : Prop where
  rows : ∀ j, taken.row? j = if j = id then none else t.row? j
  records : ∀ v, taken.registry.get? v = (t.registry.get? v).map fun record =>
    { record with definition := if record.definition = some id then none else record.definition }
  registry : taken.registry.Sound
  session : taken.registry.session = t.registry.session
  generation : ∀ v, taken.registry.generation? v = t.registry.generation? v
  goal : taken.goal = t.goal
  artificial : taken.artificial = t.artificial
  infeasible : taken.infeasible = t.infeasible

namespace Vacated

variable {taken : Tableau LinearForm Rat}

/-- Replacing a variable in the remaining rows queues none of them if the results fit. -/
theorem substitute_eq_ok (h : t.Proper) (hv : Vacated t taken id)
    (hfits : ∀ j other basic kind, j ≠ id → t.row? j = some other → other.basic = some basic →
      t.kindOf basic = some kind → (other.substitute entering definition).Fits t.kindOf kind) :
    taken.substitute entering definition = .ok (taken.rewrite entering definition) := by
  apply Tableau.substitute_eq_ok
  intro j other hother
  rw [hv.rows] at hother
  by_cases hj : j = id
  · rw [if_pos hj] at hother
    simp at hother
  · rw [if_neg hj] at hother
    obtain ⟨basic, record, hbasic, hrecord, hdefinition, -⟩ := h.row_basic hother
    have hkept : taken.registry.get? basic = some record := by
      have hne : record.definition ≠ some id := by
        rw [hdefinition]
        simpa using hj
      rw [hv.records, hrecord]
      simp [hne]
    exact isInfeasible_of_fits (by rw [Row.basic_substitute, hbasic]) hkept
      (hfits j other basic record.kind hj hother hbasic (kindOf_eq hrecord))

end Vacated

/-! ## The operations -/

/-- A pivot succeeds and replaces the entering variable. -/
theorem exists_pivot (h : t.Proper) (hrow : t.row? id = some row)
    (hbasic : row.basic = some leaving) (hentering : row.coefficient entering ≠ 0)
    (hfits : ∀ j other basic kind, j ≠ id → t.row? j = some other → other.basic = some basic →
      t.kindOf basic = some kind →
        (other.substitute entering (row.solved entering)).Fits t.kindOf kind) :
    ∃ next, t.pivot entering id = .ok (next, ⟨id, entering, leaving⟩) ∧
      Replaced t next id entering (row.solved entering) (some (row.solved entering)) := by
  obtain ⟨next, hpivot, hexchanged⟩ := h.reduced.exists_exchange hrow hbasic hentering
  have hframe := hexchanged.frame
  -- A row that fits is not queued, so that the queue stays empty.
  have hqueue : ∀ j, j ∉ next.infeasible.rows := by
    intro j hj
    rcases (hexchanged.queue j).mp hj with hold | ⟨hne, ⟨old, hold, -⟩, hout⟩
    · rw [h.settled] at hold
      simp [Worklist.empty] at hold
    · obtain ⟨kind, hkind⟩ := h.reduced.exists_basicOf hold
      obtain ⟨basic, holdBasic, hbasicKind⟩ := Option.bind_eq_some_iff.mp hkind
      have hnext : next.BasicOf (old.substitute entering (row.solved entering)) kind :=
        basicOf_substitute.mpr ((basicOf_congr hexchanged.kindOf).mpr hkind)
      refine (outOfRange_iff_of_row (hexchanged.row?_of_ne hne hold) hnext).mp hout ?_
      exact (hfits j old basic kind hne hold holdBasic hbasicKind).allows
  refine ⟨next, hpivot, {
    toRewritten := hexchanged.toRewritten
    registry := hframe.sound h.registry
    session := hframe.session
    generation := hframe.generation
    holes_nodup := by rw [hframe.holes]; exact h.holes_nodup
    mem_holes := fun j => ?_
    goal := hexchanged.goal
    artificial := hexchanged.artificial
    infeasible := ?_ }⟩
  · rw [hframe.holes, hframe.size, h.mem_holes, hexchanged.rows]
    by_cases hj : j = id
    · simp [hj, hrow]
    · simp [hj]
  · rw [h.settled]
    exact congrArg Worklist.mk (List.eq_nil_iff_forall_not_mem.mpr hqueue)

/-- A solved row is substituted everywhere and added. -/
theorem exists_adopt {kinds : VariableId → Option VariableKind} (h : t.ProperFor kinds)
    (hbasic : definition.basic = some entering) (hentering : t.Free entering)
    (hfits : ∀ j other basic kind, t.row? j = some other → other.basic = some basic →
      t.kindOf basic = some kind → (other.substitute entering definition).Fits kinds kind) :
    ∃ next id, (do (← t.substitute entering definition).insertRow definition) = .ok next ∧
      t.row? id = none ∧ Replaced t next id entering definition (some definition) := by
  obtain ⟨record, hrecord, hundefined⟩ := hentering
  have hsubstitute : t.substitute entering definition = .ok (t.rewrite entering definition) := by
    apply substitute_eq_ok
    intro j other hother
    obtain ⟨basic, found, hotherBasic, hfound, -, -⟩ := h.row_basic hother
    exact isInfeasible_of_fits (by rw [Row.basic_substitute, hotherBasic]) hfound
      (hfits j other basic found.kind hother hotherBasic (kindOf_eq hfound))
  have hholes : ∀ j, j ∈ (t.rewrite entering definition).freeRows ↔
      j.index < (t.rewrite entering definition).rows.size ∧
        (t.rewrite entering definition).row? j = none := by
    intro j
    rw [rows_size_rewrite, row?_rewrite, Option.map_eq_none_iff]
    exact h.mem_holes j
  obtain ⟨next, id, hinsert, hempty, hrows, hregistry, hnodup, hmem, hgoal, hartificial,
    hinfeasible⟩ := insertRow_eq_ok (t := t.rewrite entering definition) h.holes_nodup hholes hbasic
      hrecord
  rw [row?_rewrite, Option.map_eq_none_iff] at hempty
  refine ⟨next, id, ?_, hempty, {
    rows := ?_
    records := ?_
    registry := ?_
    session := by rw [hregistry]; rfl
    generation := ?_
    holes_nodup := hnodup
    mem_holes := hmem
    goal := hgoal
    artificial := hartificial
    infeasible := hinfeasible }⟩
  · rw [hsubstitute]
    exact hinsert
  · intro j
    rw [hrows, row?_rewrite]
  · intro w
    rw [hregistry]
    change (t.registry.setRecord entering _).get? w = _
    rw [Registry.get?_setRecord hrecord]
    by_cases hw : w = entering
    · subst hw
      simp [hrecord]
    · simp only [if_neg hw]
      cases hother : t.registry.get? w with
      | none => rfl
      | some other =>
          -- No variable is defined by the free position.
          have hne : other.definition ≠ some id := by
            intro hsame
            obtain ⟨found, hfound, -⟩ :=
              h.row_of_definition (v := w) (by rw [definitionOf_eq hother, hsame])
            rw [hempty] at hfound
            simp at hfound
          simp [hne]
  · rw [hregistry]
    exact Registry.sound_setRecord h.registry hrecord _
  · intro w
    rw [hregistry, Registry.generation?_setRecord]
    rfl

/-- Replacing a variable that occurs in no row changes no row. -/
theorem map_substitute_of_absent (hentering : ∀ j row, t.row? j = some row →
    row.coefficient entering = 0) (definition : Row LinearForm Rat) (j : RowId) :
    (t.row? j).map (fun row => row.substitute entering definition) = t.row? j := by
  cases hrow : t.row? j with
  | none => rfl
  | some row => rw [Option.map_some, Row.substitute_eq_self (hentering j row hrow)]

theorem goal_substitute_of_absent {g : Goal Rat} (h : g.coefficient? entering = none)
    (definition : Row LinearForm Rat) : g.substitute entering definition = g := by
  unfold Goal.substitute
  rw [h]

/-- A row is added whose basic variable occurs nowhere. -/
theorem exists_insertRow (h : t.Proper) (hbasic : definition.basic = some entering)
    (hentering : t.Free entering)
    (habsent : ∀ j row, t.row? j = some row → row.coefficient entering = 0)
    (hgoal : t.goal.coefficient? entering = none)
    (hartificial : ∀ g, t.artificial = some g → g.coefficient? entering = none) :
    ∃ next id, t.insertRow definition = .ok next ∧ t.row? id = none ∧
      Replaced t next id entering definition (some definition) := by
  -- The variable occurs nowhere, so that the row could as well be adopted.
  have hrewrite : t.rewrite entering definition = t := by
    have hrows : t.substituteRows entering definition = t.rows := by
      apply Array.ext_getElem?
      intro index
      unfold substituteRows
      rw [Array.getElem?_map]
      cases hslot : t.rows[index]? with
      | none => rfl
      | some slot =>
          cases slot with
          | none => rfl
          | some row =>
              have hrow : t.row? ⟨index⟩ = some row := by simp [row?, hslot]
              simp [Row.substitute_eq_self (habsent _ _ hrow)]
    have hobjective : t.artificial.map (fun g => g.substitute entering definition) =
        t.artificial := by
      cases hg : t.artificial with
      | none => rfl
      | some g => rw [Option.map_some, goal_substitute_of_absent (hartificial g hg)]
    unfold rewrite
    rw [hrows, goal_substitute_of_absent hgoal, hobjective]
  have hfits : ∀ j other basic kind, t.row? j = some other → other.basic = some basic →
      t.kindOf basic = some kind →
        (other.substitute entering definition).Fits t.kindOf kind := by
    intro j other basic kind hother hotherBasic hkind
    rw [Row.substitute_eq_self (habsent j other hother)]
    exact h.fits_of_basic hother hotherBasic hkind
  obtain ⟨next, id, hadopt, hempty, hreplaced⟩ := exists_adopt h hbasic hentering hfits
  refine ⟨next, id, ?_, hempty, hreplaced⟩
  have hsubstitute : t.substitute entering definition = .ok (t.rewrite entering definition) := by
    apply substitute_eq_ok
    intro j other hother
    obtain ⟨basic, found, hotherBasic, hfound, -, -⟩ := h.row_basic hother
    exact isInfeasible_of_fits (by rw [Row.basic_substitute, hotherBasic]) hfound
      (hfits j other basic found.kind hother hotherBasic (kindOf_eq hfound))
  rw [hsubstitute, hrewrite] at hadopt
  exact hadopt

/-- A row is dropped together with its basic variable, which occurs in no other row. -/
theorem exists_dropRow (h : t.Proper) (hrow : t.row? id = some row)
    (hbasic : row.basic = some leaving) :
    ∃ next, t.dropRow id = .ok (row, next) ∧ Vacated t next id ∧
      Replaced t next id leaving row none := by
  obtain ⟨record, hrecord, hdefinition, -⟩ := h.record_of_basic hrow hbasic
  have hdefined : t.definitionOf leaving = some id := h.definition_of_basic hrow hbasic
  have habsent : ∀ j other, t.row? j = some other → other.coefficient leaving = 0 :=
    fun j other hother => h.coefficient_of_defined hother hdefined
  have habsentGoal : ∀ g, t.Admits g → g.coefficient? leaving = none := by
    intro g hg
    cases hvector : g.coefficient? leaving with
    | none => rfl
    | some vector =>
        rw [(hg.free leaving (by rw [hvector]; rfl)).definitionOf] at hdefined
        simp at hdefined
  obtain ⟨next, hdrop, hrows, hregistry, hnodup, hmem, hgoal, hartificial, hinfeasible⟩ :=
    dropRow_eq_ok h.holes_nodup h.mem_holes hrow hbasic hrecord
  have hvacated : Vacated t next id := {
    rows := hrows
    records := by
      rw [hregistry]
      exact records_place_none h.reduced hrow hbasic hrecord
    registry := by rw [hregistry]; exact Registry.sound_setRecord h.registry hrecord _
    session := by rw [hregistry]; rfl
    generation := by rw [hregistry]; exact Registry.generation?_setRecord _ _ _
    goal := hgoal
    artificial := hartificial
    infeasible := hinfeasible }
  refine ⟨next, hdrop, hvacated, {
    rows := ?_
    records := ?_
    registry := hvacated.registry
    session := hvacated.session
    generation := hvacated.generation
    holes_nodup := hnodup
    mem_holes := hmem
    goal := ?_
    artificial := ?_
    infeasible := hinfeasible }⟩
  · intro j
    rw [hrows, map_substitute_of_absent habsent]
  · intro w
    rw [hvacated.records]
    by_cases hw : w = leaving
    · subst hw
      simp [hrecord, hdefinition]
    · simp [hw]
  · rw [hgoal, goal_substitute_of_absent (habsentGoal _ h.goal)]
  · rw [hartificial]
    cases hg : t.artificial with
    | none => rfl
    | some g => rw [Option.map_some, goal_substitute_of_absent (habsentGoal g (h.artificial g hg))]

/-- After its row was dropped, another variable of the row is replaced by the solved row. -/
theorem exists_withdraw (h : t.Proper) (hrow : t.row? id = some row)
    (hbasic : row.basic = some leaving) (hentering : row.coefficient entering ≠ 0)
    (hfits : ∀ j other basic kind, j ≠ id → t.row? j = some other → other.basic = some basic →
      t.kindOf basic = some kind →
        (other.substitute entering (row.solved entering)).Fits t.kindOf kind) :
    ∃ dropped next, t.dropRow id = .ok (row, dropped) ∧
      dropped.substitute entering (row.solved entering) = .ok next ∧
      Replaced t next id entering (row.solved entering) none := by
  obtain ⟨dropped, hdrop, hvacated, hdropped⟩ := exists_dropRow h hrow hbasic
  obtain ⟨record, hrecord, hundefined⟩ := h.terms_free hrow hentering
  refine ⟨dropped, dropped.rewrite entering (row.solved entering), hdrop,
    hvacated.substitute_eq_ok h hfits, {
      rows := ?_
      records := ?_
      registry := hvacated.registry
      session := hvacated.session
      generation := hvacated.generation
      holes_nodup := hdropped.holes_nodup
      mem_holes := ?_
      goal := by rw [← hvacated.goal]; rfl
      artificial := by rw [← hvacated.artificial]; rfl
      infeasible := hvacated.infeasible }⟩
  · intro j
    rw [row?_rewrite, hvacated.rows]
    split <;> rfl
  · intro w
    change dropped.registry.get? w = _
    rw [hvacated.records]
    by_cases hw : w = entering
    · subst hw
      simp [hrecord, hundefined]
    · simp [hw]
  · intro j
    rw [rows_size_rewrite, row?_rewrite, Option.map_eq_none_iff]
    exact hdropped.mem_holes j

end Tableau

end LexSimplex
