import LexSimplex.Proofs.Exact.Pivoting

/-!
# Variables and objectives of a proper tableau

Creating a variable, releasing one and storing values change the registry and leave the rows alone.
A tableau stays proper as long as only variables that it does not use are affected
(`ProperFor.reregister`).  Changing the goal keeps it proper if the new goal is admissible
(`ProperFor.setGoal`).

Whether a tableau uses a variable can be told from its solutions and its goal
(`Proper.unused_iff_idle`), so it does not depend on the pivots that led to the tableau.
-/

namespace LexSimplex

/-- What the rows depend on: the kind of a variable and its definition. -/
def Registry.core? (r : Registry Rat) (v : VariableId) : Option (VariableKind × Option RowId) :=
  (r.get? v).map fun record => (record.kind, record.definition)

namespace Tableau

variable {t : Tableau LinearForm Rat} {v w : VariableId} {a : Assignment Rat}
  {kinds : VariableId → Option VariableKind}

/-- A variable without a definition that occurs in no row and in no objective. -/
structure Unused (t : Tableau LinearForm Rat) (v : VariableId) : Prop where
  definitionOf : t.definitionOf v = none
  rows : ∀ id row, t.row? id = some row → row.coefficient v = 0
  goal : t.goal.coefficient? v = none
  artificial : ∀ g, t.artificial = some g → g.coefficient? v = none

/-- A variable that is not live is not used. -/
theorem ProperFor.unused_of_dead (h : t.ProperFor kinds) (hdead : t.registry.get? v = none) :
    t.Unused v := by
  have hnotFree : ¬t.Free v := by
    rintro ⟨record, hrecord, -⟩
    rw [hdead] at hrecord
    simp at hrecord
  have hgoal : ∀ g, t.Admits g → g.coefficient? v = none := by
    intro g hg
    by_contra hsome
    exact hnotFree (hg.free v (Option.isSome_iff_ne_none.mpr hsome))
  refine ⟨?_, fun id row hrow => ?_, hgoal _ h.goal, fun g hg => hgoal g (h.artificial g hg)⟩
  · unfold Tableau.definitionOf
    rw [hdead]
    rfl
  · by_contra hne
    exact hnotFree (h.terms_free hrow hne)

/-- Whether the rows hold depends on the live variables only. -/
theorem ProperFor.holds_congr {b : Assignment Rat} (h : t.ProperFor kinds)
    (hlive : ∀ v, (t.kindOf v).isSome → a v = b v) : t.Holds a ↔ t.Holds b := by
  rw [holds_iff, holds_iff]
  refine forall_congr' fun j => forall_congr' fun row => imp_congr_right fun hrow => ?_
  obtain ⟨basic, record, hbasic, hrecord, -⟩ := h.row_basic hrow
  have heval : row.eval a = row.eval b :=
    Row.eval_congr fun v hv => hlive v (h.terms_free hrow hv).kindOf_isSome
  rw [Row.holds_of_basic hbasic, Row.holds_of_basic hbasic, heval,
    hlive basic (by rw [kindOf_eq hrecord]; rfl)]

/-- A variable without a definition that no row mentions can be changed freely. -/
theorem ProperFor.holds_update (h : t.ProperFor kinds) (hundefined : t.definitionOf v = none)
    (hrows : ∀ id row, t.row? id = some row → row.coefficient v = 0) (x : Rat) :
    t.Holds (Function.update a v x) ↔ t.Holds a := by
  rw [holds_iff, holds_iff]
  refine forall_congr' fun id => forall_congr' fun row => imp_congr_right fun hrow => ?_
  obtain ⟨basic, record, hbasic, hrecord, hdefined, -⟩ := h.row_basic hrow
  have hne : basic ≠ v := by
    rintro rfl
    rw [definitionOf_eq hrecord, hdefined] at hundefined
    simp at hundefined
  rw [Row.holds_of_basic hbasic, Row.holds_of_basic hbasic, Row.eval_update, hrows id row hrow,
    Function.update_of_ne hne, zero_mul, add_zero]

/-- A variable that can be changed in every solution without leaving the solutions and without an
effect on the goal. -/
def Idle (t : Tableau LinearForm Rat) (v : VariableId) : Prop :=
  ∀ a, t.Holds a → ∀ x, t.Holds (Function.update a v x) ∧
    ∀ level, t.goal.level level (Function.update a v x) = t.goal.level level a

theorem Agrees.idle_iff {next : Tableau LinearForm Rat} (h : Agrees t next) :
    next.Idle v ↔ t.Idle v := by
  refine forall_congr' fun a => imp_congr_ctx (h.holds a) fun ha => forall_congr' fun x => ?_
  rw [h.holds]
  refine and_congr_right fun hx => forall_congr' fun level => ?_
  rw [h.goal level _ hx, h.goal level a ha]

/-- The variables that a tableau does not use are those on which nothing depends. -/
theorem Proper.unused_iff_idle (h : t.Proper) (hnone : t.artificial = none) :
    t.Unused v ↔ t.Idle v := by
  constructor
  · intro hunused a ha x
    refine ⟨(h.holds_update hunused.definitionOf hunused.rows x).mpr ha, fun level => ?_⟩
    rw [Goal.level_update, Goal.rate_eq_zero_of_none hunused.goal, zero_mul, add_zero]
  · intro hidle
    obtain ⟨hundefined, hrows⟩ := h.unmentioned fun a ha x => (hidle a ha x).1
    refine ⟨hundefined, hrows, h.goal.clean.coefficient?_eq_none.mpr fun level => ?_,
      fun g hg => by rw [hnone] at hg; simp at hg⟩
    have hmoved := (hidle t.value h.holds_value (t.value v + 1)).2 level
    rw [Goal.level_update] at hmoved
    linarith

theorem kindOf_eq_core? (t : Tableau LinearForm Rat) (v : VariableId) :
    t.kindOf v = (t.registry.core? v).map Prod.fst := by
  unfold kindOf Registry.core?
  rw [Option.map_map]
  rfl

theorem definitionOf_eq_core? (t : Tableau LinearForm Rat) (v : VariableId) :
    t.definitionOf v = (t.registry.core? v).bind Prod.snd := by
  unfold definitionOf Registry.core?
  cases t.registry.get? v <;> rfl

theorem free_iff_core? : t.Free v ↔ ∃ kind, t.registry.core? v = some (kind, none) := by
  unfold Free Registry.core?
  constructor
  · rintro ⟨record, hrecord, hnone⟩
    exact ⟨record.kind, by rw [hrecord, Option.map_some, hnone]⟩
  · rintro ⟨kind, hcore⟩
    obtain ⟨record, hrecord, hpair⟩ := Option.map_eq_some_iff.mp hcore
    exact ⟨record, hrecord, (Prod.mk.inj hpair).2⟩

/-- A tableau with another registry, in which only variables that are not used differ, and these
have no definition. -/
theorem ProperFor.reregister (h : t.ProperFor kinds) {registry : Registry Rat}
    (hsound : registry.Sound)
    (hcore : ∀ v, registry.core? v = t.registry.core? v ∨
      t.Unused v ∧ (registry.core? v).bind Prod.snd = none) :
    ({ t with registry := registry } : Tableau LinearForm Rat).ProperFor kinds := by
  let next : Tableau LinearForm Rat := { t with registry := registry }
  have hdefinition : ∀ v, next.definitionOf v = t.definitionOf v := by
    intro v
    rw [definitionOf_eq_core?, definitionOf_eq_core?]
    rcases hcore v with hsame | ⟨hunused, hnone⟩
    · exact congrArg (fun core => core.bind Prod.snd) hsame
    · rw [← definitionOf_eq_core? t, hunused.definitionOf]
      exact hnone
  have hfree : ∀ v, t.Free v → ¬t.Unused v → next.Free v := by
    intro v hv hused
    rw [free_iff_core?] at hv ⊢
    rcases hcore v with hsame | ⟨hunused, -⟩
    · exact hsame.symm ▸ hv
    · exact absurd hunused hused
  have hadmits : ∀ g, t.Admits g → (∀ v, (g.coefficient? v).isSome → ¬t.Unused v) →
      next.Admits g := by
    intro g hg hused
    refine ⟨hg.clean, fun v hv => hfree v (hg.free v hv) (hused v hv), fun v hv => ?_⟩
    rw [kindOf_eq_core?]
    rcases hcore v with hsame | ⟨hunused, -⟩
    · change (registry.core? v).map Prod.fst ≠ _
      rw [hsame, ← kindOf_eq_core?]
      exact hg.restricted v hv
    · exact absurd hunused (hused v hv)
  refine {
    registry := hsound
    holes_nodup := h.holes_nodup
    mem_holes := h.mem_holes
    row_basic := ?_
    row_of_definition := fun hdefined => h.row_of_definition (hdefinition _ ▸ hdefined)
    terms_free := fun hrow hne => hfree _ (h.terms_free hrow hne) fun hunused =>
      hne (hunused.rows _ _ hrow)
    goal := hadmits _ h.goal fun v hv hunused => by rw [hunused.goal] at hv; simp at hv
    artificial := fun g hg => hadmits g (h.artificial g hg) fun v hv hunused => by
      rw [hunused.artificial g hg] at hv
      simp at hv
    settled := h.settled }
  intro id row hrow
  obtain ⟨basic, record, hbasic, hrecord, hdefined, hfits⟩ := h.row_basic hrow
  have hused : ¬t.Unused basic := by
    intro hunused
    have hnone := hunused.definitionOf
    rw [definitionOf_eq hrecord, hdefined] at hnone
    simp at hnone
  rcases hcore basic with hsame | ⟨hunused, -⟩
  · unfold Registry.core? at hsame
    rw [hrecord, Option.map_some] at hsame
    obtain ⟨found, hfound, hpair⟩ := Option.map_eq_some_iff.mp hsame
    obtain ⟨hkind, hsameDefinition⟩ := Prod.mk.inj hpair
    exact ⟨basic, found, hbasic, hfound, hsameDefinition.trans hdefined, hkind ▸ hfits⟩
  · exact absurd hunused hused

/-- The kinds that rows are judged by matter only for variables that occur in a row. -/
theorem ProperFor.congr {other : VariableId → Option VariableKind} (h : t.ProperFor kinds)
    (hkinds : ∀ id row v, t.row? id = some row → row.coefficient v ≠ 0 → other v = kinds v) :
    t.ProperFor other where
  registry := h.registry
  holes_nodup := h.holes_nodup
  mem_holes := h.mem_holes
  row_basic := by
    intro id row hrow
    obtain ⟨basic, record, hbasic, hrecord, hdefined, hfits⟩ := h.row_basic hrow
    exact ⟨basic, record, hbasic, hrecord, hdefined,
      hfits.of_terms rfl fun v hv => ⟨hv, hkinds id row v hrow hv⟩⟩
  row_of_definition := h.row_of_definition
  terms_free := h.terms_free
  goal := h.goal
  artificial := h.artificial
  settled := h.settled

/-- Admissible objectives are judged by the registry alone. -/
theorem Admits.of_registry {next : Tableau LinearForm Rat} {g : Goal Rat} (hg : t.Admits g)
    (hregistry : next.registry = t.registry) : next.Admits g := by
  refine ⟨hg.clean, fun v hv => ?_, fun v hv => ?_⟩
  · unfold Free
    rw [hregistry]
    exact hg.free v hv
  · unfold kindOf
    rw [hregistry]
    exact hg.restricted v hv

theorem ProperFor.setGoal (h : t.ProperFor kinds) {g : Goal Rat} (hg : t.Admits g) :
    ({ t with goal := g } : Tableau LinearForm Rat).ProperFor kinds where
  registry := h.registry
  holes_nodup := h.holes_nodup
  mem_holes := h.mem_holes
  row_basic := h.row_basic
  row_of_definition := h.row_of_definition
  terms_free := h.terms_free
  goal := hg.of_registry rfl
  artificial := fun g hg => (h.artificial g hg).of_registry rfl
  settled := h.settled

theorem ProperFor.setArtificial (h : t.ProperFor kinds) {objective : Option (Goal Rat)}
    (hobjective : ∀ g, objective = some g → t.Admits g) :
    ({ t with artificial := objective } : Tableau LinearForm Rat).ProperFor kinds where
  registry := h.registry
  holes_nodup := h.holes_nodup
  mem_holes := h.mem_holes
  row_basic := h.row_basic
  row_of_definition := h.row_of_definition
  terms_free := h.terms_free
  goal := h.goal.of_registry rfl
  artificial := fun g hg => (hobjective g hg).of_registry rfl
  settled := h.settled

/-! ## Admissible objectives -/

theorem isSome_iff_rate {g : Goal Rat} (hg : g.Clean) :
    (g.coefficient? v).isSome ↔ ∃ s, g.rate s v ≠ 0 := by
  rw [Option.isSome_iff_ne_none, ne_eq, hg.coefficient?_eq_none, not_forall]

namespace Admits

variable {g : Goal Rat}

theorem insert (hg : t.Admits g) (hfree : t.Free v) (hkind : t.kindOf v ≠ some .unrestricted)
    (vector : StrengthVector Rat) (factor : Rat) : t.Admits (g.insert v vector factor) := by
  have hclean : (g.insert v vector factor).Clean := Goal.clean_insert hg.clean v vector factor
  have hoccurs : ∀ w, ((g.insert v vector factor).coefficient? w).isSome →
      w = v ∨ (g.coefficient? w).isSome := by
    intro w hw
    by_cases hwv : w = v
    · exact Or.inl hwv
    · rw [Goal.coefficient?_insert, if_neg hwv] at hw
      exact Or.inr hw
  refine ⟨hclean, fun w hw => ?_, fun w hw => ?_⟩
  · rcases hoccurs w hw with rfl | hold
    · exact hfree
    · exact hg.free w hold
  · rcases hoccurs w hw with rfl | hold
    · exact hkind
    · exact hg.restricted w hold

theorem insertRow (hg : t.Admits g) {row : Row LinearForm Rat}
    (hfree : ∀ w, row.coefficient w ≠ 0 → t.Free w) (hrestricted : row.Restricted t.kindOf)
    (vector : StrengthVector Rat) (factor : Rat) : t.Admits (g.insertRow row vector factor) := by
  have hclean := Goal.clean_insertRow hg.clean row vector factor
  have hoccurs : ∀ w, ((g.insertRow row vector factor).coefficient? w).isSome →
      row.coefficient w ≠ 0 ∨ (g.coefficient? w).isSome := by
    intro w hw
    obtain ⟨s, hs⟩ := (isSome_iff_rate hclean).mp hw
    by_contra hnone
    obtain ⟨hrow, hgoal⟩ := not_or.mp hnone
    rw [isSome_iff_rate hg.clean, not_exists] at hgoal
    rw [Goal.rate_insertRow, not_not.mp (hgoal s), not_not.mp hrow] at hs
    simp at hs
  refine ⟨hclean, fun w hw => ?_, fun w hw => ?_⟩
  · rcases hoccurs w hw with hrow | hold
    · exact hfree w hrow
    · exact hg.free w hold
  · rcases hoccurs w hw with hrow | hold
    · exact hrestricted w hrow
    · exact hg.restricted w hold

theorem erase (hg : t.Admits g) (v : VariableId) : t.Admits (g.erase v) :=
  ⟨Goal.clean_erase hg.clean v, fun w hw => hg.free w (Goal.isSome_erase.mp hw).2,
    fun w hw => hg.restricted w (Goal.isSome_erase.mp hw).2⟩

end Admits

/-! ## Creating and releasing variables -/

/-- The form of `reregister` for the kinds of the tableau itself. -/
theorem Proper.reregister (h : t.Proper) {registry : Registry Rat} (hsound : registry.Sound)
    (hcore : ∀ v, registry.core? v = t.registry.core? v ∨
      t.Unused v ∧ (registry.core? v).bind Prod.snd = none) :
    ({ t with registry := registry } : Tableau LinearForm Rat).Proper := by
  refine (ProperFor.reregister h hsound hcore).congr fun id row v hrow hne => ?_
  rw [kindOf_eq_core?, kindOf_eq_core?]
  rcases hcore v with hsame | ⟨hunused, -⟩
  · exact congrArg _ hsame
  · exact absurd (hunused.rows id row hrow) hne

/-- A new variable, which is not used yet. -/
theorem Proper.created (h : t.Proper) (record : Record Rat) (hdefinition : record.definition = none) :
    ({ t with registry := (t.registry.allocate record).2 } : Tableau LinearForm Rat).Proper := by
  refine h.reregister (Registry.sound_allocate h.registry record) fun v => ?_
  unfold Registry.core?
  rw [Registry.get?_allocate h.registry]
  by_cases hv : v = (t.registry.allocate record).1.id
  · right
    refine ⟨h.unused_of_dead (hv ▸ Registry.get?_allocate_fresh h.registry record), ?_⟩
    rw [if_pos hv]
    exact hdefinition
  · left
    rw [if_neg hv]

/-- One variable was created, with the given record. -/
structure Creates (t next : Tableau LinearForm Rat) (v : VariableId) (record : Record Rat) :
    Prop where
  dead : t.registry.get? v = none
  get? : ∀ w, next.registry.get? w = if w = v then some record else t.registry.get? w
  session : next.registry.session = t.registry.session
  generation : ∀ w, w ≠ v → next.registry.generation? w = t.registry.generation? w

theorem Proper.creates (h : t.Proper) (record : Record Rat) :
    Creates t { t with registry := (t.registry.allocate record).2 }
      (t.registry.allocate record).1.id record where
  dead := Registry.get?_allocate_fresh h.registry record
  get? := Registry.get?_allocate h.registry record
  session := Registry.session_allocate _ _
  generation := fun w hw => (Registry.generation?_allocate h.registry record w).trans (if_neg hw)

namespace Creates

variable {next : Tableau LinearForm Rat} {record : Record Rat}

/-- The new variable is none of those that were live. -/
theorem ne_of_live (h : Creates t next v record) (hw : (t.kindOf w).isSome) : w ≠ v := by
  rintro rfl
  rw [kindOf_of_dead h.dead] at hw
  simp at hw

theorem free (h : Creates t next v record) (hw : t.Free w) : next.Free w := by
  have hne := h.ne_of_live hw.kindOf_isSome
  obtain ⟨found, hfound, hundefined⟩ := hw
  exact ⟨found, by rw [h.get?, if_neg hne, hfound], hundefined⟩

theorem free_self (h : Creates t next v record) (hdefinition : record.definition = none) :
    next.Free v :=
  ⟨record, by rw [h.get?, if_pos rfl], hdefinition⟩

theorem roleOf (h : Creates t next v record) (w : VariableId) :
    next.roleOf w = if w = v then some (record.kind, record.strength) else t.roleOf w := by
  unfold Tableau.roleOf
  rw [h.get?]
  split <;> rfl

theorem kindOf_of_ne (h : Creates t next v record) (hw : w ≠ v) :
    next.kindOf w = t.kindOf w := by
  unfold Tableau.kindOf
  rw [h.get?, if_neg hw]

theorem kindOf_self (h : Creates t next v record) : next.kindOf v = some record.kind := by
  unfold Tableau.kindOf
  rw [h.get?, if_pos rfl]
  rfl

end Creates

/-- A variable that is not used is released. -/
theorem Proper.released (h : t.Proper) (hunused : t.Unused v) :
    ({ t with registry := t.registry.releaseId v } : Tableau LinearForm Rat).Proper := by
  refine h.reregister (Registry.sound_releaseId h.registry v) fun w => ?_
  unfold Registry.core?
  rw [Registry.get?_releaseId]
  by_cases hw : w = v
  · right
    subst hw
    exact ⟨hunused, by simp⟩
  · left
    rw [if_neg hw]

/-- The answer whether a variable is used, for a tableau without an artificial objective. -/
theorem isReferenced_eq_ok {record : Record Rat} (hrecord : t.registry.get? v = some record)
    (hartificial : t.artificial = none) :
    ∃ answer, t.isReferenced v = .ok answer ∧ (answer = false ↔ t.Unused v) := by
  unfold isReferenced
  rw [Registry.record_eq_ok hrecord]
  refine ⟨_, rfl, ?_⟩
  rw [Bool.or_eq_false_iff, Bool.or_eq_false_iff, List.any_eq_false, Option.isSome_eq_false_iff,
    Option.isSome_eq_false_iff, Option.isNone_iff_eq_none, Option.isNone_iff_eq_none]
  constructor
  · rintro ⟨⟨hdefinition, hgoal⟩, hrows⟩
    refine ⟨by rw [Tableau.definitionOf_eq hrecord, hdefinition], fun id row hrow => ?_, hgoal,
      fun g hg => by rw [hartificial] at hg; simp at hg⟩
    have habsent := hrows (id, row) (mem_rowList.mpr hrow)
    rw [Row.contains_iff] at habsent
    exact not_not.mp habsent
  · intro hunused
    refine ⟨⟨by rw [← Tableau.definitionOf_eq hrecord, hunused.definitionOf], hunused.goal⟩, ?_⟩
    rintro ⟨id, row⟩ hmem
    rw [Row.contains_iff, not_not]
    exact hunused.rows id row (mem_rowList.mp hmem)

end Tableau

end LexSimplex
