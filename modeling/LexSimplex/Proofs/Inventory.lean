import LexSimplex.Proofs.Exact.Rank
import LexSimplex.Proofs.Handles
import LexSimplex.Proofs.Transfer.Exact

/-!
# Nothing is left behind

Removing a constraint gives its variables back only if neither a row nor the goal mentions them any
more.  The marker goes with the row that is taken out, but nothing is done about the second variable
of a soft constraint.  It is gone nevertheless.  As long as the constraints mention declared
variables only, no equation that stays and no penalty depends on a variable that the removed
constraint brought (`Accounts.idle_of_unrelated`), and what no solution depends on is not mentioned
by a proper tableau.

Hence the live variables are at all times the declared ones and those of the present constraints
(`Inventory`), and there is one row for each constraint.  This is stated for every run, together with
what single calls do to the variables in use (`nothing_left_behind`).
-/

namespace LexSimplex

open Tableau

/-- A number is in use. -/
def Solver.Live {S α : Type} (s : Solver S α) (v : VariableId) : Prop :=
  (s.tableau.registry.get? v).isSome

/-- A required constraint has one variable of its own and a soft one has two. -/
theorem Tag.Formed.length_own {t : Tableau LinearForm Rat} {tag : Tag Rat}
    (h : tag.Formed t) :
    tag.own.length = if tag.constraint.strength.isSome then 2 else 1 := by
  unfold Tag.own
  cases hstrength : tag.constraint.strength with
  | none => simp [h.required hstrength]
  | some strength =>
      obtain ⟨partner, hpartner, -⟩ := h.soft strength hstrength
      simp [hpartner]

namespace Solver

variable {s next : Solver LinearForm Rat} {declared : List (Variable × DeclaredKind)}
  {tag : Tag Rat} {v : VariableId}

theorem live_iff_kindOf : s.Live v ↔ (s.tableau.kindOf v).isSome := by
  unfold Live kindOf
  rw [Option.isSome_map]

theorem live_iff_of_role (h : next.tableau.roleOf v = s.tableau.roleOf v) :
    next.Live v ↔ s.Live v := by
  rw [live_iff_kindOf, live_iff_kindOf, kindOf_eq_roleOf, kindOf_eq_roleOf, h]

theorem not_live_of_role (h : s.tableau.roleOf v = none) : ¬s.Live v := by
  rw [live_iff_kindOf, kindOf_eq_roleOf, h]
  simp

theorem not_live_of_dead (h : s.tableau.registry.get? v = none) : ¬s.Live v := by
  unfold Live
  rw [h]
  simp

/-! ## Accepting and withdrawing a constraint -/

/-- An accepted constraint brings its variables. -/
theorem Accepts.live_iff (h : s.Accepts next tag) : next.Live v ↔ s.Live v ∨ v ∈ tag.own := by
  by_cases hv : v ∈ tag.own
  · simp only [hv, or_true, iff_true]
    exact live_iff_kindOf.mpr (h.formed.live hv)
  · simp only [hv, or_false]
    exact live_iff_of_role (h.others v hv)

/-- Nothing depends on a variable that neither belongs to a constraint nor occurs in one. -/
theorem Accounts.idle_of_unrelated (h : s.Accounts declared) (hs : s.Sound)
    (hown : ∀ tag, s.Present tag → v ∉ tag.own)
    (hnet : ∀ tag, s.Present tag → tag.constraint.expression.netCoefficient v = 0) :
    s.tableau.Idle v := by
  intro a ha x
  have hmoved : s.tableau.Holds (Function.update a v x) := by
    refine (h.holds _).mpr fun tag htag => ?_
    unfold Tag.Holds
    rw [Tag.residual_update_of_not_mem (hown tag htag), hnet tag htag, zero_mul, add_zero]
    exact (h.holds a).mp ha tag htag
  refine ⟨hmoved, fun level => ?_⟩
  rw [hs.goal level _ hmoved, hs.goal level a ha]
  refine penalties_congr (fun tag htag w hw => Function.update_of_ne ?_ _ _) level
  rintro rfl
  exact hown tag htag hw

/-- A withdrawn constraint takes its variables with it, and no others. -/
theorem Accounts.live_iff_of_withdraws {number : ConstraintNumber} (h : s.Accounts declared)
    (hs : s.Sound) (hnext : next.Sound) (htag : s.constraints.find? number = some tag)
    (hwithdraws : s.Withdraws next number tag) : next.Live v ↔ s.Live v ∧ v ∉ tag.own := by
  by_cases hv : v ∈ tag.own
  · simp only [hv, not_true_eq_false, and_false, iff_false]
    rcases hwithdraws.own v hv with ⟨-, hbusy⟩ | hgone
    · refine absurd ((h.withdraws hs htag hwithdraws).idle_of_unrelated hnext ?_ ?_) hbusy
      · exact fun other hother hmem => hwithdraws.not_mem_own hs htag hother hmem hv
      · intro other hother
        obtain ⟨found, -, hfound⟩ := hwithdraws.present_iff.mp hother
        exact h.netCoefficient_own ⟨found, hfound⟩ ⟨number, htag⟩ hv
    · exact not_live_of_role hgone
  · simp only [hv, not_false_eq_true, and_true]
    exact live_iff_of_role (hwithdraws.others v hv)

/-! ## The variables in use -/

/-- Every live variable stands declared or belongs to a constraint, and no number stands declared
twice. -/
structure Inventory (s : Solver LinearForm Rat) (declared : List (Variable × DeclaredKind)) :
    Prop where
  distinct : (declared.map fun entry => entry.1.id).Nodup
  listed : ∀ v, s.Live v →
    (∃ entry ∈ declared, entry.1.id = v) ∨ ∃ tag, s.Present tag ∧ v ∈ tag.own

namespace Inventory

theorem keeps (h : s.Inventory declared) (hkeeps : s.Keeps next) : next.Inventory declared where
  distinct := h.distinct
  listed := by
    intro v hv
    rw [live_iff_of_role (hkeeps.role v)] at hv
    exact (h.listed v hv).imp_right fun ⟨tag, htag, hmem⟩ =>
      ⟨tag, (present_of_books hkeeps.books tag).mpr htag, hmem⟩

theorem declares {v : Variable} {kind : DeclaredKind} (h : s.Inventory declared)
    (haccounts : s.Accounts declared) (hdeclares : s.Declares next v kind.toKind) :
    next.Inventory ((v, kind) :: declared) where
  distinct := by
    refine List.nodup_cons.mpr ⟨fun hmem => ?_, h.distinct⟩
    obtain ⟨entry, hentry, hid⟩ := List.mem_map.mp hmem
    have hlive : s.Live v.id := by
      rw [← show entry.1.id = v.id from hid, live_iff_kindOf]
      exact haccounts.live hentry
    exact not_live_of_dead hdeclares.new hlive
  listed := by
    intro w hw
    by_cases hsame : w = v.id
    · exact Or.inl ⟨(v, kind), List.mem_cons_self, hsame.symm⟩
    · rw [live_iff_of_role (hdeclares.others w hsame)] at hw
      exact (h.listed w hw).imp
        (fun ⟨entry, hentry, hid⟩ => ⟨entry, List.mem_cons_of_mem _ hentry, hid⟩)
        fun ⟨tag, htag, hmem⟩ => ⟨tag, (present_of_books hdeclares.books tag).mpr htag, hmem⟩

theorem accepts (h : s.Inventory declared) (hs : s.Sound) (haccepts : s.Accepts next tag) :
    next.Inventory declared where
  distinct := h.distinct
  listed := by
    intro v hv
    rcases haccepts.live_iff.mp hv with hold | hown
    · exact (h.listed v hold).imp_right fun ⟨other, hother, hmem⟩ =>
        ⟨other, haccepts.present_of_present hs hother, hmem⟩
    · exact Or.inr ⟨tag, haccepts.present_self, hown⟩

theorem withdraws {number : ConstraintNumber} (h : s.Inventory declared)
    (haccounts : s.Accounts declared) (hs : s.Sound) (hnext : next.Sound)
    (htag : s.constraints.find? number = some tag) (hwithdraws : s.Withdraws next number tag) :
    next.Inventory declared where
  distinct := h.distinct
  listed := by
    intro v hv
    obtain ⟨hold, hother⟩ := (haccounts.live_iff_of_withdraws hs hnext htag hwithdraws).mp hv
    refine (h.listed v hold).imp_right ?_
    rintro ⟨other, ⟨found, hfound⟩, hmem⟩
    refine ⟨other, hwithdraws.present_iff.mpr ⟨found, ?_, hfound⟩, hmem⟩
    rintro rfl
    rw [htag, Option.some.injEq] at hfound
    exact hother (hfound ▸ hmem)

theorem releases {v : Variable} (h : s.Inventory declared) (hreleases : s.Releases next v) :
    next.Inventory (declared.filter fun entry => entry.1 ≠ v) where
  distinct := h.distinct.sublist (List.filter_sublist.map _)
  listed := by
    intro w hw
    have hne : w ≠ v.id := by
      rintro rfl
      exact not_live_of_role hreleases.gone hw
    rw [live_iff_of_role (hreleases.others w hne)] at hw
    refine (h.listed w hw).imp ?_ fun ⟨tag, htag, hmem⟩ =>
      ⟨tag, (present_of_books hreleases.books tag).mpr htag, hmem⟩
    rintro ⟨entry, hentry, rfl⟩
    refine ⟨entry, List.mem_filter.mpr ⟨hentry, ?_⟩, rfl⟩
    simp only [decide_eq_true_eq]
    exact fun hsame => hne (congrArg Variable.id hsame)

theorem restarts {session : SessionId} (hrestarts : next.Restarts session) :
    next.Inventory [] where
  distinct := List.nodup_nil
  listed := by
    intro v hv
    refine absurd hv (not_live_of_role ?_)
    rw [hrestarts.1]
    exact roleOf_start session v

/-- Every effect keeps the inventory. -/
theorem step (h : s.Inventory declared) (haccounts : s.Accounts declared) (hs : s.Sound)
    (hnext : next.Sound) {turn : Turn Rat} (heffect : s.Effect next turn) :
    next.Inventory (turn.declaredAfter declared) := by
  rcases heffect.cases with ⟨hkeeps, hdeclared⟩ | ⟨_, _, _, rfl, hdeclares⟩ |
    ⟨_, _, tag, rfl, -, haccepts⟩ | ⟨_, _, rfl, htag, hwithdraws⟩ | ⟨_, rfl, hreleases⟩ |
    ⟨_, rfl, hrestarts⟩
  · rw [hdeclared]
    exact h.keeps hkeeps
  · exact h.declares haccounts hdeclares
  · exact h.accepts hs haccepts
  · exact h.withdraws haccounts hs hnext htag hwithdraws
  · exact h.releases hreleases
  · exact restarts hrestarts

theorem live_iff (h : s.Inventory declared) (haccounts : s.Accounts declared) (hs : s.Sound) :
    s.Live v ↔ v ∈ declared.map (fun entry => entry.1.id) ++
      s.constraints.toList.flatMap fun entry => entry.2.own := by
  rw [List.mem_append, List.mem_map, List.mem_flatMap]
  constructor
  · refine fun hv => (h.listed v hv).imp_right ?_
    rintro ⟨tag, ⟨number, hfound⟩, hmem⟩
    exact ⟨(number, tag), SortedMap.find?_eq_some.mp hfound, hmem⟩
  · rintro (⟨entry, hentry, rfl⟩ | ⟨⟨number, tag⟩, hmem, hown⟩)
    · exact live_iff_kindOf.mpr (haccounts.live hentry)
    · exact live_iff_kindOf.mpr
        ((hs.formed tag ⟨number, SortedMap.find?_eq_some.mpr hmem⟩).live hown)

/-- The live variables are the declared ones and those of the constraints, each once. -/
theorem perm (h : s.Inventory declared) (haccounts : s.Accounts declared) (hs : s.Sound) :
    (s.tableau.registry.toList.map Prod.fst).Perm (declared.map (fun entry => entry.1.id) ++
      s.constraints.toList.flatMap fun entry => entry.2.own) := by
  have hpresent : ∀ entry ∈ s.constraints.toList, s.Present entry.2 :=
    fun entry hentry => ⟨entry.1, SortedMap.find?_eq_some.mpr hentry⟩
  have howned : (s.constraints.toList.flatMap fun entry => entry.2.own).Nodup := by
    refine List.nodup_flatMap.mpr ⟨fun entry hentry => (hs.formed _ (hpresent entry hentry)).nodup,
      s.constraints.ascending.imp_of_mem ?_⟩
    intro entry other hentry hother hlt v hv hvother
    have hsame := hs.disjoint (SortedMap.find?_eq_some.mpr hentry)
      (SortedMap.find?_eq_some.mpr hother) v hv hvother
    rw [hsame] at hlt
    exact Nat.lt_irrefl _ hlt
  have hnodup := h.distinct.append howned fun v hv hvown => by
    obtain ⟨entry, hentry, rfl⟩ := List.mem_map.mp hv
    obtain ⟨other, hother, hmem⟩ := List.mem_flatMap.mp hvown
    exact haccounts.apart entry hentry _ (hpresent other hother) hmem
  refine (List.perm_ext_iff_of_nodup (Registry.nodup_map_fst_toList _) hnodup).mpr fun v => ?_
  rw [Registry.mem_map_fst_toList]
  exact h.live_iff haccounts hs

end Inventory

/-! ## Without constraints -/

theorem Accounts.rowList_eq_nil (h : s.Accounts declared) (hs : s.Sound)
    (hempty : s.constraints.size = 0) : s.tableau.rowList = [] := by
  have hcount := h.rowCount_eq hs
  rw [hs.proper.rowCount_eq, hempty] at hcount
  exact List.length_eq_zero_iff.mp hcount

/-- Without constraints nothing is left to be minimised. -/
theorem Accounts.goal_eq_zero (h : s.Accounts declared) (hs : s.Sound)
    (hempty : s.constraints.size = 0) : s.tableau.goal = .zero := by
  have hlist : s.constraints.toList = [] := List.length_eq_zero_iff.mp hempty
  have hnone : ∀ tag, ¬s.Present tag := by
    rintro tag ⟨number, hfound⟩
    rw [SortedMap.find?_eq_some, hlist] at hfound
    simp at hfound
  have hterms : s.tableau.goal.terms = .empty := by
    refine SortedMap.ext_find? fun v => ?_
    have hidle : s.tableau.Idle v := h.idle_of_unrelated hs
      (fun tag htag => absurd htag (hnone tag)) fun tag htag => absurd htag (hnone tag)
    rw [SortedMap.find?_empty]
    exact ((hs.proper.unused_iff_idle hs.artificial).mpr hidle).goal
  have hconstant : s.tableau.goal.constant = .zero := by
    refine StrengthVector.ext_get fun level => ?_
    have hlevel := hs.goal level _ hs.proper.holds_value
    rw [Goal.level_eq, hterms, SortedMap.weigh_empty, add_zero] at hlevel
    rw [hlevel, StrengthVector.get_zero]
    unfold penalties SortedMap.weigh
    rw [hlist]
    rfl
  exact congrArg₂ Goal.mk hconstant hterms

/-! ## Calls -/

theorem effect_of_answers {call : Call Rat} {limit : Nat} {answer : Except SolverError (Reply Rat)}
    (hs : s.Sound) (h : SolverM.Answers (call.perform limit) s answer next) :
    ∃ turn : Turn Rat, turn.call = call ∧ s.Effect next turn ∧
      ((∃ cause, answer = .error cause) → s.Keeps next) := by
  cases answer with
  | ok reply =>
      refine ⟨.answered call reply, rfl, ((perform_effect hs call limit).of_ok h).2, ?_⟩
      rintro ⟨cause, hcause⟩
      cases hcause
  | error cause =>
      have heffect := ((perform_effect hs call limit).of_error h).2
      exact ⟨.refused call cause, rfl, heffect, fun _ => heffect.refused⟩

/-- A constraint that is added brings variables that were not in use. -/
theorem Sound.add_brings {c : Constraint Rat} {limit : Nat} {handle : ConstraintHandle}
    (hs : s.Sound) (h : SolverM.Answers (SolverM.add c limit) s (.ok handle) next) :
    ∃ tag, next.tag handle = .ok tag ∧ tag.constraint = c ∧ (∀ v ∈ tag.own, ¬s.Live v) ∧
      ∀ v, next.Live v ↔ s.Live v ∨ v ∈ tag.own := by
  obtain ⟨tag, hconstraint, haccepts, -, -, rfl⟩ := (SolverM.add_ends hs c limit).of_ok h
  refine ⟨tag, SolverM.tag_eq_ok_iff.mpr ⟨haccepts.session.symm, ?_⟩, hconstraint,
    fun v hv => not_live_of_dead (haccepts.new v hv), fun v => haccepts.live_iff⟩
  rw [haccepts.find?, if_pos rfl]

/-- A constraint that is removed takes its variables along. -/
theorem Accounts.remove_takes {handle : ConstraintHandle} {limit : Nat} (h : s.Accounts declared)
    (hs : s.Sound) (hanswers : SolverM.Answers (SolverM.remove handle limit) s (.ok ()) next) :
    ∃ tag, s.tag handle = .ok tag ∧ ∀ v, next.Live v ↔ s.Live v ∧ v ∉ tag.own := by
  obtain ⟨tag, htag, hwithdraws, hnext, -⟩ := (SolverM.remove_ends hs handle limit).of_ok hanswers
  have hnumber := (SolverM.tag_eq_ok_iff.mp htag).2
  exact ⟨tag, htag, fun v => h.live_iff_of_withdraws hs hnext hnumber hwithdraws⟩

/-- While a constraint is present its variables are the ones it came with. -/
theorem Effect.tag_stays {turn : Turn Rat} {number : ConstraintNumber} {other : Tag Rat}
    (heffect : s.Effect next turn) (hs : s.Sound) (hreset : ∀ session, turn.call ≠ .reset session)
    (htag : s.constraints.find? number = some tag)
    (hother : next.constraints.find? number = some other) : other = tag := by
  have hstays : next.constraints.find? number = some tag ∨ next.constraints.find? number = none := by
    rcases heffect.cases with ⟨hkeeps, -⟩ | ⟨_, _, _, -, hdeclares⟩ | ⟨_, _, _, -, -, haccepts⟩ |
      ⟨_, _, -, -, hwithdraws⟩ | ⟨_, -, hreleases⟩ | ⟨session, rfl, -⟩
    · exact Or.inl (by rw [hkeeps.books.1, htag])
    · exact Or.inl (by rw [hdeclares.books.1, htag])
    · have hne : s.nextConstraint ≠ number := by
        rintro rfl
        exact Nat.lt_irrefl _ (hs.numbered htag)
      exact Or.inl (by rw [haccepts.find?, if_neg hne, htag])
    · rw [hwithdraws.find?]
      split
      · exact Or.inr rfl
      · exact Or.inl htag
    · exact Or.inl (by rw [hreleases.books.1, htag])
    · exact absurd rfl (hreset session)
  rw [hother] at hstays
  rcases hstays with hsame | hgone
  · exact Option.some.inj hsame
  · cases hgone

end Solver

/-! ## Runs -/

theorem Run.inventory {settings : Settings} {session : SessionId} {turns : List (Turn Rat)}
    {s : Solver LinearForm Rat} (hrun : Run settings session turns s)
    (honly : OnlyDeclared turns) : s.Inventory (declaredIn turns) := by
  refine ((hrun.preserves (P := fun turns s => OnlyDeclared turns →
    s.Accounts (declaredIn turns) ∧ s.Inventory (declaredIn turns)) ?_ ?_).2 honly).2
  · exact fun _ => ⟨.restarts ⟨rfl, rfl, rfl⟩, .restarts ⟨rfl, rfl, rfl⟩⟩
  · intro turns turn s next hs hnext heffect ih hall
    obtain ⟨hbefore, hmentioned⟩ := onlyDeclared_concat hall
    obtain ⟨haccounts, hinventory⟩ := ih hbefore
    rw [declaredIn_concat]
    exact ⟨haccounts.step hs heffect hmentioned, hinventory.step haccounts hs hnext heffect⟩

namespace Solver

variable {S : Type} [RowStore S Rat] [LawfulStore S Rat] {s : Solver S Rat}
  {l : Solver LinearForm Rat}

theorem AsForms.live_iff (h : s.AsForms l) {v : VariableId} : l.Live v ↔ s.Live v := by
  unfold Live
  rw [h.registry]

theorem AsForms.rowCount (h : s.AsForms l) : l.tableau.rowCount = s.tableau.rowCount :=
  h.agree (fun s => s.tableau.rowCount) fun m s => s.tableau.rowCount_mapStore m

theorem AsForms.rowList_length (h : s.AsForms l) :
    l.tableau.rowList.length = s.tableau.rowList.length :=
  h.agree (fun s => s.tableau.rowList.length) fun m s => by
    show (s.tableau.mapStore m).rowList.length = _
    rw [rowList_mapStore, List.length_map]

end Solver

variable {settings : Settings} {session : SessionId} {turns : List (Turn Rat)}
  {s : Solver (Storage Rat) Rat}

/-- If all constraints mention declared variables only, there is one row for each constraint, the
live variables are the declared ones and those of the constraints, and without constraints there is
no row and the goal is zero.  A constraint that is added brings one variable if it is required and
two if it is soft, it keeps them as long as it is present, and takes them along when it is removed.
A call that is refused takes no variable into use and releases none. -/
theorem nothing_left_behind (hrun : Run settings session turns s) (honly : OnlyDeclared turns) :
    s.tableau.rowCount = s.constraints.size ∧
    (s.tableau.registry.toList.map Prod.fst).Perm
      ((declaredIn turns).map (fun entry => entry.1.id) ++
        s.constraints.toList.flatMap fun entry => entry.2.own) ∧
    (∀ entry ∈ declaredIn turns, s.tableau.registry.resolve entry.1 = .ok entry.1.id) ∧
    (∀ entry ∈ s.constraints.toList,
      entry.2.own.length = if entry.2.constraint.strength.isSome then 2 else 1) ∧
    (s.constraints.size = 0 → s.tableau.rowList = [] ∧ s.tableau.goal = .zero) ∧
    (∀ c limit handle next, SolverM.Answers (SolverM.add c limit) s (.ok handle) next →
      ∃ tag, next.tag handle = .ok tag ∧ tag.constraint = c ∧ (∀ v ∈ tag.own, ¬s.Live v) ∧
        ∀ v, next.Live v ↔ s.Live v ∨ v ∈ tag.own) ∧
    (∀ handle limit next, SolverM.Answers (SolverM.remove handle limit) s (.ok ()) next →
      ∃ tag, s.tag handle = .ok tag ∧ ∀ v, next.Live v ↔ s.Live v ∧ v ∉ tag.own) ∧
    ∀ (call : Call Rat) limit answer next, SolverM.Answers (call.perform limit) s answer next →
      ((∃ cause, answer = .error cause) → ∀ v, next.Live v ↔ s.Live v) ∧
      ((∀ session, call ≠ .reset session) → ∀ handle tag tag', s.tag handle = .ok tag →
        next.tag handle = .ok tag' → tag' = tag) := by
  obtain ⟨l, hforms, has⟩ := hrun.exists_asForms
  have hsound := hforms.sound
  have haccounts := hforms.accounts honly
  have hinventory := hforms.inventory honly
  refine ⟨?_, ?_, fun entry hentry => ?_, fun entry hentry => ?_, fun hempty => ⟨?_, ?_⟩,
    fun c limit handle next hadd => ?_, fun handle limit next hremove => ?_,
    fun call limit answer next hanswers => ?_⟩
  · rw [← has.rowCount, ← has.constraints]
    exact haccounts.rowCount_eq hsound
  · rw [← has.registry, ← has.constraints]
    exact hinventory.perm haccounts hsound
  · rw [← has.registry]
    exact haccounts.current entry hentry
  · refine (hsound.formed entry.2 ⟨entry.1, ?_⟩).length_own
    rw [has.constraints]
    exact SortedMap.find?_eq_some.mpr hentry
  · rw [← List.length_eq_zero_iff, ← has.rowList_length, List.length_eq_zero_iff]
    exact haccounts.rowList_eq_nil hsound (by rw [has.constraints, hempty])
  · rw [← has.goal]
    exact haccounts.goal_eq_zero hsound (by rw [has.constraints, hempty])
  · obtain ⟨l', hl, hnext⟩ := has.answers (SolverM.add c limit)
      (fun _ => SolverM.corresponds_add c limit) hadd
    simpa only [hnext.tag, hnext.live_iff, has.live_iff] using hsound.add_brings hl
  · obtain ⟨l', hl, hnext⟩ := has.answers (SolverM.remove handle limit)
      (fun _ => SolverM.corresponds_remove handle limit) hremove
    simpa only [has.tag, hnext.live_iff, has.live_iff] using haccounts.remove_takes hsound hl
  · obtain ⟨l', hl, hnext⟩ := has.answers (call.perform limit)
      (fun m => call.perform_corresponds m limit) hanswers
    obtain ⟨turn, rfl, heffect, hrefused⟩ := Solver.effect_of_answers hsound hl
    refine ⟨fun herror v => ?_, fun hreset handle tag tag' htag htag' => ?_⟩
    · rw [← hnext.live_iff, ← has.live_iff]
      exact Solver.live_iff_of_role ((hrefused herror).role v)
    · rw [← has.tag, SolverM.tag_eq_ok_iff] at htag
      rw [← hnext.tag, SolverM.tag_eq_ok_iff] at htag'
      exact heffect.tag_stays hsound hreset htag.2 htag'.2

/-- The small layout has three constraints, so it has three rows, and besides the width four
variables are in use.  The last two of them go when the wish for a width is withdrawn. -/
theorem nothing_left_behind_layout :
    layout.2.tableau.rowCount = 3 ∧
    (layout.2.tableau.registry.toList.map Prod.fst).Perm [⟨0⟩, ⟨1⟩, ⟨2⟩, ⟨3⟩, ⟨4⟩] ∧
    SolverM.answer? (SolverM.remove ⟨⟨0⟩, ⟨2⟩⟩ 9) layout.2 = some (.ok ()) ∧
    ∀ v, (SolverM.left (SolverM.remove ⟨⟨0⟩, ⟨2⟩⟩ 9) layout.2).Live v ↔
      layout.2.Live v ∧ v ∉ ([⟨3⟩, ⟨4⟩] : List VariableId) := by
  have hsize : layout.2.constraints.size = 3 := by decide +kernel
  have hlisted : (declaredIn layout.1).map (fun entry => entry.1.id) ++
      (layout.2.constraints.toList.flatMap fun entry => entry.2.own) =
        [⟨0⟩, ⟨1⟩, ⟨2⟩, ⟨3⟩, ⟨4⟩] := by decide +kernel
  have hremoved : SolverM.answer? (SolverM.remove ⟨⟨0⟩, ⟨2⟩⟩ 9) layout.2 = some (.ok ()) := by
    decide +kernel
  have hwish : layout.2.tag ⟨⟨0⟩, ⟨2⟩⟩ =
      .ok ⟨⟨⟨-20, [(1, width)]⟩, .equal, some .low⟩, ⟨3⟩, some ⟨4⟩⟩ := by decide +kernel
  obtain ⟨hrows, hperm, -, -, -, -, hremove, -⟩ :=
    nothing_left_behind run_layout onlyDeclared_layout
  obtain ⟨tag, htag, hlive⟩ := hremove _ 9 _ (SolverM.answers_left hremoved)
  rw [hwish, Except.ok.injEq] at htag
  subst htag
  exact ⟨hrows.trans hsize, hlisted ▸ hperm, hremoved, hlive⟩

end LexSimplex
