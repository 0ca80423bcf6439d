import LexSimplex.Proofs.Exact.Calls

/-!
# Constraints over declared variables

If every constraint offered in a history mentions only variables that stand declared at that time,
the variables of the constraints stay among themselves: no expression depends on the marker or the
error of another constraint.  Then the rows say exactly what the equations of the constraints say
(`Accounts.holds`).

That the rows say this (`Reflects`) needs less: withdrawing a constraint sets its marker free, and this
removes its equation and nothing else if no other equation depends on the marker
(`Reflects.withdraws`).
-/

namespace LexSimplex

open Tableau

namespace Solver

variable {s next : Solver LinearForm Rat} {declared : List (Variable × DeclaredKind)}
  {tag : Tag Rat}

/-- The rows say what the equations of the constraints say. -/
def Reflects (s : Solver LinearForm Rat) : Prop :=
  ∀ a, s.tableau.Holds a ↔ ∀ tag, s.Present tag → tag.Holds a

theorem present_of_books (hbooks : s.SameBooks next) (tag : Tag Rat) :
    next.Present tag ↔ s.Present tag := by
  unfold Present
  rw [hbooks.1]

namespace Reflects

theorem of_same (h : s.Reflects) (hbooks : s.SameBooks next)
    (hholds : ∀ a, next.tableau.Holds a ↔ s.tableau.Holds a) : next.Reflects := by
  intro a
  rw [hholds, h]
  exact forall_congr' fun tag => imp_congr_left (present_of_books hbooks tag).symm

/-- An accepted constraint adds its equation. -/
theorem accepts (h : s.Reflects) (hs : s.Sound) (haccepts : s.Accepts next tag) :
    next.Reflects := by
  intro a
  rw [haccepts.holds, h]
  constructor
  · rintro ⟨hold, hnew⟩ other hother
    rcases haccepts.present_cases hother with rfl | hpresent
    · exact hnew
    · exact hold other hpresent
  · intro hall
    exact ⟨fun other hother => hall other (haccepts.present_of_present hs hother),
      hall tag haccepts.present_self⟩

/-- Withdrawing a constraint removes its equation and nothing else, if no expression depends on its
marker. -/
theorem withdraws {number : ConstraintNumber} (h : s.Reflects) (hs : s.Sound)
    (htag : s.constraints.find? number = some tag) (hwithdraws : s.Withdraws next number tag)
    (hnet : ∀ other, s.Present other →
      other.constraint.expression.netCoefficient tag.marker = 0) : next.Reflects := by
  intro a
  have hpresent : s.Present tag := ⟨number, htag⟩
  have hold : ∀ other, next.Present other → s.Present other := by
    intro other hother
    obtain ⟨found, -, hfound⟩ := hwithdraws.present_iff.mp hother
    exact ⟨found, hfound⟩
  -- The equations that stay do not depend on the marker.
  have hrest : ∀ other, next.Present other → ∀ x,
      (other.Holds (Function.update a tag.marker x) ↔ other.Holds a) := by
    intro other hother x
    have hfree : tag.marker ∉ other.own := fun hmem =>
      hwithdraws.not_mem_own hs htag hother hmem List.mem_cons_self
    unfold Tag.Holds
    rw [Tag.residual_update_of_not_mem hfree, hnet other (hold other hother), zero_mul, add_zero]
  -- The equation that goes can be solved for the marker.
  have hsolved : ∃ x, tag.Holds (Function.update a tag.marker x) := by
    refine ⟨a tag.marker - tag.residual a / tag.markerSign, ?_⟩
    unfold Tag.Holds
    rw [Tag.residual_update_marker (hs.formed tag hpresent).partner_ne (hnet tag hpresent)]
    field_simp [tag.markerSign_ne_zero]
    ring
  rw [hwithdraws.holds]
  constructor
  · rintro ⟨x, hx⟩ other hother
    exact (hrest other hother x).mp ((h _).mp hx other (hold other hother))
  · intro hall
    obtain ⟨x, hx⟩ := hsolved
    refine ⟨x, (h _).mpr fun other hother => ?_⟩
    obtain ⟨found, hfound⟩ := hother
    by_cases hnumber : found = number
    · rw [hnumber, htag, Option.some.injEq] at hfound
      exact hfound ▸ hx
    · have hstays : next.Present other := hwithdraws.present_iff.mpr ⟨found, hnumber, hfound⟩
      exact (hrest other hstays x).mpr (hall other hstays)

theorem restarts {session : SessionId} (hrestarts : next.Restarts session) : next.Reflects := by
  intro a
  constructor
  · exact fun _ tag htag => absurd htag (hrestarts.not_present tag)
  · intro _
    rw [hrestarts.1, holds_iff]
    intro id row hrow
    rw [row?_start] at hrow
    simp at hrow

/-- A variable that is not used occurs in no constraint but those that brought it. -/
theorem netCoefficient_unused {v : VariableId} (h : s.Reflects) (hs : s.Sound)
    (hunused : s.tableau.Unused v) (htag : s.Present tag) (hv : v ∉ tag.own) :
    tag.constraint.expression.netCoefficient v = 0 := by
  have hsolution := hs.proper.holds_value
  have hmoved := (hs.proper.holds_update hunused.definitionOf hunused.rows
    (s.tableau.value v + 1)).mpr hsolution
  have hbefore := (h _).mp hsolution tag htag
  have hafter := (h _).mp hmoved tag htag
  unfold Tag.Holds at hbefore hafter
  rw [Tag.residual_update_of_not_mem hv, hbefore] at hafter
  linarith

end Reflects

/-- The declared variables are live with their kinds, the constraints depend on declared variables
and their own only, and the rows say what their equations say. -/
structure Accounts (s : Solver LinearForm Rat) (declared : List (Variable × DeclaredKind)) :
    Prop where
  current : ∀ entry ∈ declared, s.tableau.registry.resolve entry.1 = .ok entry.1.id
  kind : ∀ entry ∈ declared, s.tableau.kindOf entry.1.id = some entry.2.toKind
  apart : ∀ entry ∈ declared, ∀ tag, s.Present tag → entry.1.id ∉ tag.own
  depends : ∀ tag, s.Present tag → ∀ v, tag.constraint.expression.netCoefficient v ≠ 0 →
    ∃ entry ∈ declared, entry.1.id = v
  holds : ∀ a, s.tableau.Holds a ↔ ∀ tag, s.Present tag → tag.Holds a

namespace Accounts

theorem live (h : s.Accounts declared) {entry : Variable × DeclaredKind} (hentry : entry ∈ declared) :
    (s.tableau.kindOf entry.1.id).isSome := by
  rw [h.kind entry hentry]
  rfl

/-- No expression depends on a variable that some constraint brought. -/
theorem netCoefficient_own (h : s.Accounts declared) {other : Tag Rat} (htag : s.Present tag)
    (hother : s.Present other) {v : VariableId} (hv : v ∈ other.own) :
    tag.constraint.expression.netCoefficient v = 0 := by
  by_contra hne
  obtain ⟨entry, hentry, rfl⟩ := h.depends tag htag v hne
  exact h.apart entry hentry other hother hv

end Accounts

/-- A handle stays current while its number keeps its generation and its role. -/
theorem resolve_of_same {v : Variable} (hcurrent : s.tableau.registry.resolve v = .ok v.id)
    (hsession : next.tableau.registry.session = s.tableau.registry.session)
    (hgeneration : next.tableau.registry.generation? v.id = s.tableau.registry.generation? v.id)
    (hrole : next.tableau.roleOf v.id = s.tableau.roleOf v.id) :
    next.tableau.registry.resolve v = .ok v.id := by
  rw [Registry.resolve_eq_ok_iff] at hcurrent ⊢
  obtain ⟨hs, -, hg, hlive⟩ := hcurrent
  refine ⟨hs.trans hsession.symm, rfl, hgeneration.trans hg, ?_⟩
  have hmapped := congrArg Option.isSome hrole
  unfold roleOf at hmapped
  rwa [Option.isSome_map, Option.isSome_map, hlive] at hmapped

namespace Accounts

theorem keeps (h : s.Accounts declared) (hkeeps : s.Keeps next) : next.Accounts declared where
  current := fun entry hentry => resolve_of_same (h.current entry hentry) hkeeps.session
    (hkeeps.generation _ (h.live hentry)) (hkeeps.role _)
  kind := fun entry hentry => by
    rw [kindOf_eq_roleOf, hkeeps.role, ← kindOf_eq_roleOf]
    exact h.kind entry hentry
  apart := fun entry hentry tag htag =>
    h.apart entry hentry tag ((present_of_books hkeeps.books tag).mp htag)
  depends := fun tag htag => h.depends tag ((present_of_books hkeeps.books tag).mp htag)
  holds := Reflects.of_same h.holds hkeeps.books hkeeps.holds

/-- An accepted constraint adds its equation. -/
theorem accepts (h : s.Accounts declared) (hs : s.Sound) (haccepts : s.Accepts next tag)
    (honly : ∀ term ∈ tag.constraint.expression.terms, term.2 ∈ declared.map Prod.fst) :
    next.Accounts declared where
  current := fun entry hentry => resolve_of_same (h.current entry hentry) haccepts.session
    (haccepts.generation _ (h.live hentry))
    (haccepts.others _ (not_mem_of_live (h.live hentry) haccepts.new))
  kind := fun entry hentry => by
    rw [kindOf_eq_roleOf, haccepts.others _ (not_mem_of_live (h.live hentry) haccepts.new),
      ← kindOf_eq_roleOf]
    exact h.kind entry hentry
  apart := by
    intro entry hentry other hother
    rcases haccepts.present_cases hother with rfl | hold
    · exact not_mem_of_live (h.live hentry) haccepts.new
    · exact h.apart entry hentry other hold
  depends := by
    intro other hother v hv
    rcases haccepts.present_cases hother with rfl | hold
    · obtain ⟨term, hterm, rfl⟩ := Expression.exists_mention hv
      obtain ⟨entry, hentry, hvariable⟩ := List.mem_map.mp (honly term hterm)
      exact ⟨entry, hentry, by rw [hvariable]⟩
    · exact h.depends other hold v hv
  holds := Reflects.accepts h.holds hs haccepts

/-- Withdrawing a constraint removes its equation and nothing else. -/
theorem withdraws {number : ConstraintNumber} (h : s.Accounts declared) (hs : s.Sound)
    (htag : s.constraints.find? number = some tag) (hwithdraws : s.Withdraws next number tag) :
    next.Accounts declared := by
  have hpresent : s.Present tag := ⟨number, htag⟩
  have hold : ∀ other, next.Present other → s.Present other := by
    intro other hother
    obtain ⟨found, -, hfound⟩ := hwithdraws.present_iff.mp hother
    exact ⟨found, hfound⟩
  have hothers : ∀ entry ∈ declared, next.tableau.roleOf entry.1.id = s.tableau.roleOf entry.1.id :=
    fun entry hentry => hwithdraws.others _ (h.apart entry hentry tag hpresent)
  refine {
    current := fun entry hentry => resolve_of_same (h.current entry hentry) hwithdraws.session
      (hwithdraws.generation _ (Or.inl (h.apart entry hentry tag hpresent))) (hothers entry hentry)
    kind := fun entry hentry => by
      rw [kindOf_eq_roleOf, hothers entry hentry, ← kindOf_eq_roleOf]
      exact h.kind entry hentry
    apart := fun entry hentry other hother => h.apart entry hentry other (hold other hother)
    depends := fun other hother => h.depends other (hold other hother)
    holds := Reflects.withdraws h.holds hs htag hwithdraws fun other hother =>
      h.netCoefficient_own hother hpresent List.mem_cons_self }

/-- A declared variable occurs in no constraint yet. -/
theorem declares {v : Variable} {kind : DeclaredKind} (h : s.Accounts declared) (hs : s.Sound)
    (hdeclares : s.Declares next v kind.toKind) : next.Accounts ((v, kind) :: declared) := by
  have hne : ∀ entry ∈ declared, entry.1.id ≠ v.id := by
    intro entry hentry hid
    have hlive := h.live hentry
    rw [hid, kindOf_of_dead hdeclares.new] at hlive
    simp at hlive
  refine {
    current := fun entry hentry => ?_
    kind := fun entry hentry => ?_
    apart := fun entry hentry tag htag => ?_
    depends := fun tag htag w hw => ?_
    holds := Reflects.of_same h.holds hdeclares.books hdeclares.holds }
  · rcases List.mem_cons.mp hentry with rfl | hold
    · exact hdeclares.current
    · exact resolve_of_same (h.current entry hold) hdeclares.session
        (hdeclares.generation _ (h.live hold)) (hdeclares.others _ (hne entry hold))
  · rcases List.mem_cons.mp hentry with rfl | hold
    · rw [kindOf_eq_roleOf, hdeclares.role]
      rfl
    · rw [kindOf_eq_roleOf, hdeclares.others _ (hne entry hold), ← kindOf_eq_roleOf]
      exact h.kind entry hold
  · have hpresent := (present_of_books hdeclares.books tag).mp htag
    rcases List.mem_cons.mp hentry with rfl | hold
    · intro hmem
      have hlive := (hs.formed tag hpresent).live hmem
      rw [kindOf_of_dead hdeclares.new] at hlive
      simp at hlive
    · exact h.apart entry hold tag hpresent
  · obtain ⟨entry, hentry, hid⟩ :=
      h.depends tag ((present_of_books hdeclares.books tag).mp htag) w hw
    exact ⟨entry, List.mem_cons_of_mem _ hentry, hid⟩

/-- A released variable is taken off the list. -/
theorem releases {v : Variable} (h : s.Accounts declared) (hs : s.Sound)
    (hreleases : s.Releases next v) :
    next.Accounts (declared.filter fun entry => entry.1 ≠ v) := by
  -- Two current handles with one number are the same handle.
  have hne : ∀ entry ∈ declared, entry.1 ≠ v → entry.1.id ≠ v.id := by
    intro entry hentry hother hid
    apply hother
    obtain ⟨hsession, -, hgeneration, -⟩ :=
      Registry.resolve_eq_ok_iff.mp (h.current entry hentry)
    obtain ⟨hsession', -, hgeneration', -⟩ := Registry.resolve_eq_ok_iff.mp hreleases.current
    rw [hid, hgeneration', Option.some.injEq] at hgeneration
    cases hentryVariable : entry.1
    cases v
    simp_all
  have hkept : ∀ entry ∈ declared.filter fun entry => entry.1 ≠ v,
      entry ∈ declared ∧ entry.1.id ≠ v.id := by
    intro entry hentry
    obtain ⟨hmem, hother⟩ := List.mem_filter.mp hentry
    exact ⟨hmem, hne entry hmem (by simpa using hother)⟩
  refine {
    current := fun entry hentry => ?_
    kind := fun entry hentry => ?_
    apart := fun entry hentry tag htag => ?_
    depends := fun tag htag w hw => ?_
    holds := Reflects.of_same h.holds hreleases.books hreleases.holds }
  · obtain ⟨hmem, hother⟩ := hkept entry hentry
    exact resolve_of_same (h.current entry hmem) hreleases.session
      (hreleases.generation _ hother) (hreleases.others _ hother)
  · obtain ⟨hmem, hother⟩ := hkept entry hentry
    rw [kindOf_eq_roleOf, hreleases.others _ hother, ← kindOf_eq_roleOf]
    exact h.kind entry hmem
  · exact h.apart entry (hkept entry hentry).1 tag ((present_of_books hreleases.books tag).mp htag)
  · have hpresent := (present_of_books hreleases.books tag).mp htag
    obtain ⟨entry, hentry, rfl⟩ := h.depends tag hpresent w hw
    refine ⟨entry, List.mem_filter.mpr ⟨hentry, ?_⟩, rfl⟩
    simp only [decide_eq_true_eq]
    rintro rfl
    exact hw (Reflects.netCoefficient_unused h.holds hs hreleases.unused hpresent
      (hreleases.apart tag hpresent))

/-- A solver that starts over has neither variables nor constraints. -/
theorem restarts {session : SessionId} (hrestarts : next.Restarts session) : next.Accounts [] :=
  ⟨by simp, by simp, by simp, fun tag htag => absurd htag (hrestarts.not_present tag),
    Reflects.restarts hrestarts⟩

/-- Every effect keeps the accounts. -/
theorem step (h : s.Accounts declared) (hs : s.Sound) {turn : Turn Rat}
    (heffect : s.Effect next turn) (honly : ∀ v ∈ turn.mentioned, v ∈ declared.map Prod.fst) :
    next.Accounts (turn.declaredAfter declared) := by
  rcases heffect.cases with ⟨hkeeps, hdeclared⟩ | ⟨_, _, _, rfl, hdeclares⟩ |
    ⟨_, _, tag, rfl, rfl, haccepts⟩ | ⟨_, _, rfl, htag, hwithdraws⟩ | ⟨_, rfl, hreleases⟩ |
    ⟨_, rfl, hrestarts⟩
  · rw [hdeclared]
    exact h.keeps hkeeps
  · exact h.declares hs hdeclares
  · exact h.accepts hs haccepts fun term hterm => honly term.2 (List.mem_map_of_mem hterm)
  · exact h.withdraws hs htag hwithdraws
  · exact h.releases hs hreleases
  · exact restarts hrestarts

end Accounts

end Solver

section Runs

variable {α : Type} {turns : List (Turn α)} {turn : Turn α}

theorem declaredIn_concat (turns : List (Turn α)) (turn : Turn α) :
    declaredIn (turns ++ [turn]) = turn.declaredAfter (declaredIn turns) := by
  unfold declaredIn
  rw [List.foldl_append]
  rfl

theorem onlyDeclared_concat (h : OnlyDeclared (turns ++ [turn])) :
    OnlyDeclared turns ∧ ∀ v ∈ turn.mentioned, v ∈ (declaredIn turns).map Prod.fst := by
  refine ⟨fun earlier other later hturns => ?_, h turns turn [] rfl⟩
  exact h earlier other (later ++ [turn]) (by rw [hturns]; simp)

/-- The variables and constraints of every run over declared variables. -/
theorem Run.accounts {settings : Settings} {session : SessionId} {turns : List (Turn Rat)}
    {s : Solver LinearForm Rat} (hrun : Run settings session turns s)
    (honly : OnlyDeclared turns) : s.Accounts (declaredIn turns) := by
  refine (hrun.preserves (P := fun turns s => OnlyDeclared turns → s.Accounts (declaredIn turns))
    (fun _ => Solver.Accounts.restarts ⟨rfl, rfl, rfl⟩) ?_).2 honly
  intro turns turn s next hs _ heffect ih hall
  obtain ⟨hbefore, hmentioned⟩ := onlyDeclared_concat hall
  rw [declaredIn_concat]
  exact (ih hbefore).step hs heffect hmentioned

end Runs

end LexSimplex
