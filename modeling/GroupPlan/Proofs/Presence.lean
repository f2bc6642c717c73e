import GroupPlan.PatternGroup.Planning
import GroupPlan.PatternGroup.Subtree

/-! When a group has a plan, and what withholding its filters changes. Both uses of
the filters give a plan to exactly the groups that contribute; without patterns
they give the same plan, and with patterns withholding the filters is the same as
not having them. -/

namespace GroupPlan.PatternGroup

variable {P C : Type}

theorem contributes_eq_false_iff {g : PatternGroup P C} :
    g.contributes = false ↔
      g.patterns.toList = [] ∧ g.filters.toList = [] ∧
        ∀ c ∈ g.children, c.contributes = false := by
  rw [contributes_eq]
  simp [UniqueList.isEmpty, and_assoc]

theorem bareFilters?_eq_none_iff {fs : List C} :
    (bareFilters? fs : Option (Plan P C)) = none ↔ fs = [] := by
  simp [bareFilters?]

theorem planFrom?_eq_none_iff {fs : List C} {cs : List (PatternGroup P C)} :
    planFrom? fs cs = none ↔ fs = [] ∧ ∀ c ∈ cs, c.planWith? .applied = none := by
  induction cs with
  | nil => simp [planFrom?_nil, bareFilters?_eq_none_iff]
  | cons c cs ih =>
    rw [planFrom?_cons]
    cases planned : c.planWith? .applied with
    | none => simp [ih, planned]
    | some first => simp [planned]

theorem planWith?_eq_none_iff {use : FilterUse} {g : PatternGroup P C} :
    g.planWith? use = none ↔ g.contributes = false := by
  induction g generalizing use with
  | group o ps fs cs ih =>
    rw [planWith?_eq, contributes_eq_false_iff]
    cases based : base? use ⟨o, ps, fs, cs⟩ with
    | some base =>
      have own : ps.toList ≠ [] := by
        intro bare
        rw [base?_eq_none_iff.mpr bare] at based
        cases based
      simp [own]
    | none =>
      have bare : ps.toList = [] := base?_eq_none_iff.mp based
      rw [planFrom?_eq_none_iff]
      constructor
      · rintro ⟨unfiltered, unplanned⟩
        exact ⟨bare, unfiltered, fun c hc => (ih c hc).mp (unplanned c hc)⟩
      · rintro ⟨_, unfiltered, blank⟩
        exact ⟨unfiltered, fun c hc => (ih c hc).mpr (blank c hc)⟩

theorem planWith?_isSome (use : FilterUse) (g : PatternGroup P C) :
    (g.planWith? use).isSome = g.contributes := by
  cases planned : g.planWith? use with
  | none => exact (planWith?_eq_none_iff.mp planned).symm
  | some e =>
    have held : g.contributes ≠ false := by
      intro blank
      rw [planWith?_eq_none_iff.mpr blank] at planned
      cases planned
    exact (Bool.not_eq_false _ |>.mp held).symm

theorem plan?_of_blank {g : PatternGroup P C} (blank : g.contributes = false) : g.plan? = none :=
  planWith?_eq_none_iff.mpr blank

theorem plan?_isSome (g : PatternGroup P C) : g.plan?.isSome = g.contributes :=
  planWith?_isSome .applied g

theorem contributes_of_plan? {g : PatternGroup P C} {e : Plan P C} (planned : g.plan? = some e) :
    g.contributes := by
  rw [← plan?_isSome, planned, Option.isSome_some]

theorem exists_planWith? {g : PatternGroup P C} (use : FilterUse) (held : g.contributes) :
    ∃ e, g.planWith? use = some e :=
  Option.isSome_iff_exists.mp ((planWith?_isSome use g).trans held)

theorem exists_plan? {g : PatternGroup P C} (held : g.contributes) : ∃ e, g.plan? = some e :=
  exists_planWith? .applied held

theorem planFrom?_cons_of_blank (fs : List C) {c : PatternGroup P C} (cs : List (PatternGroup P C))
    (blank : c.contributes = false) : planFrom? fs (c :: cs) = planFrom? fs cs := by
  rw [planFrom?_cons, planWith?_eq_none_iff.mpr blank]

theorem planFrom?_cons_of_plan? (fs : List C) {c : PatternGroup P C} {first : Plan P C}
    (cs : List (PatternGroup P C)) (planned : c.plan? = some first) :
    planFrom? fs (c :: cs) = some (cs.foldl attach (first.filterAll fs)) := by
  rw [planFrom?_cons, ← plan?_eq, planned]

theorem planWith?_of_ofPatterns {g : PatternGroup P C} {base : Plan P C} (use : FilterUse)
    (joined : Plan.ofPatterns g.patterns.toList = .ok base) :
    g.planWith? use = some (g.children.foldl attach (use.place base g.filters.toList)) := by
  simp [planWith?_eq, base?, joined, Except.toOption]

theorem planWith?_of_noPatterns {g : PatternGroup P C} (use : FilterUse)
    (bare : g.patterns.toList = []) :
    g.planWith? use = planFrom? g.filters.toList g.children := by
  rw [planWith?_eq, base?_eq_none_iff.mpr bare]

theorem plan?_of_ofPatterns {g : PatternGroup P C} {base : Plan P C}
    (joined : Plan.ofPatterns g.patterns.toList = .ok base) :
    g.plan? = some (g.children.foldl attach (base.filterEach g.filters.toList)) :=
  planWith?_of_ofPatterns .applied joined

theorem plan?_of_noPatterns {g : PatternGroup P C} (bare : g.patterns.toList = []) :
    g.plan? = planFrom? g.filters.toList g.children :=
  planWith?_of_noPatterns .applied bare

theorem exists_ofPatterns {ps : List P} (own : ps ≠ []) :
    ∃ base : Plan P C, Plan.ofPatterns ps = .ok base := by
  cases ps with
  | nil => exact absurd rfl own
  | cons p ps => exact ⟨_, rfl⟩

theorem planWith?_withheld {g : PatternGroup P C} (own : g.patterns.toList ≠ []) :
    g.planWith? .withheld = g.clearFilters.plan? := by
  obtain ⟨base, joined⟩ := exists_ofPatterns (C := C) own
  have cleared : Plan.ofPatterns g.clearFilters.patterns.toList = .ok base := joined
  rw [planWith?_of_ofPatterns .withheld joined, plan?_of_ofPatterns cleared]
  rfl

theorem planWith?_withheld_of_noPatterns {g : PatternGroup P C}
    (bare : g.patterns.toList = []) : g.planWith? .withheld = g.plan? := by
  rw [planWith?_of_noPatterns .withheld bare, plan?_of_noPatterns bare]

theorem planWith?_of_unfiltered {g : PatternGroup P C} (unfiltered : g.filters.toList = [])
    (use : FilterUse) : g.planWith? use = g.plan? := by
  by_cases bare : g.patterns.toList = []
  · rw [planWith?_of_noPatterns use bare, plan?_of_noPatterns bare]
  · obtain ⟨base, joined⟩ := exists_ofPatterns (C := C) bare
    rw [planWith?_of_ofPatterns use joined, plan?_of_ofPatterns joined, unfiltered]
    cases use <;> rfl

theorem planWith?_setOptional (use : FilterUse) (g : PatternGroup P C) (o : Bool) :
    planWith? use { g with isOptional := o } = g.planWith? use := by
  rw [planWith?_eq, planWith?_eq]
  rfl

end GroupPlan.PatternGroup
