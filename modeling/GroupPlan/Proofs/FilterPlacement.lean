import GroupPlan.Proofs.GroupAnswers

/-! Where filters are placed. Planning applies the filters of a group before its children
are attached, starts from the first child that contributes whether it is optional or
not, and may evaluate the filters of an optional child on its own table as well.
`FiltersPlaced` describes the groups where none of this makes a difference; there the
plan has exactly the solutions that the group asks for. -/

namespace GroupPlan

open scoped Classical

variable {P C V T : Type}

namespace PatternGroup

variable (M : Interpretation P C V T) (reading : EmptyReading)

def contributing (g : PatternGroup P C) : List (PatternGroup P C) :=
  g.children.filter contributes

/-- Where there is nothing to its left, the first child that contributes is required. -/
def StartsRequired (g : PatternGroup P C) : Prop :=
  g.patterns.toList = [] → g.contributing.head?.all (!·.isOptional)

/-- Nothing is attached after the filters are applied. -/
inductive FiltersLast (reading : EmptyReading) (g : PatternGroup P C) : Prop where
  | unfiltered (none_held : g.filters.toList = [])
  | ownPatterns (own : g.patterns.toList ≠ []) (single : g.contributing = [])
  | oneChild (bare : g.patterns.toList = []) (one : g.contributing.length = 1)
  | bareFilters (bare : g.patterns.toList = []) (single : g.contributing = [])
    (unit : reading = .unitSolution)

/-- No filter is evaluated on the right of the left join that the filters are the test of. -/
inductive FiltersWithheld (g : PatternGroup P C) : Prop where
  | unfiltered (none_held : g.filters.toList = [])
  | ownPatterns (own : g.patterns.toList ≠ [])
  | bareFilters (single : g.contributing = [])

structure PlacedBelow (reading : EmptyReading) (g : PatternGroup P C) : Prop where
  starts : g.StartsRequired
  required : g.isOptional = false → g.FiltersLast reading
  optional : g.isOptional = true → g.FiltersWithheld

structure FiltersPlaced (reading : EmptyReading) (g : PatternGroup P C) : Prop where
  starts : g.StartsRequired
  last : g.FiltersLast reading
  below : ∀ c ∈ g.children, ∀ d ∈ c.subtree, d.PlacedBelow reading

instance (g : PatternGroup P C) : Decidable g.StartsRequired :=
  inferInstanceAs (Decidable (_ → _))

theorem filtersLast_iff {g : PatternGroup P C} :
    g.FiltersLast reading ↔
      g.filters.toList = [] ∨ (g.patterns.toList ≠ [] ∧ g.contributing = []) ∨
        (g.patterns.toList = [] ∧
          (g.contributing.length = 1 ∨ (g.contributing = [] ∧ reading = .unitSolution))) := by
  constructor
  · rintro (none_held | ⟨own, single⟩ | ⟨bare, one⟩ | ⟨bare, single, unit⟩)
    · exact .inl none_held
    · exact .inr (.inl ⟨own, single⟩)
    · exact .inr (.inr ⟨bare, .inl one⟩)
    · exact .inr (.inr ⟨bare, .inr ⟨single, unit⟩⟩)
  · rintro (none_held | ⟨own, single⟩ | ⟨bare, one | ⟨single, unit⟩⟩)
    · exact .unfiltered none_held
    · exact .ownPatterns own single
    · exact .oneChild bare one
    · exact .bareFilters bare single unit

instance (g : PatternGroup P C) : Decidable (g.FiltersLast reading) :=
  decidable_of_iff _ (filtersLast_iff reading).symm

theorem filtersWithheld_iff {g : PatternGroup P C} :
    g.FiltersWithheld ↔
      g.filters.toList = [] ∨ g.patterns.toList ≠ [] ∨ g.contributing = [] := by
  constructor
  · rintro (none_held | own | single)
    · exact .inl none_held
    · exact .inr (.inl own)
    · exact .inr (.inr single)
  · rintro (none_held | own | single)
    · exact .unfiltered none_held
    · exact .ownPatterns own
    · exact .bareFilters single

instance (g : PatternGroup P C) : Decidable g.FiltersWithheld :=
  decidable_of_iff _ filtersWithheld_iff.symm

instance (g : PatternGroup P C) : Decidable (g.PlacedBelow reading) :=
  decidable_of_iff
    (g.StartsRequired ∧ (g.isOptional = false → g.FiltersLast reading) ∧
      (g.isOptional = true → g.FiltersWithheld))
    ⟨fun ⟨starts, required, optional⟩ => ⟨starts, required, optional⟩,
      fun ⟨starts, required, optional⟩ => ⟨starts, required, optional⟩⟩

instance (g : PatternGroup P C) : Decidable (g.FiltersPlaced reading) :=
  decidable_of_iff
    (g.StartsRequired ∧ g.FiltersLast reading ∧
      ∀ c ∈ g.children, ∀ d ∈ c.subtree, d.PlacedBelow reading)
    ⟨fun ⟨starts, last, below⟩ => ⟨starts, last, below⟩,
      fun ⟨starts, last, below⟩ => ⟨starts, last, below⟩⟩

theorem clearFilters_of_unfiltered {g : PatternGroup P C} (unfiltered : g.filters.toList = []) :
    g.clearFilters = g :=
  PatternGroup.ext rfl rfl (UniqueList.ext unfiltered.symm) rfl

theorem contributing_eq_nil_iff {g : PatternGroup P C} :
    g.contributing = [] ↔ ∀ c ∈ g.children, c.contributes = false := by
  simp [contributing]

theorem planFrom?_of_one (fs : List C) {cs : List (PatternGroup P C)}
    (one : (cs.filter contributes).length = 1) :
    planFrom? fs cs = (planFrom? [] cs).map (·.filterAll fs) := by
  induction cs with
  | nil => cases one
  | cons c cs ih =>
    cases held : c.contributes with
    | false =>
      rw [List.filter_cons_of_neg (by simp [held])] at one
      rw [planFrom?_cons_of_blank fs cs held, planFrom?_cons_of_blank [] cs held, ih one]
    | true =>
      rw [List.filter_cons_of_pos held, List.length_cons, Nat.add_eq_right,
        List.length_eq_zero_iff, List.filter_eq_nil_iff] at one
      have rest : ∀ d ∈ cs, d.contributes = false := fun d hd => by simpa using one d hd
      obtain ⟨first, planned⟩ := exists_plan? held
      rw [planFrom?_cons_of_plan? fs cs planned, planFrom?_cons_of_plan? [] cs planned,
        foldl_attach_of_blank _ rest, foldl_attach_of_blank _ rest, Plan.filterAll_nil,
        Option.map_some]

/-- The plan without the filters of the group has the solutions of all steps but the last. -/
def MatchedByPlan (g : PatternGroup P C) : Prop :=
  Plan.solutionsOrUnit M reading g.clearFilters.plan? = g.matched M

variable {M reading}

theorem solutionsOrUnit_plan? {g : PatternGroup P C} (steps : g.MatchedByPlan M reading)
    (last : g.FiltersLast reading) :
    Plan.solutionsOrUnit M reading g.plan? = g.answers M := by
  rw [answers, ← steps]
  cases last with
  | unfiltered none_held =>
    rw [clearFilters_of_unfiltered none_held, none_held, M.filter_holdsAll_nil]
  | ownPatterns own single =>
    rw [contributing_eq_nil_iff] at single
    obtain ⟨base, joined⟩ := exists_ofPatterns (C := C) own
    have cleared : Plan.ofPatterns g.clearFilters.patterns.toList = .ok base := joined
    have noChildren : ∀ c ∈ g.clearFilters.children, c.contributes = false := single
    rw [plan?_of_ofPatterns joined, plan?_of_ofPatterns cleared, foldl_attach_of_blank _ single,
      foldl_attach_of_blank _ noChildren]
    exact base.solutions_filterEach M reading g.filters.toList
  | oneChild bare one =>
    have cleared : g.clearFilters.patterns.toList = [] := bare
    have opened : g.clearFilters.contributes := by
      obtain ⟨c, hc⟩ := List.exists_mem_of_length_pos (one ▸ Nat.zero_lt_one)
      rw [contributing, List.mem_filter] at hc
      rw [contributes_eq, Bool.or_eq_true, List.any_eq_true]
      exact .inr ⟨c, hc⟩
    obtain ⟨e, planned⟩ := exists_plan? opened
    have unfiltered : planFrom? [] g.children = some e :=
      (plan?_of_noPatterns cleared).symm.trans planned
    rw [plan?_of_noPatterns bare, planFrom?_of_one _ one, unfiltered, planned]
    exact e.solutions_filterAll M reading g.filters.toList
  | bareFilters bare single unit =>
    rw [contributing_eq_nil_iff] at single
    have cleared : g.clearFilters.contributes = false :=
      contributes_eq_false_iff.mpr ⟨bare, rfl, single⟩
    rw [plan?_of_noPatterns bare, planFrom?_of_blank _ single, plan?_of_blank cleared,
      bareFilters?]
    by_cases none_held : g.filters.toList = []
    · simp [none_held, Plan.solutionsOrUnit]
    · simp [none_held, Plan.solutionsOrUnit, Plan.solutions_filterAll, Plan.solutions, unit,
        EmptyReading.solutions]

theorem matched_of_blank {g : PatternGroup P C} (steps : g.MatchedByPlan M reading)
    (blank : g.contributes = false) : g.matched M = Table.unit := by
  have unfiltered : g.filters.toList = [] := (contributes_eq_false_iff.mp blank).2.1
  rw [← steps, clearFilters_of_unfiltered unfiltered, plan?_of_blank blank]
  rfl

theorem combine_of_blank {c : PatternGroup P C} (steps : c.MatchedByPlan M reading)
    (blank : c.contributes = false) (acc : Table V T) :
    M.combine acc c.isOptional c.filters.toList (c.matched M) = acc := by
  have unfiltered : c.filters.toList = [] := (contributes_eq_false_iff.mp blank).2.1
  rw [matched_of_blank steps blank, unfiltered, Interpretation.combine, M.filter_holdsAll_nil,
    Table.leftJoin_unit, Table.join_unit, ite_self]

/-- The plan that a left join by the filters has on its right matches all steps of the child but
the last, or adds nothing if there are only filters. -/
theorem leftJoin_withheld {c : PatternGroup P C} (steps : c.MatchedByPlan M reading)
    (filtered : c.filters.toList ≠ []) (withheld : c.FiltersWithheld) {rhs : Plan P C}
    (kept : c.planWith? .withheld = some rhs) (test : Solution V T → Prop) (A : Table V T) :
    Table.leftJoin test A (rhs.solutions M reading) = Table.leftJoin test A (c.matched M) := by
  rw [← steps]
  by_cases bare : c.patterns.toList = []
  · have single : ∀ d ∈ c.children, d.contributes = false := by
      cases withheld with
      | unfiltered none_held => exact absurd none_held filtered
      | ownPatterns own => exact absurd bare own
      | bareFilters single => exact contributing_eq_nil_iff.mp single
    have cleared : c.clearFilters.plan? = none :=
      plan?_of_blank (contributes_eq_false_iff.mpr ⟨bare, rfl, single⟩)
    have right : Plan.empty.filterAll c.filters.toList = rhs := by
      rw [planWith?_of_noPatterns .withheld bare, planFrom?_of_blank _ single] at kept
      simpa [bareFilters?, filtered] using kept
    have small : rhs.solutions M reading ≤ Table.unit := by
      rw [← right, Plan.solutions_filterAll]
      exact (Multiset.filter_le _ _).trans reading.solutions_le_unit
    rw [cleared, Table.leftJoin_of_le_unit _ _ small]
    exact (Table.leftJoin_unit _ _).symm
  · rw [← planWith?_withheld bare, kept]
    rfl

theorem solutions_attach {c : PatternGroup P C} (steps : c.MatchedByPlan M reading)
    (placed : c.PlacedBelow reading) (lhs : Plan P C) :
    (attach lhs c).solutions M reading =
      M.combine (lhs.solutions M reading) c.isOptional c.filters.toList (c.matched M) := by
  rcases attach_cases lhs c with ⟨blank, same⟩ | ⟨rhs, required, planned, joined⟩ |
    ⟨rhs, optional, unfiltered, planned, joined⟩ | ⟨rhs, k, optional, conjoined, kept, joined⟩
  · rw [same, combine_of_blank steps blank]
  · have right := solutionsOrUnit_plan? steps (placed.required required)
    rw [planned] at right
    rw [joined, Interpretation.combine, required, if_neg Bool.false_ne_true]
    exact congrArg (Table.join (lhs.solutions M reading)) right
  · rw [MatchedByPlan, clearFilters_of_unfiltered unfiltered, planned] at steps
    rw [joined, Interpretation.combine, optional, if_pos rfl, Plan.solutions_leftJoin_none,
      unfiltered, ← steps]
    rfl
  · have filtered := Condition.ne_nil_of_ofFilters conjoined
    rw [joined, Interpretation.combine, optional, if_pos rfl,
      Plan.solutions_leftJoin_some M reading lhs rhs conjoined]
    exact leftJoin_withheld steps filtered (placed.optional optional) kept _ _

theorem solutions_foldl_attach {cs : List (PatternGroup P C)}
    (steps : ∀ c ∈ cs, c.MatchedByPlan M reading) (placed : ∀ c ∈ cs, c.PlacedBelow reading)
    (lhs : Plan P C) :
    (cs.foldl attach lhs).solutions M reading =
      cs.foldl (fun acc c => M.combine acc c.isOptional c.filters.toList (c.matched M))
        (lhs.solutions M reading) := by
  induction cs generalizing lhs with
  | nil => rfl
  | cons c cs ih =>
    rw [List.forall_mem_cons] at steps placed
    rw [List.foldl_cons, ih steps.2 placed.2, solutions_attach steps.1 placed.1, List.foldl_cons]

theorem solutionsOrUnit_planFrom? {cs : List (PatternGroup P C)}
    (steps : ∀ c ∈ cs, c.MatchedByPlan M reading) (placed : ∀ c ∈ cs, c.PlacedBelow reading)
    (starts : (cs.filter contributes).head?.all (!·.isOptional)) :
    Plan.solutionsOrUnit M reading (planFrom? [] cs) =
      cs.foldl (fun acc c => M.combine acc c.isOptional c.filters.toList (c.matched M))
        Table.unit := by
  induction cs with
  | nil => rfl
  | cons c cs ih =>
    rw [List.forall_mem_cons] at steps placed
    rw [List.foldl_cons]
    cases held : c.contributes with
    | false =>
      rw [List.filter_cons_of_neg (by simp [held])] at starts
      rw [planFrom?_cons_of_blank [] cs held, combine_of_blank steps.1 held]
      exact ih steps.2 placed.2 starts
    | true =>
      rw [List.filter_cons_of_pos held] at starts
      have required : c.isOptional = false := by simpa using starts
      obtain ⟨first, planned⟩ := exists_plan? held
      have right := solutionsOrUnit_plan? steps.1 (placed.1.required required)
      rw [planned] at right
      have opened : M.combine Table.unit c.isOptional c.filters.toList (c.matched M) =
          first.solutions M reading := by
        rw [Interpretation.combine, required, if_neg Bool.false_ne_true, Table.unit_join]
        exact right.symm
      rw [planFrom?_cons_of_plan? [] cs planned, opened, ← solutions_foldl_attach steps.2 placed.2]
      rfl

/-- The induction is on the tree: a child is taken in as its own plan without its filters, which
are the test of its left join or are applied to it as the last step. -/
theorem matchedByPlan {g : PatternGroup P C} (starts : g.StartsRequired)
    (below : ∀ c ∈ g.children, ∀ d ∈ c.subtree, d.PlacedBelow reading) :
    g.MatchedByPlan M reading := by
  induction g with
  | group o ps fs cs ih =>
    have placed : ∀ c ∈ cs, c.PlacedBelow reading := fun c hc => below c hc c c.self_mem_subtree
    have steps : ∀ c ∈ cs, c.MatchedByPlan M reading := by
      intro c hc
      exact ih c hc (placed c hc).starts fun c' hc' d hd =>
        below c hc d (mem_subtree_of_child hc' hd)
    rw [MatchedByPlan, matched_eq]
    by_cases bare : ps.toList = []
    · have cleared : (⟨o, ps, fs, cs⟩ : PatternGroup P C).clearFilters.patterns.toList = [] := bare
      rw [plan?_of_noPatterns cleared, Interpretation.joinAll, bare]
      exact solutionsOrUnit_planFrom? steps placed (starts bare)
    · obtain ⟨base, joined⟩ := exists_ofPatterns (C := C) bare
      have cleared : Plan.ofPatterns
          (⟨o, ps, fs, cs⟩ : PatternGroup P C).clearFilters.patterns.toList = .ok base := joined
      have own : base.solutions M reading = M.joinAll ps.toList :=
        Plan.solutions_of_ofPatterns M reading joined
      rw [plan?_of_ofPatterns cleared, ← own]
      exact solutions_foldl_attach steps placed base

/-- Where no filter is placed earlier than the steps of the group ask for, the plan has the
solutions asked for. -/
theorem solutions_plan? (M : Interpretation P C V T) {reading : EmptyReading}
    {g : PatternGroup P C} (held : g.contributes) (placed : g.FiltersPlaced reading) :
    ∃ e, g.plan? = some e ∧ e.solutions M reading = g.answers M := by
  obtain ⟨e, planned⟩ := exists_plan? held
  have asked := solutionsOrUnit_plan? (matchedByPlan (M := M) placed.starts placed.below)
    placed.last
  rw [planned] at asked
  exact ⟨e, planned, asked⟩

def placedSample : PatternGroup Nat Nat :=
  ⟨false, ∅, ∅, [
    (required.insertFilter 10).insertFilter 11 |>.pushChild (required.insertPattern 1),
    (optional.insertPattern 2).insertFilter 12
      |>.pushChild ((required.insertPattern 3).insertFilter 13)
      |>.pushChild (optional.insertPattern 4),
    optional.insertFilter 14,
    required.pushChild optional]⟩

/-- Pattern `p` binds the variables up to `p`; filter `c` asks for the variable `c - 10`. -/
def sampleInterpretation : Interpretation Nat Nat Nat Nat where
  rows p := {fun v => if v ≤ p then some v else none}
  Satisfies c s := (s (c - 10)).isSome

theorem solutions_placedSample :
    placedSample.contributes ∧ placedSample.FiltersPlaced .noSolution ∧
      ∃ e, placedSample.plan? = some e ∧
        e.solutions sampleInterpretation .noSolution = placedSample.answers sampleInterpretation :=
  have held : placedSample.contributes := by decide
  have placed : placedSample.FiltersPlaced .noSolution := by decide
  ⟨held, placed, solutions_plan? sampleInterpretation held placed⟩

end PatternGroup

end GroupPlan
