import GroupPlan.Proofs.Attachment
import GroupPlan.Proofs.ListEncoding
import Mathlib.Data.List.Induction

/-! Planning as a law on groups that grow child by child. `Compositional` says what the
plan of a group without children is and what one further child does to the plan of
any group. Planning obeys this law, and nothing else does. -/

namespace GroupPlan

variable {P C : Type}

namespace Plan

/-- A node for each filter of the list, that of the first one innermost. -/
inductive FiltersEach (base : Plan P C) : List C → Plan P C → Prop where
  | unfiltered : FiltersEach base [] base
  | filter {fs : List C} {e : Plan P C} (c : C) :
    FiltersEach base fs e → FiltersEach base (fs ++ [c]) (.filter e (.atom c))

variable {base e : Plan P C}

theorem filterEach_append (fs gs : List C) :
    base.filterEach (fs ++ gs) = (base.filterEach fs).filterEach gs :=
  List.foldl_append

theorem filtersEach_filterEach (fs : List C) : base.FiltersEach fs (base.filterEach fs) := by
  induction fs using List.reverseRecOn with
  | nil => exact .unfiltered
  | append_singleton fs c ih =>
    rw [filterEach_append]
    exact .filter c ih

theorem FiltersEach.eq {fs : List C} (filtered : base.FiltersEach fs e) :
    e = base.filterEach fs := by
  induction filtered with
  | unfiltered => rfl
  | filter c _ ih => rw [filterEach_append, ← ih, filterEach_cons, filterEach_nil]

end Plan

namespace PatternGroup

structure Compositional (F : PatternGroup P C → Option (Plan P C)) : Prop where
  nothing : ∀ g : PatternGroup P C, g.children = [] → g.patterns.toList = [] →
    g.filters.toList = [] → F g = none
  onlyFilters : ∀ (g : PatternGroup P C) k, g.children = [] → g.patterns.toList = [] →
    Condition.ofFilters g.filters.toList = .ok k → F g = some (.filter .empty k)
  ownPatterns : ∀ g : PatternGroup P C, g.children = [] → g.patterns.toList ≠ [] →
    ∃ base e : Plan P C, base.JoinsPatterns ∧ base.leaves = g.patterns.toList ∧
      base.FiltersEach g.filters.toList e ∧ F g = some e
  present : ∀ g : PatternGroup P C, g.hasLeft → (F g).isSome
  blank : ∀ g c : PatternGroup P C, c.contributes = false → F (g.pushChild c) = F g
  joined : ∀ g c : PatternGroup P C, g.hasLeft → c.contributes → c.isOptional = false →
    ∃ e r, F g = some e ∧ F c = some r ∧ F (g.pushChild c) = some (.join e r)
  leftJoined : ∀ g c : PatternGroup P C, g.hasLeft → c.contributes → c.isOptional = true →
    c.filters.toList = [] →
    ∃ e r, F g = some e ∧ F c = some r ∧ F (g.pushChild c) = some (.leftJoin e r none)
  conditioned : ∀ (g c : PatternGroup P C) k, g.hasLeft → c.isOptional = true →
    c.patterns.toList ≠ [] → Condition.ofFilters c.filters.toList = .ok k →
    ∃ e r, F g = some e ∧ F c.clearFilters = some r ∧
      F (g.pushChild c) = some (.leftJoin e r (some k))
  conditionedAndFiltered : ∀ (g c : PatternGroup P C) k, g.hasLeft → c.isOptional = true →
    c.patterns.toList = [] → Condition.ofFilters c.filters.toList = .ok k →
    ∃ e r, F g = some e ∧ F c = some r ∧ F (g.pushChild c) = some (.leftJoin e r (some k))
  first : ∀ g c : PatternGroup P C, g.hasLeft = false → c.contributes →
    g.filters.toList = [] → F (g.pushChild c) = F c
  firstFiltered : ∀ (g c : PatternGroup P C) k, g.hasLeft = false → c.contributes →
    Condition.ofFilters g.filters.toList = .ok k →
    ∃ r, F c = some r ∧ F (g.pushChild c) = some (.filter r k)

theorem exists_plan?_pushChild {g : PatternGroup P C} (c : PatternGroup P C) (left : g.hasLeft) :
    ∃ e, g.plan? = some e ∧ (g.pushChild c).plan? = some (attach e c) := by
  obtain ⟨e, planned⟩ := exists_plan? (contributes_of_hasLeft left)
  exact ⟨e, planned, by rw [plan?_pushChild c left, planned]; rfl⟩

theorem plan?_pushChild_of_blank (g : PatternGroup P C) {c : PatternGroup P C}
    (blank : c.contributes = false) : (g.pushChild c).plan? = g.plan? := by
  by_cases left : g.hasLeft
  · obtain ⟨e, planned, pushed⟩ := exists_plan?_pushChild c left
    rw [pushed, planned, attach_of_blank e blank]
  · rw [Bool.not_eq_true] at left
    rw [plan?_pushChild_first c left, plan?_of_blank blank, plan?_of_hasLeft_eq_false left]

theorem compositional_plan? :
    Compositional (plan? : PatternGroup P C → Option (Plan P C)) where
  nothing g single bare unfiltered := by
    refine plan?_of_blank (contributes_eq_false_iff.mpr ⟨bare, unfiltered, ?_⟩)
    simp [single]
  onlyFilters g k single bare conjoined := by
    have filtered := Condition.ne_nil_of_ofFilters conjoined
    rw [plan?_of_noPatterns bare, single, planFrom?_nil, bareFilters?,
      Plan.filterAll_of_ofFilters _ conjoined]
    simp [filtered]
  ownPatterns g single own := by
    obtain ⟨base, joined⟩ := exists_ofPatterns (C := C) own
    obtain ⟨chain, leaves⟩ := Plan.ofPatterns_eq_ok_iff.mp joined
    refine ⟨base, _, chain, leaves, Plan.filtersEach_filterEach g.filters.toList, ?_⟩
    rw [plan?_of_ofPatterns joined, single]
    rfl
  present g left := by rw [plan?_isSome, contributes_of_hasLeft left]
  blank g c blank := plan?_pushChild_of_blank g blank
  joined g c left held required := by
    obtain ⟨e, planned, pushed⟩ := exists_plan?_pushChild c left
    obtain ⟨r, right⟩ := exists_plan? held
    exact ⟨e, r, planned, right, by rw [pushed, attach_required e required right]⟩
  leftJoined g c left held optional unfiltered := by
    obtain ⟨e, planned, pushed⟩ := exists_plan?_pushChild c left
    obtain ⟨r, right⟩ := exists_plan? held
    exact ⟨e, r, planned, right, by rw [pushed, attach_optional e optional unfiltered right]⟩
  conditioned g c k left optional own conjoined := by
    obtain ⟨e, planned, pushed⟩ := exists_plan?_pushChild c left
    obtain ⟨r, right⟩ := exists_planWith? .withheld (contributes_of_ofFilters conjoined)
    refine ⟨e, r, planned, ?_, by rw [pushed, attach_conditioned e optional conjoined right]⟩
    rw [← planWith?_withheld own, right]
  conditionedAndFiltered g c k left optional bare conjoined := by
    obtain ⟨e, planned, pushed⟩ := exists_plan?_pushChild c left
    obtain ⟨r, right⟩ := exists_planWith? .withheld (contributes_of_ofFilters conjoined)
    refine ⟨e, r, planned, ?_, by rw [pushed, attach_conditioned e optional conjoined right]⟩
    rw [← planWith?_withheld_of_noPatterns bare, right]
  first g c alone held unfiltered := by
    obtain ⟨r, right⟩ := exists_plan? held
    rw [plan?_pushChild_first c alone, right, unfiltered]
    rfl
  firstFiltered g c k alone held conjoined := by
    obtain ⟨r, right⟩ := exists_plan? held
    refine ⟨r, right, ?_⟩
    rw [plan?_pushChild_first c alone, right, ← Plan.filterAll_of_ofFilters r conjoined]

namespace Compositional

variable {F G : PatternGroup P C → Option (Plan P C)}

theorem agree_of_noChildren (lawF : Compositional F) (lawG : Compositional G)
    {g : PatternGroup P C} (single : g.children = []) : F g = G g := by
  by_cases bare : g.patterns.toList = []
  · by_cases unfiltered : g.filters.toList = []
    · rw [lawF.nothing g single bare unfiltered, lawG.nothing g single bare unfiltered]
    · obtain ⟨k, conjoined⟩ := Condition.exists_ofFilters unfiltered
      rw [lawF.onlyFilters g k single bare conjoined, lawG.onlyFilters g k single bare conjoined]
  · obtain ⟨base, e, chain, leaves, filtered, planned⟩ := lawF.ownPatterns g single bare
    obtain ⟨base', e', chain', leaves', filtered', planned'⟩ := lawG.ownPatterns g single bare
    have same : base = base' := chain.eq_of_leaves_eq chain' (leaves.trans leaves'.symm)
    rw [planned, planned', filtered.eq, filtered'.eq, same]

theorem agree_of_parts (op : Plan P C → Plan P C → Plan P C)
    {g part p : PatternGroup P C} (here : F g = G g) (there : F part = G part)
    (pushedF : ∃ e r, F g = some e ∧ F part = some r ∧ F p = some (op e r))
    (pushedG : ∃ e r, G g = some e ∧ G part = some r ∧ G p = some (op e r)) : F p = G p := by
  obtain ⟨e, r, left, right, pushed⟩ := pushedF
  obtain ⟨e', r', left', right', pushed'⟩ := pushedG
  rw [← here, left, Option.some_inj] at left'
  rw [← there, right, Option.some_inj] at right'
  rw [pushed, pushed', left', right']

theorem agree_pushChild (lawF : Compositional F) (lawG : Compositional G)
    {g c : PatternGroup P C} (here : F g = G g) (there : F c = G c)
    (cleared : F c.clearFilters = G c.clearFilters) : F (g.pushChild c) = G (g.pushChild c) := by
  by_cases held : c.contributes
  · by_cases left : g.hasLeft
    · cases optional : c.isOptional with
      | false =>
        exact agree_of_parts .join here there (lawF.joined g c left held optional)
          (lawG.joined g c left held optional)
      | true =>
        by_cases unfiltered : c.filters.toList = []
        · exact agree_of_parts (.leftJoin · · none) here there
            (lawF.leftJoined g c left held optional unfiltered)
            (lawG.leftJoined g c left held optional unfiltered)
        · obtain ⟨k, conjoined⟩ := Condition.exists_ofFilters unfiltered
          by_cases bare : c.patterns.toList = []
          · exact agree_of_parts (.leftJoin · · (some k)) here there
              (lawF.conditionedAndFiltered g c k left optional bare conjoined)
              (lawG.conditionedAndFiltered g c k left optional bare conjoined)
          · exact agree_of_parts (.leftJoin · · (some k)) here cleared
              (lawF.conditioned g c k left optional bare conjoined)
              (lawG.conditioned g c k left optional bare conjoined)
    · rw [Bool.not_eq_true] at left
      by_cases unfiltered : g.filters.toList = []
      · rw [lawF.first g c left held unfiltered, lawG.first g c left held unfiltered, there]
      · obtain ⟨k, conjoined⟩ := Condition.exists_ofFilters unfiltered
        obtain ⟨r, right, pushed⟩ := lawF.firstFiltered g c k left held conjoined
        obtain ⟨r', right', pushed'⟩ := lawG.firstFiltered g c k left held conjoined
        rw [← there, right, Option.some_inj] at right'
        rw [pushed, pushed', right']
  · rw [Bool.not_eq_true] at held
    rw [lawF.blank g c held, lawG.blank g c held, here]

/-- The induction is on the tree and, within it, on the children from the last one back. The
filters are arbitrary because a conditioned child is planned without its own. -/
theorem agree (lawF : Compositional F) (lawG : Compositional G) (g : PatternGroup P C)
    (fs : UniqueList C) : F { g with filters := fs } = G { g with filters := fs } := by
  induction g generalizing fs with
  | group o ps _ cs ih =>
    induction cs using List.reverseRecOn with
    | nil => exact agree_of_noChildren lawF lawG rfl
    | append_singleton cs c before =>
      have here := before fun d hd => ih d (List.mem_append_left [c] hd)
      have there := ih c (List.mem_append_right cs (List.mem_singleton_self c))
      cases c with
      | mk o' ps' fs' cs' => exact agree_pushChild lawF lawG here (there fs') (there ∅)

end Compositional

/-- Planning is the one function that obeys the law. -/
theorem compositional_iff (F : PatternGroup P C → Option (Plan P C)) :
    Compositional F ↔ F = plan? := by
  constructor
  · intro law
    funext g
    cases g with
    | mk o ps fs cs => exact law.agree compositional_plan? ⟨o, ps, fs, cs⟩ fs
  · rintro rfl
    exact compositional_plan?

end PatternGroup

end GroupPlan
