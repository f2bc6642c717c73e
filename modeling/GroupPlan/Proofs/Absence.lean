import GroupPlan.Proofs.Attachment

/-! When there is no plan. A group is planned unless no group of its tree holds a
pattern or a filter, whatever is done with its filters. An optional child with
filters therefore always brings a right side for the left join on their conjunction,
and attaching it never passes it over. -/

namespace GroupPlan.PatternGroup

variable {P C : Type}

theorem contributes_eq_false_iff_subtree {g : PatternGroup P C} :
    g.contributes = false ↔ ∀ d ∈ g.subtree, d.patterns.toList = [] ∧ d.filters.toList = [] := by
  simp [contributes, UniqueList.isEmpty]

theorem blank_of_isEmpty {g : PatternGroup P C} (empty : g.isEmpty) : g.contributes = false := by
  obtain ⟨bare, unfiltered, childless⟩ := isEmpty_iff.mp empty
  refine contributes_eq_false_iff.mpr ⟨bare, unfiltered, ?_⟩
  simp [childless]

theorem assembleOnto_conditioned {c : PatternGroup P C} {rhs : Plan P C} {k : Condition C}
    (conditioned : c.joinCondition? = some k) (kept : c.planWith? .withheld = some rhs)
    (lhs : Plan P C) (cs : List (PatternGroup P C)) :
    assembleOnto lhs (c :: cs) = (do
      Traced.emit .foldingWithCondition
      let _ ← c.assemble .withheld
      assembleOnto (.leftJoin lhs rhs (some k)) cs) := by
  have right : (c.assemble .withheld).value = some rhs := kept
  rw [assembleOnto, conditioned]
  refine Traced.ext ?_ ?_
  · simp only [Traced.bind_value, right]
  · simp only [Traced.bind_events, right]

/-- There is no plan exactly where nothing is held. The last part says that the run which attaches
an optional child with filters, to any plan and before any further children, has a right side. -/
theorem planWith?_eq_none_iff_subtree (g : PatternGroup P C) :
    (∀ use, g.planWith? use = none ↔
        ∀ d ∈ g.subtree, d.patterns.toList = [] ∧ d.filters.toList = []) ∧
      (g.isEmpty → g.plan? = none) ∧
      (g.isOptional → g.filters.toList ≠ [] →
        ∃ k rhs, Condition.ofFilters g.filters.toList = .ok k ∧
          g.planWith? .withheld = some rhs ∧
          ∀ lhs cs, assembleOnto lhs (g :: cs) = (do
            Traced.emit .foldingWithCondition
            let _ ← g.assemble .withheld
            assembleOnto (.leftJoin lhs rhs (some k)) cs)) := by
  refine ⟨fun use => ?_, fun empty => plan?_of_blank (blank_of_isEmpty empty), ?_⟩
  · rw [planWith?_eq_none_iff, contributes_eq_false_iff_subtree]
  · intro optional filtered
    obtain ⟨k, conjoined⟩ := Condition.exists_ofFilters filtered
    obtain ⟨rhs, kept⟩ := exists_planWith? .withheld (contributes_of_ofFilters conjoined)
    have conditioned : g.joinCondition? = some k := joinCondition?_eq_some_iff.mpr ⟨optional, conjoined⟩
    exact ⟨k, rhs, conjoined, kept, assembleOnto_conditioned conditioned kept⟩

end GroupPlan.PatternGroup
