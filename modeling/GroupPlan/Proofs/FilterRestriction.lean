import GroupPlan.Proofs.ChildTables

/-! Further filters on a group. Wherever its filters are placed, more of them keep a part of
the table that they are placed on, and the children that are attached afterwards are joined
or left joined to that part, which gives a part of what there was. So the group loses solutions
and gains none. -/

namespace GroupPlan

open scoped Classical

variable {P C V T : Type}

theorem Interpretation.filter_holdsAll_le (M : Interpretation P C V T) {fs fs' : List C}
    (more : ∀ c ∈ fs, c ∈ fs') (A : Table V T) :
    A.filter (M.HoldsAll fs') ≤ A.filter (M.HoldsAll fs) :=
  Multiset.monotone_filter_right A fun _ holds c held => holds c (more c held)

namespace PatternGroup

variable (M : Interpretation P C V T) (reading : EmptyReading)

section More

variable {fs fs' : List C}

theorem tableFrom_nil_le_unit (fs : List C) :
    tableFrom M reading fs ([] : List (PatternGroup P C)) ≤ Table.unit := by
  rw [tableFrom_nil]
  split
  · exact le_refl _
  · exact (Multiset.filter_le _ _).trans reading.solutions_le_unit

theorem tableFrom_nil_le (more : ∀ c ∈ fs, c ∈ fs') :
    tableFrom M reading fs' ([] : List (PatternGroup P C)) ≤ tableFrom M reading fs [] := by
  by_cases unfiltered : fs = []
  · rw [tableFrom_nil M reading fs, if_pos (List.isEmpty_iff.mpr unfiltered)]
    exact tableFrom_nil_le_unit M reading fs'
  · obtain ⟨c, held⟩ := List.exists_mem_of_ne_nil fs unfiltered
    have filtered' : fs' ≠ [] := List.ne_nil_of_mem (more c held)
    simp only [tableFrom_nil, List.isEmpty_iff, unfiltered, filtered', if_false]
    exact M.filter_holdsAll_le more _

theorem tableFrom_le (more : ∀ c ∈ fs, c ∈ fs') (cs : List (PatternGroup P C)) :
    tableFrom M reading fs' cs ≤ tableFrom M reading fs cs := by
  induction cs with
  | nil => exact tableFrom_nil_le M reading more
  | cons c cs ih =>
    cases held : c.contributes with
    | false =>
      rw [tableFrom_cons_of_blank M reading fs' cs held,
        tableFrom_cons_of_blank M reading fs cs held]
      exact ih
    | true =>
      rw [tableFrom_cons_of_held M reading fs' cs held,
        tableFrom_cons_of_held M reading fs cs held]
      exact foldl_tableAfter_le M reading (M.filter_holdsAll_le more _) cs

end More

theorem table_le_of_filters {g h : PatternGroup P C} (patterns : h.patterns = g.patterns)
    (children : h.children = g.children) (more : ∀ c ∈ g.filters.toList, c ∈ h.filters.toList) :
    h.table M reading .applied ≤ g.table M reading .applied := by
  by_cases bare : g.patterns.toList = []
  · rw [table_of_noPatterns M reading .applied bare,
      table_of_noPatterns M reading .applied (patterns ▸ bare), children]
    exact tableFrom_le M reading more g.children
  · obtain ⟨base, joined⟩ := exists_ofPatterns (C := C) bare
    rw [table_of_ofPatterns M reading .applied joined,
      table_of_ofPatterns M reading .applied (patterns ▸ joined), children]
    refine foldl_tableAfter_le M reading ?_ g.children
    simp only [FilterUse.place, Plan.solutions_filterEach]
    exact M.filter_holdsAll_le more _

variable [DecidableEq C]

theorem contributes_insertFilter (g : PatternGroup P C) (c : C) :
    (g.insertFilter c).contributes := by
  have filtered : (g.insertFilter c).filters.toList ≠ [] :=
    List.ne_nil_of_mem (UniqueList.mem_insert.mpr (.inr rfl))
  obtain ⟨k, conjoined⟩ := Condition.exists_ofFilters filtered
  exact contributes_of_ofFilters conjoined

/-- One more filter leaves a group that has a plan with a plan, and adds no solution to it. -/
theorem solutions_insertFilter_le {g : PatternGroup P C} {e : Plan P C} (c : C)
    (planned : g.plan? = some e) :
    ∃ e', (g.insertFilter c).plan? = some e' ∧
      ∀ (V T : Type) (M : Interpretation P C V T) (reading : EmptyReading),
        e'.solutions M reading ≤ e.solutions M reading := by
  obtain ⟨e', planned'⟩ := exists_plan? (g.contributes_insertFilter c)
  refine ⟨e', planned', fun V T M reading => ?_⟩
  rw [← table_of_planWith? M reading planned, ← table_of_planWith? M reading planned']
  exact table_le_of_filters M reading rfl rfl fun _ held => UniqueList.mem_insert.mpr (.inl held)

def startedSample : PatternGroup Nat Nat :=
  required.pushChild optional
    |>.pushChild (((optional.insertPattern 0).insertFilter 12).pushChild
      ((optional.insertPattern 1).insertFilter 13))
    |>.pushChild ((optional.insertPattern 2).insertFilter 14)

theorem solutions_startedSample :
    ∃ e e', startedSample.plan? = some e ∧ (startedSample.insertFilter 10).plan? = some e' ∧
      e ≠ e' ∧ ∀ (V T : Type) (M : Interpretation Nat Nat V T) (reading : EmptyReading),
        e'.solutions M reading ≤ e.solutions M reading := by
  have differ : startedSample.plan? ≠ (startedSample.insertFilter 10).plan? := by decide
  obtain ⟨e, planned⟩ := Option.isSome_iff_exists.mp (by decide : startedSample.plan?.isSome)
  obtain ⟨e', planned', fewer⟩ := solutions_insertFilter_le 10 planned
  rw [planned, planned'] at differ
  exact ⟨e, e', planned, planned', mt (congrArg some) differ, fewer⟩

end PatternGroup

end GroupPlan
