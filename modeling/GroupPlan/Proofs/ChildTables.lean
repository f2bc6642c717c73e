import GroupPlan.Proofs.PlanSolutions

/-! What a child does to the table of the plan that it is attached to. It takes one table to
another, by a join or by a left join, and nothing else of the plan matters: a child that
contributes nothing joins the unit. Both operations keep the order of tables on their left. -/

namespace GroupPlan

open scoped Classical

variable {P C V T : Type}

namespace PatternGroup

variable (M : Interpretation P C V T) (reading : EmptyReading)

/-- The table of the plan under a use of the filters, the unit if there is no plan. -/
noncomputable def table (use : FilterUse) (g : PatternGroup P C) : Table V T :=
  Plan.solutionsOrUnit M reading (g.planWith? use)

theorem table_of_planWith? {use : FilterUse} {g : PatternGroup P C} {e : Plan P C}
    (planned : g.planWith? use = some e) : g.table M reading use = e.solutions M reading := by
  rw [table, planned]
  rfl

theorem table_of_blank (use : FilterUse) {g : PatternGroup P C} (blank : g.contributes = false) :
    g.table M reading use = Table.unit := by
  rw [table, planWith?_eq_none_iff.mpr blank]
  rfl

noncomputable def tableAfter (A : Table V T) (c : PatternGroup P C) : Table V T :=
  if c.isOptional then
    Table.leftJoin (M.HoldsAll c.filters.toList) A (c.table M reading .withheld)
  else Table.join A (c.table M reading .applied)

theorem tableAfter_required (A : Table V T) {c : PatternGroup P C}
    (required : c.isOptional = false) :
    tableAfter M reading A c = Table.join A (c.table M reading .applied) := by
  simp [tableAfter, required]

theorem tableAfter_optional (A : Table V T) {c : PatternGroup P C}
    (optional : c.isOptional = true) :
    tableAfter M reading A c =
      Table.leftJoin (M.HoldsAll c.filters.toList) A (c.table M reading .withheld) := by
  simp [tableAfter, optional]

theorem tableAfter_of_blank (A : Table V T) {c : PatternGroup P C}
    (blank : c.contributes = false) : tableAfter M reading A c = A := by
  rw [tableAfter, table_of_blank M reading _ blank, table_of_blank M reading _ blank,
    Table.leftJoin_unit, Table.join_unit, ite_self]

theorem solutions_attach_eq (lhs : Plan P C) (c : PatternGroup P C) :
    (attach lhs c).solutions M reading = tableAfter M reading (lhs.solutions M reading) c := by
  rcases attach_cases lhs c with ⟨blank, same⟩ | ⟨rhs, required, planned, joined⟩ |
    ⟨rhs, optional, unfiltered, planned, joined⟩ | ⟨rhs, k, optional, conjoined, kept, joined⟩
  · rw [same, tableAfter_of_blank M reading _ blank]
  · rw [joined, tableAfter_required M reading _ required, table_of_planWith? M reading planned,
      Plan.solutions]
  · rw [← planWith?_of_unfiltered unfiltered .withheld] at planned
    rw [joined, tableAfter_optional M reading _ optional, table_of_planWith? M reading planned,
      unfiltered, Plan.solutions_leftJoin_none]
  · rw [joined, tableAfter_optional M reading _ optional, table_of_planWith? M reading kept,
      Plan.solutions_leftJoin_some M reading lhs rhs conjoined]

theorem solutions_foldl_attach_eq (lhs : Plan P C) (cs : List (PatternGroup P C)) :
    (cs.foldl attach lhs).solutions M reading =
      cs.foldl (tableAfter M reading) (lhs.solutions M reading) := by
  induction cs generalizing lhs with
  | nil => rfl
  | cons c cs ih => rw [List.foldl_cons, List.foldl_cons, ih, solutions_attach_eq]

theorem tableAfter_le_tableAfter {A A' : Table V T} (le : A ≤ A') (c : PatternGroup P C) :
    tableAfter M reading A c ≤ tableAfter M reading A' c := by
  rw [tableAfter, tableAfter]
  split
  · exact Table.leftJoin_le_leftJoin _ _ le
  · exact Table.join_le_join _ le

theorem foldl_tableAfter_le {A A' : Table V T} (le : A ≤ A') (cs : List (PatternGroup P C)) :
    cs.foldl (tableAfter M reading) A ≤ cs.foldl (tableAfter M reading) A' := by
  induction cs generalizing A A' with
  | nil => exact le
  | cons c cs ih => exact ih (tableAfter_le_tableAfter M reading le c)

/-- The table of the plan that starts from the children. -/
noncomputable def tableFrom (fs : List C) (cs : List (PatternGroup P C)) : Table V T :=
  Plan.solutionsOrUnit M reading (planFrom? fs cs)

theorem tableFrom_nil (fs : List C) :
    tableFrom M reading fs ([] : List (PatternGroup P C)) =
      if fs.isEmpty then Table.unit else reading.solutions.filter (M.HoldsAll fs) := by
  rw [tableFrom, planFrom?_nil, bareFilters?]
  split
  · rfl
  · exact Plan.solutions_filterAll M reading .empty fs

theorem tableFrom_cons_of_blank (fs : List C) {c : PatternGroup P C}
    (cs : List (PatternGroup P C)) (blank : c.contributes = false) :
    tableFrom M reading fs (c :: cs) = tableFrom M reading fs cs := by
  rw [tableFrom, planFrom?_cons_of_blank fs cs blank, tableFrom]

theorem tableFrom_cons_of_held (fs : List C) {c : PatternGroup P C} (cs : List (PatternGroup P C))
    (held : c.contributes) :
    tableFrom M reading fs (c :: cs) =
      cs.foldl (tableAfter M reading) ((c.table M reading .applied).filter (M.HoldsAll fs)) := by
  obtain ⟨first, planned⟩ := exists_plan? held
  rw [tableFrom, planFrom?_cons_of_plan? fs cs planned, table_of_planWith? M reading planned,
    ← Plan.solutions_filterAll]
  exact solutions_foldl_attach_eq M reading _ cs

theorem table_of_ofPatterns {g : PatternGroup P C} {base : Plan P C} (use : FilterUse)
    (joined : Plan.ofPatterns g.patterns.toList = .ok base) :
    g.table M reading use =
      g.children.foldl (tableAfter M reading)
        ((use.place base g.filters.toList).solutions M reading) := by
  rw [table_of_planWith? M reading (planWith?_of_ofPatterns use joined), solutions_foldl_attach_eq]

theorem table_of_noPatterns {g : PatternGroup P C} (use : FilterUse)
    (bare : g.patterns.toList = []) :
    g.table M reading use = tableFrom M reading g.filters.toList g.children := by
  rw [table, planWith?_of_noPatterns use bare, tableFrom]

end PatternGroup

end GroupPlan
