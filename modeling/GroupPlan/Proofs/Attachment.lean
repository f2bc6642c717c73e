import GroupPlan.Proofs.Presence

/-! What one child adds to a plan. A child that contributes nothing is passed over;
any other becomes the right side of a join or of a left join, or, where nothing
stands to its left, the start of the plan. -/

namespace GroupPlan

theorem Condition.exists_ofFilters {C : Type} {fs : List C} (filtered : fs ≠ []) :
    ∃ k, Condition.ofFilters fs = .ok k := by
  cases fs with
  | nil => exact absurd rfl filtered
  | cons c fs => exact ⟨_, rfl⟩

theorem Condition.ne_nil_of_ofFilters {C : Type} {fs : List C} {k : Condition C}
    (conjoined : Condition.ofFilters fs = .ok k) : fs ≠ [] := by
  rintro rfl
  cases conjoined

theorem Plan.filterAll_of_ofFilters {P C : Type} {fs : List C} {k : Condition C}
    (base : Plan P C) (conjoined : Condition.ofFilters fs = .ok k) :
    base.filterAll fs = .filter base k := by
  rw [filterAll, conjoined]

namespace PatternGroup

variable {P C : Type}

/-- Whether a further child finds something to its left: a pattern of the group itself or a
child that contributes. -/
def hasLeft (g : PatternGroup P C) : Bool :=
  !g.patterns.isEmpty || g.children.any contributes

theorem hasLeft_eq_false_iff {g : PatternGroup P C} :
    g.hasLeft = false ↔ g.patterns.toList = [] ∧ ∀ c ∈ g.children, c.contributes = false := by
  simp [hasLeft, UniqueList.isEmpty]

theorem attach_of_blank (lhs : Plan P C) {c : PatternGroup P C} (blank : c.contributes = false) :
    attach lhs c = lhs := by
  rw [attach]
  cases c.joinCondition? with
  | some k => simp only [planWith?_eq_none_iff.mpr blank]
  | none => simp only [planWith?_eq_none_iff.mpr blank]

theorem attach_required (lhs : Plan P C) {c : PatternGroup P C} {rhs : Plan P C}
    (required : c.isOptional = false) (planned : c.plan? = some rhs) :
    attach lhs c = .join lhs rhs := by
  have plain : c.joinCondition? = none := joinCondition?_eq_none_iff.mpr (.inl required)
  rw [plan?_eq] at planned
  simp [attach, plain, planned, required]

theorem attach_optional (lhs : Plan P C) {c : PatternGroup P C} {rhs : Plan P C}
    (optional : c.isOptional = true) (unfiltered : c.filters.toList = [])
    (planned : c.plan? = some rhs) : attach lhs c = .leftJoin lhs rhs none := by
  rw [plan?_eq] at planned
  have plain : c.joinCondition? = none := joinCondition?_eq_none_iff.mpr (.inr unfiltered)
  simp [attach, plain, planned, optional]

theorem attach_conditioned (lhs : Plan P C) {c : PatternGroup P C} {rhs : Plan P C}
    {k : Condition C} (optional : c.isOptional = true)
    (conjoined : Condition.ofFilters c.filters.toList = .ok k)
    (planned : c.planWith? .withheld = some rhs) :
    attach lhs c = .leftJoin lhs rhs (some k) := by
  simp [attach, joinCondition?_eq_some_iff.mpr ⟨optional, conjoined⟩, planned]

theorem attach_cases (lhs : Plan P C) (c : PatternGroup P C) :
    (c.contributes = false ∧ attach lhs c = lhs) ∨
      (∃ rhs, c.isOptional = false ∧ c.plan? = some rhs ∧ attach lhs c = .join lhs rhs) ∨
      (∃ rhs, c.isOptional = true ∧ c.filters.toList = [] ∧ c.plan? = some rhs ∧
        attach lhs c = .leftJoin lhs rhs none) ∨
      ∃ rhs k, c.isOptional = true ∧ Condition.ofFilters c.filters.toList = .ok k ∧
        c.planWith? .withheld = some rhs ∧ attach lhs c = .leftJoin lhs rhs (some k) := by
  cases held : c.contributes with
  | false => exact .inl ⟨rfl, attach_of_blank lhs held⟩
  | true =>
    obtain ⟨rhs, planned⟩ := exists_plan? held
    cases optional : c.isOptional with
    | false => exact .inr (.inl ⟨rhs, rfl, planned, attach_required lhs optional planned⟩)
    | true =>
      by_cases unfiltered : c.filters.toList = []
      · have joined := attach_optional lhs optional unfiltered planned
        exact .inr (.inr (.inl ⟨rhs, rfl, unfiltered, planned, joined⟩))
      · obtain ⟨k, conjoined⟩ := Condition.exists_ofFilters unfiltered
        obtain ⟨right, kept⟩ := exists_planWith? .withheld held
        have joined := attach_conditioned lhs optional conjoined kept
        exact .inr (.inr (.inr ⟨right, k, rfl, conjoined, kept, joined⟩))

theorem foldl_attach_of_blank (lhs : Plan P C) {cs : List (PatternGroup P C)}
    (blank : ∀ c ∈ cs, c.contributes = false) : cs.foldl attach lhs = lhs := by
  induction cs with
  | nil => rfl
  | cons c cs ih =>
    rw [List.forall_mem_cons] at blank
    rw [List.foldl_cons, attach_of_blank lhs blank.1, ih blank.2]

theorem planFrom?_append (fs : List C) (cs ds : List (PatternGroup P C)) :
    planFrom? fs (cs ++ ds) =
      if cs.any contributes then (planFrom? fs cs).map (ds.foldl attach)
      else planFrom? fs ds := by
  induction cs with
  | nil => simp
  | cons c cs ih =>
    rw [List.cons_append, List.any_cons]
    cases held : c.contributes with
    | false =>
      rw [planFrom?_cons_of_blank fs _ held, planFrom?_cons_of_blank fs _ held, ih]
      rfl
    | true =>
      obtain ⟨first, planned⟩ := exists_plan? held
      rw [planFrom?_cons_of_plan? fs _ planned, planFrom?_cons_of_plan? fs _ planned,
        List.foldl_append]
      rfl

theorem planFrom?_of_blank (fs : List C) {cs : List (PatternGroup P C)}
    (blank : ∀ c ∈ cs, c.contributes = false) : planFrom? fs cs = bareFilters? fs := by
  have none_left : cs.any contributes = false := by simpa using blank
  rw [← List.append_nil cs, planFrom?_append, none_left]
  rfl

theorem planFrom?_cases (fs : List C) (cs : List (PatternGroup P C)) :
    (cs.find? contributes = none ∧ planFrom? fs cs = bareFilters? fs) ∨
      ∃ c first rest, cs.find? contributes = some c ∧ (c :: rest) <:+ cs ∧ c.plan? = some first ∧
        planFrom? fs cs = some (rest.foldl attach (first.filterAll fs)) := by
  induction cs with
  | nil => exact .inl ⟨rfl, planFrom?_nil fs⟩
  | cons d ds ih =>
    cases held : d.contributes with
    | false =>
      rw [planFrom?_cons_of_blank fs ds held, List.find?_cons_of_neg (by simp [held])]
      rcases ih with blank | ⟨c, first, rest, found, suffix, planned, started⟩
      · exact .inl blank
      · exact .inr ⟨c, first, rest, found, suffix.trans (ds.suffix_cons d), planned, started⟩
    | true =>
      obtain ⟨first, planned⟩ := exists_plan? held
      exact .inr ⟨d, first, ds, List.find?_cons_of_pos held, List.suffix_refl _, planned,
        planFrom?_cons_of_plan? fs ds planned⟩

theorem planWith?_cases_of_noPatterns {g : PatternGroup P C} {use : FilterUse} {e : Plan P C}
    (bare : g.patterns.toList = []) (planned : g.planWith? use = some e) :
    (g.children.find? contributes = none ∧ g.filters.toList ≠ [] ∧
        e = Plan.empty.filterAll g.filters.toList) ∨
      ∃ c first rest, g.children.find? contributes = some c ∧
        (∀ d ∈ c :: rest, d ∈ g.children) ∧ c.plan? = some first ∧
        e = rest.foldl attach (first.filterAll g.filters.toList) := by
  rw [planWith?_of_noPatterns use bare] at planned
  rcases planFrom?_cases g.filters.toList g.children with
    ⟨none_left, started⟩ | ⟨c, first, rest, found, suffix, starts, started⟩
  · rw [started, bareFilters?, Option.ite_none_left_eq_some, Option.some_inj,
      List.isEmpty_iff] at planned
    exact .inl ⟨none_left, planned.1, planned.2.symm⟩
  · rw [started, Option.some_inj] at planned
    exact .inr ⟨c, first, rest, found, fun _ below => suffix.mem below, starts, planned.symm⟩

theorem plan?_pushChild {g : PatternGroup P C} (c : PatternGroup P C) (left : g.hasLeft) :
    (g.pushChild c).plan? = g.plan?.map (attach · c) := by
  by_cases bare : g.patterns.toList = []
  · have opened : g.children.any contributes = true := by
      simpa [hasLeft, UniqueList.isEmpty, bare] using left
    have bare' : (g.pushChild c).patterns.toList = [] := bare
    rw [plan?_of_noPatterns bare, plan?_of_noPatterns bare', pushChild, planFrom?_append,
      if_pos opened]
    rfl
  · obtain ⟨base, joined⟩ := exists_ofPatterns (C := C) bare
    have joined' : Plan.ofPatterns (g.pushChild c).patterns.toList = .ok base := joined
    rw [plan?_of_ofPatterns joined, plan?_of_ofPatterns joined', pushChild, List.foldl_append]
    rfl

theorem hasLeft_pushChild {g : PatternGroup P C} (c : PatternGroup P C) (left : g.hasLeft) :
    (g.pushChild c).hasLeft := by
  rw [hasLeft, pushChild, List.any_append, ← Bool.or_assoc, Bool.or_eq_true]
  exact .inl left

theorem plan?_foldl_pushChild {g : PatternGroup P C} (cs : List (PatternGroup P C))
    (left : g.hasLeft) : (cs.foldl pushChild g).plan? = g.plan?.map (cs.foldl attach) := by
  induction cs generalizing g with
  | nil => exact (Option.map_id_apply).symm
  | cons c cs ih =>
    rw [List.foldl_cons, ih (hasLeft_pushChild c left), plan?_pushChild c left, Option.map_map]
    rfl

theorem plan?_pushChild_first {g : PatternGroup P C} (c : PatternGroup P C)
    (alone : g.hasLeft = false) :
    (g.pushChild c).plan? =
      match c.plan? with
      | none => bareFilters? g.filters.toList
      | some first => some (first.filterAll g.filters.toList) := by
  obtain ⟨bare, blank⟩ := hasLeft_eq_false_iff.mp alone
  have bare' : (g.pushChild c).patterns.toList = [] := bare
  have unopened : g.children.any contributes = false := by simpa using blank
  rw [plan?_of_noPatterns bare', pushChild, planFrom?_append, unopened, planFrom?_cons, plan?_eq]
  rfl

theorem plan?_of_hasLeft_eq_false {g : PatternGroup P C} (alone : g.hasLeft = false) :
    g.plan? = bareFilters? g.filters.toList := by
  obtain ⟨bare, blank⟩ := hasLeft_eq_false_iff.mp alone
  rw [plan?_of_noPatterns bare, planFrom?_of_blank _ blank]

theorem contributes_of_ofFilters {c : PatternGroup P C} {k : Condition C}
    (conjoined : Condition.ofFilters c.filters.toList = .ok k) : c.contributes := by
  rw [contributes_eq]
  have filtered := Condition.ne_nil_of_ofFilters conjoined
  simp [UniqueList.isEmpty, filtered]

theorem contributes_of_hasLeft {g : PatternGroup P C} (left : g.hasLeft) : g.contributes := by
  rw [hasLeft, Bool.or_eq_true] at left
  rw [contributes_eq, Bool.or_eq_true]
  rcases left with own | opened
  · refine .inl ?_
    revert own
    cases g.patterns.isEmpty <;> simp
  · exact .inr opened

end PatternGroup

end GroupPlan
