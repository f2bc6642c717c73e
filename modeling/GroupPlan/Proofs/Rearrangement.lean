import GroupPlan.Proofs.Attachment
import GroupPlan.Proofs.EqualGroups

/-! Plans of equal groups. Equal groups hold their patterns and filters in different
orders, so their plans differ; but they are put together alike, step by step, from
rearranged lists of patterns and filters. `Rearranged` says so, and what does not depend
on the order of a list is then the same for both plans by induction on it. -/

namespace GroupPlan

variable {P C : Type}

/-- The plans are put together alike, each list of patterns or filters in an order of its own. -/
inductive Plan.Rearranged : Plan P C → Plan P C → Prop where
  | ofPatterns {ps qs : List P} {e e' : Plan P C} (perm : ps.Perm qs)
      (joined : Plan.ofPatterns ps = .ok e) (joined' : Plan.ofPatterns qs = .ok e') :
      Rearranged e e'
  | empty : Rearranged .empty .empty
  | filterEach {fs gs : List C} {e e' : Plan P C} (perm : fs.Perm gs) (inner : Rearranged e e') :
      Rearranged (e.filterEach fs) (e'.filterEach gs)
  | filterAll {fs gs : List C} {e e' : Plan P C} (perm : fs.Perm gs) (inner : Rearranged e e') :
      Rearranged (e.filterAll fs) (e'.filterAll gs)
  | join {lhs lhs' rhs rhs' : Plan P C} (left : Rearranged lhs lhs')
      (right : Rearranged rhs rhs') : Rearranged (.join lhs rhs) (.join lhs' rhs')
  | leftJoin {lhs lhs' rhs rhs' : Plan P C} (left : Rearranged lhs lhs')
      (right : Rearranged rhs rhs') : Rearranged (.leftJoin lhs rhs none) (.leftJoin lhs' rhs' none)
  | conditioned {lhs lhs' rhs rhs' : Plan P C} {fs gs : List C} {k k' : Condition C}
      (left : Rearranged lhs lhs') (right : Rearranged rhs rhs') (perm : fs.Perm gs)
      (conjoined : Condition.ofFilters fs = .ok k) (conjoined' : Condition.ofFilters gs = .ok k') :
      Rearranged (.leftJoin lhs rhs (some k)) (.leftJoin lhs' rhs' (some k'))

namespace PatternGroup

/-- Under either use of the filters both groups have a plan or neither has, and all that attaching
them depends on agrees. -/
structure PlannedAlike (c d : PatternGroup P C) : Prop where
  isOptional : c.isOptional = d.isOptional
  filters : c.filters.toList.Perm d.filters.toList
  plans : ∀ use, Option.Rel Plan.Rearranged (c.planWith? use) (d.planWith? use)

namespace PlannedAlike

variable {c d : PatternGroup P C}

theorem contributes_eq (alike : c.PlannedAlike d) : c.contributes = d.contributes := by
  have plans := alike.plans .applied
  rw [← planWith?_isSome .applied c, ← planWith?_isSome .applied d]
  generalize c.planWith? .applied = e at plans ⊢
  generalize d.planWith? .applied = e' at plans ⊢
  cases plans <;> rfl

theorem exists_planWith? {use : FilterUse} {e : Plan P C} (alike : c.PlannedAlike d)
    (planned : c.planWith? use = some e) : ∃ e', d.planWith? use = some e' ∧ e.Rearranged e' := by
  have plans := alike.plans use
  rw [planned] at plans
  generalize d.planWith? use = there at plans ⊢
  cases plans with
  | some rearranged => exact ⟨_, rfl, rearranged⟩

theorem attach {lhs lhs' : Plan P C} (alike : c.PlannedAlike d) (left : lhs.Rearranged lhs') :
    (attach lhs c).Rearranged (attach lhs' d) := by
  have flags := alike.isOptional
  rcases attach_cases lhs c with ⟨blank, same⟩ | ⟨rhs, required, planned, joined⟩ |
    ⟨rhs, optional, unfiltered, planned, joined⟩ | ⟨rhs, k, optional, conjoined, kept, joined⟩
  · rw [alike.contributes_eq] at blank
    rw [same, attach_of_blank lhs' blank]
    exact left
  · obtain ⟨rhs', planned', right⟩ := alike.exists_planWith? planned
    rw [joined, attach_required lhs' (flags ▸ required) planned']
    exact .join left right
  · obtain ⟨rhs', planned', right⟩ := alike.exists_planWith? planned
    have unfiltered' : d.filters.toList = [] := (unfiltered ▸ alike.filters).nil_eq.symm
    rw [joined, attach_optional lhs' (flags ▸ optional) unfiltered' planned']
    exact .leftJoin left right
  · obtain ⟨rhs', kept', right⟩ := alike.exists_planWith? kept
    have filtered' : d.filters.toList ≠ [] := fun unfiltered =>
      Condition.ne_nil_of_ofFilters conjoined (unfiltered ▸ alike.filters).eq_nil
    obtain ⟨k', conjoined'⟩ := Condition.exists_ofFilters filtered'
    rw [joined, attach_conditioned lhs' (flags ▸ optional) conjoined' kept']
    exact .conditioned left right alike.filters conjoined conjoined'

end PlannedAlike

theorem rearranged_foldl_attach {cs ds : List (PatternGroup P C)} {lhs lhs' : Plan P C}
    (alike : List.Forall₂ PlannedAlike cs ds) (left : lhs.Rearranged lhs') :
    (cs.foldl attach lhs).Rearranged (ds.foldl attach lhs') := by
  induction alike generalizing lhs lhs' with
  | nil => exact left
  | cons first _ ih => exact ih (first.attach left)

theorem rearranged_bareFilters? {fs gs : List C} (perm : fs.Perm gs) :
    Option.Rel Plan.Rearranged (bareFilters? (P := P) fs) (bareFilters? gs) := by
  by_cases unfiltered : fs = []
  · subst unfiltered
    rw [← perm.nil_eq]
    exact .none
  · have filtered' : gs ≠ [] := fun none_left => unfiltered (none_left ▸ perm).eq_nil
    rw [bareFilters?, bareFilters?, if_neg (mt List.isEmpty_iff.mp unfiltered),
      if_neg (mt List.isEmpty_iff.mp filtered')]
    exact .some (.filterAll perm .empty)

theorem rearranged_planFrom? {fs gs : List C} {cs ds : List (PatternGroup P C)}
    (perm : fs.Perm gs) (alike : List.Forall₂ PlannedAlike cs ds) :
    Option.Rel Plan.Rearranged (planFrom? fs cs) (planFrom? gs ds) := by
  induction alike with
  | nil => exact rearranged_bareFilters? perm
  | @cons c d cs ds first rest ih =>
    cases held : c.contributes with
    | false =>
      have held' : d.contributes = false := first.contributes_eq ▸ held
      rw [planFrom?_cons_of_blank fs cs held, planFrom?_cons_of_blank gs ds held']
      exact ih
    | true =>
      obtain ⟨e, planned⟩ := exists_plan? held
      obtain ⟨e', planned', rearranged⟩ := first.exists_planWith? planned
      rw [planFrom?_cons_of_plan? fs cs planned, planFrom?_cons_of_plan? gs ds planned']
      exact .some (rearranged_foldl_attach rest (.filterAll perm rearranged))

theorem rearranged_place {ps qs : List P} {fs gs : List C} {base base' : Plan P C}
    (use : FilterUse) (patterns : ps.Perm qs) (filters : fs.Perm gs)
    (joined : Plan.ofPatterns ps = .ok base) (joined' : Plan.ofPatterns qs = .ok base') :
    (use.place base fs).Rearranged (use.place base' gs) := by
  cases use with
  | applied => exact .filterEach filters (.ofPatterns patterns joined joined')
  | withheld => exact .ofPatterns patterns joined joined'

theorem plannedAlike_of_beq [DecidableEq P] [DecidableEq C] {g h : PatternGroup P C}
    (same : (g == h) = true) : g.PlannedAlike h := by
  induction g generalizing h with
  | group o ps fs cs ih =>
    obtain ⟨flags, patterns, filters, children⟩ := beq_iff_perm.mp same
    have alike : List.Forall₂ PlannedAlike cs h.children :=
      ((List.forall₂_and_left cs h.children).mpr ⟨ih, children⟩).imp
        fun c d pair => pair.1 pair.2
    refine ⟨flags, filters, fun use => ?_⟩
    by_cases bare : ps.toList = []
    · have bare' : h.patterns.toList = [] := (bare ▸ patterns).nil_eq.symm
      rw [planWith?_of_noPatterns use bare, planWith?_of_noPatterns use bare']
      exact rearranged_planFrom? filters alike
    · have own' : h.patterns.toList ≠ [] := fun none_left => bare (none_left ▸ patterns).eq_nil
      obtain ⟨base, joined⟩ := exists_ofPatterns (C := C) bare
      obtain ⟨base', joined'⟩ := exists_ofPatterns (C := C) own'
      have placed := rearranged_place use patterns filters joined joined'
      rw [planWith?_of_ofPatterns use joined, planWith?_of_ofPatterns use joined']
      exact .some (rearranged_foldl_attach alike placed)

theorem plan?_cases_of_beq [DecidableEq P] [DecidableEq C] {g h : PatternGroup P C}
    (same : (g == h) = true) :
    (g.plan? = none ∧ h.plan? = none) ∨
      ∃ e e', g.plan? = some e ∧ h.plan? = some e' ∧ e.Rearranged e' := by
  have alike := plannedAlike_of_beq same
  cases held : g.contributes with
  | false => exact .inl ⟨plan?_of_blank held, plan?_of_blank (alike.contributes_eq ▸ held)⟩
  | true =>
    obtain ⟨e, planned⟩ := exists_plan? held
    obtain ⟨e', planned', rearranged⟩ := alike.exists_planWith? planned
    exact .inr ⟨e, e', planned, planned', rearranged⟩

end PatternGroup

end GroupPlan
