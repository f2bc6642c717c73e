import GroupPlan.Proofs.Leaves
import GroupPlan.Proofs.ListEncoding
import Mathlib.Data.List.Nodup
import Mathlib.Data.List.Pairwise

/-! What the filters of a plan range over. Every filter node applies filters of one
group to the patterns of that group, or to those of its first child that contributes
if it has none. Every join condition holds the filters of one optional group and has
exactly the patterns of its tree on the right. -/

namespace GroupPlan

variable {P C : Type}

namespace Plan

theorem JoinsPatterns.condition?_eq_none {e : Plan P C} (chain : e.JoinsPatterns) :
    ∀ n ∈ e.nodes, n.condition? = none := by
  induction chain with
  | pattern p =>
    intro n node
    rw [mem_nodes_pattern.mp node]
    rfl
  | join p _ left =>
    intro n node
    rcases mem_nodes_join.mp node with rfl | below | below
    · rfl
    · exact left n below
    · rw [mem_nodes_pattern.mp below]
      rfl

theorem mem_nodes_filterEach {base n : Plan P C} {fs : List C}
    (node : n ∈ (base.filterEach fs).nodes) :
    n ∈ base.nodes ∨
      ∃ inner, ∃ c ∈ fs, n = .filter inner (.atom c) ∧ inner.leaves = base.leaves := by
  induction fs generalizing base with
  | nil => exact .inl node
  | cons c fs ih =>
    rcases ih node with here | ⟨inner, c', held, rfl, same⟩
    · rcases mem_nodes_filter.mp here with rfl | below
      · exact .inr ⟨base, c, List.mem_cons_self, rfl, rfl⟩
      · exact .inl below
    · exact .inr ⟨inner, c', List.mem_cons_of_mem c held, rfl, same⟩

theorem mem_nodes_filterAll {base n : Plan P C} {fs : List C}
    (node : n ∈ (base.filterAll fs).nodes) :
    n ∈ base.nodes ∨ ∃ k, Condition.ofFilters fs = .ok k ∧ n = .filter base k := by
  by_cases unfiltered : fs = []
  · rw [unfiltered, filterAll_nil] at node
    exact .inl node
  · obtain ⟨k, conjoined⟩ := Condition.exists_ofFilters unfiltered
    rw [filterAll_of_ofFilters base conjoined] at node
    rcases mem_nodes_filter.mp node with rfl | below
    · exact .inr ⟨k, conjoined, rfl⟩
    · exact .inl below

theorem leaves_sublist_of_mem_nodes {e n : Plan P C} (node : n ∈ e.nodes) :
    n.leaves.Sublist e.leaves :=
  forall_nodes_of_operands (motive := fun n => n.leaves.Sublist e.leaves)
    (fun _ within _ input => (leaves_sublist_of_mem_operands input).trans within)
    (List.Sublist.refl _) n node

end Plan

namespace PatternGroup

def NothingShared (d d' : PatternGroup P C) : Prop :=
  (∀ p ∈ d.patterns.toList, p ∉ d'.patterns.toList) ∧
    ∀ c ∈ d.filters.toList, c ∉ d'.filters.toList

instance [DecidableEq P] [DecidableEq C] (d d' : PatternGroup P C) :
    Decidable (d.NothingShared d') := inferInstanceAs (Decidable (_ ∧ _))

instance : Std.Symm (NothingShared : PatternGroup P C → PatternGroup P C → Prop) where
  symm _ _ apart :=
    ⟨fun p held held' => apart.1 p held' held, fun c held held' => apart.2 c held' held⟩

/-- The patterns that the filters of a group are applied to. -/
def filteredPatterns (d : PatternGroup P C) : List P :=
  if d.patterns.isEmpty then ((d.children.find? contributes).bind plan?).elim [] Plan.leaves
  else d.patterns.toList

/-- A condition over a plan is made of filters of the group, and the plan has the patterns that
these are applied to. -/
structure FiltersOn (d : PatternGroup P C) (inner : Plan P C) (k : Condition C) : Prop where
  atoms : ∀ c ∈ k.atoms, c ∈ d.filters
  leaves : inner.leaves = d.filteredPatterns

/-- A condition is the conjunction of the filters of an optional group, and the plan has all
patterns of its tree. -/
structure ConditionsJoin (d : PatternGroup P C) (rhs : Plan P C) (k : Condition C) : Prop where
  optional : d.isOptional = true
  condition : Condition.ofFilters d.filters.toList = .ok k
  leaves : rhs.leaves = d.allPatterns

def InScope (g : PatternGroup P C) : Plan P C → Prop
  | .filter inner k => ∃ d ∈ g.subtree, d.FiltersOn inner k
  | .leftJoin _ rhs (some k) => ∃ c ∈ g.children, ∃ d ∈ c.subtree, d.ConditionsJoin rhs k
  | _ => True

theorem inScope_of_condition?_eq_none (g : PatternGroup P C) {n : Plan P C}
    (unconditioned : n.condition? = none) : g.InScope n := by
  cases n with
  | filter inner k => cases unconditioned
  | leftJoin lhs rhs k =>
    cases unconditioned
    trivial
  | _ => trivial

theorem InScope.of_child {g c : PatternGroup P C} {n : Plan P C} (child : c ∈ g.children)
    (scope : c.InScope n) : g.InScope n := by
  cases n with
  | filter inner k =>
    obtain ⟨d, below, filtered⟩ := scope
    exact ⟨d, mem_subtree_of_child child below, filtered⟩
  | leftJoin lhs rhs k =>
    cases k with
    | none => trivial
    | some k =>
      obtain ⟨c', child', d, below, conditioned⟩ := scope
      exact ⟨c, child, d, mem_subtree_of_child child' below, conditioned⟩
  | _ => trivial

theorem filteredPatterns_of_own {d : PatternGroup P C} (own : d.patterns.toList ≠ []) :
    d.filteredPatterns = d.patterns.toList := by
  simp [filteredPatterns, UniqueList.isEmpty, own]

theorem filteredPatterns_of_noPatterns {d : PatternGroup P C} (bare : d.patterns.toList = []) :
    d.filteredPatterns = ((d.children.find? contributes).bind plan?).elim [] Plan.leaves := by
  simp [filteredPatterns, UniqueList.isEmpty, bare]

theorem filteredPatterns_subset (d : PatternGroup P C) : d.filteredPatterns ⊆ d.allPatterns := by
  intro p held
  rw [allPatterns_eq, List.mem_append, List.mem_flatMap]
  by_cases bare : d.patterns.toList = []
  · rw [filteredPatterns_of_noPatterns bare] at held
    cases found : d.children.find? contributes with
    | none =>
      rw [found] at held
      cases held
    | some c =>
      have first : c.plan?.elim [] Plan.leaves = c.allPatterns := c.plansAllPatterns .applied
      rw [found, Option.bind_some, first] at held
      exact .inr ⟨c, List.mem_of_find?_eq_some found, held⟩
  · rw [filteredPatterns_of_own bare] at held
    exact .inl held

variable {g c : PatternGroup P C} {lhs : Plan P C}

theorem inScope_filterEach (within : ∀ n ∈ lhs.nodes, g.InScope n)
    (range : lhs.leaves = g.filteredPatterns) :
    ∀ n ∈ (lhs.filterEach g.filters.toList).nodes, g.InScope n := by
  intro n node
  rcases Plan.mem_nodes_filterEach node with below | ⟨inner, c, held, rfl, same⟩
  · exact within n below
  · refine ⟨g, g.self_mem_subtree, fun c' atom => ?_, same.trans range⟩
    rw [List.mem_singleton.mp atom]
    exact held

theorem inScope_filterAll (within : ∀ n ∈ lhs.nodes, g.InScope n)
    (range : lhs.leaves = g.filteredPatterns) :
    ∀ n ∈ (lhs.filterAll g.filters.toList).nodes, g.InScope n := by
  intro n node
  rcases Plan.mem_nodes_filterAll node with below | ⟨k, conjoined, rfl⟩
  · exact within n below
  · refine ⟨g, g.self_mem_subtree, fun c atom => ?_, range⟩
    rw [Condition.atoms_of_ofFilters conjoined, List.mem_reverse] at atom
    exact atom

def PlansInScope (g : PatternGroup P C) : Prop :=
  ∀ use e, g.planWith? use = some e → ∀ n ∈ e.nodes, g.InScope n

theorem inScope_attach (child : c ∈ g.children) (there : c.PlansInScope)
    (left : ∀ n ∈ lhs.nodes, g.InScope n) : ∀ n ∈ (attach lhs c).nodes, g.InScope n := by
  intro n node
  rcases attach_cases lhs c with ⟨-, same⟩ | ⟨rhs, -, planned, joined⟩ |
    ⟨rhs, -, -, planned, joined⟩ | ⟨rhs, k, optional, conjoined, kept, joined⟩
  · rw [same] at node
    exact left n node
  · rw [joined] at node
    rcases Plan.mem_nodes_join.mp node with rfl | below | below
    · trivial
    · exact left n below
    · exact .of_child child (there .applied rhs planned n below)
  · rw [joined] at node
    rcases Plan.mem_nodes_leftJoin.mp node with rfl | below | below
    · trivial
    · exact left n below
    · exact .of_child child (there .applied rhs planned n below)
  · rw [joined] at node
    rcases Plan.mem_nodes_leftJoin.mp node with rfl | below | below
    · exact ⟨c, child, c, c.self_mem_subtree, optional, conjoined, leaves_of_planWith? kept⟩
    · exact left n below
    · exact .of_child child (there .withheld rhs kept n below)

theorem inScope_foldl_attach {cs : List (PatternGroup P C)} (children : ∀ c ∈ cs, c ∈ g.children)
    (there : ∀ c ∈ cs, c.PlansInScope) (left : ∀ n ∈ lhs.nodes, g.InScope n) :
    ∀ n ∈ (cs.foldl attach lhs).nodes, g.InScope n := by
  induction cs generalizing lhs with
  | nil => exact left
  | cons c cs ih =>
    rw [List.forall_mem_cons] at children there
    exact ih children.2 there.2 (inScope_attach children.1 there.1 left)

theorem plansInScope_of_own (own : g.patterns.toList ≠ [])
    (there : ∀ c ∈ g.children, c.PlansInScope) : g.PlansInScope := by
  intro use e planned
  obtain ⟨base, joined⟩ := exists_ofPatterns (C := C) own
  have chain : base.JoinsPatterns := Plan.joinsPatterns_of_ofPatterns joined
  have unconditioned : ∀ n ∈ base.nodes, g.InScope n := fun n node =>
    inScope_of_condition?_eq_none g (chain.condition?_eq_none n node)
  rw [planWith?_of_ofPatterns use joined, Option.some_inj] at planned
  subst planned
  refine inScope_foldl_attach (fun _ child => child) there ?_
  cases use with
  | applied =>
    refine inScope_filterEach unconditioned ?_
    rw [Plan.leaves_of_ofPatterns joined, filteredPatterns_of_own own]
  | withheld => exact unconditioned

theorem plansInScope_of_noPatterns (bare : g.patterns.toList = [])
    (there : ∀ c ∈ g.children, c.PlansInScope) : g.PlansInScope := by
  intro use e planned
  have range := filteredPatterns_of_noPatterns bare
  rcases planWith?_cases_of_noPatterns bare planned with
    ⟨none_left, -, rfl⟩ | ⟨c, first, rest, found, children, starts, rfl⟩
  · refine inScope_filterAll (fun n node => ?_) ?_
    · rw [Plan.mem_nodes_empty.mp node]
      trivial
    · rw [range, none_left]
      rfl
  · rw [List.forall_mem_cons] at children
    refine inScope_foldl_attach children.2 (fun d below => there d (children.2 d below)) ?_
    refine inScope_filterAll (fun n node => ?_) ?_
    · exact .of_child children.1 (there c children.1 .applied first starts n node)
    · rw [range, found, Option.bind_some, starts]
      rfl

theorem plansInScope (g : PatternGroup P C) : g.PlansInScope := by
  induction g with
  | group o ps fs cs ih =>
    by_cases bare : ps.toList = []
    · exact plansInScope_of_noPatterns bare ih
    · exact plansInScope_of_own bare ih

theorem nodup_allPatterns (apart : g.subtree.Pairwise NothingShared) : g.allPatterns.Nodup :=
  List.nodup_flatMap.mpr ⟨fun d _ => d.patterns.nodup, apart.imp fun shared p => shared.1 p⟩

theorem eq_of_mem_filters {d d' : PatternGroup P C} {a : C}
    (apart : g.subtree.Pairwise NothingShared) (below : d ∈ g.subtree) (below' : d' ∈ g.subtree)
    (held : a ∈ d.filters) (held' : a ∈ d'.filters) : d' = d := by
  by_contra distinct
  exact (apart.forall below' below distinct).2 a held' held

theorem eq_of_mem_patterns {d d' : PatternGroup P C} {p : P}
    (apart : g.subtree.Pairwise NothingShared) (below : d ∈ g.subtree) (below' : d' ∈ g.subtree)
    (held : p ∈ d.patterns) (held' : p ∈ d'.patterns) : d' = d := by
  by_contra distinct
  exact (apart.forall below' below distinct).1 p held' held

/-- The condition on a node of the plan tells the group whose filters it is made of. A filter node
ranges over patterns of no group but those of the tree below it, and only a join condition, which
has that tree on its right, sees patterns of other groups, on its left. -/
structure FiltersInScope (g : PatternGroup P C) (e : Plan P C) : Prop where
  filter : ∀ inner k, .filter inner k ∈ e.nodes →
    ∃ d ∈ g.subtree, d.FiltersOn inner k ∧
      (∀ d' ∈ g.subtree, ∀ a ∈ k.atoms, a ∈ d'.filters → d' = d) ∧
      ∀ d' ∈ g.subtree, ∀ p ∈ inner.leaves, p ∈ d'.patterns → d' ∈ d.subtree
  leftJoin : ∀ lhs rhs k, .leftJoin lhs rhs (some k) ∈ e.nodes →
    ∃ c ∈ g.children, ∃ d ∈ c.subtree, d.ConditionsJoin rhs k ∧
      (∀ d' ∈ g.subtree, ∀ a ∈ k.atoms, a ∈ d'.filters → d' = d) ∧
      ∀ p ∈ d.allPatterns, p ∉ lhs.leaves

theorem FiltersOn.mem_subtree {d d' : PatternGroup P C} {inner : Plan P C} {k : Condition C} {p : P}
    (apart : g.subtree.Pairwise NothingShared) (below : d ∈ g.subtree) (below' : d' ∈ g.subtree)
    (filtered : d.FiltersOn inner k) (leaf : p ∈ inner.leaves) (held : p ∈ d'.patterns) :
    d' ∈ d.subtree := by
  rw [filtered.leaves] at leaf
  obtain ⟨b, within, held'⟩ := mem_allPatterns.mp (d.filteredPatterns_subset leaf)
  rw [eq_of_mem_patterns apart (mem_subtree_trans below within) below' held' held]
  exact within

theorem ConditionsJoin.notMem_leaves {d : PatternGroup P C} {e lhs rhs : Plan P C}
    {k : Condition C} {p : P} (apart : g.subtree.Pairwise NothingShared)
    (planned : g.plan? = some e) (node : .leftJoin lhs rhs (some k) ∈ e.nodes)
    (conditioned : d.ConditionsJoin rhs k) (held : p ∈ d.allPatterns) : p ∉ lhs.leaves := by
  have distinct : (lhs.leaves ++ rhs.leaves).Nodup := by
    refine (Plan.leaves_sublist_of_mem_nodes node).nodup ?_
    rw [leaves_of_planWith? planned]
    exact nodup_allPatterns apart
  rw [← conditioned.leaves] at held
  exact fun left => List.disjoint_of_nodup_append distinct left held

theorem filtersInScope {e : Plan P C} (apart : g.subtree.Pairwise NothingShared)
    (planned : g.plan? = some e) : g.FiltersInScope e where
  filter inner k node := by
    obtain ⟨d, below, filtered⟩ := g.plansInScope .applied e planned _ node
    refine ⟨d, below, filtered, fun d' below' a atom held => ?_, fun d' below' p leaf held => ?_⟩
    · exact eq_of_mem_filters apart below below' (filtered.atoms a atom) held
    · exact filtered.mem_subtree apart below below' leaf held
  leftJoin lhs rhs k node := by
    obtain ⟨c, child, d, below, conditioned⟩ := g.plansInScope .applied e planned _ node
    refine ⟨c, child, d, below, conditioned, fun d' below' a atom held => ?_, fun p held => ?_⟩
    · rw [Condition.atoms_of_ofFilters conditioned.condition, List.mem_reverse] at atom
      exact eq_of_mem_filters apart (mem_subtree_of_child child below) below' atom held
    · exact conditioned.notMem_leaves apart planned node held

def scopedSample : PatternGroup Nat Nat :=
  (required.insertFilter 10)
    |>.pushChild required
    |>.pushChild (((optional.insertFilter 11).insertFilter 12).pushChild
      ((required.insertPattern 1).insertFilter 13))
    |>.pushChild (((optional.insertPattern 2).insertFilter 14).pushChild
      ((optional.insertFilter 15).pushChild (required.insertPattern 3)))
    |>.pushChild (required.insertFilter 16)

theorem filtersInScope_scopedSample :
    scopedSample.subtree.Pairwise NothingShared ∧
      ∃ e, scopedSample.plan? = some e ∧ scopedSample.FiltersInScope e :=
  have apart : scopedSample.subtree.Pairwise NothingShared := by decide
  have planned : scopedSample.plan? =
      some (.join
        (.leftJoin
          (.filter
            (.filter (.filter (.pattern 1) (.atom 13)) (.and (.atom 12) (.atom 11)))
            (.atom 10))
          (.leftJoin (.pattern 2) (.filter (.pattern 3) (.atom 15)) (some (.atom 15)))
          (some (.atom 14)))
        (.filter .empty (.atom 16))) := by decide
  ⟨apart, _, planned, filtersInScope apart planned⟩

end PatternGroup

end GroupPlan
