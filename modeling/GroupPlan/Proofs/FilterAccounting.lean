import GroupPlan.Proofs.ListEncoding
import GroupPlan.Proofs.Occurrence
import Mathlib.Algebra.Order.Group.Multiset

/-! Where the filters of a tree are found in its plan. Every filter node and every join
condition holds filters of one group, so the atoms of the plan are counted group by
group. A group holds its filters once, except that an optional group without
patterns holds them twice where it is folded: as the condition of its left join and
over the plan on the right of it. -/

namespace GroupPlan

variable {P C : Type}

namespace Plan

/-- The atoms of all conditions of the plan, node by node in preorder. -/
def conditionAtoms (e : Plan P C) : List C :=
  (e.nodes.filterMap condition?).flatMap Condition.atoms

theorem mem_conditionAtoms {e : Plan P C} {c : C} :
    c ∈ e.conditionAtoms ↔ ∃ n ∈ e.nodes, ∃ k, n.condition? = some k ∧ c ∈ k.atoms := by
  simp only [conditionAtoms, List.mem_flatMap, List.mem_filterMap]
  grind

theorem mem_conditionAtoms_of_condition? {e : Plan P C} {k : Condition C} {c : C}
    (carried : e.condition? = some k) (held : c ∈ k.atoms) : c ∈ e.conditionAtoms :=
  mem_conditionAtoms.mpr ⟨e, e.self_mem_nodes, k, carried, held⟩

theorem conditionAtoms_subset_of_mem_operands {e m : Plan P C} (input : m ∈ e.operands) :
    m.conditionAtoms ⊆ e.conditionAtoms := by
  intro c held
  obtain ⟨n, node, k, carried, atom⟩ := mem_conditionAtoms.mp held
  exact mem_conditionAtoms.mpr ⟨n, mem_nodes_of_mem_operands input node, k, carried, atom⟩

def atomBag (e : Plan P C) : Multiset C := e.conditionAtoms

@[simp] theorem atomBag_pattern (p : P) : (pattern p : Plan P C).atomBag = 0 := rfl

@[simp] theorem atomBag_empty : (empty : Plan P C).atomBag = 0 := rfl

@[simp] theorem atomBag_join (lhs rhs : Plan P C) :
    (join lhs rhs).atomBag = lhs.atomBag + rhs.atomBag := by
  simp [atomBag, conditionAtoms, nodes, condition?, List.filterMap_cons]

@[simp] theorem atomBag_leftJoin_none (lhs rhs : Plan P C) :
    (leftJoin lhs rhs none).atomBag = lhs.atomBag + rhs.atomBag := by
  simp [atomBag, conditionAtoms, nodes, condition?, List.filterMap_cons]

@[simp] theorem atomBag_leftJoin_some (lhs rhs : Plan P C) (k : Condition C) :
    (leftJoin lhs rhs (some k)).atomBag = k.atoms + (lhs.atomBag + rhs.atomBag) := by
  simp [atomBag, conditionAtoms, nodes, condition?]

@[simp] theorem atomBag_filter (e : Plan P C) (k : Condition C) :
    (filter e k).atomBag = k.atoms + e.atomBag := by
  simp [atomBag, conditionAtoms, nodes, condition?]

theorem JoinsPatterns.atomBag_eq_zero {e : Plan P C} (chain : e.JoinsPatterns) : e.atomBag = 0 := by
  induction chain with
  | pattern p => exact atomBag_pattern p
  | join p _ left => rw [atomBag_join, left, atomBag_pattern, add_zero]

theorem atomBag_filterEach (base : Plan P C) (fs : List C) :
    (base.filterEach fs).atomBag = fs + base.atomBag := by
  induction fs generalizing base with
  | nil => simp
  | cons c fs ih =>
    have atom : ((Condition.atom c).atoms : Multiset C) = {c} := rfl
    rw [filterEach_cons, ih, atomBag_filter, atom, ← add_assoc, add_comm (fs : Multiset C),
      Multiset.singleton_add, Multiset.cons_coe]

theorem coe_atoms_of_ofFilters {fs : List C} {k : Condition C}
    (conjoined : Condition.ofFilters fs = .ok k) : (k.atoms : Multiset C) = fs := by
  rw [Condition.atoms_of_ofFilters conjoined]
  exact Multiset.coe_eq_coe.mpr fs.reverse_perm

theorem atomBag_filterAll (base : Plan P C) (fs : List C) :
    (base.filterAll fs).atomBag = fs + base.atomBag := by
  by_cases none_left : fs = []
  · simp [none_left]
  · obtain ⟨k, conjoined⟩ := Condition.exists_ofFilters none_left
    rw [filterAll_of_ofFilters base conjoined, atomBag_filter, coe_atoms_of_ofFilters conjoined]

end Plan

def PatternGroup.filterBag (g : PatternGroup P C) : Multiset C := g.filters.toList

namespace Occurrence

/-- How often the filters of the group are found in the plan. -/
def copies (d : Occurrence P C) : Nat :=
  if d.isFolded && d.group.isOptional && d.group.patterns.isEmpty then 2 else 1

def atomBag (d : Occurrence P C) : Multiset C := d.copies • d.group.filterBag

theorem atomBag_notFolded (g : PatternGroup P C) :
    (⟨g, false⟩ : Occurrence P C).atomBag = g.filterBag := one_nsmul _

theorem atomBag_required {g : PatternGroup P C} (folded : Bool) (required : g.isOptional = false) :
    (⟨g, folded⟩ : Occurrence P C).atomBag = g.filterBag := by
  have once : (⟨g, folded⟩ : Occurrence P C).copies = 1 := by simp [copies, required]
  rw [atomBag, once, one_nsmul]

theorem atomBag_own {g : PatternGroup P C} (folded : Bool) (own : g.patterns.toList ≠ []) :
    (⟨g, folded⟩ : Occurrence P C).atomBag = g.filterBag := by
  have once : (⟨g, folded⟩ : Occurrence P C).copies = 1 := by
    simp [copies, UniqueList.isEmpty_iff, own]
  rw [atomBag, once, one_nsmul]

theorem atomBag_twice {g : PatternGroup P C} (optional : g.isOptional = true)
    (bare : g.patterns.toList = []) :
    (⟨g, true⟩ : Occurrence P C).atomBag = g.filterBag + g.filterBag := by
  have twice : (⟨g, true⟩ : Occurrence P C).copies = 2 := by
    simp [copies, optional, UniqueList.isEmpty_iff, bare]
  rw [atomBag, twice, two_nsmul]

theorem atomBag_unfiltered {g : PatternGroup P C} (folded : Bool) (unfiltered : g.filterBag = 0) :
    (⟨g, folded⟩ : Occurrence P C).atomBag = 0 := by
  rw [atomBag, unfiltered, nsmul_zero]

end Occurrence

namespace PatternGroup

def bagBelow (g : PatternGroup P C) : Multiset C := (g.descendants.map Occurrence.atomBag).sum

/-- Under either use of its filters the plan of the group holds those of the groups below it;
its own it holds too, unless it has patterns and they are withheld. -/
structure Accounted (g : PatternGroup P C) : Prop where
  applied : g.plan?.elim 0 Plan.atomBag = g.filterBag + g.bagBelow
  withheld : g.patterns.toList ≠ [] →
    (g.planWith? .withheld).elim 0 Plan.atomBag = g.bagBelow

theorem bags_of_blank {c : PatternGroup P C} (there : c.Accounted) (blank : c.contributes = false) :
    c.filterBag = 0 ∧ c.bagBelow = 0 := by
  have nothing : c.filterBag + c.bagBelow = 0 := by
    rw [← there.applied, plan?_of_blank blank, Option.elim_none]
  exact ⟨Multiset.le_zero.mp (nothing ▸ Multiset.le_add_right _ _),
    Multiset.le_zero.mp (nothing ▸ Multiset.le_add_left _ _)⟩

theorem atomBag_attach (lhs : Plan P C) {c : PatternGroup P C} (there : c.Accounted) :
    (attach lhs c).atomBag = lhs.atomBag + ((⟨c, true⟩ : Occurrence P C).atomBag + c.bagBelow) := by
  have applied := there.applied
  rcases attach_cases lhs c with ⟨blank, same⟩ | ⟨rhs, required, planned, joined⟩ |
    ⟨rhs, optional, unfiltered, planned, joined⟩ | ⟨rhs, k, optional, conjoined, kept, joined⟩
  · obtain ⟨own, below⟩ := bags_of_blank there blank
    rw [same, Occurrence.atomBag_unfiltered true own, below, add_zero, add_zero]
  · rw [planned, Option.elim_some] at applied
    rw [joined, Plan.atomBag_join, applied, Occurrence.atomBag_required true required]
  · have own : c.filterBag = 0 := by rw [filterBag, unfiltered, Multiset.coe_nil]
    rw [planned, Option.elim_some] at applied
    rw [joined, Plan.atomBag_leftJoin_none, applied, Occurrence.atomBag_unfiltered true own, own]
  · have condition : (k.atoms : Multiset C) = c.filterBag := Plan.coe_atoms_of_ofFilters conjoined
    rw [joined, Plan.atomBag_leftJoin_some, condition, add_left_comm]
    by_cases bare : c.patterns.toList = []
    · rw [planWith?_withheld_of_noPatterns bare] at kept
      rw [kept, Option.elim_some] at applied
      rw [applied, Occurrence.atomBag_twice optional bare, add_assoc]
    · have withheld := there.withheld bare
      rw [kept, Option.elim_some] at withheld
      rw [withheld, Occurrence.atomBag_own true bare]

theorem atomBag_foldl_attach (lhs : Plan P C) {cs : List (PatternGroup P C)}
    (there : ∀ c ∈ cs, c.Accounted) :
    (cs.foldl attach lhs).atomBag =
      lhs.atomBag + ((descendantsEach true cs).map Occurrence.atomBag).sum :=
  foldl_attach_eq_add_sum Occurrence.atomBag (fun c held lhs => atomBag_attach lhs (there c held))
    lhs

theorem atomBag_planFrom? (fs : List C) {cs : List (PatternGroup P C)}
    (there : ∀ c ∈ cs, c.Accounted) :
    (planFrom? fs cs).elim 0 Plan.atomBag =
      fs + ((descendantsEach false cs).map Occurrence.atomBag).sum := by
  induction cs with
  | nil =>
    rw [planFrom?_nil, bareFilters?]
    cases fs with
    | nil => rfl
    | cons c fs => simp [descendantsEach, Plan.atomBag_filterAll]
  | cons c cs ih =>
    rw [List.forall_mem_cons] at there
    have split : ((descendantsEach false (c :: cs)).map Occurrence.atomBag).sum =
        c.plan?.elim 0 Plan.atomBag +
          ((descendantsEach c.contributes cs).map Occurrence.atomBag).sum := by
      rw [there.1.applied, sum_descendantsEach_cons, Occurrence.atomBag_notFolded, Bool.false_or,
        bagBelow]
    rw [split]
    cases held : c.contributes with
    | false =>
      rw [planFrom?_cons_of_blank fs cs held, plan?_of_blank held, Option.elim_none, zero_add]
      exact ih there.2
    | true =>
      obtain ⟨first, planned⟩ := exists_plan? held
      rw [planFrom?_cons_of_plan? fs cs planned, planned, Option.elim_some, Option.elim_some,
        atomBag_foldl_attach _ there.2, Plan.atomBag_filterAll, add_assoc]

theorem accounted (g : PatternGroup P C) : g.Accounted := by
  induction g with
  | group o ps fs cs ih =>
    by_cases bare : ps.toList = []
    · refine ⟨?_, fun own => absurd bare own⟩
      rw [plan?_of_noPatterns bare, atomBag_planFrom? _ ih, bagBelow, descendants_eq]
      simp [filterBag, UniqueList.isEmpty, bare]
    · obtain ⟨base, joined⟩ := exists_ofPatterns (C := C) bare
      have below : bagBelow ⟨o, ps, fs, cs⟩ =
          ((descendantsEach true cs).map Occurrence.atomBag).sum := by
        have own : (!ps.isEmpty) = true := by simp [UniqueList.isEmpty, bare]
        rw [bagBelow, descendants_eq, own]
      have unfiltered : base.atomBag = 0 :=
        (Plan.joinsPatterns_of_ofPatterns joined).atomBag_eq_zero
      refine ⟨?_, fun _ => ?_⟩
      · rw [plan?_of_ofPatterns joined, Option.elim_some, atomBag_foldl_attach _ ih,
          Plan.atomBag_filterEach, unfiltered, below, add_zero]
        rfl
      · rw [planWith?_of_ofPatterns .withheld joined, Option.elim_some, atomBag_foldl_attach _ ih,
          FilterUse.place, unfiltered, below, zero_add]

theorem mem_atomBag {d : Occurrence P C} {c : C} : c ∈ d.atomBag ↔ c ∈ d.group.filters := by
  have held : d.copies ≠ 0 := by
    rw [Occurrence.copies]
    split <;> decide
  rw [Occurrence.atomBag, Multiset.mem_nsmul, filterBag, Multiset.mem_coe, UniqueList.mem_toList]
  exact and_iff_right held

theorem mem_sum_atomBag {ds : List (Occurrence P C)} {c : C} :
    c ∈ (ds.map Occurrence.atomBag).sum ↔ ∃ d ∈ ds, c ∈ d.group.filters := by
  induction ds with
  | nil => simp
  | cons d ds ih => simp [ih, mem_atomBag]

theorem atomBag_of_plan? {g : PatternGroup P C} {e : Plan P C} (planned : g.plan? = some e) :
    e.atomBag = (g.occurrences.map Occurrence.atomBag).sum := by
  have accounted := g.accounted.applied
  rw [planned, Option.elim_some] at accounted
  rw [accounted, occurrences, List.map_cons, List.sum_cons, Occurrence.atomBag_notFolded, bagBelow]

theorem mem_atomBag_of_plan? {g : PatternGroup P C} {e : Plan P C} (planned : g.plan? = some e)
    {c : C} : c ∈ e.atomBag ↔ ∃ d ∈ g.subtree, c ∈ d.filters := by
  rw [atomBag_of_plan? planned, mem_sum_atomBag, ← map_group_occurrences]
  simp

/-- The plan holds the filters of the tree, each as often as it has copies, and no others. -/
theorem conditionAtoms_eq_sum {g : PatternGroup P C} {e : Plan P C} (planned : g.plan? = some e) :
    (e.conditionAtoms : Multiset C) =
        (g.occurrences.map fun d => d.copies • (d.group.filters.toList : Multiset C)).sum ∧
      ∀ c, c ∈ e.conditionAtoms ↔ ∃ d ∈ g.subtree, c ∈ d.filters := by
  refine ⟨atomBag_of_plan? planned, fun c => ?_⟩
  rw [← mem_atomBag_of_plan? planned, Plan.atomBag, Multiset.mem_coe]

def foldedFilterGroup : PatternGroup Nat Nat :=
  (required.insertPattern 0).pushChild
    (((optional.insertFilter 10).pushChild (required.insertPattern 1)).pushChild
      ((optional.insertPattern 2).insertFilter 11))

theorem conditionAtoms_foldedFilterGroup :
    ∃ e, foldedFilterGroup.plan? = some e ∧ e.conditionAtoms = [10, 11, 10] ∧
      (e.conditionAtoms : Multiset Nat) = (foldedFilterGroup.occurrences.map fun d =>
        d.copies • (d.group.filters.toList : Multiset Nat)).sum ∧
      ∀ c, c ∈ e.conditionAtoms ↔ ∃ d ∈ foldedFilterGroup.subtree, c ∈ d.filters :=
  have planned : foldedFilterGroup.plan? =
      some (.leftJoin (.pattern 0)
        (.leftJoin (.filter (.pattern 1) (.atom 10)) (.pattern 2) (some (.atom 11)))
        (some (.atom 10))) := by decide
  ⟨_, planned, by decide, conditionAtoms_eq_sum planned⟩

end PatternGroup

end GroupPlan
