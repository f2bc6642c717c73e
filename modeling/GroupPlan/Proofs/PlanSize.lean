import GroupPlan.Plan.Nodes
import GroupPlan.Proofs.Occurrence
import Mathlib.Algebra.GroupWithZero.Nat

/-! The size of a plan, read off the tree. Every group brings nodes of its own for its
patterns and filters, and one node that attaches it where it is folded and contributes.
Nodes are weighed by their marks, and a plan weighs what its groups bring together; each
kind of node is counted by a weight that is one on it and zero elsewhere. -/

namespace GroupPlan

variable {P C : Type}

theorem countP_eq_sum {α : Type} (test : α → Bool) (as : List α) :
    as.countP test = (as.map fun a => if test a then 1 else 0).sum := by
  induction as with
  | nil => rfl
  | cons a as ih => rw [List.countP_cons, List.map_cons, List.sum_cons, ih, Nat.add_comm]

theorem sum_map_filter {α : Type} (test : α → Bool) (f : α → Nat) (as : List α) :
    ((as.filter test).map f).sum = (as.map fun a => if test a then f a else 0).sum := by
  induction as with
  | nil => rfl
  | cons a as ih => by_cases passed : test a <;> simp [passed, ih]

namespace Plan

theorem count_eq (test : Plan P C → Bool) (e : Plan P C) :
    e.count test = (if test e then 1 else 0) + (e.operands.map (count test)).sum := by
  rw [count, nodes_eq, List.countP_cons, List.countP_flatMap, Nat.add_comm]
  rfl

structure Mark where
  kind : Kind
  isConditioned : Bool
deriving DecidableEq

def mark (e : Plan P C) : Mark := ⟨e.kind, e.condition?.isSome⟩

section Weight

variable (w : Mark → Nat)

def weight (e : Plan P C) : Nat := (e.nodes.map fun n => w n.mark).sum

@[simp] theorem weight_pattern (p : P) : (pattern p : Plan P C).weight w = w ⟨.pattern, false⟩ :=
  Nat.add_zero _

@[simp] theorem weight_empty : (empty : Plan P C).weight w = w ⟨.empty, false⟩ := Nat.add_zero _

@[simp] theorem weight_join (lhs rhs : Plan P C) :
    (join lhs rhs).weight w = w ⟨.join, false⟩ + (lhs.weight w + rhs.weight w) := by
  rw [weight, nodes, List.map_cons, List.map_append, List.sum_cons, List.sum_append]
  rfl

@[simp] theorem weight_leftJoin (lhs rhs : Plan P C) (k : Option (Condition C)) :
    (leftJoin lhs rhs k).weight w = w ⟨.leftJoin, k.isSome⟩ + (lhs.weight w + rhs.weight w) := by
  rw [weight, nodes, List.map_cons, List.map_append, List.sum_cons, List.sum_append]
  rfl

@[simp] theorem weight_filter (e : Plan P C) (k : Condition C) :
    (filter e k).weight w = w ⟨.filter, true⟩ + e.weight w := by
  rw [weight, nodes, List.map_cons, List.sum_cons]
  rfl

theorem weight_joinEach (base : Plan P C) (ps : List P) :
    (base.joinEach ps).weight w =
      base.weight w + ps.length * w ⟨.pattern, false⟩ + ps.length * w ⟨.join, false⟩ := by
  induction ps generalizing base with
  | nil => simp
  | cons p ps ih =>
    rw [joinEach_cons, ih, weight_join, weight_pattern, List.length_cons, Nat.succ_mul,
      Nat.succ_mul]
    omega

theorem weight_of_ofPatterns {ps : List P} {base : Plan P C} (joined : ofPatterns ps = .ok base) :
    base.weight w = ps.length * w ⟨.pattern, false⟩ + (ps.length - 1) * w ⟨.join, false⟩ := by
  cases ps with
  | nil => cases joined
  | cons p ps =>
    cases joined
    rw [weight_joinEach, weight_pattern, List.length_cons, Nat.add_sub_cancel, Nat.succ_mul]
    omega

theorem weight_filterEach (base : Plan P C) (fs : List C) :
    (base.filterEach fs).weight w = base.weight w + fs.length * w ⟨.filter, true⟩ := by
  induction fs generalizing base with
  | nil => simp
  | cons c fs ih =>
    rw [filterEach_cons, ih, weight_filter, List.length_cons, Nat.succ_mul]
    omega

theorem weight_filterAll (base : Plan P C) (fs : List C) :
    (base.filterAll fs).weight w =
      base.weight w + if fs.isEmpty then 0 else w ⟨.filter, true⟩ := by
  cases fs with
  | nil => rfl
  | cons c fs => exact (weight_filter w base _).trans (Nat.add_comm _ _)

end Weight

/-- The weight that counts the nodes that pass a test. -/
def counting (test : Mark → Bool) (m : Mark) : Nat := if test m then 1 else 0

theorem counting_eq_zero {test : Mark → Bool} {m : Mark} (failed : test m = false) :
    counting test m = 0 := by
  rw [counting, failed, if_neg Bool.false_ne_true]

theorem count_mark (test : Mark → Bool) (e : Plan P C) :
    e.count (fun n => test n.mark) = e.weight (counting test) :=
  countP_eq_sum _ e.nodes

end Plan

section Weight

variable (w : Plan.Mark → Nat)

def FilterUse.weight (filters : Nat) : FilterUse → Nat
  | applied => filters * w ⟨.filter, true⟩
  | withheld => 0

theorem FilterUse.weight_place (base : Plan P C) (fs : List C) (use : FilterUse) :
    (use.place base fs).weight w = base.weight w + use.weight w fs.length := by
  cases use with
  | applied => exact base.weight_filterEach w fs
  | withheld => rfl

namespace PatternGroup

/-- What filters without a pattern bring: one node over the first child that contributes, or over
the plan of no pattern, which is a node then. -/
def bareWeight (fs : List C) (isOpened : Bool) : Nat :=
  if fs.isEmpty then 0
  else w ⟨.filter, true⟩ + if isOpened then 0 else w ⟨.empty, false⟩

def ownWeight (use : FilterUse) (g : PatternGroup P C) : Nat :=
  if g.patterns.isEmpty then bareWeight w g.filters.toList (g.children.any contributes)
  else g.patterns.size * w ⟨.pattern, false⟩ + (g.patterns.size - 1) * w ⟨.join, false⟩ +
    use.weight w g.filters.size

def joinMark (g : PatternGroup P C) : Plan.Mark :=
  if g.isOptional then ⟨.leftJoin, !g.filters.isEmpty⟩ else ⟨.join, false⟩

end PatternGroup

namespace Occurrence

/-- The filters of a group that is attached as optional are on the node that attaches it. -/
def filterUse (d : Occurrence P C) : FilterUse :=
  if d.isFolded && d.group.isOptional then .withheld else .applied

def joinWeight (d : Occurrence P C) : Nat :=
  if d.isFolded && d.group.contributes then w d.group.joinMark else 0

def weight (d : Occurrence P C) : Nat := d.group.ownWeight w d.filterUse + d.joinWeight w

theorem weight_notFolded (g : PatternGroup P C) :
    (⟨g, false⟩ : Occurrence P C).weight w = g.ownWeight w .applied :=
  Nat.add_zero _

theorem weight_folded {g : PatternGroup P C} (held : g.contributes) :
    (⟨g, true⟩ : Occurrence P C).weight w =
      g.ownWeight w (if g.isOptional then .withheld else .applied) + w g.joinMark := by
  rw [weight, joinWeight, held]
  rfl

end Occurrence

namespace PatternGroup

def weightBelow (g : PatternGroup P C) : Nat := (g.descendants.map (Occurrence.weight w)).sum

def PlansAllWeight (g : PatternGroup P C) : Prop :=
  ∀ use, (g.planWith? use).elim 0 (Plan.weight w) = g.ownWeight w use + g.weightBelow w

variable {w}

theorem PlansAllWeight.of_planWith? {g : PatternGroup P C} {use : FilterUse} {e : Plan P C}
    (there : g.PlansAllWeight w) (planned : g.planWith? use = some e) :
    e.weight w = g.ownWeight w use + g.weightBelow w := by
  rw [← there use, planned, Option.elim_some]

theorem ownWeight_of_unfiltered {c : PatternGroup P C} (unfiltered : c.filters.toList = [])
    (use : FilterUse) : c.ownWeight w use = c.ownWeight w .applied := by
  have none_held : c.filters.size = 0 := List.length_eq_zero_iff.mpr unfiltered
  have nothing : use.weight w 0 = 0 := by cases use <;> simp [FilterUse.weight]
  rw [ownWeight, ownWeight, none_held, nothing, FilterUse.weight, Nat.zero_mul]

theorem weight_of_blank {c : PatternGroup P C} (there : c.PlansAllWeight w)
    (blank : c.contributes = false) (folded : Bool) :
    (⟨c, folded⟩ : Occurrence P C).weight w = 0 ∧ c.weightBelow w = 0 := by
  have own := there (⟨c, folded⟩ : Occurrence P C).filterUse
  rw [planWith?_eq_none_iff.mpr blank, Option.elim_none] at own
  have whole : (⟨c, folded⟩ : Occurrence P C).weight w =
      c.ownWeight w (⟨c, folded⟩ : Occurrence P C).filterUse := by
    simp [Occurrence.weight, Occurrence.joinWeight, blank]
  omega

theorem weight_attach (lhs : Plan P C) {c : PatternGroup P C} (there : c.PlansAllWeight w) :
    (attach lhs c).weight w =
      lhs.weight w + ((⟨c, true⟩ : Occurrence P C).weight w + c.weightBelow w) := by
  rcases attach_cases lhs c with ⟨blank, same⟩ | ⟨rhs, required, planned, joined⟩ |
    ⟨rhs, optional, unfiltered, planned, joined⟩ | ⟨rhs, k, optional, conjoined, kept, joined⟩
  · obtain ⟨own, below⟩ := weight_of_blank there blank true
    rw [same, own, below]
    rfl
  · have held := contributes_of_plan? planned
    have join : c.joinMark = ⟨.join, false⟩ := by simp [joinMark, required]
    rw [joined, Plan.weight_join, there.of_planWith? planned, Occurrence.weight_folded w held, join,
      required, if_neg Bool.false_ne_true]
    omega
  · have held := contributes_of_plan? planned
    have join : c.joinMark = ⟨.leftJoin, false⟩ := by
      rw [joinMark, if_pos optional, UniqueList.isEmpty_iff.mpr unfiltered, Bool.not_true]
    rw [joined, Plan.weight_leftJoin, there.of_planWith? planned, Occurrence.weight_folded w held,
      optional, if_pos rfl, ownWeight_of_unfiltered unfiltered .withheld, join, Option.isSome_none]
    omega
  · have held := contributes_of_ofFilters conjoined
    have filtered := Condition.ne_nil_of_ofFilters conjoined
    have join : c.joinMark = ⟨.leftJoin, true⟩ := by
      rw [joinMark, if_pos optional, UniqueList.isEmpty_eq_false_iff.mpr filtered, Bool.not_false]
    rw [joined, Plan.weight_leftJoin, there.of_planWith? kept, Occurrence.weight_folded w held,
      optional, if_pos rfl, join, Option.isSome_some]
    omega

theorem weight_foldl_attach (lhs : Plan P C) {cs : List (PatternGroup P C)}
    (there : ∀ c ∈ cs, c.PlansAllWeight w) :
    (cs.foldl attach lhs).weight w =
      lhs.weight w + ((descendantsEach true cs).map (Occurrence.weight w)).sum :=
  foldl_attach_eq_add_sum (Occurrence.weight w)
    (fun c held lhs => weight_attach lhs (there c held)) lhs

theorem weight_planFrom? (fs : List C) {cs : List (PatternGroup P C)}
    (there : ∀ c ∈ cs, c.PlansAllWeight w) :
    (planFrom? fs cs).elim 0 (Plan.weight w) =
      bareWeight w fs (cs.any contributes) +
        ((descendantsEach false cs).map (Occurrence.weight w)).sum := by
  induction cs with
  | nil =>
    rw [planFrom?_nil, bareFilters?]
    cases fs with
    | nil => rfl
    | cons c fs => simp [descendantsEach, bareWeight, Plan.weight_filterAll, Nat.add_comm]
  | cons c cs ih =>
    rw [List.forall_mem_cons] at there
    rw [sum_descendantsEach_cons, ← weightBelow, Bool.false_or, List.any_cons]
    cases held : c.contributes with
    | false =>
      obtain ⟨own, below⟩ := weight_of_blank there.1 held false
      rw [planFrom?_cons_of_blank fs cs held, ih there.2, own, below, Bool.false_or]
      omega
    | true =>
      obtain ⟨first, planned⟩ := exists_plan? held
      have opened : bareWeight w fs true = if fs.isEmpty then 0 else w ⟨.filter, true⟩ := rfl
      rw [planFrom?_cons_of_plan? fs cs planned, Option.elim_some, weight_foldl_attach _ there.2,
        Plan.weight_filterAll, there.1.of_planWith? planned, Occurrence.weight_notFolded,
        Bool.true_or, opened]
      omega

theorem plansAllWeight (w : Plan.Mark → Nat) (g : PatternGroup P C) : g.PlansAllWeight w := by
  induction g with
  | group o ps fs cs ih =>
    intro use
    rw [weightBelow, descendants_eq, ownWeight]
    by_cases bare : ps.toList = []
    · have none_held : ps.isEmpty = true := UniqueList.isEmpty_iff.mpr bare
      rw [planWith?_of_noPatterns use bare, weight_planFrom? _ ih, none_held]
      rfl
    · have some_held : ps.isEmpty = false := UniqueList.isEmpty_eq_false_iff.mpr bare
      obtain ⟨base, joined⟩ := exists_ofPatterns (C := C) bare
      rw [planWith?_of_ofPatterns use joined, Option.elim_some, weight_foldl_attach _ ih,
        FilterUse.weight_place, Plan.weight_of_ofPatterns w joined, some_held]
      rfl

theorem weight_plan? (w : Plan.Mark → Nat) (g : PatternGroup P C) :
    g.plan?.elim 0 (Plan.weight w) = (g.occurrences.map (Occurrence.weight w)).sum := by
  rw [occurrences, List.map_cons, List.sum_cons, Occurrence.weight_notFolded]
  exact g.plansAllWeight w .applied

end PatternGroup

end Weight

namespace PatternGroup

/-- The joins among the patterns of each group that has some. -/
def patternJoins (g : PatternGroup P C) : Nat :=
  ((g.subtree.filter (!·.patterns.isEmpty)).map (·.patterns.size - 1)).sum

theorem count_plan? (g : PatternGroup P C) {test : Plan.Mark → Bool}
    {brings : Occurrence P C → Nat}
    (each : ∀ d : Occurrence P C, d.weight (Plan.counting test) = brings d) :
    g.plan?.elim 0 (Plan.count fun n => test n.mark) = (g.occurrences.map brings).sum := by
  rw [funext (Plan.count_mark test), weight_plan?, funext each]

end PatternGroup

namespace Occurrence

variable (d : Occurrence P C)

theorem weight_filterUse (w : Plan.Mark → Nat) (n : Nat) :
    d.filterUse.weight w n =
      if d.isFolded && d.group.isOptional then 0 else n * w ⟨.filter, true⟩ := by
  rw [filterUse]
  split <;> rfl

theorem weight_eq (w : Plan.Mark → Nat) :
    d.weight w =
      (if d.group.patterns.isEmpty then
        if d.group.filters.isEmpty then 0
        else w ⟨.filter, true⟩ +
          if d.group.children.any PatternGroup.contributes then 0 else w ⟨.empty, false⟩
      else d.group.patterns.size * w ⟨.pattern, false⟩ +
        (d.group.patterns.size - 1) * w ⟨.join, false⟩ +
          if d.isFolded && d.group.isOptional then 0 else d.group.filters.size * w ⟨.filter, true⟩) +
      if d.isFolded && d.group.contributes then
        w (if d.group.isOptional then ⟨.leftJoin, !d.group.filters.isEmpty⟩ else ⟨.join, false⟩)
      else 0 := by
  rw [weight, PatternGroup.ownWeight, weight_filterUse]
  rfl

theorem weight_leftJoin :
    d.weight (Plan.counting (·.kind = .leftJoin)) =
      if d.isFolded && d.group.isOptional && d.group.contributes then 1 else 0 := by
  cases optional : d.group.isOptional <;> simp [weight_eq, Plan.counting, optional]

theorem weight_conditioned :
    d.weight (Plan.counting fun m => m.kind = .leftJoin && m.isConditioned) =
      if d.isFolded && d.group.isOptional && d.group.contributes && !d.group.filters.isEmpty
      then 1 else 0 := by
  cases optional : d.group.isOptional <;> simp [weight_eq, Plan.counting, optional, ite_and]

theorem weight_join :
    d.weight (Plan.counting (·.kind = .join)) =
      (if d.isFolded && !d.group.isOptional && d.group.contributes then 1 else 0) +
        if !d.group.patterns.isEmpty then d.group.patterns.size - 1 else 0 := by
  cases optional : d.group.isOptional <;> cases bare : d.group.patterns.isEmpty <;>
    simp [weight_eq, Plan.counting, optional, bare, Nat.add_comm]

theorem weight_empty :
    d.weight (Plan.counting (·.kind = .empty)) =
      if !d.group.filters.isEmpty && d.group.patterns.isEmpty &&
        !d.group.children.any PatternGroup.contributes then 1 else 0 := by
  cases optional : d.group.isOptional <;> cases bare : d.group.patterns.isEmpty <;>
    cases unfiltered : d.group.filters.isEmpty <;>
      cases opened : d.group.children.any PatternGroup.contributes <;>
        simp [weight_eq, Plan.counting, optional, bare, unfiltered, opened]

theorem weight_filter :
    d.weight (Plan.counting (·.kind = .filter)) =
      (if !d.group.filters.isEmpty && d.group.patterns.isEmpty then 1 else 0) +
        if !d.group.patterns.isEmpty && !(d.isFolded && d.group.isOptional)
        then d.group.filters.size else 0 := by
  cases folded : d.isFolded <;> cases optional : d.group.isOptional <;>
    cases bare : d.group.patterns.isEmpty <;> cases unfiltered : d.group.filters.isEmpty <;>
      simp [weight_eq, Plan.counting, folded, optional, bare, unfiltered]

end Occurrence

namespace PatternGroup

theorem countP_subtree (g : PatternGroup P C) (test : PatternGroup P C → Bool) :
    g.subtree.countP test = g.occurrences.countP fun d => test d.group := by
  rw [← map_group_occurrences, List.countP_map]
  rfl

theorem patternJoins_eq_sum (g : PatternGroup P C) :
    g.patternJoins = (g.occurrences.map fun d =>
      if !d.group.patterns.isEmpty then d.group.patterns.size - 1 else 0).sum := by
  rw [patternJoins, sum_map_filter, ← map_group_occurrences, List.map_map]
  rfl

theorem countKind_leftJoin (g : PatternGroup P C) :
    g.plan?.elim 0 (Plan.countKind .leftJoin) =
      g.descendants.countP fun d => d.isFolded && d.group.isOptional && d.group.contributes := by
  have total := count_plan? g Occurrence.weight_leftJoin
  rw [← countP_eq_sum, occurrences, List.countP_cons_of_neg (by simp)] at total
  exact total

theorem countConditionalLeftJoins_eq (g : PatternGroup P C) :
    g.plan?.elim 0 Plan.countConditionalLeftJoins = g.descendants.countP fun d =>
      d.isFolded && d.group.isOptional && d.group.contributes && !d.group.filters.isEmpty := by
  have total := count_plan? g Occurrence.weight_conditioned
  rw [← countP_eq_sum, occurrences, List.countP_cons_of_neg (by simp)] at total
  exact total

theorem countKind_join (g : PatternGroup P C) :
    g.plan?.elim 0 (Plan.countKind .join) =
      (g.descendants.countP fun d => d.isFolded && !d.group.isOptional && d.group.contributes) +
        g.patternJoins := by
  have total := count_plan? g Occurrence.weight_join
  rw [List.sum_map_add, ← countP_eq_sum, ← patternJoins_eq_sum, occurrences,
    List.countP_cons_of_neg (by simp)] at total
  exact total

theorem countKind_empty (g : PatternGroup P C) :
    g.plan?.elim 0 (Plan.countKind .empty) = g.subtree.countP fun d =>
      !d.filters.isEmpty && d.patterns.isEmpty && !d.children.any contributes := by
  rw [countP_subtree, countP_eq_sum]
  exact count_plan? g Occurrence.weight_empty

theorem countKind_filter (g : PatternGroup P C) :
    g.plan?.elim 0 (Plan.countKind .filter) =
      (g.subtree.countP fun d => !d.filters.isEmpty && d.patterns.isEmpty) +
        ((g.occurrences.filter fun d =>
          !d.group.patterns.isEmpty && !(d.isFolded && d.group.isOptional)).map
            (·.group.filters.size)).sum := by
  rw [countP_subtree, countP_eq_sum, sum_map_filter, ← List.sum_map_add]
  exact count_plan? g Occurrence.weight_filter

/-- How many nodes of each kind the plan has. The root is not folded. -/
structure NodeCounts (g : PatternGroup P C) (e : Plan P C) : Prop where
  leftJoins : e.countKind .leftJoin =
    g.descendants.countP fun d => d.isFolded && d.group.isOptional && d.group.contributes
  conditioned : e.countConditionalLeftJoins = g.descendants.countP fun d =>
    d.isFolded && d.group.isOptional && d.group.contributes && !d.group.filters.isEmpty
  joins : e.countKind .join =
    (g.descendants.countP fun d => d.isFolded && !d.group.isOptional && d.group.contributes) +
      g.patternJoins
  empties : e.countKind .empty = g.subtree.countP fun d =>
    !d.filters.isEmpty && d.patterns.isEmpty && !d.children.any contributes
  filters : e.countKind .filter =
    (g.subtree.countP fun d => !d.filters.isEmpty && d.patterns.isEmpty) +
      ((g.occurrences.filter fun d =>
        !d.group.patterns.isEmpty && !(d.isFolded && d.group.isOptional)).map
          (·.group.filters.size)).sum

theorem nodeCounts {g : PatternGroup P C} {e : Plan P C} (planned : g.plan? = some e) :
    g.NodeCounts e := by
  have counted : ∀ count : Plan P C → Nat, count e = g.plan?.elim 0 count := by
    intro count
    rw [planned, Option.elim_some]
  exact {
    leftJoins := (counted _).trans g.countKind_leftJoin
    conditioned := (counted _).trans g.countConditionalLeftJoins_eq
    joins := (counted _).trans g.countKind_join
    empties := (counted _).trans g.countKind_empty
    filters := (counted _).trans g.countKind_filter }

def sizedSample : PatternGroup Nat Nat :=
  ((required.insertPatterns [0, 1]).insertFilter 10)
    |>.pushChild ((optional.insertPattern 2).insertFilters [11, 12])
    |>.pushChild (optional.insertFilter 13)
    |>.pushChild ((required.insertFilter 14).pushChild
      ((optional.insertPattern 3).insertFilters [15, 16]))
    |>.pushChild (required.pushChild optional)

theorem nodeCounts_sizedSample :
    ∃ e, sizedSample.plan? = some e ∧ sizedSample.NodeCounts e ∧
      e.countKind .leftJoin = 2 ∧ e.countConditionalLeftJoins = 2 ∧ e.countKind .join = 2 ∧
      e.countKind .empty = 1 ∧ e.countKind .filter = 5 :=
  have planned : sizedSample.plan? = some
      (.join
        (.leftJoin
          (.leftJoin (.filter (.join (.pattern 0) (.pattern 1)) (.atom 10)) (.pattern 2)
            (some (.and (.atom 12) (.atom 11))))
          (.filter .empty (.atom 13)) (some (.atom 13)))
        (.filter (.filter (.filter (.pattern 3) (.atom 15)) (.atom 16)) (.atom 14))) := by decide
  ⟨_, planned, nodeCounts planned, by decide⟩

end PatternGroup

end GroupPlan
