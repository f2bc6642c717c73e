import GroupPlan.Proofs.Attachment
import GroupPlan.Proofs.ListEncoding
import Mathlib.Data.List.Nodup

/-! What plans of groups look like. Patterns are joined and left joined as they come, the
plan of no pattern stands only under a filter, and conditions are chains of distinct
filters. A left join on a condition has on its right what an optional group with these
filters can be planned as when they are withheld: it starts from a pattern, or from the
same filters over something, or it is these filters over nothing. -/

namespace GroupPlan

variable {P C : Type}

namespace Condition

structure IsSpine (k : Condition C) : Prop where
  leftAtomic : k.LeftAtomic
  distinct : k.atoms.Nodup

theorem isSpine_atom (c : C) : (atom c).IsSpine := ⟨trivial, List.nodup_singleton c⟩

theorem isSpine_of_ofFilters {fs : List C} {k : Condition C} (distinct : fs.Nodup)
    (conjoined : ofFilters fs = .ok k) : k.IsSpine := by
  refine ⟨leftAtomic_of_ofFilters conjoined, ?_⟩
  rw [atoms_of_ofFilters conjoined]
  exact List.nodup_reverse.mpr distinct

end Condition

namespace Plan

/-- Where the left sides of joins and left joins lead. -/
def leftmost : Plan P C → Plan P C
  | join lhs _ => lhs.leftmost
  | leftJoin lhs _ _ => lhs.leftmost
  | e => e

/-- What a left join on the condition has on its right. -/
inductive FitsOn (k : Condition C) (rhs : Plan P C) : Prop where
  | bareFilter (bare : rhs = .filter .empty k)
  | pattern (p : P) (start : rhs.leftmost = .pattern p)
  | filtered (inner : Plan P C) (start : rhs.leftmost = .filter inner k) (held : inner ≠ .empty)

inductive Attainable : Plan P C → Prop where
  | pattern (p : P) : Attainable (.pattern p)
  | join {lhs rhs : Plan P C} : Attainable lhs → Attainable rhs → Attainable (.join lhs rhs)
  | leftJoin {lhs rhs : Plan P C} :
    Attainable lhs → Attainable rhs → Attainable (.leftJoin lhs rhs none)
  | filter {inner : Plan P C} {k : Condition C} :
    Attainable inner → k.IsSpine → Attainable (.filter inner k)
  | bareFilter {k : Condition C} : k.IsSpine → Attainable (.filter .empty k)
  | conditioned {lhs rhs : Plan P C} {k : Condition C} :
    Attainable lhs → Attainable rhs → k.IsSpine → FitsOn k rhs →
      Attainable (.leftJoin lhs rhs (some k))

theorem Attainable.ne_empty {e : Plan P C} (attainable : e.Attainable) : e ≠ .empty := by
  rintro rfl
  cases attainable

theorem Attainable.of_mem_operands {e m : Plan P C} (attainable : e.Attainable)
    (input : m ∈ e.operands) : m.Attainable ∨ m = .empty ∧ e.kind = .filter := by
  cases attainable with
  | pattern p => cases input
  | join left right =>
    rcases List.mem_pair.mp input with rfl | rfl
    · exact .inl left
    · exact .inl right
  | leftJoin left right =>
    rcases List.mem_pair.mp input with rfl | rfl
    · exact .inl left
    · exact .inl right
  | conditioned left right spine fits =>
    rcases List.mem_pair.mp input with rfl | rfl
    · exact .inl left
    · exact .inl right
  | filter inner spine =>
    rw [List.mem_singleton.mp input]
    exact .inl inner
  | bareFilter spine => exact .inr ⟨List.mem_singleton.mp input, rfl⟩

theorem Attainable.of_mem_nodes {e : Plan P C} (attainable : e.Attainable) :
    ∀ n ∈ e.nodes, n.Attainable ∨ n = .empty := by
  refine forall_nodes_of_operands ?_ (.inl attainable)
  rintro n (here | rfl) m input
  · exact (here.of_mem_operands input).imp_right And.left
  · cases input

theorem Attainable.kind_of_empty_mem {e n : Plan P C} (attainable : e.Attainable)
    (node : n ∈ e.nodes) (input : .empty ∈ n.operands) : n.kind = .filter := by
  rcases attainable.of_mem_nodes n node with here | rfl
  · rcases here.of_mem_operands input with bare | ⟨-, filtered⟩
    · exact absurd rfl bare.ne_empty
    · exact filtered
  · cases input

theorem JoinsPatterns.exists_leftmost {e : Plan P C} (chain : e.JoinsPatterns) :
    ∃ p, e.leftmost = .pattern p := by
  induction chain with
  | pattern p => exact ⟨p, rfl⟩
  | join _ _ start => exact start

theorem JoinsPatterns.attainable {e : Plan P C} (chain : e.JoinsPatterns) : e.Attainable := by
  induction chain with
  | pattern p => exact .pattern p
  | join p _ left => exact .join left (.pattern p)

theorem attainable_filterEach {base : Plan P C} (fs : List C) (attainable : base.Attainable) :
    (base.filterEach fs).Attainable := by
  induction fs generalizing base with
  | nil => exact attainable
  | cons c fs ih => exact ih (.filter attainable (Condition.isSpine_atom c))

theorem attainable_filterAll {base : Plan P C} {fs : List C} (distinct : fs.Nodup)
    (attainable : base.Attainable) : (base.filterAll fs).Attainable := by
  by_cases unfiltered : fs = []
  · rw [unfiltered]
    exact attainable
  · obtain ⟨k, conjoined⟩ := Condition.exists_ofFilters unfiltered
    rw [filterAll_of_ofFilters base conjoined]
    exact .filter attainable (Condition.isSpine_of_ofFilters distinct conjoined)

end Plan

namespace PatternGroup

structure PlansAttainably (g : PatternGroup P C) : Prop where
  attainable : ∀ {use e}, g.planWith? use = some e → e.Attainable
  fitsOn : ∀ {k e}, Condition.ofFilters g.filters.toList = .ok k →
    g.planWith? .withheld = some e → e.FitsOn k

theorem leftmost_attach (lhs : Plan P C) (c : PatternGroup P C) :
    (attach lhs c).leftmost = lhs.leftmost := by
  rcases attach_cases lhs c with ⟨-, same⟩ | ⟨rhs, -, -, joined⟩ | ⟨rhs, -, -, -, joined⟩ |
    ⟨rhs, k, -, -, -, joined⟩
  · rw [same]
  · rw [joined, Plan.leftmost]
  · rw [joined, Plan.leftmost]
  · rw [joined, Plan.leftmost]

theorem leftmost_foldl_attach (lhs : Plan P C) (cs : List (PatternGroup P C)) :
    (cs.foldl attach lhs).leftmost = lhs.leftmost := by
  induction cs generalizing lhs with
  | nil => rfl
  | cons c cs ih => rw [List.foldl_cons, ih, leftmost_attach]

theorem attainable_attach {lhs : Plan P C} {c : PatternGroup P C} (left : lhs.Attainable)
    (there : c.PlansAttainably) : (attach lhs c).Attainable := by
  rcases attach_cases lhs c with ⟨-, same⟩ | ⟨rhs, -, planned, joined⟩ |
    ⟨rhs, -, -, planned, joined⟩ | ⟨rhs, k, -, conjoined, kept, joined⟩
  · rw [same]
    exact left
  · rw [joined]
    exact .join left (there.attainable planned)
  · rw [joined]
    exact .leftJoin left (there.attainable planned)
  · have spine := Condition.isSpine_of_ofFilters c.filters.nodup conjoined
    rw [joined]
    exact .conditioned left (there.attainable kept) spine (there.fitsOn conjoined kept)

theorem attainable_foldl_attach {lhs : Plan P C} {cs : List (PatternGroup P C)}
    (left : lhs.Attainable) (there : ∀ c ∈ cs, c.PlansAttainably) :
    (cs.foldl attach lhs).Attainable := by
  induction cs generalizing lhs with
  | nil => exact left
  | cons c cs ih =>
    rw [List.forall_mem_cons] at there
    exact ih (attainable_attach left there.1) there.2

theorem plansAttainably_of_own {g : PatternGroup P C} (own : g.patterns.toList ≠ [])
    (there : ∀ c ∈ g.children, c.PlansAttainably) : g.PlansAttainably := by
  obtain ⟨base, joined⟩ := exists_ofPatterns (C := C) own
  have chain : base.JoinsPatterns := Plan.joinsPatterns_of_ofPatterns joined
  constructor
  · intro use e planned
    rw [planWith?_of_ofPatterns use joined, Option.some_inj] at planned
    rw [← planned]
    refine attainable_foldl_attach ?_ there
    cases use with
    | applied => exact Plan.attainable_filterEach _ chain.attainable
    | withheld => exact chain.attainable
  · intro k e conjoined planned
    obtain ⟨p, start⟩ := chain.exists_leftmost
    rw [planWith?_of_ofPatterns .withheld joined, Option.some_inj] at planned
    refine .pattern p ?_
    rw [← planned, leftmost_foldl_attach]
    exact start

theorem plansAttainably_of_noPatterns {g : PatternGroup P C} (bare : g.patterns.toList = [])
    (there : ∀ c ∈ g.children, c.PlansAttainably) : g.PlansAttainably := by
  constructor
  · intro use e planned
    rcases planWith?_cases_of_noPatterns bare planned with
      ⟨-, filtered, rfl⟩ | ⟨c, first, rest, -, children, starts, rfl⟩
    · obtain ⟨k, conjoined⟩ := Condition.exists_ofFilters filtered
      rw [Plan.filterAll_of_ofFilters _ conjoined]
      exact .bareFilter (Condition.isSpine_of_ofFilters g.filters.nodup conjoined)
    · rw [List.forall_mem_cons] at children
      have started := (there c children.1).attainable starts
      refine attainable_foldl_attach ?_ fun d below => there d (children.2 d below)
      exact Plan.attainable_filterAll g.filters.nodup started
  · intro k e conjoined planned
    rcases planWith?_cases_of_noPatterns bare planned with
      ⟨-, -, rfl⟩ | ⟨c, first, rest, -, children, starts, rfl⟩
    · exact .bareFilter (Plan.filterAll_of_ofFilters _ conjoined)
    · have started := (there c (children c List.mem_cons_self)).attainable starts
      refine .filtered first ?_ started.ne_empty
      rw [leftmost_foldl_attach, Plan.filterAll_of_ofFilters _ conjoined]
      rfl

theorem plansAttainably (g : PatternGroup P C) : g.PlansAttainably := by
  induction g with
  | group o ps fs cs ih =>
    by_cases bare : ps.toList = []
    · exact plansAttainably_of_noPatterns bare ih
    · exact plansAttainably_of_own bare ih

end PatternGroup

end GroupPlan
