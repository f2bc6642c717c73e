import GroupPlan.Plan.Nodes
import GroupPlan.Proofs.Attachment

/-! The leaves of a plan are the patterns of the tree in preorder. Where a child is
attached, started from or passed over, its patterns follow those to its left, so
neither optionality nor filters move, repeat or drop a pattern. -/

namespace GroupPlan

variable {P C : Type}

theorem Plan.countKind_pattern (e : Plan P C) : e.countKind .pattern = e.leaves.length := by
  rw [countKind, count]
  induction e <;> simp_all [nodes, leaves, kind]

namespace PatternGroup

/-- Under either use of the filters the plan of the group has the patterns of its tree. -/
def PlansAllPatterns (g : PatternGroup P C) : Prop :=
  ∀ use, (g.planWith? use).elim [] Plan.leaves = g.allPatterns

theorem leaves_attach (lhs : Plan P C) {c : PatternGroup P C} (there : c.PlansAllPatterns) :
    (attach lhs c).leaves = lhs.leaves ++ c.allPatterns := by
  have applied : c.plan?.elim [] Plan.leaves = c.allPatterns := there .applied
  have withheld := there .withheld
  rcases attach_cases lhs c with ⟨blank, same⟩ | ⟨rhs, -, planned, joined⟩ |
    ⟨rhs, -, -, planned, joined⟩ | ⟨rhs, k, -, -, kept, joined⟩
  · rw [plan?_of_blank blank, Option.elim_none] at applied
    rw [same, ← applied, List.append_nil]
  · rw [planned, Option.elim_some] at applied
    rw [joined, Plan.leaves, applied]
  · rw [planned, Option.elim_some] at applied
    rw [joined, Plan.leaves, applied]
  · rw [kept, Option.elim_some] at withheld
    rw [joined, Plan.leaves, withheld]

theorem leaves_foldl_attach (lhs : Plan P C) {cs : List (PatternGroup P C)}
    (there : ∀ c ∈ cs, c.PlansAllPatterns) :
    (cs.foldl attach lhs).leaves = lhs.leaves ++ cs.flatMap allPatterns := by
  induction cs generalizing lhs with
  | nil => simp
  | cons c cs ih =>
    rw [List.forall_mem_cons] at there
    rw [List.foldl_cons, ih _ there.2, leaves_attach lhs there.1, List.append_assoc,
      List.flatMap_cons]

theorem leaves_planFrom? (fs : List C) {cs : List (PatternGroup P C)}
    (there : ∀ c ∈ cs, c.PlansAllPatterns) :
    (planFrom? fs cs).elim [] Plan.leaves = cs.flatMap allPatterns := by
  induction cs with
  | nil =>
    rw [planFrom?_nil, bareFilters?]
    cases fs.isEmpty <;> simp [Plan.leaves]
  | cons c cs ih =>
    rw [List.forall_mem_cons] at there
    have here : c.plan?.elim [] Plan.leaves = c.allPatterns := there.1 .applied
    rw [List.flatMap_cons, ← here]
    cases held : c.contributes with
    | false =>
      rw [planFrom?_cons_of_blank fs cs held, plan?_of_blank held]
      exact ih there.2
    | true =>
      obtain ⟨first, planned⟩ := exists_plan? held
      rw [planFrom?_cons_of_plan? fs cs planned, planned, Option.elim_some, Option.elim_some,
        leaves_foldl_attach _ there.2, Plan.leaves_filterAll]

theorem plansAllPatterns (g : PatternGroup P C) : g.PlansAllPatterns := by
  induction g with
  | group o ps fs cs ih =>
    intro use
    rw [allPatterns_eq]
    by_cases bare : ps.toList = []
    · rw [planWith?_of_noPatterns use bare, leaves_planFrom? _ ih, bare, List.nil_append]
    · obtain ⟨base, joined⟩ := exists_ofPatterns (C := C) bare
      have own : (use.place base fs.toList).leaves = ps.toList := by
        cases use <;> simp [FilterUse.place, Plan.leaves_of_ofPatterns joined]
      rw [planWith?_of_ofPatterns use joined, Option.elim_some, leaves_foldl_attach _ ih, own]

theorem leaves_of_planWith? {g : PatternGroup P C} {use : FilterUse} {e : Plan P C}
    (planned : g.planWith? use = some e) : e.leaves = g.allPatterns := by
  rw [← g.plansAllPatterns use, planned, Option.elim_some]

theorem leaves_plan? (g : PatternGroup P C) :
    g.plan?.elim [] Plan.leaves = g.allPatterns ∧
      (g.plan?.elim [] Plan.leaves).length = g.patternCount ∧
      g.plan?.elim 0 (Plan.countKind .pattern) = g.patternCount := by
  have inOrder : g.plan?.elim [] Plan.leaves = g.allPatterns := g.plansAllPatterns .applied
  refine ⟨inOrder, ?_, ?_⟩
  · rw [inOrder, patternCount_eq_length]
  · rw [patternCount_eq_length, ← inOrder]
    cases g.plan? with
    | none => rfl
    | some e => exact e.countKind_pattern

end PatternGroup

end GroupPlan
