import GroupPlan.Proofs.EventAccounting
import GroupPlan.Proofs.ListEncoding
import GroupPlan.Proofs.PlanSize

/-! The events of left joins, replayed from the plan. A left join on a condition is reported
before its right side is planned, any other after it; read off the plan in this way, the
left joins give back the events of the run in their order. Joins do not, because a join of
a group's own patterns is not reported; of the joins only the number is told. -/

namespace GroupPlan

def Event.isLeftJoin : Event → Bool
  | foldingWithCondition => true
  | folded isOptional => isOptional
  | _ => false

variable {P C : Type}

namespace Plan

/-- The events of the left joins of a plan, in the order in which planning comes to them. -/
def replay : Plan P C → List Event
  | pattern _ => []
  | join lhs rhs => lhs.replay ++ rhs.replay
  | leftJoin lhs rhs none => lhs.replay ++ rhs.replay ++ [.folded true]
  | leftJoin lhs rhs (some _) => lhs.replay ++ [.foldingWithCondition] ++ rhs.replay
  | filter inner _ => inner.replay
  | empty => []

theorem JoinsPatterns.replay_eq_nil {e : Plan P C} (chain : e.JoinsPatterns) : e.replay = [] := by
  induction chain with
  | pattern p => rfl
  | join p _ left => rw [replay, left, replay, List.append_nil]

theorem replay_filterEach (base : Plan P C) (fs : List C) :
    (base.filterEach fs).replay = base.replay := by
  induction fs generalizing base with
  | nil => rfl
  | cons c fs ih => rw [filterEach_cons, ih, replay]

theorem replay_filterAll (base : Plan P C) (fs : List C) :
    (base.filterAll fs).replay = base.replay := by
  cases fs with
  | nil => rfl
  | cons c fs => rw [filterAll_cons, replay]

end Plan

theorem FilterUse.replay_place (base : Plan P C) (fs : List C) (use : FilterUse) :
    (use.place base fs).replay = base.replay := by
  cases use with
  | applied => exact base.replay_filterEach fs
  | withheld => rfl

namespace PatternGroup

def ReportsLeftJoins (g : PatternGroup P C) : Prop :=
  ∀ use, (g.assemble use).events.filter Event.isLeftJoin = (g.planWith? use).elim [] Plan.replay

theorem replay_attach (lhs : Plan P C) {c : PatternGroup P C} (there : c.ReportsLeftJoins) :
    (attach lhs c).replay = lhs.replay ++ (attachEvents c).filter Event.isLeftJoin := by
  have applied := there .applied
  have withheld := there .withheld
  rcases attach_cases lhs c with ⟨blank, same⟩ | ⟨rhs, required, planned, joined⟩ |
    ⟨rhs, optional, unfiltered, planned, joined⟩ | ⟨rhs, k, optional, conjoined, kept, joined⟩
  · rw [planWith?_eq_none_iff.mpr blank, Option.elim_none] at applied
    rw [same, attachEvents_of_blank blank, List.filter_append, applied]
    exact (List.append_nil _).symm
  · have held := contributes_of_plan? planned
    rw [← plan?_eq, planned, Option.elim_some] at applied
    rw [joined, attachEvents_of_plain held (.inl required), List.filter_append, applied, required]
    exact congrArg _ (List.append_nil _).symm
  · have held := contributes_of_plan? planned
    rw [← plan?_eq, planned, Option.elim_some] at applied
    rw [joined, attachEvents_of_plain held (.inr unfiltered), List.filter_append, applied, optional]
    exact List.append_assoc _ _ _
  · -- here the event stands before those of the child, as in the replay
    have filtered := Condition.ne_nil_of_ofFilters conjoined
    rw [kept, Option.elim_some] at withheld
    rw [joined, attachEvents_of_conditioned optional filtered, List.filter_cons_of_pos rfl,
      withheld]
    exact List.append_assoc _ _ _

theorem replay_foldl_attach (lhs : Plan P C) {cs : List (PatternGroup P C)}
    (there : ∀ c ∈ cs, c.ReportsLeftJoins) :
    (cs.foldl attach lhs).replay =
      lhs.replay ++ (cs.flatMap attachEvents).filter Event.isLeftJoin := by
  induction cs generalizing lhs with
  | nil => exact (List.append_nil _).symm
  | cons c cs ih =>
    rw [List.forall_mem_cons] at there
    rw [List.foldl_cons, ih _ there.2, replay_attach lhs there.1, List.flatMap_cons,
      List.filter_append, List.append_assoc]

theorem filter_assembleFrom_events (fs : List C) {cs : List (PatternGroup P C)}
    (there : ∀ c ∈ cs, c.ReportsLeftJoins) :
    (assembleFrom fs cs).events.filter Event.isLeftJoin =
      (planFrom? fs cs).elim [] Plan.replay := by
  induction cs with
  | nil =>
    rw [planFrom?_nil, bareFilters?]
    cases fs with
    | nil => rfl
    | cons c fs => rfl
  | cons c cs ih =>
    rw [List.forall_mem_cons] at there
    have here := there.1 .applied
    cases held : c.contributes with
    | false =>
      rw [planWith?_eq_none_iff.mpr held, Option.elim_none] at here
      rw [assembleFrom_events_of_blank fs cs held, planFrom?_cons_of_blank fs cs held,
        List.filter_append, here, List.nil_append, List.filter_cons_of_neg Bool.false_ne_true]
      exact ih there.2
    | true =>
      obtain ⟨first, planned⟩ := exists_plan? held
      rw [← plan?_eq, planned, Option.elim_some] at here
      have unmarked : (if fs.isEmpty then [] else [Event.filteredFirstChild]).filter
          Event.isLeftJoin = [] := by
        cases fs <;> rfl
      rw [assembleFrom_events_of_held fs cs held, planFrom?_cons_of_plan? fs cs planned,
        List.filter_append, List.filter_append, here, unmarked, List.nil_append, Option.elim_some,
        replay_foldl_attach _ there.2, Plan.replay_filterAll]

theorem reportsLeftJoins (g : PatternGroup P C) : g.ReportsLeftJoins := by
  induction g with
  | group o ps fs cs ih =>
    intro use
    by_cases bare : ps.toList = []
    · rw [assemble_events_of_noPatterns use bare, planWith?_of_noPatterns use bare]
      exact filter_assembleFrom_events _ ih
    · obtain ⟨base, joined⟩ := exists_ofPatterns (C := C) bare
      rw [assemble_events_of_own use bare, planWith?_of_ofPatterns use joined, Option.elim_some,
        replay_foldl_attach _ ih, FilterUse.replay_place,
        (Plan.joinsPatterns_of_ofPatterns joined).replay_eq_nil]
      rfl

theorem report_folded_required (d : Occurrence P C) :
    d.report (Event.counting (.folded false)) =
      if d.isFolded && !d.group.isOptional && d.group.contributes then 1 else 0 := by
  rw [Occurrence.report, ownReport_eq_zero rfl, Occurrence.reportAbove]
  cases d.group.contributes <;> cases d.isFolded <;> cases d.group.isOptional <;>
    simp [Event.counting]

theorem count_folded_required (g : PatternGroup P C) :
    g.events.count (.folded false) =
      g.descendants.countP fun d => d.isFolded && !d.group.isOptional && d.group.contributes := by
  rw [Event.count_eq_total, total_events, ownReport_eq_zero rfl, reportsBelow,
    funext report_folded_required, countP_eq_sum]
  simp [Event.counting]

/-- The left joins of the plan are reported in order, and every join but those of the patterns of
one group is reported once. -/
theorem filter_events_eq_replay (g : PatternGroup P C) :
    g.events.filter Event.isLeftJoin = g.plan?.elim [] Plan.replay ∧
      g.events.count (.folded false) + g.patternJoins =
        g.plan?.elim 0 (Plan.countKind .join) := by
  refine ⟨?_, ?_⟩
  · have inner := g.reportsLeftJoins .applied
    rw [events_eq, List.filter_cons_of_neg Bool.false_ne_true, List.filter_append, inner]
    exact List.append_nil _
  · rw [count_folded_required, countKind_join]

end PatternGroup

end GroupPlan
