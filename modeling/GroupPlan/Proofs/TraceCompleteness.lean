import GroupPlan.Proofs.EventAccounting
import GroupPlan.Proofs.PlanSize

/-! What the events of a run tell of the tree. Between the first event and the last one
every group below the root is accounted for: it is passed over if it contributes
nothing, attached if something stands to its left, and otherwise the plan of the group
above starts from it, which is reported where that group has filters to place on it.
Events are told apart by their messages. -/

namespace GroupPlan

variable {P C : Type}

namespace Event

def framing : List String := ["Compiling group", "Compiled group"]

def skipping : List String := ["Skipping empty child group"]

def placing : List String := ["Applying filters of the parent group to its first child"]

def folding : List String :=
  ["Folding optional child group with a join condition", "Folding child group"]

def isAmong (messages : List String) (e : Event) : Bool := e.message ∈ messages

def tally (messages : List String) (e : Event) : Nat := if e.isAmong messages then 1 else 0

theorem countP_isAmong (messages : List String) (events : List Event) :
    events.countP (isAmong messages) = total (tally messages) events :=
  countP_eq_sum (isAmong messages) events

end Event

open Event

namespace Occurrence

variable (d : Occurrence P C)

theorem report_framing : d.report (tally framing) = 0 := by
  rw [report, reportAbove, PatternGroup.ownReport_eq_zero rfl]
  simp [tally, isAmong, framing, message]

theorem report_skipping : d.report (tally skipping) = if !d.group.contributes then 1 else 0 := by
  rw [report, reportAbove, PatternGroup.ownReport_eq_zero rfl]
  simp [tally, isAmong, skipping, message]

theorem report_folding :
    d.report (tally folding) = if d.isFolded && d.group.contributes then 1 else 0 := by
  rw [report, reportAbove, PatternGroup.ownReport_eq_zero rfl]
  cases d.group.contributes <;> cases d.isFolded <;> simp [tally, isAmong, folding, message]

theorem report_placing : d.report (tally placing) = d.group.ownReport (tally placing) := by
  rw [report, reportAbove]
  simp [tally, isAmong, placing, message]

end Occurrence

namespace PatternGroup

theorem ownReport_placing (g : PatternGroup P C) :
    g.ownReport (tally placing) =
      if !g.filters.isEmpty && g.patterns.isEmpty && g.children.any contributes then 1 else 0 := by
  have one : tally placing .filteredFirstChild = 1 := rfl
  have held : g.filters.isEmpty = g.filters.toList.isEmpty := rfl
  rw [ownReport, firstChildReport, one, held]
  cases g.patterns.isEmpty <;> simp

theorem isAmong_framing_of_mem {use : FilterUse} {g : PatternGroup P C} {e : Event}
    (reported : e ∈ (g.assemble use).events) : e.isAmong framing = false := by
  have below : g.reportsBelow (tally framing) = 0 := by
    rw [reportsBelow, funext Occurrence.report_framing]
    simp
  have none_inside : (g.assemble use).events.countP (isAmong framing) = 0 := by
    rw [countP_isAmong, reportsAll, below, ownReport_eq_zero rfl]
  simpa using List.countP_eq_zero.mp none_inside e reported

theorem countP_events {messages : List String} (inner : ∀ m ∈ messages, m ∉ framing)
    (g : PatternGroup P C) :
    g.events.countP (isAmong messages) =
      g.ownReport (tally messages) + g.reportsBelow (tally messages) := by
  have outer : ∀ e : Event, e.message ∈ framing → tally messages e = 0 := by
    intro e frames
    have apart : e.message ∉ messages := fun named => inner e.message named frames
    simp [tally, isAmong, apart]
  rw [countP_isAmong, total_events, outer _ (by simp [framing, message]),
    outer _ (by simp [framing, message])]
  omega

theorem countP_skipping (g : PatternGroup P C) :
    g.events.countP (isAmong skipping) =
      (g.children.flatMap subtree).countP fun d => !d.contributes := by
  rw [countP_events (by decide), ownReport_eq_zero rfl, reportsBelow,
    funext Occurrence.report_skipping, ← countP_eq_sum, ← map_group_descendants, List.countP_map]
  exact Nat.zero_add _

theorem countP_folding (g : PatternGroup P C) :
    g.events.countP (isAmong folding) =
      g.descendants.countP fun d => d.isFolded && d.group.contributes := by
  rw [countP_events (by decide), ownReport_eq_zero rfl, reportsBelow,
    funext Occurrence.report_folding, ← countP_eq_sum]
  exact Nat.zero_add _

theorem countP_placing (g : PatternGroup P C) :
    g.events.countP (isAmong placing) = g.subtree.countP fun d =>
      !d.filters.isEmpty && d.patterns.isEmpty && d.children.any contributes := by
  have reports : g.ownReport (tally placing) + g.reportsBelow (tally placing) =
      (g.occurrences.map fun d => d.group.ownReport (tally placing)).sum := by
    rw [reportsBelow, funext Occurrence.report_placing]
    simp [occurrences]
  rw [countP_events (by decide), reports, countP_subtree, countP_eq_sum]
  simp only [ownReport_placing]

/-- What the events of a planning run tell of the tree of the group. -/
structure TracedBy (g : PatternGroup P C) (events : List Event) : Prop where
  framed : ∃ decisions,
    events = .started g.patterns.size g.filters.size g.children.length ::
      (decisions ++ [.finished g.plan?.isNone]) ∧
    ∀ e ∈ decisions, e.isAmong framing = false
  skips : events.countP (isAmong skipping) =
    (g.children.flatMap subtree).countP fun d => !d.contributes
  placements : events.countP (isAmong placing) = g.subtree.countP fun d =>
    !d.filters.isEmpty && d.patterns.isEmpty && d.children.any contributes
  folds : events.countP (isAmong folding) =
    g.descendants.countP fun d => d.isFolded && d.group.contributes

/-- Every group below the root is visited once, and each decision on it is reported once. -/
theorem tracedBy_events (g : PatternGroup P C) : g.TracedBy g.events where
  framed := ⟨(g.assemble .applied).events, g.events_eq, fun _ => isAmong_framing_of_mem⟩
  skips := g.countP_skipping
  placements := g.countP_placing
  folds := g.countP_folding

end PatternGroup

end GroupPlan
