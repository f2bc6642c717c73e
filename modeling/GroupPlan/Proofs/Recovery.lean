import GroupPlan.PatternGroup.Edit
import GroupPlan.Proofs.Attainable

/-! A group for every attainable plan. `ofPlan` reads a plan from the left: its leftmost
pattern, or the filter there, gives the group its own patterns or filters, and every
join and left join further up adds a child. Planning the group gives the plan back, so
the plans of groups are the attainable ones. -/

namespace GroupPlan

variable {P C : Type}

namespace Condition

variable [DecidableEq C]

/-- The filters of a condition, those under others first. -/
def filterSet (k : Condition C) : UniqueList C := .ofList k.atoms.reverse

theorem ofFilters_filterSet {k : Condition C} (spine : k.IsSpine) :
    ofFilters k.filterSet.toList = .ok k := by
  have kept : k.filterSet.toList = k.atoms.reverse :=
    UniqueList.toList_ofList_of_nodup (List.nodup_reverse.mpr spine.distinct)
  rw [kept, ofFilters_reverse_atoms spine.leftAtomic]

end Condition

namespace PatternGroup

theorem attach_optional_pushChild {g : PatternGroup P C} {rhs : Plan P C} (lhs : Plan P C)
    (there : g.plan? = some rhs) : attach lhs (optional.pushChild g) = .leftJoin lhs rhs none := by
  refine attach_optional lhs rfl rfl ?_
  rw [plan?_pushChild_first g rfl, there]
  rfl

/-- The group gives the plan back, and a further child is attached to it. -/
structure Recovers (g : PatternGroup P C) (e : Plan P C) : Prop where
  hasLeft : g.hasLeft
  plan : g.plan? = some e

theorem Recovers.pushChild {g c : PatternGroup P C} {e e' : Plan P C} (here : g.Recovers e)
    (attached : attach e c = e') : (g.pushChild c).Recovers e' := by
  refine ⟨hasLeft_pushChild c here.hasLeft, ?_⟩
  rw [plan?_pushChild c here.hasLeft, here.plan, Option.map_some, attached]

variable [DecidableEq C]

def ofCondition (k : Condition C) : PatternGroup P C := ⟨false, ∅, k.filterSet, []⟩

/-- The optional group with the filters in place of its own. -/
def conditionedBy (g : PatternGroup P C) (k : Condition C) : PatternGroup P C :=
  { g with isOptional := true, filters := k.filterSet }

def filteredBy (k : Condition C) (inner : Plan P C) (g : PatternGroup P C) : PatternGroup P C :=
  match inner with
  | .empty => required.pushChild (ofCondition k)
  | _ => { ofCondition k with children := [g] }

/-- An optional group that is attached on the condition with the plan on the right, if `g` is a
group of the plan. -/
def attachedOn (k : Condition C) (rhs : Plan P C) (g : PatternGroup P C) : PatternGroup P C :=
  match rhs with
  | .filter .empty _ => (ofCondition k).conditionedBy k
  | _ => g.conditionedBy k

theorem filteredBy_of_ne {inner : Plan P C} (k : Condition C) (g : PatternGroup P C)
    (held : inner ≠ .empty) : filteredBy k inner g = { ofCondition k with children := [g] } := by
  cases inner with
  | empty => exact absurd rfl held
  | _ => rfl

theorem attachedOn_of_ne {rhs : Plan P C} (k : Condition C) (g : PatternGroup P C)
    (more : ∀ k', rhs ≠ .filter .empty k') : attachedOn k rhs g = g.conditionedBy k := by
  rw [attachedOn]
  exact more

theorem plan?_ofCondition {k : Condition C} (spine : k.IsSpine) :
    (ofCondition k : PatternGroup P C).plan? = some (.filter .empty k) := by
  have conjoined := Condition.ofFilters_filterSet spine
  have filtered := Condition.ne_nil_of_ofFilters conjoined
  rw [plan?_of_noPatterns rfl]
  simp [ofCondition, planFrom?_nil, bareFilters?, filtered, Plan.filterAll_of_ofFilters _ conjoined]

theorem recovers_bareFilter {k : Condition C} (g : PatternGroup P C) (spine : k.IsSpine) :
    (filteredBy k .empty g).Recovers (.filter .empty k) := by
  have held : (ofCondition k : PatternGroup P C).contributes :=
    contributes_of_ofFilters (Condition.ofFilters_filterSet spine)
  constructor
  · simp [filteredBy, hasLeft, PatternGroup.pushChild, held]
  · rw [filteredBy, plan?_pushChild_first _ rfl, plan?_ofCondition spine]
    rfl

theorem recovers_filter {k : Condition C} {inner : Plan P C} {g : PatternGroup P C}
    (spine : k.IsSpine) (held : inner ≠ .empty) (there : g.Recovers inner) :
    (filteredBy k inner g).Recovers (.filter inner k) := by
  rw [filteredBy_of_ne k g held]
  constructor
  · simp [hasLeft, contributes_of_hasLeft there.hasLeft]
  · rw [plan?_of_noPatterns rfl, planFrom?_cons_of_plan? _ [] there.plan, List.foldl_nil,
      Plan.filterAll_of_ofFilters inner]
    exact Condition.ofFilters_filterSet spine

theorem planWith?_conditionedBy_of_own {g : PatternGroup P C} (k : Condition C)
    (own : g.patterns.toList ≠ []) (unfiltered : g.filters = ∅) :
    (g.conditionedBy k).planWith? .withheld = g.plan? := by
  have own' : (g.conditionedBy k).patterns.toList ≠ [] := own
  have cleared : (g.conditionedBy k).clearFilters = { g with isOptional := true } :=
    PatternGroup.ext rfl rfl unfiltered.symm rfl
  rw [planWith?_withheld own', cleared, plan?_eq, planWith?_setOptional, plan?_eq]

theorem planWith?_conditionedBy_of_noPatterns {g : PatternGroup P C} {k : Condition C}
    (bare : g.patterns.toList = []) (filtered : g.filters = k.filterSet) :
    (g.conditionedBy k).planWith? .withheld = g.plan? := by
  have same : g.conditionedBy k = { g with isOptional := true } :=
    PatternGroup.ext rfl rfl filtered.symm rfl
  rw [same, planWith?_setOptional, planWith?_withheld_of_noPatterns bare]

theorem attach_conditionedBy {g : PatternGroup P C} {k : Condition C} {rhs : Plan P C}
    (lhs : Plan P C) (spine : k.IsSpine)
    (kept : (g.conditionedBy k).planWith? .withheld = some rhs) :
    attach lhs (g.conditionedBy k) = .leftJoin lhs rhs (some k) :=
  attach_conditioned lhs rfl (Condition.ofFilters_filterSet spine) kept

variable [DecidableEq P]

/-- A group of the plan, read from its left end. A child is required, optional around another
group, or optional with filters of its own, by the node that attaches it. -/
def ofPlan : Plan P C → PatternGroup P C
  | .pattern p => required.insertPattern p
  | .join lhs rhs => (ofPlan lhs).pushChild (ofPlan rhs)
  | .leftJoin lhs rhs none => (ofPlan lhs).pushChild (optional.pushChild (ofPlan rhs))
  | .leftJoin lhs rhs (some k) => (ofPlan lhs).pushChild (attachedOn k rhs (ofPlan rhs))
  | .filter inner k => filteredBy k inner (ofPlan inner)
  | .empty => required

theorem isOptional_ofPlan (e : Plan P C) : (ofPlan e).isOptional = false := by
  induction e with
  | join lhs rhs left right => exact left
  | leftJoin lhs rhs k left right =>
    cases k with
    | none => exact left
    | some k => exact left
  | filter inner k _ => cases inner <;> rfl
  | _ => rfl

theorem own_ofPlan (e : Plan P C) :
    (ofPlan e).patterns = (ofPlan e.leftmost).patterns ∧
      (ofPlan e).filters = (ofPlan e.leftmost).filters := by
  induction e with
  | join lhs rhs left right => exact left
  | leftJoin lhs rhs k left right =>
    cases k with
    | none => exact left
    | some k => exact left
  | _ => exact ⟨rfl, rfl⟩

theorem attach_attachedOn {k : Condition C} {rhs : Plan P C} (lhs : Plan P C) (spine : k.IsSpine)
    (fits : rhs.FitsOn k) (there : (ofPlan rhs).plan? = some rhs) :
    attach lhs (attachedOn k rhs (ofPlan rhs)) = .leftJoin lhs rhs (some k) := by
  obtain ⟨patterns, filters⟩ := own_ofPlan rhs
  cases fits with
  | bareFilter bare =>
    subst bare
    refine attach_conditionedBy lhs spine ?_
    rw [planWith?_conditionedBy_of_noPatterns rfl rfl, plan?_ofCondition spine]
  | pattern p start =>
    rw [start] at patterns filters
    have more : ∀ k', rhs ≠ .filter .empty k' := by
      rintro k' rfl
      cases start
    have own : (ofPlan rhs).patterns.toList ≠ [] := by
      rw [patterns]
      exact List.cons_ne_nil p []
    rw [attachedOn_of_ne k _ more]
    exact attach_conditionedBy lhs spine ((planWith?_conditionedBy_of_own k own filters).trans there)
  | filtered inner start held =>
    rw [start, ofPlan, filteredBy_of_ne k _ held] at patterns filters
    have more : ∀ k', rhs ≠ .filter .empty k' := by
      rintro k' rfl
      cases start
      exact held rfl
    have bare : (ofPlan rhs).patterns.toList = [] := by
      rw [patterns]
      rfl
    rw [attachedOn_of_ne k _ more]
    exact attach_conditionedBy lhs spine
      ((planWith?_conditionedBy_of_noPatterns bare filters).trans there)

theorem recovers_ofPlan {e : Plan P C} (attainable : e.Attainable) : (ofPlan e).Recovers e := by
  induction attainable with
  | pattern p => exact ⟨rfl, rfl⟩
  | join _ _ left right =>
    exact left.pushChild (attach_required _ (isOptional_ofPlan _) right.plan)
  | leftJoin _ _ left right => exact left.pushChild (attach_optional_pushChild _ right.plan)
  | filter held spine there => exact recovers_filter spine held.ne_empty there
  | bareFilter spine => exact recovers_bareFilter _ spine
  | conditioned _ _ spine fits left right =>
    exact left.pushChild (attach_attachedOn _ spine fits right.plan)

theorem exists_plan?_eq_some_iff (e : Plan P C) :
    ((∃ g : PatternGroup P C, g.Built ∧ g.plan? = some e) ↔ e.Attainable) ∧
      ∀ g : PatternGroup P C, g.plan? = some e →
        e ≠ .empty ∧ ∀ n ∈ e.nodes, .empty ∈ n.operands → n.kind = .filter := by
  refine ⟨⟨?_, fun attainable => ?_⟩, fun g planned => ?_⟩
  · rintro ⟨g, -, planned⟩
    exact g.plansAttainably.attainable planned
  · exact ⟨ofPlan e, built _, (recovers_ofPlan attainable).plan⟩
  · have attainable : e.Attainable := g.plansAttainably.attainable planned
    exact ⟨attainable.ne_empty, fun n node input => attainable.kind_of_empty_mem node input⟩

end PatternGroup

end GroupPlan
