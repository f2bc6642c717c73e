import GroupPlan.PatternGroup.Basic
import GroupPlan.Plan.Basic
import GroupPlan.Traced

/-! The plan of a group. The patterns of a group are joined first and its filters
are placed on them, then its children are attached one by one from the left. A
group without patterns starts from its first child that has a plan. An optional
child with filters is attached by a left join on the conjunction of its filters;
its patterns are then planned with the filters withheld, so that the filters
reject partners and never solutions. -/

namespace GroupPlan

/-- What is done with the filters of a group that has patterns of its own. Withheld filters serve
as a join condition elsewhere. -/
inductive FilterUse where
  | applied
  | withheld
deriving DecidableEq

def FilterUse.place {P C : Type} (base : Plan P C) (fs : List C) : FilterUse → Plan P C
  | applied => base.filterEach fs
  | withheld => base

namespace PatternGroup

variable {P C : Type}

/-- The plan of the group's own patterns and filters, before any child is attached. -/
def base? (use : FilterUse) (g : PatternGroup P C) : Option (Plan P C) :=
  (Plan.ofPatterns g.patterns.toList).toOption.map (use.place · g.filters.toList)

theorem base?_eq_none_iff {use : FilterUse} {g : PatternGroup P C} :
    g.base? use = none ↔ g.patterns.toList = [] := by
  rw [base?, Option.map_eq_none_iff]
  cases g.patterns.toList <;> simp [Plan.ofPatterns, Except.toOption]

/-- The condition of the left join that attaches the group, if it is attached on one. -/
def joinCondition? (g : PatternGroup P C) : Option (Condition C) :=
  if g.isOptional then (Condition.ofFilters g.filters.toList).toOption else none

theorem joinCondition?_eq_none_iff {g : PatternGroup P C} :
    g.joinCondition? = none ↔ g.isOptional = false ∨ g.filters.toList = [] := by
  rw [joinCondition?]
  cases g.isOptional <;> cases g.filters.toList <;>
    simp [Condition.ofFilters, Except.toOption]

theorem joinCondition?_eq_some_iff {g : PatternGroup P C} {k : Condition C} :
    g.joinCondition? = some k ↔
      g.isOptional ∧ Condition.ofFilters g.filters.toList = .ok k := by
  rw [joinCondition?]
  cases g.isOptional <;> cases g.filters.toList <;>
    simp [Condition.ofFilters, Except.toOption]

theorem isSome_joinCondition? (g : PatternGroup P C) :
    g.joinCondition?.isSome = (g.isOptional && !g.filters.isEmpty) := by
  rw [joinCondition?, UniqueList.isEmpty]
  cases g.isOptional <;> cases g.filters.toList <;> rfl

def bareFilters? (fs : List C) : Option (Plan P C) :=
  if fs.isEmpty then none else some (Plan.empty.filterAll fs)

open Traced (emit)

mutual

def assemble (use : FilterUse) : PatternGroup P C → Traced (Option (Plan P C))
  | ⟨o, ps, fs, cs⟩ =>
    match base? use ⟨o, ps, fs, cs⟩ with
    | some base => do
      let e ← assembleOnto base cs
      return some e
    | none => assembleFrom fs.toList cs

/-- Without patterns the filters are applied in any case, to the first child that has a plan.
Later children are attached to the result. -/
def assembleFrom (fs : List C) : List (PatternGroup P C) → Traced (Option (Plan P C))
  | [] => pure (bareFilters? fs)
  | c :: cs => do
    match ← c.assemble .applied with
    | none =>
      emit .skippedChild
      assembleFrom fs cs
    | some first =>
      if fs.isEmpty then pure () else emit .filteredFirstChild
      let e ← assembleOnto (first.filterAll fs) cs
      return some e

def assembleOnto (lhs : Plan P C) : List (PatternGroup P C) → Traced (Plan P C)
  | [] => pure lhs
  | c :: cs =>
    match c.joinCondition? with
    | some condition => do
      emit .foldingWithCondition
      match ← c.assemble .withheld with
      | none => assembleOnto lhs cs
      | some rhs => assembleOnto (.leftJoin lhs rhs (some condition)) cs
    | none => do
      match ← c.assemble .applied with
      | none =>
        emit .skippedChild
        assembleOnto lhs cs
      | some rhs =>
        emit (.folded c.isOptional)
        assembleOnto (if c.isOptional then .leftJoin lhs rhs none else .join lhs rhs) cs

end

def planning (g : PatternGroup P C) : Traced (Option (Plan P C)) := do
  emit (.started g.patterns.size g.filters.size g.children.length)
  let plan ← g.assemble .applied
  emit (.finished plan.isNone)
  return plan

def plan? (g : PatternGroup P C) : Option (Plan P C) := g.planning.value

def events (g : PatternGroup P C) : List Event := g.planning.events

def planWith? (use : FilterUse) (g : PatternGroup P C) : Option (Plan P C) :=
  (g.assemble use).value

def planFrom? (fs : List C) (cs : List (PatternGroup P C)) : Option (Plan P C) :=
  (assembleFrom fs cs).value

def planOnto (lhs : Plan P C) (cs : List (PatternGroup P C)) : Plan P C :=
  (assembleOnto lhs cs).value

/-- The plan after one more child; a child without a plan leaves it as it is. -/
def attach (lhs : Plan P C) (c : PatternGroup P C) : Plan P C :=
  match c.joinCondition? with
  | some condition =>
    match c.planWith? .withheld with
    | none => lhs
    | some rhs => .leftJoin lhs rhs (some condition)
  | none =>
    match c.planWith? .applied with
    | none => lhs
    | some rhs => if c.isOptional then .leftJoin lhs rhs none else .join lhs rhs

theorem plan?_eq (g : PatternGroup P C) : g.plan? = g.planWith? .applied := rfl

theorem planOnto_cons (lhs : Plan P C) (c : PatternGroup P C) (cs : List (PatternGroup P C)) :
    planOnto lhs (c :: cs) = planOnto (attach lhs c) cs := by
  rw [planOnto, assembleOnto, attach, planWith?, planWith?]
  cases c.joinCondition? with
  | some k =>
    simp only [Traced.bind_value]
    split <;> simp_all [planOnto]
  | none =>
    simp only [Traced.bind_value]
    split <;> simp_all [planOnto]

theorem planOnto_eq_foldl (lhs : Plan P C) (cs : List (PatternGroup P C)) :
    planOnto lhs cs = cs.foldl attach lhs := by
  induction cs generalizing lhs with
  | nil => rfl
  | cons c cs ih => rw [planOnto_cons, ih, List.foldl_cons]

theorem planFrom?_nil (fs : List C) :
    planFrom? fs ([] : List (PatternGroup P C)) = bareFilters? fs := rfl

theorem planFrom?_cons (fs : List C) (c : PatternGroup P C) (cs : List (PatternGroup P C)) :
    planFrom? fs (c :: cs) =
      match c.planWith? .applied with
      | none => planFrom? fs cs
      | some first => some (cs.foldl attach (first.filterAll fs)) := by
  rw [planFrom?, assembleFrom, planWith?]
  simp only [Traced.bind_value]
  split
  · simp_all [planFrom?]
  · by_cases h : fs.isEmpty <;> simp_all [← planOnto_eq_foldl, planOnto]

theorem planWith?_eq (use : FilterUse) (g : PatternGroup P C) :
    g.planWith? use =
      match g.base? use with
      | some base => some (g.children.foldl attach base)
      | none => planFrom? g.filters.toList g.children := by
  cases g
  rw [planWith?, assemble]
  split <;> simp_all [planFrom?, ← planOnto_eq_foldl, planOnto]

def attachEvents (c : PatternGroup P C) : List Event :=
  match c.joinCondition? with
  | some _ => .foldingWithCondition :: (c.assemble .withheld).events
  | none =>
    (c.assemble .applied).events ++
      [if (c.planWith? .applied).isNone then .skippedChild else .folded c.isOptional]

theorem assembleOnto_events (lhs : Plan P C) (cs : List (PatternGroup P C)) :
    (assembleOnto lhs cs).events = cs.flatMap attachEvents := by
  induction cs generalizing lhs with
  | nil => rfl
  | cons c cs ih =>
    rw [assembleOnto, List.flatMap_cons, attachEvents, planWith?]
    cases c.joinCondition? with
    | some k =>
      simp only [Traced.bind_events]
      split <;> simp_all
    | none =>
      simp only [Traced.bind_events]
      split <;> simp_all

theorem assembleFrom_events_cons (fs : List C) (c : PatternGroup P C)
    (cs : List (PatternGroup P C)) :
    (assembleFrom fs (c :: cs)).events =
      (c.assemble .applied).events ++
        match c.planWith? .applied with
        | none => .skippedChild :: (assembleFrom fs cs).events
        | some _ =>
          (if fs.isEmpty then [] else [.filteredFirstChild]) ++ cs.flatMap attachEvents := by
  rw [assembleFrom, planWith?]
  simp only [Traced.bind_events]
  split
  · simp_all
  · by_cases h : fs.isEmpty <;> simp_all [assembleOnto_events]

theorem assemble_events (use : FilterUse) (g : PatternGroup P C) :
    (g.assemble use).events =
      match g.base? use with
      | some _ => g.children.flatMap attachEvents
      | none => (assembleFrom g.filters.toList g.children).events := by
  cases g
  rw [assemble]
  split <;> simp_all [assembleOnto_events]

theorem events_eq (g : PatternGroup P C) :
    g.events =
      .started g.patterns.size g.filters.size g.children.length ::
        ((g.assemble .applied).events ++ [.finished g.plan?.isNone]) := by
  simp [events, planning, plan?]

end PatternGroup

end GroupPlan
