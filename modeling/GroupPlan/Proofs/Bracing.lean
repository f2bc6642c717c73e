import GroupPlan.Proofs.Place
import GroupPlan.Proofs.PlanSize
import Mathlib.Logic.Relation

/-! Groups in braces of their own. The braces are planned like what they hold, and where they
are attached they are attached like it, unless the group inside is optional, has filters
and is folded: then its filters are the condition of a left join outside the braces and
filters of a plan inside them. This is the one case where braces are seen. -/

namespace GroupPlan.PatternGroup

variable {P C : Type}

def brace (c : PatternGroup P C) : PatternGroup P C := ⟨c.isOptional, ∅, ∅, [c]⟩

theorem plan?_brace (c : PatternGroup P C) : c.brace.plan? = c.plan? := by
  have bare : c.brace.patterns.toList = [] := rfl
  rw [plan?_of_noPatterns bare]
  cases held : c.contributes with
  | false => exact (planFrom?_cons_of_blank [] [] held).trans (plan?_of_blank held).symm
  | true =>
    obtain ⟨e, planned⟩ := exists_plan? held
    exact (planFrom?_cons_of_plan? [] [] planned).trans planned.symm

theorem contributes_brace (c : PatternGroup P C) : c.brace.contributes = c.contributes := by
  rw [← plan?_isSome, plan?_brace, plan?_isSome]

theorem joinCondition?_brace (c : PatternGroup P C) : c.brace.joinCondition? = none :=
  joinCondition?_eq_none_iff.mpr (.inr rfl)

theorem Replaces.brace {c : PatternGroup P C} (plain : c.joinCondition? = none) :
    c.brace.Replaces c where
  attached lhs := by
    rw [attach, attach, plain, joinCondition?_brace, ← plan?_eq, ← plan?_eq, plan?_brace]
    rfl
  started := plan?_brace c

theorem descendants_brace (c : PatternGroup P C) :
    c.brace.descendants = ⟨c, false⟩ :: c.descendants := by
  rw [descendants_eq, brace, descendantsEach, descendantsEach, List.append_nil]
  rfl

def conditionedJoins (g : PatternGroup P C) : Nat := g.plan?.elim 0 Plan.countConditionalLeftJoins

theorem conditionedJoins_within_brace {x : Gap P C} (place : List (Gap P C))
    {c : PatternGroup P C} (folded : x.hasLeft) (optional : c.isOptional = true)
    (filtered : c.filters.toList ≠ []) :
    (c.within (x :: place)).conditionedJoins =
      (c.brace.within (x :: place)).conditionedJoins + 1 := by
  have some_held : c.filters.isEmpty = false := UniqueList.isEmpty_eq_false_iff.mpr filtered
  have held : c.contributes := by simp [contributes_eq, some_held]
  have none_held : c.brace.filters.isEmpty = true := rfl
  rw [conditionedJoins, conditionedJoins, countConditionalLeftJoins_eq,
    countConditionalLeftJoins_eq]
  refine countP_descendants_within ?_ place c.contributes_brace.symm ?_
  · intro x c d folded held
    rw [contributes_fill_congr x held]
    rfl
  · simp [folded, held, optional, some_held, none_held, descendants_brace]

theorem plan?_within_brace_eq_iff (c : PatternGroup P C) (place : List (Gap P C)) :
    (c.brace.within place).plan? = (c.within place).plan? ↔
      ¬(IsFolded place ∧ c.isOptional = true ∧ c.filters.toList ≠ []) := by
  constructor
  · rintro same ⟨⟨x, outer, rfl, folded⟩, optional, filtered⟩
    have counted := conditionedJoins_within_brace outer folded optional filtered
    rw [conditionedJoins, conditionedJoins, same] at counted
    omega
  · intro unseen
    by_cases folded : IsFolded place
    · have plain : c.joinCondition? = none := by
        rw [joinCondition?_eq_none_iff]
        by_contra conditioned
        rw [not_or, Bool.not_eq_false] at conditioned
        exact unseen ⟨folded, conditioned⟩
      exact ((Replaces.brace plain).within place).started
    · exact plan?_within_of_not_isFolded folded c.plan?_brace

/-- One group below the root, which is required or has no filters, is put into braces. -/
inductive Braces : PatternGroup P C → PatternGroup P C → Prop where
  | below {c : PatternGroup P C} (plain : c.isOptional = false ∨ c.filters.toList = [])
    (x : Gap P C) (place : List (Gap P C)) :
    Braces (c.within (x :: place)) (c.brace.within (x :: place))

theorem Braces.plan?_eq {g h : PatternGroup P C} (braces : g.Braces h) : h.plan? = g.plan? := by
  cases braces with
  | below plain x place =>
    exact ((Replaces.brace (joinCondition?_eq_none_iff.mpr plain)).within (x :: place)).started

/-- Braces around a whole group are not seen. Nor are braces around groups at any depth, put one
after the other in any number, that are required or have no filters. For one group in its place
they are seen exactly if it is folded, optional and has filters. -/
theorem plan?_braced :
    (∀ g : PatternGroup P C, g.brace.plan? = g.plan?) ∧
      (∀ g h : PatternGroup P C, Relation.ReflTransGen Braces g h → h.plan? = g.plan?) ∧
        ∀ (c : PatternGroup P C) (place : List (Gap P C)),
          (c.brace.within place).plan? = (c.within place).plan? ↔
            ¬(IsFolded place ∧ c.isOptional = true ∧ c.filters.toList ≠ []) := by
  refine ⟨plan?_brace, fun g h steps => ?_, plan?_within_brace_eq_iff⟩
  induction steps with
  | refl => rfl
  | tail _ last ih => exact last.plan?_eq.trans ih

theorem plan?_bracedTwice :
    Relation.ReflTransGen Braces ((required.insertFilter 12).within withheldPlace)
        ((required.insertFilter 12).brace.brace.within withheldPlace) ∧
      ((required.insertFilter 12).brace.brace.within withheldPlace).plan? =
        ((required.insertFilter 12).within withheldPlace).plan? ∧
      ((optional.insertFilter 12).brace.within withheldPlace).plan? ≠
        ((optional.insertFilter 12).within withheldPlace).plan? :=
  have steps : Relation.ReflTransGen Braces ((required.insertFilter 12).within withheldPlace)
      ((required.insertFilter 12).brace.brace.within withheldPlace) :=
    .tail (.single (.below (.inl rfl) _ _)) (.below (.inl rfl) _ _)
  ⟨steps, plan?_braced.2.1 _ _ steps,
    mt (plan?_braced.2.2 _ _).mp (not_not.mpr ⟨⟨_, _, rfl, rfl⟩, rfl, by decide⟩)⟩

end GroupPlan.PatternGroup
