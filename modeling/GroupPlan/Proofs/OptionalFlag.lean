import GroupPlan.Proofs.Place
import GroupPlan.Proofs.PlanSize

/-! Where the flag of a group is seen. A group that starts the plan of its parent, or that
contributes nothing, may be optional or required without a difference. Anywhere else the
flag decides between a join and a left join, and no group further up hides which it is:
it neither adds nor removes another left join, so the counts stay one apart. -/

namespace GroupPlan.PatternGroup

variable {P C : Type}

def flipOptional (g : PatternGroup P C) : PatternGroup P C :=
  { g with isOptional := !g.isOptional }

@[simp] theorem isOptional_flipOptional (g : PatternGroup P C) :
    g.flipOptional.isOptional = !g.isOptional := rfl

@[simp] theorem flipOptional_flipOptional (g : PatternGroup P C) :
    g.flipOptional.flipOptional = g :=
  PatternGroup.ext (Bool.not_not _) rfl rfl rfl

@[simp] theorem contributes_flipOptional (g : PatternGroup P C) :
    g.flipOptional.contributes = g.contributes := by
  rw [contributes_eq, g.contributes_eq]
  rfl

@[simp] theorem allPatterns_flipOptional (g : PatternGroup P C) :
    g.flipOptional.allPatterns = g.allPatterns := by
  rw [allPatterns_eq, g.allPatterns_eq]
  rfl

@[simp] theorem descendants_flipOptional (g : PatternGroup P C) :
    g.flipOptional.descendants = g.descendants := by
  rw [descendants_eq, g.descendants_eq]
  rfl

@[simp] theorem plan?_flipOptional (g : PatternGroup P C) : g.flipOptional.plan? = g.plan? :=
  planWith?_setOptional .applied g _

def leftJoins (g : PatternGroup P C) : Nat := g.plan?.elim 0 (Plan.countKind .leftJoin)

theorem leftJoins_within_of_optional {x : Gap P C} (place : List (Gap P C)) {d : PatternGroup P C}
    (folded : x.hasLeft) (held : d.contributes) (optional : d.isOptional = true) :
    (d.within (x :: place)).leftJoins = (d.flipOptional.within (x :: place)).leftJoins + 1 := by
  rw [leftJoins, leftJoins, countKind_leftJoin, countKind_leftJoin]
  refine countP_descendants_within ?_ place d.contributes_flipOptional.symm ?_
  · intro x c d folded held
    rw [contributes_fill_congr x held]
    rfl
  · rw [List.countP_cons_of_pos (by simp [folded, held, optional]),
      List.countP_cons_of_neg (by simp [optional]), descendants_flipOptional]

theorem leftJoins_flipOptional_within {place : List (Gap P C)} {d : PatternGroup P C}
    (folded : IsFolded place) (held : d.contributes) :
    if d.isOptional then (d.within place).leftJoins = (d.flipOptional.within place).leftJoins + 1
    else (d.flipOptional.within place).leftJoins = (d.within place).leftJoins + 1 := by
  obtain ⟨x, outer, rfl, folded⟩ := folded
  cases optional : d.isOptional with
  | true => exact leftJoins_within_of_optional outer folded held optional
  | false =>
    have turned := leftJoins_within_of_optional (d := d.flipOptional) outer folded
      (by simpa using held) (by simp [optional])
    simpa using turned

theorem plan?_flipOptional_within_of_unseen {place : List (Gap P C)} {d : PatternGroup P C}
    (unseen : ¬(IsFolded place ∧ d.contributes)) :
    (d.flipOptional.within place).plan? = (d.within place).plan? := by
  by_cases held : d.contributes
  · exact plan?_within_of_not_isFolded (fun folded => unseen ⟨folded, held⟩) d.plan?_flipOptional
  · rw [Bool.not_eq_true] at held
    exact (Replaces.within place (.of_blank held (by simpa using held))).started

theorem plan?_flipOptional_within_of_seen {place : List (Gap P C)} {d : PatternGroup P C}
    (folded : IsFolded place) (held : d.contributes) :
    (d.flipOptional.within place).plan? ≠ (d.within place).plan? := by
  intro same
  have counted := leftJoins_flipOptional_within folded held
  have equal : (d.flipOptional.within place).leftJoins = (d.within place).leftJoins := by
    rw [leftJoins, leftJoins, same]
  split at counted <;> omega

/-- Turning the flag of a group over changes the plan of the tree exactly where the group is
folded and contributes. The leaves stay, and the plan of the tree in which the group is optional
has one left join more. -/
theorem plan?_flipOptional_ne_iff (d : PatternGroup P C) (place : List (Gap P C)) :
    ((d.flipOptional.within place).plan? ≠ (d.within place).plan? ↔
        IsFolded place ∧ d.contributes) ∧
      ((d.flipOptional.within place).plan? ≠ (d.within place).plan? →
        (d.flipOptional.within place).plan?.elim [] Plan.leaves =
            (d.within place).plan?.elim [] Plan.leaves ∧
          if d.isOptional then
            (d.within place).leftJoins = (d.flipOptional.within place).leftJoins + 1
          else (d.flipOptional.within place).leftJoins = (d.within place).leftJoins + 1) := by
  have seen : (d.flipOptional.within place).plan? ≠ (d.within place).plan? ↔
      IsFolded place ∧ d.contributes := by
    constructor
    · intro differ
      by_contra unseen
      exact differ (plan?_flipOptional_within_of_unseen unseen)
    · rintro ⟨folded, held⟩
      exact plan?_flipOptional_within_of_seen folded held
  refine ⟨seen, fun differ => ⟨?_, ?_⟩⟩
  · rw [plan?_eq, plan?_eq, plansAllPatterns, plansAllPatterns,
      allPatterns_within_congr place d.allPatterns_flipOptional]
  · exact leftJoins_flipOptional_within (seen.mp differ).1 (seen.mp differ).2

theorem plan?_flipOptional_withheldPlace :
    ((required.insertFilter 12).within withheldPlace).plan? ≠
        ((optional.insertFilter 12).within withheldPlace).plan? ∧
      ((required.insertFilter 12).within withheldPlace).plan?.elim [] Plan.leaves = [0, 1, 3] ∧
      ((optional.insertFilter 12).within withheldPlace).leftJoins =
        ((required.insertFilter 12).within withheldPlace).leftJoins + 1 :=
  have there := plan?_flipOptional_ne_iff (optional.insertFilter 12) withheldPlace
  have differ := there.1.mpr ⟨⟨_, _, rfl, rfl⟩, rfl⟩
  ⟨differ, (there.2 differ).1.trans (by decide), (there.2 differ).2⟩

end GroupPlan.PatternGroup
