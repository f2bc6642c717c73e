import GroupPlan.PatternGroup.Basic

/-! When two groups say the same: the same flag, the same patterns and the same
filters as sets, and pairwise the same children in the same order. This is `==`
on groups; it is coarser than `=`, which also compares the order in which
patterns and filters were added. -/

namespace GroupPlan

namespace PatternGroup

variable {P C : Type} [DecidableEq P] [DecidableEq C]

mutual

def same : PatternGroup P C → PatternGroup P C → Bool
  | ⟨o₁, ps₁, fs₁, cs₁⟩, ⟨o₂, ps₂, fs₂, cs₂⟩ =>
    o₁ == o₂ && ps₁.sameMembers ps₂ && fs₁.sameMembers fs₂ && sameEach cs₁ cs₂

def sameEach : List (PatternGroup P C) → List (PatternGroup P C) → Bool
  | [], [] => true
  | c :: cs, d :: ds => c.same d && sameEach cs ds
  | _, _ => false

end

instance : BEq (PatternGroup P C) := ⟨same⟩

theorem sameEach_eq_beq (cs ds : List (PatternGroup P C)) : sameEach cs ds = (cs == ds) := by
  induction cs generalizing ds with
  | nil => cases ds <;> rfl
  | cons c cs ih =>
    cases ds with
    | nil => rfl
    | cons d ds =>
      rw [sameEach, ih]
      rfl

theorem beq_iff {g h : PatternGroup P C} :
    (g == h) = true ↔ g.isOptional = h.isOptional ∧ g.patterns.sameMembers h.patterns ∧
      g.filters.sameMembers h.filters ∧ (g.children == h.children) = true := by
  cases g
  cases h
  show same _ _ = true ↔ _
  simp [same, sameEach_eq_beq, and_assoc]

/-- The group without its first child that says the same as `c`, if it has one. -/
def eraseChild? (g c : PatternGroup P C) : Option (PatternGroup P C) :=
  if g.children.any (· == c) then some { g with children := g.children.eraseP (· == c) }
  else none

theorem eraseChild?_isSome (g c : PatternGroup P C) :
    (g.eraseChild? c).isSome = g.children.any (· == c) := by
  rw [eraseChild?]
  split <;> simp_all

end PatternGroup

end GroupPlan
