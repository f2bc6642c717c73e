import GroupPlan.Proofs.Attachment
import Mathlib.Algebra.BigOperators.Group.List.Basic

/-! The groups of a tree, each with the place at which it stands. A group below the
root is folded if something stands to its left in its parent: a pattern of the
parent, or an earlier child that contributes. The same group may stand at several
places of a tree, folded at one and not at another. -/

namespace GroupPlan

structure Occurrence (P C : Type) where
  group : PatternGroup P C
  isFolded : Bool

namespace PatternGroup

variable {P C : Type}

mutual

/-- The occurrences below the root, in preorder. -/
def descendants : PatternGroup P C → List (Occurrence P C)
  | ⟨_, ps, _, cs⟩ => descendantsEach (!ps.isEmpty) cs

def descendantsEach (left : Bool) : List (PatternGroup P C) → List (Occurrence P C)
  | [] => []
  | c :: cs => ⟨c, left⟩ :: (c.descendants ++ descendantsEach (left || c.contributes) cs)

end

def occurrences (g : PatternGroup P C) : List (Occurrence P C) := ⟨g, false⟩ :: g.descendants

theorem descendants_eq (g : PatternGroup P C) :
    g.descendants = descendantsEach (!g.patterns.isEmpty) g.children := by
  cases g
  rfl

theorem descendantsEach_append (left : Bool) (cs ds : List (PatternGroup P C)) :
    descendantsEach left (cs ++ ds) =
      descendantsEach left cs ++ descendantsEach (left || cs.any contributes) ds := by
  induction cs generalizing left with
  | nil => simp [descendantsEach]
  | cons c cs ih => simp [descendantsEach, ih, Bool.or_assoc]

theorem descendants_of_children {g : PatternGroup P C} {cs ds : List (PatternGroup P C)}
    {c : PatternGroup P C} (split : g.children = cs ++ c :: ds) :
    g.descendants =
      descendantsEach (!g.patterns.isEmpty) cs ++
        ⟨c, { g with children := cs }.hasLeft⟩ ::
          (c.descendants ++
            descendantsEach (({ g with children := cs }.pushChild c).hasLeft) ds) := by
  rw [descendants_eq, split, descendantsEach_append, descendantsEach, pushChild, hasLeft, hasLeft,
    List.any_append, List.any_cons, List.any_nil, Bool.or_false, ← Bool.or_assoc]

theorem map_group_descendantsEach (left : Bool) {cs : List (PatternGroup P C)}
    (there : ∀ c ∈ cs, c.descendants.map (·.group) = c.children.flatMap subtree) :
    (descendantsEach left cs).map (·.group) = cs.flatMap subtree := by
  induction cs generalizing left with
  | nil => rfl
  | cons c cs ih =>
    rw [List.forall_mem_cons] at there
    rw [descendantsEach, List.map_cons, List.map_append, there.1, ih _ there.2, List.flatMap_cons,
      subtree_eq, List.cons_append]

theorem map_group_descendants (g : PatternGroup P C) :
    g.descendants.map (·.group) = g.children.flatMap subtree := by
  induction g with
  | group o ps fs cs ih => exact map_group_descendantsEach _ ih

theorem map_group_occurrences (g : PatternGroup P C) :
    g.occurrences.map (·.group) = g.subtree := by
  rw [occurrences, List.map_cons, map_group_descendants, subtree_eq]

section Sum

variable {M : Type} [AddMonoid M] (measure : Occurrence P C → M)

theorem sum_descendantsEach_cons (left : Bool) (c : PatternGroup P C)
    (cs : List (PatternGroup P C)) :
    ((descendantsEach left (c :: cs)).map measure).sum =
      measure ⟨c, left⟩ + (c.descendants.map measure).sum +
        ((descendantsEach (left || c.contributes) cs).map measure).sum := by
  rw [descendantsEach, List.map_cons, List.map_append, List.sum_cons, List.sum_append, add_assoc]

theorem foldl_attach_eq_add_sum {size : Plan P C → M} {cs : List (PatternGroup P C)}
    (step : ∀ c ∈ cs, ∀ lhs, size (attach lhs c) =
      size lhs + (measure ⟨c, true⟩ + (c.descendants.map measure).sum)) (lhs : Plan P C) :
    size (cs.foldl attach lhs) = size lhs + ((descendantsEach true cs).map measure).sum := by
  induction cs generalizing lhs with
  | nil => exact (add_zero _).symm
  | cons c cs ih =>
    rw [List.forall_mem_cons] at step
    rw [List.foldl_cons, ih step.2, step.1, sum_descendantsEach_cons, Bool.true_or, add_assoc]

end Sum

end PatternGroup

end GroupPlan
