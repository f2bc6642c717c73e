import GroupPlan.PatternGroup.Basic

/-! The groups of a tree in preorder: a group first, then the groups below each of
its children in child order. What is counted or asked of a whole tree is counted
or asked of this list. -/

namespace GroupPlan

namespace PatternGroup

variable {P C : Type}

mutual

def subtree : PatternGroup P C → List (PatternGroup P C)
  | ⟨o, ps, fs, cs⟩ => ⟨o, ps, fs, cs⟩ :: subtreeEach cs

def subtreeEach : List (PatternGroup P C) → List (PatternGroup P C)
  | [] => []
  | c :: cs => c.subtree ++ subtreeEach cs

end

theorem subtreeEach_eq_flatMap (cs : List (PatternGroup P C)) :
    subtreeEach cs = cs.flatMap subtree := by
  induction cs with
  | nil => rfl
  | cons c cs ih => rw [subtreeEach, ih, List.flatMap_cons]

theorem subtree_eq (g : PatternGroup P C) : g.subtree = g :: g.children.flatMap subtree := by
  cases g
  rw [subtree, subtreeEach_eq_flatMap]

theorem self_mem_subtree (g : PatternGroup P C) : g ∈ g.subtree := by
  rw [subtree_eq]
  exact List.mem_cons_self

theorem mem_subtree_of_child {g c d : PatternGroup P C} (child : c ∈ g.children)
    (below : d ∈ c.subtree) : d ∈ g.subtree := by
  rw [subtree_eq]
  exact List.mem_cons_of_mem g (List.mem_flatMap.mpr ⟨c, child, below⟩)

theorem mem_subtree_trans {g c d : PatternGroup P C} (above : c ∈ g.subtree)
    (below : d ∈ c.subtree) : d ∈ g.subtree := by
  induction g with
  | group o ps fs cs ih =>
    rw [subtree_eq, List.mem_cons, List.mem_flatMap] at above
    rcases above with rfl | ⟨b, child, above⟩
    · exact below
    · exact mem_subtree_of_child child (ih b child above)

/-- The patterns of every group of the tree, group by group. -/
def allPatterns (g : PatternGroup P C) : List P := g.subtree.flatMap (·.patterns.toList)

theorem allPatterns_eq (g : PatternGroup P C) :
    g.allPatterns = g.patterns.toList ++ g.children.flatMap allPatterns := by
  rw [allPatterns, subtree_eq, List.flatMap_cons, List.flatMap_assoc]
  rfl

theorem mem_allPatterns {g : PatternGroup P C} {p : P} :
    p ∈ g.allPatterns ↔ ∃ d ∈ g.subtree, p ∈ d.patterns := List.mem_flatMap

mutual

/-- A pattern that stands in several groups counts once for each of them. -/
def patternCount : PatternGroup P C → Nat
  | ⟨_, ps, _, cs⟩ => ps.size + patternCountEach cs

def patternCountEach : List (PatternGroup P C) → Nat
  | [] => 0
  | c :: cs => c.patternCount + patternCountEach cs

end

theorem patternCount_eq_length (g : PatternGroup P C) : g.patternCount = g.allPatterns.length := by
  induction g with
  | group o ps fs cs ih =>
    have below : patternCountEach cs = (cs.flatMap allPatterns).length := by
      induction cs with
      | nil => rfl
      | cons c cs before =>
        rw [List.forall_mem_cons] at ih
        rw [patternCountEach, ih.1, before ih.2, List.flatMap_cons, List.length_append]
    rw [patternCount, below, allPatterns_eq, List.length_append]
    rfl

/-- Whether a pattern or a filter is held anywhere in the tree. -/
def contributes (g : PatternGroup P C) : Bool :=
  g.subtree.any fun d => !(d.patterns.isEmpty && d.filters.isEmpty)

theorem contributes_eq (g : PatternGroup P C) :
    g.contributes =
      (!(g.patterns.isEmpty && g.filters.isEmpty) || g.children.any contributes) := by
  rw [contributes, subtree_eq, List.any_cons, List.any_flatMap]
  rfl

end PatternGroup

end GroupPlan
