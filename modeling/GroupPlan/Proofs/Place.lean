import GroupPlan.Proofs.BlankGroups
import GroupPlan.Proofs.Leaves
import GroupPlan.Proofs.Occurrence

/-! Places in a tree. A place is what is left of a tree when the group at it is taken out:
the groups on the way to the root, from the innermost one out, each with a gap among its
children. Another group in the same place changes the plan of the tree only by what it is
to its parent, and a count of the groups only by what stands at the place and below it. -/

namespace GroupPlan

/-- A group with a gap among its children. -/
structure Gap (P C : Type) where
  isOptional : Bool
  patterns : UniqueList P
  filters : UniqueList C
  before : List (PatternGroup P C)
  after : List (PatternGroup P C)

variable {P C : Type}

namespace Gap

def fill (x : Gap P C) (c : PatternGroup P C) : PatternGroup P C :=
  ⟨x.isOptional, x.patterns, x.filters, x.before ++ c :: x.after⟩

@[simp] theorem filters_fill (x : Gap P C) (c : PatternGroup P C) :
    (x.fill c).filters = x.filters := rfl

@[simp] theorem children_fill (x : Gap P C) (c : PatternGroup P C) :
    (x.fill c).children = x.before ++ c :: x.after := rfl

def hasLeft (x : Gap P C) : Bool :=
  PatternGroup.hasLeft ⟨x.isOptional, x.patterns, x.filters, x.before⟩

end Gap

namespace PatternGroup

/-- The tree with the group in a place. -/
def within (d : PatternGroup P C) (place : List (Gap P C)) : PatternGroup P C :=
  place.foldl (fun c x => x.fill c) d

@[simp] theorem within_nil (d : PatternGroup P C) : d.within [] = d := rfl

@[simp] theorem within_cons (d : PatternGroup P C) (x : Gap P C) (place : List (Gap P C)) :
    d.within (x :: place) = (x.fill d).within place := rfl

theorem within_append_singleton (d : PatternGroup P C) (place : List (Gap P C)) (x : Gap P C) :
    d.within (place ++ [x]) = x.fill (d.within place) := List.foldl_append

theorem mem_subtree_fill (x : Gap P C) (d : PatternGroup P C) : d ∈ (x.fill d).subtree :=
  mem_subtree_of_child (List.mem_append_right x.before List.mem_cons_self) d.self_mem_subtree

theorem mem_subtree_iff_within {g d : PatternGroup P C} :
    d ∈ g.subtree ↔ ∃ place, d.within place = g := by
  constructor
  · intro below
    induction g with
    | group o ps fs cs ih =>
      rw [subtree_eq, List.mem_cons, List.mem_flatMap] at below
      rcases below with rfl | ⟨c, child, below⟩
      · exact ⟨[], rfl⟩
      · obtain ⟨place, stands⟩ := ih c child below
        obtain ⟨before, after, split⟩ := List.append_of_mem child
        refine ⟨place ++ [⟨o, ps, fs, before, after⟩], ?_⟩
        rw [within_append_singleton, stands]
        exact PatternGroup.ext rfl rfl rfl split.symm
  · rintro ⟨place, rfl⟩
    induction place generalizing d with
    | nil => exact d.self_mem_subtree
    | cons x place ih => exact mem_subtree_trans ih (mem_subtree_fill x d)

/-- The group in the place finds something to its left in its parent. The root does not. -/
def IsFolded (place : List (Gap P C)) : Prop := ∃ x outer, place = x :: outer ∧ x.hasLeft

theorem isFolded_cons {x : Gap P C} {place : List (Gap P C)} :
    IsFolded (x :: place) ↔ x.hasLeft := by
  simp [IsFolded]

section Replacing

variable {c d : PatternGroup P C}

theorem Replaces.refl (c : PatternGroup P C) : c.Replaces c := ⟨fun _ => rfl, rfl⟩

theorem Replaces.of_blank (blank : c.contributes = false) (blank' : d.contributes = false) :
    d.Replaces c where
  attached lhs := by rw [attach_of_blank lhs blank, attach_of_blank lhs blank']
  started := by rw [plan?_of_blank blank, plan?_of_blank blank']

theorem Thinned.around {R : PatternGroup P C → PatternGroup P C → Prop} (alike : ∀ e, R e e)
    (here : R c d) (before after : List (PatternGroup P C)) :
    Thinned R (before ++ c :: after) (before ++ d :: after) := by
  induction before with
  | nil => exact .keep here (.refl fun e _ => alike e)
  | cons e before ih => exact .keep (alike e) ih

theorem Replaces.fill (x : Gap P C) (same : d.Replaces c) : (x.fill d).Replaces (x.fill c) :=
  have children := Thinned.around (R := fun c d => d.Replaces c) Replaces.refl same x.before x.after
  .of_planWith? rfl rfl fun use => children.planWith?_eq use

theorem Replaces.fill_of_first {x : Gap P C} (alone : x.hasLeft = false)
    (started : d.plan? = c.plan?) : (x.fill d).Replaces (x.fill c) := by
  obtain ⟨bare, blank⟩ := hasLeft_eq_false_iff.mp alone
  have unopened : x.before.any contributes = false := by simpa using blank
  refine .of_planWith? rfl rfl fun use => ?_
  have planned (e : PatternGroup P C) :
      (x.fill e).planWith? use = planFrom? x.filters.toList (e :: x.after) := by
    have bare' : (x.fill e).patterns.toList = [] := bare
    rw [planWith?_of_noPatterns use bare', x.filters_fill, x.children_fill, planFrom?_append,
      unopened, if_neg Bool.false_ne_true]
  rw [planned, planned, planFrom?_cons, planFrom?_cons, ← plan?_eq, ← plan?_eq, started]

theorem Replaces.within (place : List (Gap P C)) (same : d.Replaces c) :
    (d.within place).Replaces (c.within place) := by
  induction place generalizing c d with
  | nil => exact same
  | cons x place ih => exact ih (same.fill x)

theorem plan?_within_of_not_isFolded {place : List (Gap P C)} (first : ¬IsFolded place)
    (started : d.plan? = c.plan?) : (d.within place).plan? = (c.within place).plan? := by
  cases place with
  | nil => exact started
  | cons x place =>
    rw [isFolded_cons, Bool.not_eq_true] at first
    exact ((Replaces.fill_of_first first started).within place).started

end Replacing

section Counting

variable {c d : PatternGroup P C}

theorem contributes_fill_congr (x : Gap P C) (held : d.contributes = c.contributes) :
    (x.fill d).contributes = (x.fill c).contributes := by
  rw [contributes_eq, contributes_eq (x.fill c), x.children_fill, x.children_fill, List.any_append,
    List.any_append, List.any_cons, List.any_cons, held]
  rfl

theorem contributes_within_congr (place : List (Gap P C)) (held : d.contributes = c.contributes) :
    (d.within place).contributes = (c.within place).contributes := by
  induction place generalizing c d with
  | nil => exact held
  | cons x place ih => exact ih (contributes_fill_congr x held)

theorem allPatterns_within_congr (place : List (Gap P C))
    (same : d.allPatterns = c.allPatterns) :
    (d.within place).allPatterns = (c.within place).allPatterns := by
  induction place generalizing c d with
  | nil => exact same
  | cons x place ih =>
    refine ih ?_
    rw [allPatterns_eq, allPatterns_eq (x.fill c), x.children_fill, x.children_fill,
      List.flatMap_append, List.flatMap_append, List.flatMap_cons, List.flatMap_cons, same]
    rfl

theorem descendants_fill (x : Gap P C) (c : PatternGroup P C) :
    (x.fill c).descendants =
      descendantsEach (!x.patterns.isEmpty) x.before ++
        ⟨c, x.hasLeft⟩ ::
          (c.descendants ++ descendantsEach (x.hasLeft || c.contributes) x.after) := by
  rw [descendants_eq, Gap.fill, descendantsEach_append, descendantsEach]
  rfl

variable {test : Occurrence P C → Bool}

theorem countP_descendants_fill {x : Gap P C} {n : Nat} (held : d.contributes = c.contributes)
    (more : (⟨d, x.hasLeft⟩ :: d.descendants : List (Occurrence P C)).countP test =
      (⟨c, x.hasLeft⟩ :: c.descendants : List (Occurrence P C)).countP test + n) :
    (x.fill d).descendants.countP test = (x.fill c).descendants.countP test + n := by
  rw [List.countP_cons, List.countP_cons] at more
  rw [descendants_fill, descendants_fill, held, List.countP_append, List.countP_append,
    List.countP_cons, List.countP_cons, List.countP_append, List.countP_append]
  omega

/-- What one group has more than another, at the place and below it, is what the whole tree has
more, if the groups further up pass the test with the one as with the other. -/
theorem countP_descendants_within
    (steady : ∀ (x : Gap P C) (c d : PatternGroup P C) (folded : Bool),
      d.contributes = c.contributes → test ⟨x.fill d, folded⟩ = test ⟨x.fill c, folded⟩)
    {x : Gap P C} {n : Nat} (place : List (Gap P C)) (held : d.contributes = c.contributes)
    (more : (⟨d, x.hasLeft⟩ :: d.descendants : List (Occurrence P C)).countP test =
      (⟨c, x.hasLeft⟩ :: c.descendants : List (Occurrence P C)).countP test + n) :
    (d.within (x :: place)).descendants.countP test =
      (c.within (x :: place)).descendants.countP test + n := by
  induction place generalizing x c d with
  | nil => exact countP_descendants_fill held more
  | cons y place ih =>
    have below := countP_descendants_fill held more
    rw [d.within_cons, c.within_cons]
    refine ih (contributes_fill_congr x held) ?_
    rw [List.countP_cons, List.countP_cons, below, steady x c d y.hasLeft held]
    omega

end Counting

def withheldPlace : List (Gap Nat Nat) :=
  [⟨true, .ofList [1], .ofList [11], [], [required.insertPattern 3]⟩,
    ⟨false, ∅, .ofList [10], [optional, required.insertPattern 0], []⟩]

end PatternGroup

end GroupPlan
