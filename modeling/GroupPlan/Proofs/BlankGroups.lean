import GroupPlan.Proofs.Attachment

/-! Groups that hold no pattern and no filter at any depth leave no mark on a plan, wherever
they stand. What a child does to the plan of its parent is done by attaching it or by
starting from it, so a child may be replaced by one that does both alike, and a child
that contributes nothing may be deleted; the induction on the tree puts the two together. -/

namespace GroupPlan.PatternGroup

variable {P C : Type}

/-- A parent has the same plan with `d` in the place of `c`. -/
structure Replaces (d c : PatternGroup P C) : Prop where
  attached : ∀ lhs, attach lhs d = attach lhs c
  started : d.plan? = c.plan?

theorem Replaces.of_planWith? {c d : PatternGroup P C} (flags : d.isOptional = c.isOptional)
    (filters : d.filters = c.filters) (plans : ∀ use, d.planWith? use = c.planWith? use) :
    d.Replaces c where
  attached lhs := by
    have conditions : d.joinCondition? = c.joinCondition? := by
      rw [joinCondition?, joinCondition?, flags, filters]
    rw [attach, attach, conditions, plans, plans, flags]
  started := plans .applied

/-- The second list is the first without some groups that contribute nothing, the groups that
stay being related to those that come in their places. -/
inductive Thinned (R : PatternGroup P C → PatternGroup P C → Prop) :
    List (PatternGroup P C) → List (PatternGroup P C) → Prop where
  | nil : Thinned R [] []
  | drop {c : PatternGroup P C} {cs ds : List (PatternGroup P C)} (blank : c.contributes = false)
    (rest : Thinned R cs ds) : Thinned R (c :: cs) ds
  | keep {c d : PatternGroup P C} {cs ds : List (PatternGroup P C)} (here : R c d)
    (rest : Thinned R cs ds) : Thinned R (c :: cs) (d :: ds)

namespace Thinned

variable {R S : PatternGroup P C → PatternGroup P C → Prop} {cs ds : List (PatternGroup P C)}

theorem imp (thinned : Thinned R cs ds) (weaken : ∀ c ∈ cs, ∀ d, R c d → S c d) :
    Thinned S cs ds := by
  induction thinned with
  | nil => exact .nil
  | drop blank _ ih =>
    rw [List.forall_mem_cons] at weaken
    exact .drop blank (ih weaken.2)
  | keep here _ ih =>
    rw [List.forall_mem_cons] at weaken
    exact .keep (weaken.1 _ here) (ih weaken.2)

theorem refl (alike : ∀ c ∈ cs, R c c) : Thinned R cs cs := by
  induction cs with
  | nil => exact .nil
  | cons c cs ih =>
    rw [List.forall_mem_cons] at alike
    exact .keep alike.1 (ih alike.2)

theorem of_blank (blank : ∀ c ∈ cs, c.contributes = false) : Thinned R cs [] := by
  induction cs with
  | nil => exact .nil
  | cons c cs ih =>
    rw [List.forall_mem_cons] at blank
    exact .drop blank.1 (ih blank.2)

theorem foldl_attach (thinned : Thinned (fun c d => d.Replaces c) cs ds) (lhs : Plan P C) :
    ds.foldl attach lhs = cs.foldl attach lhs := by
  induction thinned generalizing lhs with
  | nil => rfl
  | drop blank _ ih => rw [List.foldl_cons, attach_of_blank lhs blank, ih]
  | keep here _ ih => rw [List.foldl_cons, List.foldl_cons, here.attached, ih]

theorem planFrom?_eq (thinned : Thinned (fun c d => d.Replaces c) cs ds) (fs : List C) :
    planFrom? fs ds = planFrom? fs cs := by
  induction thinned with
  | nil => rfl
  | drop blank _ ih => rw [planFrom?_cons_of_blank fs _ blank, ih]
  | @keep c d cs ds here rest ih =>
    rw [planFrom?_cons, planFrom?_cons, ← plan?_eq, ← plan?_eq, here.started]
    cases c.plan? with
    | none => exact ih
    | some first => exact congrArg some (rest.foldl_attach _)

theorem planWith?_eq {o : Bool} {ps : UniqueList P} {fs : UniqueList C}
    (thinned : Thinned (fun c d => d.Replaces c) cs ds) (use : FilterUse) :
    planWith? use ⟨o, ps, fs, ds⟩ = planWith? use ⟨o, ps, fs, cs⟩ := by
  by_cases bare : ps.toList = []
  · rw [planWith?_of_noPatterns use bare, planWith?_of_noPatterns use bare]
    exact thinned.planFrom?_eq fs.toList
  · obtain ⟨base, joined⟩ := exists_ofPatterns (C := C) bare
    rw [planWith?_of_ofPatterns use joined, planWith?_of_ofPatterns use joined]
    exact congrArg some (thinned.foldl_attach _)

end Thinned

/-- The second group is the first without some groups below the root, at any depth, that
contribute nothing. Read backwards, such groups are inserted. -/
inductive Trimmed : PatternGroup P C → PatternGroup P C → Prop where
  | node {o : Bool} {ps : UniqueList P} {fs : UniqueList C} {cs ds : List (PatternGroup P C)}
    (children : Thinned Trimmed cs ds) : Trimmed ⟨o, ps, fs, cs⟩ ⟨o, ps, fs, ds⟩

theorem Trimmed.refl (g : PatternGroup P C) : g.Trimmed g := by
  induction g with
  | group o ps fs cs ih => exact .node (.refl ih)

theorem Trimmed.replaces {g h : PatternGroup P C} (trimmed : g.Trimmed h) : h.Replaces g := by
  induction g generalizing h with
  | group o ps fs cs ih =>
    cases trimmed with
    | node children =>
      have alike := children.imp fun c held d thinner => ih c held thinner
      exact .of_planWith? rfl rfl fun use => alike.planWith?_eq use

/-- Groups that contribute nothing are not seen in the plan. In particular a group, such as one
of filters alone, has one plan whether it has no children or only such groups. -/
theorem plan?_eq_of_trimmed :
    (∀ g h : PatternGroup P C, g.Trimmed h → h.plan? = g.plan?) ∧
      ∀ g : PatternGroup P C, (∀ c ∈ g.children, c.contributes = false) →
        g.plan? = ({ g with children := [] } : PatternGroup P C).plan? := by
  have same (g h : PatternGroup P C) (trimmed : g.Trimmed h) : h.plan? = g.plan? :=
    trimmed.replaces.started
  refine ⟨same, fun g blank => (same g { g with children := [] } ?_).symm⟩
  cases g with
  | mk o ps fs cs => exact .node (.of_blank blank)

def littered : PatternGroup Nat Nat :=
  ((required.insertFilter 10).pushChild (required.pushChild optional))
    |>.pushChild (((optional.insertFilter 11).pushChild optional).pushChild
      ((required.insertPattern 0).pushChild ((optional.insertFilter 12).pushChild required)))
    |>.pushChild (optional.insertPattern 1)

def tidied : PatternGroup Nat Nat :=
  (required.insertFilter 10)
    |>.pushChild ((optional.insertFilter 11).pushChild
      ((required.insertPattern 0).pushChild (optional.insertFilter 12)))
    |>.pushChild (optional.insertPattern 1)

theorem plan?_littered :
    littered.Trimmed tidied ∧ tidied.plan? = littered.plan? ∧
      littered.plan? = some (.leftJoin
        (.filter (.filter (.leftJoin (.pattern 0) (.filter .empty (.atom 12)) (some (.atom 12)))
          (.atom 11)) (.atom 10))
        (.pattern 1) none) ∧
      ((required.insertFilter 10).pushChild (optional.pushChild required) :
        PatternGroup Nat Nat).plan? = some (.filter .empty (.atom 10)) := by
  have filters : ((optional.insertFilter 12).pushChild required).Trimmed
      (optional.insertFilter 12 : PatternGroup Nat Nat) := .node (.drop rfl .nil)
  have trimmed : littered.Trimmed tidied :=
    .node (.drop rfl (.keep (.node (.drop rfl (.keep (.node (.keep filters .nil)) .nil)))
      (.keep (.refl _) .nil)))
  exact ⟨trimmed, plan?_eq_of_trimmed.1 _ _ trimmed, by decide,
    (plan?_eq_of_trimmed.2 _ (by decide)).trans (by decide)⟩

end GroupPlan.PatternGroup
