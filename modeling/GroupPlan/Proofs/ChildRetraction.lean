import GroupPlan.Proofs.EqualGroups

/-! What removing a child takes back. One call removes one child, the first that is equal
to the one looked for, and with it as many patterns as that one holds, since equal groups
hold equally many. Calls that are repeated until nothing is left to remove take out the
children equal to it and no others. A child that was just added is always found, and if it
had no equal before, removing it undoes the addition. -/

namespace GroupPlan.PatternGroup

variable {P C : Type}

theorem patternCount_eq_size_add (g : PatternGroup P C) :
    g.patternCount = g.patterns.size + (g.children.flatMap allPatterns).length := by
  rw [patternCount_eq_length, allPatterns_eq, List.length_append]
  rfl

variable [DecidableEq P] [DecidableEq C] {g h c : PatternGroup P C}
  {cs ds : List (PatternGroup P C)}

theorem eraseChild?_eq_none_iff :
    g.eraseChild? c = none ↔ ∀ d ∈ g.children, (d == c) = false := by
  rw [← Option.isNone_iff_eq_none, ← Option.not_isSome, eraseChild?_isSome]
  simp

/-- The second list is the first without its first group that is equal to `c`. -/
def CutsOut (c : PatternGroup P C) (cs ds : List (PatternGroup P C)) : Prop :=
  ∃ before d after, cs = before ++ d :: after ∧ ds = before ++ after ∧ (d == c) = true ∧
    ∀ b ∈ before, (b == c) = false

theorem cutsOut_eraseP (held : cs.any (· == c)) : CutsOut c cs (cs.eraseP (· == c)) := by
  obtain ⟨d, inside, same⟩ := List.any_eq_true.mp held
  obtain ⟨e, before, after, apart, equal, split, rest⟩ :=
    List.exists_of_eraseP (p := (· == c)) inside same
  exact ⟨before, e, after, split, rest, equal, fun b there => Bool.eq_false_iff.mpr (apart b there)⟩

namespace CutsOut

theorem length_eq (cut : CutsOut c cs ds) : cs.length = ds.length + 1 := by
  obtain ⟨before, d, after, rfl, rfl, -, -⟩ := cut
  simp [Nat.add_assoc]

theorem countP_eq (cut : CutsOut c cs ds) :
    cs.countP (· == c) = ds.countP (· == c) + 1 := by
  obtain ⟨before, d, after, rfl, rfl, same, -⟩ := cut
  simp [same, Nat.add_assoc]

theorem filter_eq (cut : CutsOut c cs ds) :
    (cs.filter fun d => !(d == c)) = ds.filter fun d => !(d == c) := by
  obtain ⟨before, d, after, rfl, rfl, same, -⟩ := cut
  simp [same]

theorem length_allPatterns_eq (cut : CutsOut c cs ds) :
    (cs.flatMap allPatterns).length = (ds.flatMap allPatterns).length + c.patternCount := by
  obtain ⟨before, d, after, rfl, rfl, same, -⟩ := cut
  rw [← patternCount_eq_of_beq same, patternCount_eq_length]
  simp only [List.flatMap_append, List.flatMap_cons, List.length_append]
  omega

end CutsOut

structure Retracts (g c h : PatternGroup P C) : Prop where
  isOptional : h.isOptional = g.isOptional
  patterns : h.patterns = g.patterns
  filters : h.filters = g.filters
  children : CutsOut c g.children h.children
  copies : g.children.countP (· == c) = h.children.countP (· == c) + 1
  patternCount : h.patternCount + c.patternCount = g.patternCount

theorem retracts_of_eraseChild? (removed : g.eraseChild? c = some h) : Retracts g c h := by
  rw [eraseChild?, Option.ite_none_right_eq_some, Option.some_inj] at removed
  obtain ⟨held, rfl⟩ := removed
  have cut := cutsOut_eraseP held
  refine ⟨rfl, rfl, rfl, cut, cut.countP_eq, ?_⟩
  rw [patternCount_eq_size_add g, cut.length_allPatterns_eq, patternCount_eq_size_add,
    Nat.add_assoc]

theorem length_children_lt_of_eraseChild? (removed : g.eraseChild? c = some h) :
    h.children.length < g.children.length := by
  rw [(retracts_of_eraseChild? removed).children.length_eq]
  exact Nat.lt_succ_self _

/-- Removes children until none is equal to `c`, and counts how many that were. -/
def eraseEvery (g c : PatternGroup P C) : Nat × PatternGroup P C :=
  match _removed : g.eraseChild? c with
  | none => (0, g)
  | some h =>
    let (later, rest) := h.eraseEvery c
    (later + 1, rest)
termination_by g.children.length
decreasing_by exact length_children_lt_of_eraseChild? _removed

theorem eraseEvery_eq (g c : PatternGroup P C) :
    g.eraseEvery c =
      (g.children.countP (· == c),
        { g with children := g.children.filter fun d => !(d == c) }) := by
  fun_induction eraseEvery g c with
  | case1 g missing =>
    have apart := eraseChild?_eq_none_iff.mp missing
    have none_equal : g.children.countP (· == c) = 0 :=
      List.countP_eq_zero.mpr fun d held => Bool.eq_false_iff.mp (apart d held)
    have all_kept : (g.children.filter fun d => !(d == c)) = g.children :=
      List.filter_eq_self.mpr fun d held => by rw [apart d held, Bool.not_false]
    rw [none_equal, all_kept]
    exact Prod.ext rfl (PatternGroup.ext rfl rfl rfl rfl)
  | case2 g h removed later rest run ih =>
    have there := retracts_of_eraseChild? removed
    rw [run, Prod.mk.injEq] at ih
    obtain ⟨rfl, rfl⟩ := ih
    rw [there.copies, there.children.filter_eq, there.isOptional, there.patterns, there.filters]

theorem eraseChild?_pushChild_isSome (g c : PatternGroup P C) :
    ((g.pushChild c).eraseChild? c).isSome := by
  rw [eraseChild?_isSome, pushChild, List.any_append]
  simp

theorem eraseChild?_pushChild (absent : ∀ d ∈ g.children, (d == c) = false) :
    (g.pushChild c).eraseChild? c = some g := by
  have found := eraseChild?_pushChild_isSome g c
  rw [eraseChild?_isSome] at found
  have back : (g.pushChild c).children.eraseP (· == c) = g.children := by
    rw [pushChild, List.eraseP_append_right _ fun d held => Bool.eq_false_iff.mp (absent d held)]
    simp
  rw [eraseChild?, if_pos found, back]
  exact congrArg some (PatternGroup.ext rfl rfl rfl rfl)

/-- A call removes one equal child if there is one and does nothing otherwise, repeated calls
remove every equal child, and a call right after an addition takes back what was added. -/
theorem eraseChild_retracts (g c : PatternGroup P C) :
    ((g.eraseChild? c).isSome ↔ ∃ d ∈ g.children, (d == c) = true) ∧
      (g.eraseChild? c = none → g.apply (.eraseChild c) = g) ∧
      (∀ h, g.eraseChild? c = some h → g.apply (.eraseChild c) = h ∧ Retracts g c h) ∧
      g.eraseEvery c =
        (g.children.countP (· == c),
          { g with children := g.children.filter fun d => !(d == c) }) ∧
      ((g.pushChild c).eraseChild? c).isSome ∧
      ((∀ d ∈ g.children, (d == c) = false) → (g.pushChild c).eraseChild? c = some g) := by
  refine ⟨?_, fun missing => ?_, fun h removed => ⟨?_, retracts_of_eraseChild? removed⟩,
    eraseEvery_eq g c, eraseChild?_pushChild_isSome g c, eraseChild?_pushChild⟩
  · rw [eraseChild?_isSome, List.any_eq_true]
  · rw [apply, missing, Option.getD_none]
  · rw [apply, removed, Option.getD_some]

def crowdedSample : PatternGroup Nat Nat :=
  (required.insertPattern 7)
    |>.pushChild (orderedSample List.reverse)
    |>.pushChild required
    |>.pushChild (orderedSample id)
    |>.pushChild { orderedSample id with isOptional := true }

theorem retracts_crowdedSample :
    (∃ h, crowdedSample.eraseChild? (orderedSample id) = some h ∧
        crowdedSample.apply (.eraseChild (orderedSample id)) = h ∧
        Retracts crowdedSample (orderedSample id) h ∧
        crowdedSample.patternCount = 13 ∧ h.patternCount = 9) ∧
      (crowdedSample.eraseEvery (orderedSample id)).1 = 2 ∧
      crowdedSample.eraseChild? optional = none ∧
      crowdedSample.apply (.eraseChild optional) = crowdedSample ∧
      (∀ d ∈ crowdedSample.children, (d == optional) = false) ∧
      (crowdedSample.pushChild optional).eraseChild? optional = some crowdedSample := by
  obtain ⟨-, -, found, repeated, -, -⟩ := eraseChild_retracts crowdedSample (orderedSample id)
  obtain ⟨-, unchanged, -, -, -, undone⟩ := eraseChild_retracts crowdedSample optional
  have removed : crowdedSample.eraseChild? (orderedSample id) = some
      { crowdedSample with children :=
        [required, orderedSample id, { orderedSample id with isOptional := true }] } := rfl
  have absent : ∀ d ∈ crowdedSample.children, (d == optional) = false := by decide
  have missing := eraseChild?_eq_none_iff.mpr absent
  refine ⟨⟨_, removed, (found _ removed).1, (found _ removed).2, by decide, by decide⟩, ?_, missing,
    unchanged missing, absent, undone absent⟩
  rw [repeated]
  decide

end GroupPlan.PatternGroup
