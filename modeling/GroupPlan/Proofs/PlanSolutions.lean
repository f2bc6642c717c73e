import GroupPlan.Proofs.Attachment
import GroupPlan.Proofs.ListEncoding
import GroupPlan.Proofs.Solutions

/-! The solutions of a plan. An interpretation says which table a pattern stands for and
which solutions satisfy a filter; every node of a plan is then one operation on
tables, and the plan of no pattern is read as a table without rows or as the unit. -/

namespace GroupPlan

open scoped Classical

variable {P C V T : Type}

structure Interpretation (P C V T : Type) where
  rows : P → Table V T
  Satisfies : C → Solution V T → Prop

namespace Interpretation

variable (M : Interpretation P C V T)

/-- The join of all patterns of a list; that of no pattern is the unit. -/
noncomputable def joinAll (ps : List P) : Table V T :=
  ps.foldl (fun acc p => Table.join acc (M.rows p)) Table.unit

def HoldsAll (fs : List C) (s : Solution V T) : Prop := ∀ c ∈ fs, M.Satisfies c s

@[simp] theorem holdsAll_nil (s : Solution V T) : M.HoldsAll [] s := by
  intro c hc
  cases hc

theorem holdsAll_cons (c : C) (fs : List C) (s : Solution V T) :
    M.HoldsAll (c :: fs) s ↔ M.Satisfies c s ∧ M.HoldsAll fs s := by
  simp [HoldsAll]

theorem filter_holdsAll_nil (A : Table V T) : A.filter (M.HoldsAll []) = A :=
  Multiset.filter_eq_self.mpr fun s _ => M.holdsAll_nil s

end Interpretation

def Condition.Holds (M : Interpretation P C V T) : Condition C → Solution V T → Prop
  | atom c, s => M.Satisfies c s
  | and lhs rhs, s => lhs.Holds M s ∧ rhs.Holds M s

theorem Condition.holds_iff_atoms (M : Interpretation P C V T) (k : Condition C)
    (s : Solution V T) : k.Holds M s ↔ M.HoldsAll k.atoms s := by
  induction k with
  | atom c => simp [Holds, atoms, Interpretation.HoldsAll]
  | and lhs rhs left right =>
    rw [Holds, left, right, atoms]
    simp [Interpretation.HoldsAll, or_imp, forall_and]

theorem Condition.holds_of_ofFilters (M : Interpretation P C V T) {fs : List C} {k : Condition C}
    (conjoined : Condition.ofFilters fs = .ok k) (s : Solution V T) :
    k.Holds M s ↔ M.HoldsAll fs s := by
  rw [holds_iff_atoms, atoms_of_ofFilters conjoined]
  simp [Interpretation.HoldsAll]

def EmptyReading.solutions : EmptyReading → Table V T
  | noSolution => 0
  | unitSolution => Table.unit

theorem EmptyReading.solutions_le_unit (reading : EmptyReading) :
    (reading.solutions : Table V T) ≤ Table.unit := by
  cases reading with
  | noSolution => exact Multiset.zero_le _
  | unitSolution => exact le_refl _

namespace Plan

variable (M : Interpretation P C V T) (reading : EmptyReading)

noncomputable def solutions : Plan P C → Table V T
  | pattern p => M.rows p
  | join lhs rhs => Table.join lhs.solutions rhs.solutions
  | leftJoin lhs rhs condition =>
    Table.leftJoin (fun s => ∀ k ∈ condition, k.Holds M s) lhs.solutions rhs.solutions
  | filter inner condition => inner.solutions.filter (condition.Holds M)
  | empty => reading.solutions

theorem solutions_leftJoin_none (lhs rhs : Plan P C) :
    (leftJoin lhs rhs none).solutions M reading =
      Table.leftJoin (M.HoldsAll []) (lhs.solutions M reading) (rhs.solutions M reading) := by
  rw [solutions]
  exact Table.leftJoin_congr (fun s => by simp) _ _

theorem solutions_leftJoin_some (lhs rhs : Plan P C) {fs : List C} {k : Condition C}
    (conjoined : Condition.ofFilters fs = .ok k) :
    (leftJoin lhs rhs (some k)).solutions M reading =
      Table.leftJoin (M.HoldsAll fs) (lhs.solutions M reading) (rhs.solutions M reading) := by
  rw [solutions]
  exact Table.leftJoin_congr (fun s => by simp [Condition.holds_of_ofFilters M conjoined]) _ _

theorem JoinsPatterns.solutions_eq {e : Plan P C} (chain : e.JoinsPatterns) :
    e.solutions M reading = M.joinAll e.leaves := by
  induction chain with
  | pattern p =>
    rw [leaves, Interpretation.joinAll, List.foldl_cons, Table.unit_join]
    rfl
  | join p _ left =>
    rw [solutions, left, leaves, leaves, Interpretation.joinAll, Interpretation.joinAll,
      List.foldl_append]
    rfl

theorem solutions_of_ofPatterns {ps : List P} {base : Plan P C}
    (joined : ofPatterns ps = .ok base) : base.solutions M reading = M.joinAll ps := by
  obtain ⟨chain, rfl⟩ := ofPatterns_eq_ok_iff.mp joined
  exact chain.solutions_eq M reading

theorem solutions_filterEach (base : Plan P C) (fs : List C) :
    (base.filterEach fs).solutions M reading =
      (base.solutions M reading).filter (M.HoldsAll fs) := by
  induction fs generalizing base with
  | nil => rw [filterEach_nil, M.filter_holdsAll_nil]
  | cons c fs ih =>
    rw [filterEach_cons, ih, solutions, Multiset.filter_filter]
    exact Multiset.filter_congr fun s _ => by
      rw [M.holdsAll_cons, and_comm]
      rfl

theorem solutions_filterAll (base : Plan P C) (fs : List C) :
    (base.filterAll fs).solutions M reading =
      (base.solutions M reading).filter (M.HoldsAll fs) := by
  by_cases unfiltered : fs = []
  · rw [unfiltered, filterAll_nil, M.filter_holdsAll_nil]
  · obtain ⟨k, conjoined⟩ := Condition.exists_ofFilters unfiltered
    rw [filterAll_of_ofFilters base conjoined, solutions]
    exact Multiset.filter_congr fun s _ => Condition.holds_of_ofFilters M conjoined s

/-- A group without a plan stands for the unit, which changes nothing it is joined to. -/
noncomputable def solutionsOrUnit (e? : Option (Plan P C)) : Table V T :=
  e?.elim Table.unit (solutions M reading)

end Plan

end GroupPlan
