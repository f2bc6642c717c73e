import GroupPlan.Proofs.PlanSolutions
import GroupPlan.Proofs.Rearrangement

/-! Equal groups mean the same. Their plans are rearranged, and the tables of patterns may
be joined in any order, as filters may be tried in any order, so the two plans have the
same solutions under every interpretation. -/

namespace GroupPlan

open scoped Classical

variable {P C V T : Type}

namespace Interpretation

variable (M : Interpretation P C V T)

theorem joinAll_perm {ps qs : List P} (perm : ps.Perm qs) : M.joinAll ps = M.joinAll qs :=
  perm.foldl_eq' (fun _ _ _ _ acc => Table.join_right_comm acc _ _) Table.unit

theorem holdsAll_perm {fs gs : List C} (perm : fs.Perm gs) : M.HoldsAll fs = M.HoldsAll gs := by
  funext s
  refine propext (forall_congr' fun c => ?_)
  rw [perm.mem_iff]

end Interpretation

theorem Plan.Rearranged.solutions_eq (M : Interpretation P C V T) (reading : EmptyReading)
    {e e' : Plan P C} (rearranged : e.Rearranged e') :
    e.solutions M reading = e'.solutions M reading := by
  induction rearranged with
  | ofPatterns perm joined joined' =>
    rw [Plan.solutions_of_ofPatterns M reading joined,
      Plan.solutions_of_ofPatterns M reading joined', M.joinAll_perm perm]
  | empty => rfl
  | filterEach perm _ inner =>
    rw [Plan.solutions_filterEach, Plan.solutions_filterEach, inner, M.holdsAll_perm perm]
  | filterAll perm _ inner =>
    rw [Plan.solutions_filterAll, Plan.solutions_filterAll, inner, M.holdsAll_perm perm]
  | join _ _ left right => rw [Plan.solutions, Plan.solutions, left, right]
  | leftJoin _ _ left right => rw [Plan.solutions, Plan.solutions, left, right]
  | conditioned _ _ perm conjoined conjoined' left right =>
    rw [Plan.solutions_leftJoin_some M reading _ _ conjoined,
      Plan.solutions_leftJoin_some M reading _ _ conjoined', left, right, M.holdsAll_perm perm]

namespace PatternGroup

variable [DecidableEq P] [DecidableEq C]

theorem solutions_eq_of_beq {g h : PatternGroup P C} (same : (g == h) = true) :
    (g.plan? = none ∧ h.plan? = none) ∨
      ∃ e e', g.plan? = some e ∧ h.plan? = some e' ∧
        ∀ (V T : Type) (M : Interpretation P C V T) (reading : EmptyReading),
          e.solutions M reading = e'.solutions M reading := by
  rcases plan?_cases_of_beq same with unplanned | ⟨e, e', planned, planned', rearranged⟩
  · exact .inl unplanned
  · exact .inr ⟨e, e', planned, planned', fun V T M reading => rearranged.solutions_eq M reading⟩

theorem solutions_orderedSample :
    (orderedSample id == orderedSample List.reverse) = true ∧
      ∃ e e', (orderedSample id).plan? = some e ∧ (orderedSample List.reverse).plan? = some e' ∧
        e ≠ e' ∧ ∀ (V T : Type) (M : Interpretation Nat Nat V T) (reading : EmptyReading),
          e.solutions M reading = e'.solutions M reading := by
  have same : (orderedSample id == orderedSample List.reverse) = true := by decide
  have held : (orderedSample id).plan? ≠ none := by decide
  have differ : (orderedSample id).plan? ≠ (orderedSample List.reverse).plan? := by decide
  refine ⟨same, ?_⟩
  rcases solutions_eq_of_beq same with ⟨unplanned, -⟩ | ⟨e, e', planned, planned', equal⟩
  · exact absurd unplanned held
  · rw [planned, planned'] at differ
    exact ⟨e, e', planned, planned', mt (congrArg some) differ, equal⟩

end PatternGroup

end GroupPlan
