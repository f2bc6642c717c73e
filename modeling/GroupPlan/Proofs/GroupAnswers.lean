import GroupPlan.Proofs.PlanSolutions

/-! What a group asks for, read step by step: the patterns are joined, the children are
joined or left joined in order, and the filters are applied last; those of an
optional child are the test of its left join. Nothing here refers to plans. -/

namespace GroupPlan

open scoped Classical

variable {P C V T : Type}

/-- The table of a child, before its own filters, taken into the table so far. -/
noncomputable def Interpretation.combine (M : Interpretation P C V T) (acc : Table V T)
    (isOptional : Bool) (fs : List C) (right : Table V T) : Table V T :=
  if isOptional then Table.leftJoin (M.HoldsAll fs) acc right
  else Table.join acc (right.filter (M.HoldsAll fs))

namespace PatternGroup

variable (M : Interpretation P C V T)

mutual

/-- All steps but the last. -/
noncomputable def matched : PatternGroup P C → Table V T
  | ⟨_, ps, _, cs⟩ => matchedOnto (M.joinAll ps.toList) cs

noncomputable def matchedOnto (acc : Table V T) : List (PatternGroup P C) → Table V T
  | [] => acc
  | c :: cs => matchedOnto (M.combine acc c.isOptional c.filters.toList c.matched) cs

end

/-- The last step: the filters of the group. -/
noncomputable def answers (g : PatternGroup P C) : Table V T :=
  (g.matched M).filter (M.HoldsAll g.filters.toList)

theorem matchedOnto_eq_foldl (acc : Table V T) (cs : List (PatternGroup P C)) :
    matchedOnto M acc cs =
      cs.foldl (fun acc c => M.combine acc c.isOptional c.filters.toList (c.matched M)) acc := by
  induction cs generalizing acc with
  | nil => rfl
  | cons c cs ih => rw [matchedOnto, ih, List.foldl_cons]

theorem matched_eq (g : PatternGroup P C) :
    g.matched M = g.children.foldl
      (fun acc c => M.combine acc c.isOptional c.filters.toList (c.matched M))
      (M.joinAll g.patterns.toList) := by
  cases g
  rw [matched, matchedOnto_eq_foldl]

end PatternGroup

end GroupPlan
