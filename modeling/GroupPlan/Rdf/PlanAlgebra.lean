import GroupPlan.PatternGroup.Planning
import GroupPlan.Rdf.Algebra

/-! Plans over triples as algebra. Every node becomes one node of its kind. Only the
plan of no pattern leaves a choice: a filter over it has no solution to keep, or the
one solution that binds nothing. -/

namespace GroupPlan

open Rdf

variable {P X R Y : Type}

def EmptyReading.toAlgebra : EmptyReading → QueryAlgebra P X R Y
  | noSolution => .values [] []
  | unitSolution => .bgp []

def Condition.toExpression : Condition (Expression X) → Expression X
  | .atom e => e
  | .and lhs rhs => .and lhs.toExpression rhs.toExpression

def Plan.toAlgebra (reading : EmptyReading) : Plan P (Expression X) → QueryAlgebra P X R Y
  | .pattern t => .bgp [t]
  | .join lhs rhs => .join (lhs.toAlgebra reading) (rhs.toAlgebra reading)
  | .leftJoin lhs rhs condition =>
    .leftJoin (lhs.toAlgebra reading) (rhs.toAlgebra reading)
      (condition.map Condition.toExpression)
  | .filter inner condition => .filter condition.toExpression (inner.toAlgebra reading)
  | .empty => reading.toAlgebra

def PatternGroup.toAlgebra? (reading : EmptyReading) (g : PatternGroup P (Expression X)) :
    Option (QueryAlgebra P X R Y) :=
  g.plan?.map (Plan.toAlgebra reading)

end GroupPlan
