import GroupPlan.PatternGroup.Basic
import GroupPlan.Rdf.Term

/-! The variables that the patterns of a group bind, in the order of their first
occurrence. The patterns of its children do not count. -/

namespace GroupPlan

namespace PatternGroup

open Rdf

variable {C : Type}

def boundVariables (g : PatternGroup TriplePattern C) : UniqueList Variable :=
  .ofList (g.patterns.toList.flatMap fun t => t.vars.toList)

theorem mem_boundVariables {g : PatternGroup TriplePattern C} {v : Variable} :
    v ∈ g.boundVariables ↔ ∃ t ∈ g.patterns, v ∈ t.vars := by
  simp [boundVariables]

end PatternGroup

end GroupPlan
