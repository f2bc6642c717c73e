/-! The two ways in which an assembly can fail for want of material. A group
checks for patterns and filters first, so planning a group meets neither, as
`PatternGroup.run_attemptPlanning` says. -/

namespace GroupPlan

inductive AssemblyError where
  | noPatterns
  | noConditions
deriving DecidableEq

def AssemblyError.message : AssemblyError → String
  | noPatterns => "Can't build a join of zero patterns."
  | noConditions => "Can't build a conjunction of zero conditions."

instance : ToString AssemblyError := ⟨AssemblyError.message⟩

end GroupPlan
