import GroupPlan.Condition

/-! Plans: trees of joins, left joins and filters over patterns. `ofPatterns` joins
a list of patterns from the left. Filters are placed in one of two ways,
`filterEach` with one node per condition and `filterAll` with one node for their
conjunction. -/

namespace GroupPlan

inductive Plan (P C : Type) where
  | pattern (value : P)
  | join (lhs rhs : Plan P C)
  | leftJoin (lhs rhs : Plan P C) (condition : Option (Condition C))
  | filter (inner : Plan P C) (condition : Condition C)
  /-- The plan of no pattern, which filters without a pattern range over. -/
  | empty
deriving DecidableEq

/-- What the plan of no pattern is read as. -/
inductive EmptyReading where
  /-- A table without rows. -/
  | noSolution
  /-- The group without patterns, whose one solution binds no variable. -/
  | unitSolution
deriving DecidableEq

instance : Inhabited EmptyReading := ⟨.noSolution⟩

namespace Plan

variable {P C : Type}

def joinEach (base : Plan P C) (ps : List P) : Plan P C :=
  ps.foldl (fun acc p => join acc (pattern p)) base

@[simp] theorem joinEach_nil (base : Plan P C) : base.joinEach [] = base := rfl

@[simp] theorem joinEach_cons (base : Plan P C) (p : P) (ps : List P) :
    base.joinEach (p :: ps) = (join base (pattern p)).joinEach ps := rfl

def ofPatterns : List P → Except AssemblyError (Plan P C)
  | [] => .error .noPatterns
  | p :: ps => .ok ((pattern p).joinEach ps)

theorem ofPatterns_eq_error_iff {ps : List P} {e : AssemblyError} :
    ofPatterns (C := C) ps = .error e ↔ ps = [] ∧ e = .noPatterns := by
  cases ps <;> simp [ofPatterns, eq_comm]

/-- One filter node per condition; the first condition is innermost. -/
def filterEach (base : Plan P C) (cs : List C) : Plan P C :=
  cs.foldl (fun acc c => filter acc (.atom c)) base

@[simp] theorem filterEach_nil (base : Plan P C) : base.filterEach [] = base := rfl

@[simp] theorem filterEach_cons (base : Plan P C) (c : C) (cs : List C) :
    base.filterEach (c :: cs) = (filter base (.atom c)).filterEach cs := rfl

def filterAll (base : Plan P C) (cs : List C) : Plan P C :=
  match Condition.ofFilters cs with
  | .ok condition => filter base condition
  | .error _ => base

@[simp] theorem filterAll_nil (base : Plan P C) : base.filterAll [] = base := rfl

theorem filterAll_cons (base : Plan P C) (c : C) (cs : List C) :
    base.filterAll (c :: cs) = filter base ((Condition.atom c).extend cs) := rfl

end Plan

end GroupPlan
