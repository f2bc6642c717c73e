import GroupPlan.AssemblyError

/-! Conditions on solutions: filters, called atoms here, under conjunction.
`ofFilters` builds a condition from a list of filters with the last filter
outermost and on the left, so its atoms are the list read backwards. -/

namespace GroupPlan

inductive Condition (C : Type) where
  | atom (filter : C)
  | and (lhs rhs : Condition C)
deriving DecidableEq

namespace Condition

variable {C : Type}

def atoms : Condition C → List C
  | atom c => [c]
  | and lhs rhs => lhs.atoms ++ rhs.atoms

def render [ToString C] : Condition C → String
  | atom c => toString c
  | and lhs rhs => "(" ++ lhs.render ++ " && " ++ rhs.render ++ ")"

instance [ToString C] : ToString (Condition C) := ⟨render⟩

/-- Each further filter becomes the left operand over all filters before it. -/
def extend (base : Condition C) (cs : List C) : Condition C :=
  cs.foldl (fun acc c => and (atom c) acc) base

theorem atoms_extend (base : Condition C) (cs : List C) :
    (base.extend cs).atoms = cs.reverse ++ base.atoms := by
  induction cs generalizing base with
  | nil => rfl
  | cons c cs ih => simpa [extend, atoms] using ih (and (atom c) base)

def ofFilters : List C → Except AssemblyError (Condition C)
  | [] => .error .noConditions
  | c :: cs => .ok ((atom c).extend cs)

theorem ofFilters_eq_error_iff {cs : List C} {e : AssemblyError} :
    ofFilters cs = .error e ↔ cs = [] ∧ e = .noConditions := by
  cases cs <;> simp [ofFilters, eq_comm]

theorem atoms_of_ofFilters {cs : List C} {k : Condition C} (h : ofFilters cs = .ok k) :
    k.atoms = cs.reverse := by
  cases cs with
  | nil => cases h
  | cons c cs =>
    cases h
    simp [atoms_extend, atoms]

end Condition

end GroupPlan
