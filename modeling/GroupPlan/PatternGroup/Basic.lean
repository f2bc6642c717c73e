import GroupPlan.UniqueList

/-! Groups of patterns, filters and nested groups. Patterns and filters are values
and are held once each; children are held as often as they are added, because
their order and number decide the shape of the plan. A group that is optional
extends the solutions of what stands before it and never removes one. -/

namespace GroupPlan

@[ext] structure PatternGroup (P C : Type) where
  isOptional : Bool
  patterns : UniqueList P
  filters : UniqueList C
  children : List (PatternGroup P C)

namespace PatternGroup

variable {P C : Type}

def required : PatternGroup P C := ⟨false, ∅, ∅, []⟩

def optional : PatternGroup P C := ⟨true, ∅, ∅, []⟩

instance : Inhabited (PatternGroup P C) := ⟨required⟩

@[elab_as_elim, induction_eliminator]
theorem induct {motive : PatternGroup P C → Prop}
    (group : ∀ isOptional patterns filters children, (∀ c ∈ children, motive c) →
      motive ⟨isOptional, patterns, filters, children⟩) (g : PatternGroup P C) : motive g :=
  @PatternGroup.rec P C motive (fun cs => ∀ c ∈ cs, motive c) group
    (fun _ h => absurd h List.not_mem_nil)
    (fun _ _ here there c hc => (List.mem_cons.mp hc).elim (fun h => h ▸ here) (there c)) g

/-- Nothing at all is held, not even an empty child. -/
def isEmpty (g : PatternGroup P C) : Bool :=
  g.patterns.isEmpty && g.filters.isEmpty && g.children.isEmpty

theorem isEmpty_iff {g : PatternGroup P C} :
    g.isEmpty ↔ g.patterns.toList = [] ∧ g.filters.toList = [] ∧ g.children = [] := by
  simp [isEmpty, UniqueList.isEmpty_iff, and_assoc]

def pushChild (g c : PatternGroup P C) : PatternGroup P C :=
  { g with children := g.children ++ [c] }

def clearFilters (g : PatternGroup P C) : PatternGroup P C :=
  { g with filters := ∅ }

def insertPattern [DecidableEq P] (g : PatternGroup P C) (p : P) : PatternGroup P C :=
  { g with patterns := g.patterns.insert p }

def insertPatterns [DecidableEq P] (g : PatternGroup P C) (ps : List P) : PatternGroup P C :=
  { g with patterns := g.patterns.insertAll ps }

theorem insertPatterns_eq_foldl [DecidableEq P] (g : PatternGroup P C) (ps : List P) :
    g.insertPatterns ps = ps.foldl insertPattern g := by
  induction ps generalizing g with
  | nil => exact PatternGroup.ext rfl rfl rfl rfl
  | cons p ps ih => exact ih (g.insertPattern p)

def insertFilter [DecidableEq C] (g : PatternGroup P C) (c : C) : PatternGroup P C :=
  { g with filters := g.filters.insert c }

def insertFilters [DecidableEq C] (g : PatternGroup P C) (cs : List C) : PatternGroup P C :=
  cs.foldl insertFilter g

theorem insertFilters_eq [DecidableEq C] (g : PatternGroup P C) (cs : List C) :
    g.insertFilters cs = { g with filters := g.filters.insertAll cs } := by
  induction cs generalizing g with
  | nil => exact PatternGroup.ext rfl rfl rfl rfl
  | cons c cs ih => exact ih (g.insertFilter c)

end PatternGroup

end GroupPlan
