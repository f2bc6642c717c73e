import GroupPlan.Plan.Nodes

/-! Conditions and joins of patterns as lists. A list of filters makes a condition with
a single filter on the left of every conjunction, a list of patterns makes a plan with
a single pattern on the right of every join. Both shapes are encodings of the non-empty
lists: what is made has the shape and is read back, and whatever has the shape is made
from what is read off it, and from nothing else. -/

namespace GroupPlan

variable {P C : Type}

namespace Condition

/-- Every conjunction has a single filter on its left. -/
def LeftAtomic : Condition C → Prop
  | atom _ => True
  | and lhs rhs => (∃ c, lhs = atom c) ∧ rhs.LeftAtomic

theorem leftAtomic_extend {base : Condition C} (cs : List C) (chain : base.LeftAtomic) :
    (base.extend cs).LeftAtomic := by
  induction cs generalizing base with
  | nil => exact chain
  | cons c cs ih => exact ih ⟨⟨c, rfl⟩, chain⟩

theorem leftAtomic_of_ofFilters {fs : List C} {k : Condition C} (conjoined : ofFilters fs = .ok k) :
    k.LeftAtomic := by
  cases fs with
  | nil => cases conjoined
  | cons c fs =>
    cases conjoined
    exact leftAtomic_extend fs trivial

theorem ofFilters_append_singleton {cs : List C} {k : Condition C} (c : C)
    (conjoined : ofFilters cs = .ok k) : ofFilters (cs ++ [c]) = .ok (and (atom c) k) := by
  cases cs with
  | nil => cases conjoined
  | cons d ds =>
    cases conjoined
    rw [List.cons_append, ofFilters, extend, List.foldl_append]
    rfl

theorem ofFilters_reverse_atoms {k : Condition C} (chain : k.LeftAtomic) :
    ofFilters k.atoms.reverse = .ok k := by
  induction k with
  | atom c => rfl
  | and lhs rhs _ ih =>
    obtain ⟨⟨c, rfl⟩, chain⟩ := chain
    rw [atoms, atoms, List.singleton_append, List.reverse_cons]
    exact ofFilters_append_singleton c (ih chain)

theorem ofFilters_eq_ok_iff {cs : List C} {k : Condition C} :
    ofFilters cs = .ok k ↔ k.LeftAtomic ∧ k.atoms = cs.reverse := by
  constructor
  · intro conjoined
    exact ⟨leftAtomic_of_ofFilters conjoined, atoms_of_ofFilters conjoined⟩
  · rintro ⟨chain, atoms⟩
    rw [← ofFilters_reverse_atoms chain, atoms, List.reverse_reverse]

end Condition

namespace Plan

/-- Patterns alone, and on the right of every join a single one. -/
inductive JoinsPatterns : Plan P C → Prop where
  | pattern (p : P) : JoinsPatterns (.pattern p)
  | join {lhs : Plan P C} (p : P) : JoinsPatterns lhs → JoinsPatterns (.join lhs (.pattern p))

theorem joinsPatterns_joinEach {base : Plan P C} (ps : List P) (chain : base.JoinsPatterns) :
    (base.joinEach ps).JoinsPatterns := by
  induction ps generalizing base with
  | nil => exact chain
  | cons p ps ih => exact ih (.join p chain)

theorem joinsPatterns_of_ofPatterns {ps : List P} {e : Plan P C} (joined : ofPatterns ps = .ok e) :
    e.JoinsPatterns := by
  cases ps with
  | nil => cases joined
  | cons p ps =>
    cases joined
    exact joinsPatterns_joinEach ps (.pattern p)

theorem ofPatterns_append_singleton {ps : List P} {e : Plan P C} (p : P)
    (joined : ofPatterns ps = .ok e) : ofPatterns (ps ++ [p]) = .ok (join e (pattern p)) := by
  cases ps with
  | nil => cases joined
  | cons q qs =>
    cases joined
    rw [List.cons_append, ofPatterns, joinEach, List.foldl_append]
    rfl

theorem ofPatterns_leaves {e : Plan P C} (chain : e.JoinsPatterns) :
    ofPatterns e.leaves = .ok e := by
  induction chain with
  | pattern p => rfl
  | join p _ ih => exact ofPatterns_append_singleton p ih

theorem JoinsPatterns.eq_of_leaves_eq {e e' : Plan P C} (chain : e.JoinsPatterns)
    (chain' : e'.JoinsPatterns) (same : e.leaves = e'.leaves) : e = e' := by
  have made := ofPatterns_leaves chain
  rwa [same, ofPatterns_leaves chain', Except.ok.injEq, eq_comm] at made

theorem ofPatterns_eq_ok_iff {ps : List P} {e : Plan P C} :
    ofPatterns ps = .ok e ↔ e.JoinsPatterns ∧ e.leaves = ps := by
  constructor
  · intro joined
    exact ⟨joinsPatterns_of_ofPatterns joined, leaves_of_ofPatterns joined⟩
  · rintro ⟨chain, rfl⟩
    exact ofPatterns_leaves chain

end Plan

/-- The assembly fails on the empty list and makes of any other a value of the shape, from which the
list is read in the order given. Each value of the shape is made from what is read off it. -/
structure Encodes {A B : Type} (assembly : List A → Except AssemblyError B)
    (failure : AssemblyError) (shape : B → Prop) (read : B → List A)
    (order : List A → List A) : Prop where
  fails_iff (xs : List A) : assembly xs = .error failure ↔ xs = []
  reads (xs : List A) (held : xs ≠ []) :
    ∃ b, assembly xs = .ok b ∧ read b = order xs ∧ shape b
  recovers (b : B) (shaped : shape b) : assembly (order (read b)) = .ok b

theorem Encodes.of_iff {A B : Type} {assembly : List A → Except AssemblyError B}
    {failure : AssemblyError} {shape : B → Prop} {read : B → List A} {order : List A → List A}
    (fails : ∀ {xs e}, assembly xs = .error e ↔ xs = [] ∧ e = failure)
    (makes : ∀ {xs b}, assembly xs = .ok b ↔ shape b ∧ read b = order xs)
    (twice : ∀ xs, order (order xs) = xs) : Encodes assembly failure shape read order := by
  refine ⟨fun xs => ?_, fun xs held => ?_, fun b shaped => ?_⟩
  · rw [fails, and_iff_left rfl]
  · cases made : assembly xs with
    | error e => exact absurd (fails.mp made).1 held
    | ok b =>
      obtain ⟨shaped, same⟩ := makes.mp made
      exact ⟨b, rfl, same, shaped⟩
  · exact makes.mpr ⟨shaped, (twice _).symm⟩

theorem encodes_ofFilters_and_ofPatterns :
    Encodes (Condition.ofFilters (C := C)) .noConditions Condition.LeftAtomic Condition.atoms
        List.reverse ∧
      Encodes (Plan.ofPatterns (P := P) (C := C)) .noPatterns Plan.JoinsPatterns Plan.leaves id :=
  ⟨.of_iff Condition.ofFilters_eq_error_iff Condition.ofFilters_eq_ok_iff List.reverse_reverse,
    .of_iff Plan.ofPatterns_eq_error_iff Plan.ofPatterns_eq_ok_iff fun _ => rfl⟩

end GroupPlan
