import GroupPlan.Proofs.PlanSolutions
import Mathlib.Data.Multiset.Fintype

/-! What an optional child does to the rows before it. A left join keeps every row of
its left table, extended by a partner or as it is, so each row has a row of its own
among the results, and so it has after any number of optional children. -/

namespace GroupPlan

open scoped Classical

variable {P C V T : Type}

namespace Solution

def IsExtendedBy (s t : Solution V T) : Prop := ∀ v a, s v = some a → t v = some a

theorem IsExtendedBy.refl (s : Solution V T) : s.IsExtendedBy s := fun _ _ bound => bound

theorem IsExtendedBy.trans {s t u : Solution V T} (first : s.IsExtendedBy t)
    (second : t.IsExtendedBy u) : s.IsExtendedBy u :=
  fun v a bound => second v a (first v a bound)

theorem isExtendedBy_union (s t : Solution V T) : s.IsExtendedBy (s.union t) := by
  intro v a bound
  rw [union, bound, Option.some_or]

end Solution

namespace Table

/-- Each occurrence of a row of the first table has an occurrence of its own in the second, of a
row that extends it. -/
def IsExtendedBy (A B : Table V T) : Prop :=
  ∃ f : A → B, Function.Injective f ∧ ∀ s : A, s.1.IsExtendedBy (f s).1

theorem IsExtendedBy.refl (A : Table V T) : A.IsExtendedBy A :=
  ⟨id, Function.injective_id, fun s => .refl s.1⟩

theorem IsExtendedBy.trans {A B D : Table V T} (first : A.IsExtendedBy B)
    (second : B.IsExtendedBy D) : A.IsExtendedBy D := by
  obtain ⟨f, injective, extends_⟩ := first
  obtain ⟨g, injective', extends'⟩ := second
  exact ⟨g ∘ f, injective'.comp injective, fun s => (extends_ s).trans (extends' (f s))⟩

theorem exists_injective_of_le {A B : Table V T} (le : A ≤ B) :
    ∃ f : A → B, Function.Injective f ∧ ∀ s : A, (f s).1 = s.1 := by
  have fits : ∀ s, A.count s ≤ B.count s := fun s => Multiset.count_le_of_le s le
  exact ⟨Sigma.map id fun s => Fin.castLE (fits s),
    Function.injective_id.sigma_map fun s => Fin.castLE_injective (fits s), fun _ => rfl⟩

theorem isExtendedBy_of_map_le {A B : Table V T} {u : Solution V T → Solution V T}
    (extended : ∀ s ∈ A, s.IsExtendedBy (u s)) (le : A.map u ≤ B) : A.IsExtendedBy B := by
  obtain ⟨f, injective, same⟩ := exists_injective_of_le le
  refine ⟨f ∘ A.mapEquiv u, injective.comp (A.mapEquiv u).injective, fun s => ?_⟩
  rw [Function.comp_apply, same, Multiset.mapEquiv_apply]
  exact extended s Multiset.coe_mem

theorem exists_mem_kept (test : Solution V T → Prop) (B : Table V T) (s : Solution V T) :
    ∃ t ∈ kept test B s, s.IsExtendedBy t := by
  rw [kept]
  split
  · exact ⟨s, Multiset.mem_singleton_self s, .refl s⟩
  · next matched =>
    obtain ⟨t, passed⟩ := Multiset.exists_mem_of_ne_zero matched
    obtain ⟨r, -, rfl⟩ := Multiset.mem_map.mp (Multiset.mem_of_mem_filter passed)
    exact ⟨s.union r, passed, s.isExtendedBy_union r⟩

theorem isExtendedBy_leftJoin (test : Solution V T → Prop) (A B : Table V T) :
    A.IsExtendedBy (leftJoin test A B) := by
  choose u mem extended using exists_mem_kept (V := V) (T := T) test B
  refine isExtendedBy_of_map_le (fun s _ => extended s) ?_
  rw [leftJoin_eq_bind]
  induction A using Multiset.induction_on with
  | empty => exact le_refl _
  | cons s A ih =>
    rw [Multiset.map_cons, Multiset.cons_bind, ← Multiset.singleton_add]
    exact add_le_add (Multiset.singleton_le.mpr (mem s)) ih

end Table

namespace PatternGroup

variable (M : Interpretation P C V T) (reading : EmptyReading)

theorem isExtendedBy_attach (lhs : Plan P C) {c : PatternGroup P C}
    (optional : c.isOptional = true) :
    (lhs.solutions M reading).IsExtendedBy ((attach lhs c).solutions M reading) := by
  rcases attach_cases lhs c with ⟨-, same⟩ | ⟨rhs, required, -, -⟩ | ⟨rhs, -, -, -, joined⟩ |
    ⟨rhs, k, -, -, -, joined⟩
  · rw [same]
    exact .refl _
  · rw [optional] at required
    cases required
  · rw [joined, Plan.solutions]
    exact Table.isExtendedBy_leftJoin _ _ _
  · rw [joined, Plan.solutions]
    exact Table.isExtendedBy_leftJoin _ _ _

theorem isExtendedBy_foldl_attach (lhs : Plan P C) {cs : List (PatternGroup P C)}
    (optional : ∀ c ∈ cs, c.isOptional = true) :
    (lhs.solutions M reading).IsExtendedBy ((cs.foldl attach lhs).solutions M reading) := by
  induction cs generalizing lhs with
  | nil => exact .refl _
  | cons c cs ih =>
    rw [List.forall_mem_cons] at optional
    exact (isExtendedBy_attach M reading lhs optional.1).trans (ih _ optional.2)

/-- Further optional children remove no solution of the group that they are added to: each has a
solution of its own afterwards, which extends it. -/
theorem solutions_isExtendedBy_of_optional {g : PatternGroup P C} {cs : List (PatternGroup P C)}
    (left : g.hasLeft) (optional : ∀ c ∈ cs, c.isOptional = true) :
    ∃ e e', g.plan? = some e ∧ (cs.foldl pushChild g).plan? = some e' ∧
      (e.solutions M reading).IsExtendedBy (e'.solutions M reading) := by
  obtain ⟨e, planned⟩ := exists_plan? (contributes_of_hasLeft left)
  refine ⟨e, cs.foldl attach e, planned, ?_, isExtendedBy_foldl_attach M reading e optional⟩
  rw [plan?_foldl_pushChild cs left, planned, Option.map_some]

def singlePattern : PatternGroup Nat Nat := required.insertPattern 0

def optionalSample : List (PatternGroup Nat Nat) :=
  [(optional.insertPattern 1).insertFilter 13,
    optional.insertFilter 14,
    (optional.insertFilter 12).pushChild ((optional.insertPattern 2).insertFilter 11),
    optional]

def twinInterpretation : Interpretation Nat Nat Nat Nat where
  rows p := Multiset.replicate 2 fun v => if v ≤ p then some v else none
  Satisfies c s := (s (c - 10)).isSome

theorem isExtendedBy_optionalSample :
    singlePattern.hasLeft ∧ (∀ c ∈ optionalSample, c.isOptional = true) ∧
      ∃ e e', singlePattern.plan? = some e ∧
        (optionalSample.foldl pushChild singlePattern).plan? = some e' ∧
        (e.solutions twinInterpretation .noSolution).IsExtendedBy
          (e'.solutions twinInterpretation .noSolution) :=
  have left : singlePattern.hasLeft := by decide
  have optional : ∀ c ∈ optionalSample, c.isOptional = true := by decide
  ⟨left, optional, solutions_isExtendedBy_of_optional twinInterpretation .noSolution left optional⟩

end PatternGroup

end GroupPlan
