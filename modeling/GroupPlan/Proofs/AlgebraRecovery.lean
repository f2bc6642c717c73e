import GroupPlan.Proofs.FilterAccounting
import GroupPlan.Rdf.PlanAlgebra
import Mathlib.Data.Set.Function

/-! What the algebra of a plan still tells of the plan. Nodes, their order and the triples
are all there; of a condition the expression is there, but not where its conjunctions
come from, which may be those of the condition or those inside an atom. Splitting every
atom at its conjunctions removes this difference, and only this one. -/

namespace GroupPlan

open Rdf

variable {P X R Y : Type}

namespace Condition

def ofExpression : Expression X → Condition (Expression X)
  | .and lhs rhs => and (ofExpression lhs) (ofExpression rhs)
  | .other e => atom (.other e)

def split : Condition (Expression X) → Condition (Expression X)
  | atom e => ofExpression e
  | and lhs rhs => and lhs.split rhs.split

theorem toExpression_ofExpression (e : Expression X) : (ofExpression e).toExpression = e := by
  induction e with
  | and lhs rhs left right => rw [ofExpression, toExpression, left, right]
  | other e => rfl

theorem ofExpression_toExpression (k : Condition (Expression X)) :
    ofExpression k.toExpression = k.split := by
  induction k with
  | atom e => rfl
  | and lhs rhs left right => rw [toExpression, ofExpression, left, right, split]

theorem toExpression_split (k : Condition (Expression X)) :
    k.split.toExpression = k.toExpression := by
  rw [← ofExpression_toExpression, toExpression_ofExpression]

theorem toExpression_comp_ofExpression :
    toExpression ∘ ofExpression = (id : Expression X → Expression X) :=
  funext toExpression_ofExpression

theorem ofExpression_comp_toExpression :
    ofExpression ∘ toExpression = (split : Condition (Expression X) → Condition (Expression X)) :=
  funext ofExpression_toExpression

theorem toExpression_comp_split :
    toExpression ∘ split = (toExpression : Condition (Expression X) → Expression X) :=
  funext toExpression_split

theorem split_eq_self {k : Condition (Expression X)}
    (apart : ∀ lhs rhs, .and lhs rhs ∉ k.atoms) : k.split = k := by
  induction k with
  | atom e =>
    cases e with
    | and lhs rhs => exact absurd (List.mem_singleton_self _) (apart lhs rhs)
    | other e => rfl
  | and lhs rhs left right =>
    simp only [atoms, List.mem_append, not_or] at apart
    rw [split, left fun a b => (apart a b).1, right fun a b => (apart a b).2]

end Condition

namespace Plan

section MapConditions

variable {C D : Type}

def mapConditions (f : Condition C → Condition D) : Plan P C → Plan P D
  | pattern p => pattern p
  | join lhs rhs => join (lhs.mapConditions f) (rhs.mapConditions f)
  | leftJoin lhs rhs condition =>
    leftJoin (lhs.mapConditions f) (rhs.mapConditions f) (condition.map f)
  | filter inner condition => filter (inner.mapConditions f) (f condition)
  | empty => empty

theorem mapConditions_eq_self {f : Condition C → Condition C} {e : Plan P C}
    (fixed : ∀ n ∈ e.nodes, ∀ k ∈ n.condition?, f k = k) : e.mapConditions f = e := by
  induction e with
  | pattern p => rfl
  | join lhs rhs left right =>
    simp only [mem_nodes_join, or_imp, forall_and] at fixed
    rw [mapConditions, left fixed.2.1, right fixed.2.2]
  | leftJoin lhs rhs condition left right =>
    simp only [mem_nodes_leftJoin, or_imp, forall_and, forall_eq] at fixed
    have same : condition.map f = condition := by
      cases condition with
      | none => rfl
      | some k => rw [Option.map_some, fixed.1 k rfl]
    rw [mapConditions, left fixed.2.1, right fixed.2.2, same]
  | filter inner condition ih =>
    simp only [mem_nodes_filter, or_imp, forall_and, forall_eq] at fixed
    rw [mapConditions, ih fixed.2, fixed.1 condition rfl]
  | empty => rfl

end MapConditions

variable {reading : EmptyReading}

theorem toAlgebra_mapConditions_split (e : Plan P (Expression X)) :
    ((e.mapConditions Condition.split).toAlgebra reading : QueryAlgebra P X R Y) =
      e.toAlgebra reading := by
  induction e with
  | pattern t => rfl
  | join lhs rhs left right => rw [mapConditions, toAlgebra, left, right, toAlgebra]
  | leftJoin lhs rhs condition left right =>
    rw [mapConditions, toAlgebra, left, right, Option.map_map, Condition.toExpression_comp_split,
      toAlgebra]
  | filter inner condition ih =>
    rw [mapConditions, toAlgebra, ih, Condition.toExpression_split, toAlgebra]
  | empty => rfl

/-- A plan for algebra of this form; whatever a plan does not become is taken for the plan of no
pattern. -/
def ofAlgebra : QueryAlgebra P X R Y → Plan P (Expression X)
  | .bgp [t] => pattern t
  | .join left right => join (ofAlgebra left) (ofAlgebra right)
  | .leftJoin left right condition =>
    leftJoin (ofAlgebra left) (ofAlgebra right) (condition.map Condition.ofExpression)
  | .filter condition inner => filter (ofAlgebra inner) (Condition.ofExpression condition)
  | _ => empty

theorem ofAlgebra_toAlgebra (e : Plan P (Expression X)) :
    ofAlgebra (e.toAlgebra reading : QueryAlgebra P X R Y) = e.mapConditions Condition.split := by
  induction e with
  | pattern t => rfl
  | join lhs rhs left right => rw [toAlgebra, ofAlgebra, left, right, mapConditions]
  | leftJoin lhs rhs condition left right =>
    rw [toAlgebra, ofAlgebra, left, right, Option.map_map, Condition.ofExpression_comp_toExpression,
      mapConditions]
  | filter inner condition ih =>
    rw [toAlgebra, ofAlgebra, ih, Condition.ofExpression_toExpression, mapConditions]
  | empty => cases reading <;> rfl

theorem toAlgebra_eq_iff {e e' : Plan P (Expression X)} :
    (e.toAlgebra reading : QueryAlgebra P X R Y) = e'.toAlgebra reading ↔
      e.mapConditions Condition.split = e'.mapConditions Condition.split := by
  constructor
  · intro same
    have read := congrArg ofAlgebra same
    rwa [ofAlgebra_toAlgebra, ofAlgebra_toAlgebra] at read
  · intro same
    rw [← toAlgebra_mapConditions_split, same, toAlgebra_mapConditions_split]

theorem mapConditions_split_eq_self {e : Plan P (Expression X)}
    (apart : ∀ lhs rhs, .and lhs rhs ∉ e.conditionAtoms) :
    e.mapConditions Condition.split = e := by
  refine mapConditions_eq_self fun n node k held => Condition.split_eq_self fun lhs rhs inside => ?_
  exact apart lhs rhs (mem_conditionAtoms.mpr ⟨n, node, k, held, inside⟩)

end Plan

inductive Rdf.QueryAlgebra.IsLowered : EmptyReading → QueryAlgebra P X R Y → Prop where
  | triple (reading : EmptyReading) (t : P) : IsLowered reading (.bgp [t])
  | join {reading : EmptyReading} {left right : QueryAlgebra P X R Y} :
    IsLowered reading left → IsLowered reading right → IsLowered reading (.join left right)
  | leftJoin {reading : EmptyReading} {left right : QueryAlgebra P X R Y}
    (condition : Option (Expression X)) : IsLowered reading left → IsLowered reading right →
    IsLowered reading (.leftJoin left right condition)
  | filter {reading : EmptyReading} {inner : QueryAlgebra P X R Y} (condition : Expression X) :
    IsLowered reading inner → IsLowered reading (.filter condition inner)
  | noRows : IsLowered .noSolution (.values [] [])
  | noTriples : IsLowered .unitSolution (.bgp [])

namespace Plan

variable {reading : EmptyReading}

theorem isLowered_toAlgebra (e : Plan P (Expression X)) :
    (e.toAlgebra reading : QueryAlgebra P X R Y).IsLowered reading := by
  induction e with
  | pattern t => exact .triple reading t
  | join lhs rhs left right => exact .join left right
  | leftJoin lhs rhs condition left right => exact .leftJoin _ left right
  | filter inner condition ih => exact .filter _ ih
  | empty =>
    cases reading with
    | noSolution => exact .noRows
    | unitSolution => exact .noTriples

theorem toAlgebra_ofAlgebra {a : QueryAlgebra P X R Y} (lowered : a.IsLowered reading) :
    (ofAlgebra a).toAlgebra reading = a := by
  induction lowered with
  | triple reading t => rfl
  | join _ _ left right => rw [ofAlgebra, toAlgebra, left, right]
  | leftJoin condition _ _ left right =>
    rw [ofAlgebra, toAlgebra, left, right, Option.map_map, Condition.toExpression_comp_ofExpression,
      Option.map_id_fun, id]
  | filter condition _ ih => rw [ofAlgebra, toAlgebra, ih, Condition.toExpression_ofExpression]
  | noRows => rfl
  | noTriples => rfl

/-- The algebra tells two plans apart unless they differ only in where conjunctions stand; it is
any algebra of the listed nodes. -/
theorem algebra_determines_plan (reading : EmptyReading) :
    (∀ e e' : Plan P (Expression X),
        (e.toAlgebra reading : QueryAlgebra P X R Y) = e'.toAlgebra reading ↔
          e.mapConditions Condition.split = e'.mapConditions Condition.split) ∧
      Set.InjOn (toAlgebra reading : Plan P (Expression X) → QueryAlgebra P X R Y)
        {e | ∀ lhs rhs, .and lhs rhs ∉ e.conditionAtoms} ∧
      ∀ a : QueryAlgebra P X R Y,
        (∃ e : Plan P (Expression X), e.toAlgebra reading = a) ↔ a.IsLowered reading := by
  refine ⟨fun e e' => toAlgebra_eq_iff, fun e apart e' apart' same => ?_, fun a => ?_⟩
  · rw [toAlgebra_eq_iff] at same
    rwa [mapConditions_split_eq_self apart, mapConditions_split_eq_self apart'] at same
  · constructor
    · rintro ⟨e, rfl⟩
      exact e.isLowered_toAlgebra
    · intro lowered
      exact ⟨ofAlgebra a, toAlgebra_ofAlgebra lowered⟩

end Plan

end GroupPlan
