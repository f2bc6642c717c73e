import GroupPlan.Proofs.PlanSolutions
import GroupPlan.Rdf.PlanAlgebra

/-! The solutions of the algebra that a plan becomes. How algebra is evaluated is left
open but for the nodes that plans become: these work on tables as the nodes of plans do,
a single triple has the rows of its pattern, no triple is the unit and a table without
variables and rows is empty. The meaning of expressions is left open as well, except
that a conjunction is one. -/

namespace GroupPlan

open Rdf
open scoped Classical

variable {P X R Y V T : Type}

namespace Interpretation

variable (M : Interpretation P (Expression X) V T)

def RespectsAnd : Prop :=
  ∀ lhs rhs s, M.Satisfies (.and lhs rhs) s ↔ M.Satisfies lhs s ∧ M.Satisfies rhs s

structure Evaluates (eval : QueryAlgebra P X R Y → Table V T) : Prop where
  triple : ∀ t, eval (.bgp [t]) = M.rows t
  noTriple : eval (.bgp []) = Table.unit
  noRow : eval (.values [] []) = 0
  join : ∀ left right, eval (.join left right) = Table.join (eval left) (eval right)
  leftJoin : ∀ left right condition, eval (.leftJoin left right condition) =
    Table.leftJoin (fun s => ∀ e ∈ condition, M.Satisfies e s) (eval left) (eval right)
  filter : ∀ condition inner,
    eval (.filter condition inner) = (eval inner).filter (M.Satisfies condition)

end Interpretation

variable {M : Interpretation P (Expression X) V T} {eval : QueryAlgebra P X R Y → Table V T}

theorem Interpretation.RespectsAnd.satisfies_toExpression (respects : M.RespectsAnd)
    (k : Condition (Expression X)) (s : Solution V T) :
    M.Satisfies k.toExpression s ↔ k.Holds M s := by
  induction k with
  | atom e => rfl
  | and lhs rhs left right => rw [Condition.toExpression, respects, left, right, Condition.Holds]

theorem Interpretation.Evaluates.eval_toAlgebra (evaluates : M.Evaluates eval)
    (reading : EmptyReading) : eval reading.toAlgebra = reading.solutions := by
  cases reading with
  | noSolution => exact evaluates.noRow
  | unitSolution => exact evaluates.noTriple

theorem Plan.algebra_solutions_eq (respects : M.RespectsAnd) (evaluates : M.Evaluates eval)
    (reading : EmptyReading) (e : Plan P (Expression X)) :
    eval (e.toAlgebra reading) = e.solutions M reading := by
  induction e with
  | pattern t => exact evaluates.triple t
  | join lhs rhs left right => rw [toAlgebra, evaluates.join, left, right, solutions]
  | leftJoin lhs rhs condition left right =>
    rw [toAlgebra, evaluates.leftJoin, left, right, solutions]
    refine Table.leftJoin_congr (fun s => ?_) _ _
    cases condition <;> simp [respects.satisfies_toExpression]
  | filter inner condition ih =>
    rw [toAlgebra, evaluates.filter, ih, solutions]
    exact Multiset.filter_congr fun s _ => respects.satisfies_toExpression condition s
  | empty => exact evaluates.eval_toAlgebra reading

namespace Rdf

section Evaluation

variable (M : Interpretation P (Expression X) V T) (row : List Variable → R → Solution V T)
  (table : Y → Table V T)

/-- Triples are joined and rows are solutions; `row` reads one row and `table` is what a node of
another kind has. -/
noncomputable def QueryAlgebra.solutions : QueryAlgebra P X R Y → Table V T
  | bgp patterns => M.joinAll patterns
  | join left right => Table.join left.solutions right.solutions
  | leftJoin left right condition =>
    Table.leftJoin (fun s => ∀ e ∈ condition, M.Satisfies e s) left.solutions right.solutions
  | filter condition inner => inner.solutions.filter (M.Satisfies condition)
  | values vars rows => rows.map (row vars)
  | other node => table node

theorem evaluates_solutions : M.Evaluates (QueryAlgebra.solutions M row table) where
  triple t := Table.unit_join (M.rows t)
  noTriple := rfl
  noRow := rfl
  join _ _ := rfl
  leftJoin _ _ _ := rfl
  filter _ _ := rfl

end Evaluation

inductive BoundTest where
  | bound (v : Variable)
  | not (e : Expression BoundTest)
  | or (lhs rhs : Expression BoundTest)

mutual

def BoundTest.HoldsOf (s : Solution Variable String) : BoundTest → Prop
  | .bound v => (s v).isSome
  | .not e => ¬ BoundIn s e
  | .or lhs rhs => BoundIn s lhs ∨ BoundIn s rhs

def BoundIn (s : Solution Variable String) : Expression BoundTest → Prop
  | .and lhs rhs => BoundIn s lhs ∧ BoundIn s rhs
  | .other e => e.HoldsOf s

end

def namedVariables : Interpretation TriplePattern (Expression BoundTest) Variable String where
  rows t := {fun v => if v ∈ t.vars then some v.name else none}
  Satisfies e s := BoundIn s e

/-- A conjunction inside a filter, and one inside a join condition over the plan of no pattern. -/
def nestedConjunctions : Plan TriplePattern (Expression BoundTest) :=
  let triple x y : TriplePattern := ⟨.var ⟨x⟩, .iri ⟨"p"⟩, .var ⟨y⟩⟩
  let both x y : Expression BoundTest := .and (.other (.bound ⟨x⟩)) (.other (.bound ⟨y⟩))
  .leftJoin (.filter (.pattern (triple "x" "y")) (.atom (both "x" "y")))
    (.leftJoin (.pattern (triple "y" "z")) (.filter .empty (.atom (.other (.bound ⟨"z"⟩)))) none)
    (some (.and (.atom (.other (.not (both "x" "z")))) (.atom (both "y" "z"))))

theorem solutions_nestedConjunctions :
    let eval : QueryAlgebra TriplePattern BoundTest (List String) Empty → Table Variable String :=
      QueryAlgebra.solutions namedVariables
        (fun vars row v => ((vars.zip row).lookup v)) (fun node => nomatch node)
    namedVariables.RespectsAnd ∧ namedVariables.Evaluates eval ∧
      eval (nestedConjunctions.toAlgebra .unitSolution) =
        nestedConjunctions.solutions namedVariables .unitSolution := by
  intro eval
  have respects : namedVariables.RespectsAnd := by
    intro lhs rhs s
    simp only [namedVariables, BoundIn]
  have evaluates : namedVariables.Evaluates eval := evaluates_solutions _ _ _
  exact ⟨respects, evaluates,
    Plan.algebra_solutions_eq respects evaluates .unitSolution nestedConjunctions⟩

end Rdf

end GroupPlan
