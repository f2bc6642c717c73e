import GroupPlan.Rdf.Term

/-! The algebra that queries are evaluated in. Plans meet only some of it: of an
expression they see whether it is a conjunction, and of the algebra they make five
kinds of nodes. Expressions of other kinds, nodes of other kinds and the rows of a table
are parameters, so that nothing is said of what they may hold. -/

namespace GroupPlan.Rdf

/-- `X` are the expressions that are not conjunctions. -/
inductive Expression (X : Type) where
  | and (lhs rhs : Expression X)
  | other (e : X)
deriving DecidableEq

def Expression.map {X : Type} (f : X → X) : Expression X → Expression X
  | and lhs rhs => and (lhs.map f) (rhs.map f)
  | other e => other (f e)

/-- `P` are the triples, `R` the rows of a table and `Y` the nodes that no plan becomes. -/
inductive QueryAlgebra (P X R Y : Type) where
  | bgp (patterns : List P)
  | join (left right : QueryAlgebra P X R Y)
  | leftJoin (left right : QueryAlgebra P X R Y) (condition : Option (Expression X))
  | filter (condition : Expression X) (inner : QueryAlgebra P X R Y)
  | values (vars : List Variable) (rows : List R)
  | other (node : Y)
deriving DecidableEq

end GroupPlan.Rdf
