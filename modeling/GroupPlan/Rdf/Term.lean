import GroupPlan.UniqueList

/-! RDF terms and triple patterns. Terms are compared part by part; nothing in them is
checked, and no two ways to write a literal are taken for one. -/

namespace GroupPlan.Rdf

structure Variable where
  name : String
deriving DecidableEq

structure Iri where
  value : String
deriving DecidableEq

structure BlankNode where
  id : String
deriving DecidableEq

inductive Literal where
  | simple (value : String)
  | tagged (value tag : String)
  | typed (value : String) (datatype : Iri)
deriving DecidableEq

inductive Term where
  | var (v : Variable)
  | iri (i : Iri)
  | blank (b : BlankNode)
  | literal (l : Literal)
deriving DecidableEq

def Term.var? : Term → Option Variable
  | .var v => some v
  | _ => none

inductive Predicate where
  | var (v : Variable)
  | iri (i : Iri)
deriving DecidableEq

def Predicate.var? : Predicate → Option Variable
  | .var v => some v
  | .iri _ => none

structure TriplePattern where
  subject : Term
  predicate : Predicate
  object : Term
deriving DecidableEq

/-- Subject, predicate, object: the variables in this order, each once. -/
def TriplePattern.vars (t : TriplePattern) : UniqueList Variable :=
  .ofList ([t.subject.var?, t.predicate.var?, t.object.var?].filterMap id)

theorem TriplePattern.mem_vars {t : TriplePattern} {v : Variable} :
    v ∈ t.vars ↔ t.subject = .var v ∨ t.predicate = .var v ∨ t.object = .var v := by
  obtain ⟨s, p, o⟩ := t
  cases s <;> cases p <;> cases o <;>
    simp [vars, Term.var?, Predicate.var?, eq_comm]

end GroupPlan.Rdf
