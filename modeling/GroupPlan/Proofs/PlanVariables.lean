import GroupPlan.Proofs.Leaves
import GroupPlan.Rdf.BoundVariables

/-! The variables of a plan. Variables are told apart three times, within a triple, within a
group and within the plan, and each time the first occurrence stays. Keeping first
occurrences of parts before they are put together changes nothing in the whole, so the
leaves of the plan bring the variables in the order in which the groups of the tree bind
them. -/

namespace GroupPlan

namespace UniqueList

variable {α β : Type} [DecidableEq α]

theorem insertAll_of_forall_mem {s : UniqueList α} {as : List α} (held : ∀ a ∈ as, a ∈ s) :
    s.insertAll as = s := by
  induction as with
  | nil => rfl
  | cons a as ih =>
    rw [List.forall_mem_cons] at held
    rw [insertAll_cons, insert_of_mem held.1, ih held.2]

theorem toList_insertAll_of_distinct (s : UniqueList α) {as : List α} (distinct : as.Nodup) :
    (s.insertAll as).toList = s.toList ++ as.filter fun a => a ∉ s := by
  have missing : as.removeAll s.toList = as.filter fun a => a ∉ s := by
    simp [List.removeAll]
  rw [toList_insertAll, missing, ← toList_ofList, toList_ofList_of_nodup (distinct.filter _)]

theorem insertAll_toList_insert (s t : UniqueList α) (a : α) :
    s.insertAll (t.insert a).toList = (s.insertAll t.toList).insert a := by
  rw [toList_insert]
  split
  case isTrue held => rw [insert_of_mem (mem_insertAll.mpr (.inr held))]
  case isFalse => rw [insertAll_append, insertAll_cons, insertAll_nil]

theorem insertAll_toList_insertAll (s t : UniqueList α) (as : List α) :
    s.insertAll (t.insertAll as).toList = (s.insertAll t.toList).insertAll as := by
  induction as generalizing t with
  | nil => rfl
  | cons a as ih => rw [insertAll_cons, ih, insertAll_toList_insert, insertAll_cons]

theorem insertAll_toList_ofList (s : UniqueList α) (as : List α) :
    s.insertAll (ofList as).toList = s.insertAll as := insertAll_toList_insertAll s empty as

theorem insertAll_flatMap_ofList (s : UniqueList α) (f : β → List α) (bs : List β) :
    s.insertAll (bs.flatMap fun b => (ofList (f b)).toList) = s.insertAll (bs.flatMap f) := by
  induction bs generalizing s with
  | nil => rfl
  | cons b bs ih =>
    rw [List.flatMap_cons, List.flatMap_cons, insertAll_append, insertAll_append,
      insertAll_toList_ofList, ih]

theorem ofList_flatMap_ofList (f : β → List α) (bs : List β) :
    ofList (bs.flatMap fun b => (ofList (f b)).toList) = ofList (bs.flatMap f) :=
  insertAll_flatMap_ofList empty f bs

end UniqueList

open Rdf

/-- Subject, predicate, object: the variables in this order, a repeated one at each place. -/
def Rdf.TriplePattern.varsByPlace (t : TriplePattern) : List Variable :=
  [t.subject.var?, t.predicate.var?, t.object.var?].filterMap id

namespace PatternGroup

variable {C : Type}

theorem boundVariables_eq (g : PatternGroup TriplePattern C) :
    g.boundVariables = .ofList (g.patterns.toList.flatMap TriplePattern.varsByPlace) :=
  UniqueList.ofList_flatMap_ofList TriplePattern.varsByPlace g.patterns.toList

theorem boundVariables_insertPattern (g : PatternGroup TriplePattern C) (t : TriplePattern) :
    (g.insertPattern t).boundVariables = g.boundVariables.insertAll t.vars.toList := by
  by_cases held : t ∈ g.patterns
  · -- the variables of a pattern that is held are bound already
    have same : (g.insertPattern t).patterns = g.patterns := UniqueList.insert_of_mem held
    rw [boundVariables, same, ← boundVariables, UniqueList.insertAll_of_forall_mem]
    exact fun v bound => mem_boundVariables.mpr ⟨t, held, bound⟩
  · have pushed : (g.insertPattern t).patterns.toList = g.patterns.toList ++ [t] := by
      rw [insertPattern, UniqueList.toList_insert, if_neg held]
    rw [boundVariables, pushed, List.flatMap_append, List.flatMap_singleton, UniqueList.ofList,
      UniqueList.insertAll_append]
    rfl

theorem ofList_boundVariables_subtree (g : PatternGroup TriplePattern C) :
    UniqueList.ofList (g.subtree.flatMap fun d => d.boundVariables.toList) =
      .ofList (g.allPatterns.flatMap TriplePattern.varsByPlace) := by
  have parts : ∀ d : PatternGroup TriplePattern C, d.boundVariables.toList =
      (UniqueList.ofList (d.patterns.toList.flatMap TriplePattern.varsByPlace)).toList := by
    intro d
    rw [boundVariables_eq]
  rw [allPatterns, List.flatMap_assoc, funext parts]
  exact UniqueList.ofList_flatMap_ofList _ g.subtree

/-- The plan of a group has the variables of the tree in the order in which its groups bind them.
A group binds the variables of its own patterns, each at its first occurrence, and a further
pattern adds those that are new. -/
theorem boundVariables_plan? (g : PatternGroup TriplePattern C) :
    ((g.plan?.elim [] Plan.leaves).flatMap TriplePattern.varsByPlace).eraseDups =
        (g.subtree.flatMap fun d => d.boundVariables.toList).eraseDups ∧
      ((g.plan?.elim [] Plan.leaves).flatMap fun t => t.vars.toList).eraseDups =
        (g.subtree.flatMap fun d => d.boundVariables.toList).eraseDups ∧
      g.boundVariables.toList.Nodup ∧
      (∀ v, v ∈ g.boundVariables ↔ ∃ t ∈ g.patterns,
        t.subject = .var v ∨ t.predicate = .var v ∨ t.object = .var v) ∧
      g.boundVariables.toList =
        (g.patterns.toList.flatMap TriplePattern.varsByPlace).eraseDups ∧
      ∀ t, (g.insertPattern t).boundVariables.toList =
        g.boundVariables.toList ++ t.vars.toList.filter fun v => v ∉ g.boundVariables := by
  have leaves : g.plan?.elim [] Plan.leaves = g.allPatterns := g.plansAllPatterns .applied
  refine ⟨?_, ?_, g.boundVariables.nodup, fun v => ?_, ?_, fun t => ?_⟩
  · rw [leaves, ← UniqueList.toList_ofList, ← UniqueList.toList_ofList,
      ofList_boundVariables_subtree]
  · have once := UniqueList.ofList_flatMap_ofList TriplePattern.varsByPlace g.allPatterns
    rw [leaves, ← UniqueList.toList_ofList, ← UniqueList.toList_ofList,
      ofList_boundVariables_subtree, ← once]
    rfl
  · simp only [mem_boundVariables, TriplePattern.mem_vars]
  · rw [boundVariables_eq, UniqueList.toList_ofList]
  · rw [boundVariables_insertPattern, UniqueList.toList_insertAll_of_distinct _ t.vars.nodup]

end PatternGroup

end GroupPlan
