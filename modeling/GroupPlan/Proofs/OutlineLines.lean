import GroupPlan.Plan.Outline
import GroupPlan.Proofs.ConditionText
import GroupPlan.Proofs.FilterAccounting

/-! The lines of the outline of a plan. A line is the name of the kind of its node and,
where the node carries a pattern or a condition, a colon and the text of it. Names are
told apart by their first letters. If no pattern and no filter breaks a line, the
outline splits at line breaks into these lines again. -/

namespace GroupPlan.Plan

variable {P C : Type}

theorem Kind.eq_of_head?_name {k k' : Kind}
    (same : k.name.toList.head? = k'.name.toList.head?) : k = k' := by
  revert same
  cases k <;> cases k' <;> decide

section Headline

variable [ToString P] [ToString C]

def detail? : Plan P C → Option String
  | pattern p => some (toString p)
  | leftJoin _ _ condition => condition.map toString
  | filter _ condition => some (toString condition)
  | _ => none

def afterName : Option String → List Char
  | none => []
  | some text => ':' :: ' ' :: text.toList

theorem afterName_injective : Function.Injective afterName := by
  intro detail detail' same
  cases detail <;> cases detail' <;> simp_all [afterName, String.toList_inj]

theorem toList_headline (e : Plan P C) :
    e.headline.toList = e.kind.name.toList ++ afterName e.detail? := by
  cases e with
  | leftJoin lhs rhs condition =>
    cases condition <;> simp [headline, detail?, afterName, kind, Kind.name]
  | _ => simp [headline, detail?, afterName, kind, Kind.name]

theorem kind_eq_and_detail?_eq {e e' : Plan P C} (same : e.headline = e'.headline) :
    e.kind = e'.kind ∧ e.detail? = e'.detail? := by
  have texts := congrArg String.toList same
  rw [toList_headline, toList_headline] at texts
  have named : ∀ k : Kind, k.name.toList ≠ [] := by
    intro k
    cases k <;> decide
  have kinds : e.kind = e'.kind := by
    apply Kind.eq_of_head?_name
    have heads := congrArg List.head? texts
    rwa [List.head?_append_of_ne_nil _ (named _), List.head?_append_of_ne_nil _ (named _)] at heads
  rw [kinds] at texts
  exact ⟨kinds, afterName_injective (List.append_cancel_left texts)⟩

theorem headline_eq_of_line_eq {depth : Nat} {e e' : Plan P C}
    (same : indent depth ++ e.headline = indent depth ++ e'.headline) :
    e.headline = e'.headline := by
  have texts := congrArg String.toList same
  rw [String.toList_append, String.toList_append] at texts
  exact String.toList_inj.mp (List.append_cancel_left texts)

end Headline

/-- No pattern and no filter of the plan contains a line break. -/
structure Unbroken (e : Plan String String) : Prop where
  patterns : ∀ p ∈ e.leaves, '\n' ∉ p.toList
  atoms : ∀ c ∈ e.conditionAtoms, '\n' ∉ c.toList

theorem Unbroken.of_mem_operands {e m : Plan String String} (unbroken : e.Unbroken)
    (input : m ∈ e.operands) : m.Unbroken where
  patterns p held := unbroken.patterns p ((leaves_sublist_of_mem_operands input).mem held)
  atoms c held := unbroken.atoms c (conditionAtoms_subset_of_mem_operands input held)

theorem Unbroken.condition {e : Plan String String} (unbroken : e.Unbroken) {k : Condition String}
    (carried : e.condition? = some k) : '\n' ∉ k.render.toList := by
  refine Condition.notMem_toList_render (by decide) fun c held => ?_
  exact unbroken.atoms c (mem_conditionAtoms_of_condition? carried held)

theorem Unbroken.headline {e : Plan String String} (unbroken : e.Unbroken) :
    '\n' ∉ e.headline.toList := by
  have named : ∀ k : Kind, '\n' ∉ k.name.toList := by
    intro k
    cases k <;> decide
  have detailed : ∀ text, e.detail? = some text → '\n' ∉ text.toList := by
    intro text written
    cases e with
    | pattern p =>
      obtain rfl : p = text := Option.some.inj written
      exact unbroken.patterns p (by simp [leaves])
    | leftJoin lhs rhs condition =>
      obtain ⟨k, rfl, rfl⟩ := Option.map_eq_some_iff.mp written
      exact unbroken.condition rfl
    | filter inner k =>
      obtain rfl : k.render = text := Option.some.inj written
      exact unbroken.condition rfl
    | join lhs rhs => cases written
    | empty => cases written
  rw [toList_headline]
  cases written : e.detail? with
  | none => simp [afterName, named]
  | some text => simp [afterName, named, detailed text written]

theorem Unbroken.lines {e : Plan String String} (unbroken : e.Unbroken) (depth : Nat) :
    ∀ line ∈ e.linesAt depth, '\n' ∉ line.toList := by
  induction e using inductOperands generalizing depth with
  | node e ih =>
    rw [linesAt_eq, List.forall_mem_cons]
    refine ⟨?_, fun line below => ?_⟩
    · simp [indent, unbroken.headline]
    · obtain ⟨m, input, there⟩ := List.mem_flatMap.mp below
      exact ih m input (unbroken.of_mem_operands input) (depth + 1) line there

theorem splitOn_outline {e : Plan String String} (unbroken : e.Unbroken) :
    e.outline.toList.splitOn '\n' = (e.linesAt 0).map String.toList := by
  have separated : ("\n" : String).toList = ['\n'] := rfl
  rw [outline, String.toList_intercalate, separated]
  refine List.splitOn_intercalate _ ?_ ?_
  · simpa using unbroken.lines 0
  · simp [linesAt_eq 0 e]

end GroupPlan.Plan
