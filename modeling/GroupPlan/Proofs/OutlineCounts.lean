import GroupPlan.Proofs.Leaves
import GroupPlan.Proofs.OutlineLines
import GroupPlan.Proofs.PlanSize
import Mathlib.Data.List.Forall2

/-! What the outline of a plan tells of its nodes. The lines are the nodes in preorder, each
behind two spaces for every level above it, with the name of its kind first. A name starts
with a letter, so the spaces before it are those of the indent alone, and no name begins
like another, so the lines that begin with a name are the nodes of that kind. The counts
themselves depend on each other in every plan. -/

namespace GroupPlan.Plan

variable {P C : Type}

def nodesAt (depth : Nat) : Plan P C → List (Nat × Plan P C)
  | .pattern p => [(depth, .pattern p)]
  | .join lhs rhs =>
    (depth, .join lhs rhs) :: (lhs.nodesAt (depth + 1) ++ rhs.nodesAt (depth + 1))
  | .leftJoin lhs rhs k =>
    (depth, .leftJoin lhs rhs k) :: (lhs.nodesAt (depth + 1) ++ rhs.nodesAt (depth + 1))
  | .filter inner k => (depth, .filter inner k) :: inner.nodesAt (depth + 1)
  | .empty => [(depth, .empty)]

theorem nodesAt_eq (depth : Nat) (e : Plan P C) :
    e.nodesAt depth = (depth, e) :: e.operands.flatMap (nodesAt (depth + 1)) := by
  cases e <;> simp [nodesAt, operands]

theorem map_snd_nodesAt (depth : Nat) (e : Plan P C) :
    (e.nodesAt depth).map Prod.snd = e.nodes := by
  induction e using inductOperands generalizing depth with
  | node e ih =>
    rw [nodesAt_eq, nodes_eq, List.map_cons, List.map_flatMap]
    exact congrArg (e :: ·) (List.flatMap_congr fun m input => ih m input (depth + 1))

section Lines

variable [ToString P] [ToString C]

theorem linesAt_eq_map (depth : Nat) (e : Plan P C) :
    e.linesAt depth = (e.nodesAt depth).map fun n => indent n.1 ++ n.2.headline := by
  induction e using inductOperands generalizing depth with
  | node e ih =>
    rw [linesAt_eq, nodesAt_eq, List.map_cons, List.map_flatMap]
    exact congrArg (_ :: ·) (List.flatMap_congr fun m input => ih m input (depth + 1))

def indentOf (line : List Char) : Nat := (line.takeWhile (· = ' ')).length

def unindented (line : List Char) : List Char := line.dropWhile (· = ' ')

theorem toList_line (depth : Nat) (e : Plan P C) :
    (indent depth ++ e.headline).toList = List.replicate (2 * depth) ' ' ++ e.headline.toList := by
  rw [String.toList_append, indent, String.toList_ofList]

theorem takeWhile_headline (e : Plan P C) : e.headline.toList.takeWhile (· = ' ') = [] := by
  rw [toList_headline]
  cases e.kind <;> rfl

theorem unindented_headline (e : Plan P C) : unindented e.headline.toList = e.headline.toList := by
  have whole := List.takeWhile_append_dropWhile (p := (· = ' ')) (l := e.headline.toList)
  rwa [takeWhile_headline, List.nil_append] at whole

theorem indentOf_line (depth : Nat) (e : Plan P C) :
    indentOf (indent depth ++ e.headline).toList = 2 * depth := by
  rw [toList_line, indentOf, List.takeWhile_append_of_pos (by simp), takeWhile_headline,
    List.append_nil, List.length_replicate]

theorem unindented_line (depth : Nat) (e : Plan P C) :
    unindented (indent depth ++ e.headline).toList = e.headline.toList := by
  rw [toList_line, unindented, List.dropWhile_append_of_pos (by simp)]
  exact unindented_headline e

theorem isPrefixOf_headline (k : Kind) (e : Plan P C) :
    k.name.toList.isPrefixOf e.headline.toList = decide (e.kind = k) := by
  rw [toList_headline]
  cases e.kind <;> cases k <;> rfl

theorem isPrefixOf_headline_conditioned (e : Plan P C) :
    "LeftJoin: ".toList.isPrefixOf e.headline.toList =
      (e.kind = .leftJoin && e.condition?.isSome) := by
  rw [toList_headline]
  cases e with
  | leftJoin lhs rhs condition =>
    cases condition <;> simp [kind, Kind.name, detail?, afterName, condition?]
  | _ => simp [kind, Kind.name, detail?, afterName, List.isPrefixOf]

theorem countP_lines (test : List Char → Bool) (e : Plan P C) :
    (((e.linesAt 0).map String.toList).countP fun line => test (unindented line)) =
      e.count fun n => test n.headline.toList := by
  rw [linesAt_eq_map, List.map_map, List.countP_map, count, ← map_snd_nodesAt 0 e, List.countP_map]
  refine List.countP_congr fun n _ => ?_
  simp only [Function.comp_apply, unindented_line]

/-- The lines, without the line breaks between them, are those of the nodes of the plan. -/
structure TellsNodes (e : Plan P C) (lines : List (List Char)) : Prop where
  size : lines.length = e.size
  preorder : List.Forall₂ (fun line n =>
    indentOf line = 2 * n.1 ∧ n.2.kind.name.toList <+: unindented line) lines (e.nodesAt 0)
  kinds : ∀ k : Kind,
    (lines.countP fun line => k.name.toList.isPrefixOf (unindented line)) = e.countKind k
  conditioned : (lines.countP fun line => "LeftJoin: ".toList.isPrefixOf (unindented line)) =
    e.countConditionalLeftJoins

theorem tellsNodes_linesAt (e : Plan P C) : e.TellsNodes ((e.linesAt 0).map String.toList) where
  size := by rw [List.length_map, length_linesAt, size_eq_length_nodes]
  preorder := by
    rw [linesAt_eq_map, List.map_map, List.forall₂_map_left_iff, List.forall₂_same]
    rintro ⟨depth, n⟩ -
    refine ⟨indentOf_line depth n, ?_⟩
    rw [Function.comp_apply, unindented_line, toList_headline]
    exact List.prefix_append _ _
  kinds k := by rw [countP_lines, funext (isPrefixOf_headline k), countKind]
  conditioned := by
    rw [countP_lines, funext isPrefixOf_headline_conditioned, countConditionalLeftJoins]

end Lines

theorem countKind_eq_weight (k : Kind) (e : Plan P C) :
    e.countKind k = e.weight (counting (·.kind = k)) := count_mark (·.kind = k) e

theorem countKind_pattern_add_empty (e : Plan P C) :
    e.countKind .pattern + e.countKind .empty = e.countKind .join + e.countKind .leftJoin + 1 := by
  simp only [countKind_eq_weight]
  induction e with
  | pattern p => rfl
  | join lhs rhs left right =>
    simp only [weight_join, counting, decide_eq_true_eq, reduceCtorEq, ↓reduceIte]
    omega
  | leftJoin lhs rhs k left right =>
    simp only [weight_leftJoin, counting, decide_eq_true_eq, reduceCtorEq, ↓reduceIte]
    omega
  | filter inner k ih => simpa [counting] using ih
  | empty => rfl

theorem size_eq_sum (e : Plan P C) :
    e.size = e.countKind .pattern + e.countKind .join + e.countKind .leftJoin +
      e.countKind .filter + e.countKind .empty := by
  rw [size_eq_length_nodes]
  simp only [countKind, count]
  induction e.nodes with
  | nil => rfl
  | cons n ns ih =>
    simp only [List.length_cons, List.countP_cons, ih]
    cases n.kind <;> simp <;> omega

/-- The outline of a plan has a line for each node, and the lines tell how many nodes of each kind
there are. The counts are bound by the shape of plans. -/
theorem outline_tells_nodes :
    (∀ e : Plan String String, e.Unbroken → e.TellsNodes (e.outline.toList.splitOn '\n')) ∧
      ∀ (P C : Type) (e : Plan P C),
        (e.nodesAt 0).map Prod.snd = e.nodes ∧
        e.countKind .pattern + e.countKind .empty = e.countKind .join + e.countKind .leftJoin + 1 ∧
        e.size = e.countKind .pattern + e.countKind .join + e.countKind .leftJoin +
          e.countKind .filter + e.countKind .empty ∧
        e.countKind .pattern = e.leaves.length := by
  refine ⟨fun e unbroken => ?_, fun P C e => ?_⟩
  · rw [splitOn_outline unbroken]
    exact e.tellsNodes_linesAt
  · exact ⟨e.map_snd_nodesAt 0, e.countKind_pattern_add_empty, e.size_eq_sum, e.countKind_pattern⟩

def namesakes : Plan String String :=
  .leftJoin (.join (.pattern "Join") (.pattern "  LeftJoin: "))
    (.leftJoin (.filter .empty (.atom "Pattern: ")) (.pattern "") none)
    (some (.and (.atom " Empty") (.atom "Filter")))

theorem tellsNodes_namesakes :
    namesakes.Unbroken ∧
      namesakes.outline.toList.splitOn '\n' =
        ["LeftJoin: ( Empty && Filter)".toList, "  Join".toList, "    Pattern: Join".toList,
          "    Pattern:   LeftJoin: ".toList, "  LeftJoin".toList,
          "    Filter: Pattern: ".toList, "      Empty".toList, "    Pattern: ".toList] ∧
      namesakes.TellsNodes (namesakes.outline.toList.splitOn '\n') ∧
      namesakes.countKind .leftJoin = 2 ∧ namesakes.countConditionalLeftJoins = 1 := by
  have unbroken : namesakes.Unbroken := by
    refine ⟨?_, ?_⟩
    · simp [namesakes, leaves]
    · simp [namesakes, conditionAtoms, nodes, condition?, Condition.atoms]
  refine ⟨unbroken, ?_, outline_tells_nodes.1 namesakes unbroken, by decide, by decide⟩
  rw [splitOn_outline unbroken]
  rfl

end GroupPlan.Plan
