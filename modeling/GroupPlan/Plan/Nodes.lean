import GroupPlan.Plan.Basic

/-! The nodes of a plan. `nodes` lists every subplan in preorder; counting nodes
is counting in that list, and `leaves` keeps its patterns from left to right. -/

namespace GroupPlan

namespace Plan

variable {P C : Type}

inductive Kind where
  | pattern
  | join
  | leftJoin
  | filter
  | empty
deriving DecidableEq

def Kind.name : Kind → String
  | pattern => "Pattern"
  | join => "Join"
  | leftJoin => "LeftJoin"
  | filter => "Filter"
  | empty => "Empty"

def kind : Plan P C → Kind
  | .pattern _ => .pattern
  | .join _ _ => .join
  | .leftJoin _ _ _ => .leftJoin
  | .filter _ _ => .filter
  | .empty => .empty

def condition? : Plan P C → Option (Condition C)
  | .leftJoin _ _ condition => condition
  | .filter _ condition => some condition
  | _ => none

def operands : Plan P C → List (Plan P C)
  | .pattern _ => []
  | .join lhs rhs => [lhs, rhs]
  | .leftJoin lhs rhs _ => [lhs, rhs]
  | .filter inner _ => [inner]
  | .empty => []

def nodes : Plan P C → List (Plan P C)
  | .pattern p => [.pattern p]
  | .join lhs rhs => .join lhs rhs :: (lhs.nodes ++ rhs.nodes)
  | .leftJoin lhs rhs k => .leftJoin lhs rhs k :: (lhs.nodes ++ rhs.nodes)
  | .filter inner k => .filter inner k :: inner.nodes
  | .empty => [.empty]

theorem nodes_eq (e : Plan P C) : e.nodes = e :: e.operands.flatMap nodes := by
  cases e <;> simp [nodes, operands]

@[simp] theorem mem_nodes_pattern {p : P} {n : Plan P C} :
    n ∈ (pattern p).nodes ↔ n = pattern p := List.mem_singleton

@[simp] theorem mem_nodes_join {lhs rhs n : Plan P C} :
    n ∈ (join lhs rhs).nodes ↔ n = join lhs rhs ∨ n ∈ lhs.nodes ∨ n ∈ rhs.nodes := by
  rw [nodes, List.mem_cons, List.mem_append]

@[simp] theorem mem_nodes_leftJoin {lhs rhs n : Plan P C} {k : Option (Condition C)} :
    n ∈ (leftJoin lhs rhs k).nodes ↔ n = leftJoin lhs rhs k ∨ n ∈ lhs.nodes ∨ n ∈ rhs.nodes := by
  rw [nodes, List.mem_cons, List.mem_append]

@[simp] theorem mem_nodes_filter {inner n : Plan P C} {k : Condition C} :
    n ∈ (filter inner k).nodes ↔ n = filter inner k ∨ n ∈ inner.nodes := List.mem_cons

@[simp] theorem mem_nodes_empty {n : Plan P C} : n ∈ (empty : Plan P C).nodes ↔ n = empty :=
  List.mem_singleton

@[elab_as_elim]
theorem inductOperands {motive : Plan P C → Prop}
    (node : ∀ e : Plan P C, (∀ m ∈ e.operands, motive m) → motive e) (e : Plan P C) : motive e := by
  induction e with
  | pattern p => exact node _ (by simp [operands])
  | join lhs rhs left right => exact node _ (by simp [operands, left, right])
  | leftJoin lhs rhs k left right => exact node _ (by simp [operands, left, right])
  | filter inner k ih => exact node _ (by simp [operands, ih])
  | empty => exact node _ (by simp [operands])

theorem self_mem_nodes (e : Plan P C) : e ∈ e.nodes := by
  rw [nodes_eq]
  exact List.mem_cons_self

theorem mem_nodes_of_mem_operands {e m n : Plan P C} (input : m ∈ e.operands) (node : n ∈ m.nodes) :
    n ∈ e.nodes := by
  rw [nodes_eq]
  exact List.mem_cons_of_mem e (List.mem_flatMap.mpr ⟨m, input, node⟩)

theorem forall_nodes_of_operands {motive : Plan P C → Prop}
    (pass : ∀ e, motive e → ∀ m ∈ e.operands, motive m) {e : Plan P C} (root : motive e) :
    ∀ n ∈ e.nodes, motive n := by
  induction e using inductOperands with
  | node e ih =>
    rw [nodes_eq, List.forall_mem_cons]
    refine ⟨root, fun n below => ?_⟩
    obtain ⟨m, input, node⟩ := List.mem_flatMap.mp below
    exact ih m input (pass e root m input) n node

def count (test : Plan P C → Bool) (e : Plan P C) : Nat := e.nodes.countP test

def countKind (k : Kind) (e : Plan P C) : Nat := e.count (·.kind = k)

def size (e : Plan P C) : Nat := e.count (fun _ => true)

theorem size_eq_length_nodes (e : Plan P C) : e.size = e.nodes.length :=
  List.countP_eq_length.mpr (fun _ _ => rfl)

def countConditionalLeftJoins (e : Plan P C) : Nat :=
  e.count fun node => node.kind = .leftJoin && node.condition?.isSome

def leaves : Plan P C → List P
  | .pattern p => [p]
  | .join lhs rhs => lhs.leaves ++ rhs.leaves
  | .leftJoin lhs rhs _ => lhs.leaves ++ rhs.leaves
  | .filter inner _ => inner.leaves
  | .empty => []

def pattern? : Plan P C → Option P
  | .pattern p => some p
  | _ => none

theorem leaves_eq (e : Plan P C) : e.leaves = e.pattern?.toList ++ e.operands.flatMap leaves := by
  cases e <;> simp [leaves, pattern?, operands]

theorem leaves_sublist_of_mem_operands {e m : Plan P C} (input : m ∈ e.operands) :
    m.leaves.Sublist e.leaves := by
  rw [leaves_eq e, List.flatMap_def]
  exact (List.sublist_flatten_of_mem (List.mem_map_of_mem input)).trans
    (List.sublist_append_right _ _)

@[simp] theorem leaves_joinEach (base : Plan P C) (ps : List P) :
    (base.joinEach ps).leaves = base.leaves ++ ps := by
  induction ps generalizing base with
  | nil => simp
  | cons p ps ih => simp [ih, leaves]

@[simp] theorem leaves_filterEach (base : Plan P C) (cs : List C) :
    (base.filterEach cs).leaves = base.leaves := by
  induction cs generalizing base with
  | nil => rfl
  | cons c cs ih => rw [filterEach_cons, ih, leaves]

@[simp] theorem leaves_filterAll (base : Plan P C) (cs : List C) :
    (base.filterAll cs).leaves = base.leaves := by
  cases cs <;> rfl

theorem leaves_of_ofPatterns {ps : List P} {e : Plan P C} (h : ofPatterns ps = .ok e) :
    e.leaves = ps := by
  cases ps with
  | nil => cases h
  | cons p ps =>
    cases h
    rw [leaves_joinEach]
    rfl

end Plan

end GroupPlan
