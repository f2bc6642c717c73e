import GroupPlan.Plan.Nodes

/-! The outline of a plan: one line per node in preorder, indented by two spaces
for each level below the root. Patterns and conditions are written as they are,
so a line break inside one of them breaks the line without an indent. -/

namespace GroupPlan

theorem intercalate_append {sep : String} {as : List String} (bs : List String) (held : as ≠ []) :
    sep.intercalate (as ++ bs) = sep.intercalate (sep.intercalate as :: bs) := by
  cases bs with
  | nil => simp
  | cons b bs =>
    rw [String.intercalate_append_of_ne_nil held (List.cons_ne_nil b bs),
      String.intercalate_cons_cons]

theorem intercalate_cons_flatMap {α : Type} {text : α → List String} {as : List α}
    (sep first : String) (written : ∀ a ∈ as, text a ≠ []) :
    sep.intercalate (first :: as.flatMap text) =
      first ++ String.join (as.map fun a => sep ++ sep.intercalate (text a)) := by
  induction as generalizing first with
  | nil => simp
  | cons a as ih =>
    rw [List.forall_mem_cons] at written
    have further : text a ++ as.flatMap text ≠ [] := List.append_ne_nil_of_left_ne_nil written.1 _
    rw [List.flatMap_cons, String.intercalate_cons_of_ne_nil further,
      intercalate_append _ written.1, ih _ written.2, List.map_cons, String.join_cons,
      String.append_assoc, String.append_assoc]

namespace Plan

variable {P C : Type} [ToString P] [ToString C]

def headline : Plan P C → String
  | .pattern p => "Pattern: " ++ toString p
  | .leftJoin _ _ (some condition) => "LeftJoin: " ++ toString condition
  | .filter _ condition => "Filter: " ++ toString condition
  | node => node.kind.name

def indent (depth : Nat) : String := String.ofList (List.replicate (2 * depth) ' ')

/-- The lines of a plan whose root stands at the given depth. -/
def linesAt (depth : Nat) : Plan P C → List String
  | .pattern p => [indent depth ++ (Plan.pattern p : Plan P C).headline]
  | .join lhs rhs =>
    (indent depth ++ (Plan.join lhs rhs).headline) ::
      (lhs.linesAt (depth + 1) ++ rhs.linesAt (depth + 1))
  | .leftJoin lhs rhs k =>
    (indent depth ++ (Plan.leftJoin lhs rhs k).headline) ::
      (lhs.linesAt (depth + 1) ++ rhs.linesAt (depth + 1))
  | .filter inner k =>
    (indent depth ++ (Plan.filter inner k).headline) :: inner.linesAt (depth + 1)
  | .empty => [indent depth ++ (Plan.empty : Plan P C).headline]

theorem linesAt_eq (depth : Nat) (e : Plan P C) :
    e.linesAt depth = (indent depth ++ e.headline) :: e.operands.flatMap (linesAt (depth + 1)) := by
  cases e <;> simp [linesAt, operands]

theorem length_linesAt (depth : Nat) (e : Plan P C) :
    (e.linesAt depth).length = e.nodes.length := by
  induction e generalizing depth <;> simp_all [linesAt, nodes]

def outline (e : Plan P C) : String := "\n".intercalate (e.linesAt 0)

def outlineAt (depth : Nat) (e : Plan P C) : String := "\n".intercalate (e.linesAt depth)

theorem outline_eq (e : Plan P C) : e.outline = e.outlineAt 0 := rfl

theorem outlineAt_eq (depth : Nat) (e : Plan P C) :
    e.outlineAt depth =
      indent depth ++ e.headline ++
        String.join (e.operands.map fun m => "\n" ++ m.outlineAt (depth + 1)) := by
  rw [outlineAt, linesAt_eq]
  exact intercalate_cons_flatMap _ _ fun m _ => by simp [linesAt_eq]

instance : ToString (Plan P C) := ⟨outline⟩

end Plan

end GroupPlan
