import GroupPlan.PatternGroup.Edit
import GroupPlan.PatternGroup.Subtree

/-! What a history of edits leaves of itself. An edit concerns the patterns, the filters
or the children, never two of them, so the group is known from three sequences: all
patterns inserted, of which the first occurrences stay, all filters inserted, likewise,
and the edits of the children in their order. How the three were interleaved is lost. -/

namespace GroupPlan

namespace Edit

variable {P C : Type}

def patterns : Edit P C → List P
  | insertPattern p => [p]
  | insertPatterns ps => ps
  | _ => []

def filters : Edit P C → List C
  | insertFilter c => [c]
  | _ => []

def isOnChildren (edit : Edit P C) : Bool := edit.child?.isSome

def onChildren [DecidableEq P] [DecidableEq C] (cs : List (PatternGroup P C)) :
    Edit P C → List (PatternGroup P C)
  | pushChild child => cs ++ [child]
  | eraseChild child => cs.eraseP (· == child)
  | _ => cs

variable [DecidableEq P] [DecidableEq C]

theorem onChildren_of_isOnChildren_eq_false {edit : Edit P C} (apart : edit.isOnChildren = false)
    (cs : List (PatternGroup P C)) : edit.onChildren cs = cs := by
  cases edit with
  | pushChild child => cases apart
  | eraseChild child => cases apart
  | _ => rfl

theorem mem_onChildren {edit : Edit P C} {cs : List (PatternGroup P C)} {c : PatternGroup P C}
    (held : c ∈ edit.onChildren cs) : c ∈ cs ∨ edit = .pushChild c := by
  cases edit with
  | pushChild child =>
    rcases List.mem_append.mp held with before | added
    · exact .inl before
    · exact .inr (congrArg pushChild (List.mem_singleton.mp added).symm)
  | eraseChild child => exact .inl (List.mem_of_mem_eraseP held)
  | _ => exact .inl held

end Edit

namespace PatternGroup

variable {P C : Type}

/-- The groups that a history starts from. -/
def Fresh (g : PatternGroup P C) : Prop := g = required ∨ g = optional ∨ g = default

theorem Fresh.eq {g : PatternGroup P C} (fresh : g.Fresh) : g = ⟨g.isOptional, ∅, ∅, []⟩ := by
  rcases fresh with rfl | rfl | rfl <;> rfl

variable [DecidableEq P] [DecidableEq C]

theorem eraseChild?_getD (g child : PatternGroup P C) :
    (g.eraseChild? child).getD g = { g with children := g.children.eraseP (· == child) } := by
  rw [eraseChild?]
  split
  case isTrue => rfl
  case isFalse absent =>
    rw [List.any_eq_true, not_exists] at absent
    rw [List.eraseP_of_forall_not fun c held same => absent c ⟨held, same⟩]
    exact PatternGroup.ext rfl rfl rfl rfl

theorem apply_eq (g : PatternGroup P C) (edit : Edit P C) :
    g.apply edit =
      ⟨g.isOptional, g.patterns.insertAll edit.patterns, g.filters.insertAll edit.filters,
        edit.onChildren g.children⟩ := by
  cases edit with
  | eraseChild child => exact g.eraseChild?_getD child
  | _ => rfl

theorem applyAll_eq (g : PatternGroup P C) (edits : List (Edit P C)) :
    g.applyAll edits =
      ⟨g.isOptional, g.patterns.insertAll (edits.flatMap Edit.patterns),
        g.filters.insertAll (edits.flatMap Edit.filters),
        (edits.filter Edit.isOnChildren).foldl Edit.onChildren g.children⟩ := by
  induction edits generalizing g with
  | nil => exact PatternGroup.ext rfl rfl rfl rfl
  | cons edit edits ih =>
    rw [applyAll_cons, ih, apply_eq, List.flatMap_cons, List.flatMap_cons,
      UniqueList.insertAll_append, UniqueList.insertAll_append]
    cases concerned : edit.isOnChildren with
    | true => rw [List.filter_cons_of_pos concerned, List.foldl_cons]
    | false =>
      rw [List.filter_cons_of_neg (by simp [concerned]),
        Edit.onChildren_of_isOnChildren_eq_false concerned]

theorem mem_children_applyAll {g c : PatternGroup P C} {edits : List (Edit P C)}
    (held : c ∈ (g.applyAll edits).children) : c ∈ g.children ∨ .pushChild c ∈ edits := by
  induction edits generalizing g with
  | nil => exact .inl held
  | cons edit edits ih =>
    rcases ih held with before | later
    · rw [apply_eq] at before
      rcases Edit.mem_onChildren before with old | rfl
      · exact .inl old
      · exact .inr List.mem_cons_self
    · exact .inr (List.mem_cons_of_mem edit later)

/-- What the history leaves of itself in the group that it ends in. -/
structure SummaryOf (start : PatternGroup P C) (edits : List (Edit P C)) (g : PatternGroup P C) :
    Prop where
  isOptional : g.isOptional = start.isOptional
  patterns : g.patterns.toList = (edits.flatMap Edit.patterns).eraseDups
  filters : g.filters.toList = (edits.flatMap Edit.filters).eraseDups
  distinct : ∀ d ∈ g.subtree, d.patterns.toList.Nodup ∧ d.filters.toList.Nodup
  below : ∀ d ∈ g.subtree, d = g ∨ ∃ child, .pushChild child ∈ edits ∧ d ∈ child.subtree
  determined : ∀ {start' : PatternGroup P C} {edits' : List (Edit P C)}, start'.Fresh →
    start'.isOptional = start.isOptional →
    edits'.flatMap Edit.patterns = edits.flatMap Edit.patterns →
    edits'.flatMap Edit.filters = edits.flatMap Edit.filters →
    edits'.filter Edit.isOnChildren = edits.filter Edit.isOnChildren →
    start'.applyAll edits' = g

theorem mem_subtree_applyAll {start d : PatternGroup P C} {edits : List (Edit P C)}
    (fresh : start.Fresh) (below : d ∈ (start.applyAll edits).subtree) :
    d = start.applyAll edits ∨ ∃ child, .pushChild child ∈ edits ∧ d ∈ child.subtree := by
  rw [subtree_eq, List.mem_cons, List.mem_flatMap] at below
  rcases below with rfl | ⟨child, held, inside⟩
  · exact .inl rfl
  · rcases mem_children_applyAll held with old | added
    · rw [fresh.eq] at old
      cases old
    · exact .inr ⟨child, added, inside⟩

/-- A history of edits from an empty group ends in the first occurrences of what it inserted. -/
theorem summary_applyAll {start : PatternGroup P C} (fresh : start.Fresh)
    (edits : List (Edit P C)) : SummaryOf start edits (start.applyAll edits) where
  isOptional := isOptional_applyAll start edits
  patterns := by
    rw [applyAll_eq, fresh.eq]
    exact UniqueList.toList_ofList _
  filters := by
    rw [applyAll_eq, fresh.eq]
    exact UniqueList.toList_ofList _
  distinct d _ := ⟨d.patterns.nodup, d.filters.nodup⟩
  below d held := mem_subtree_applyAll fresh held
  determined {start' edits'} fresh' flags patterns filters steps := by
    rw [applyAll_eq, applyAll_eq start, fresh'.eq, fresh.eq, flags, patterns, filters, steps]

def mixedHistory : List (Edit Nat Nat) :=
  [.insertPatterns [1, 0, 1], .pushChild (required.insertPatterns [2, 3]), .insertFilter 10,
    .insertPattern 0, .pushChild (optional.insertFilter 11), .insertFilter 10,
    .eraseChild (required.insertPatterns [3, 2]), .insertPattern 2]

def sortedHistory : List (Edit Nat Nat) :=
  [.pushChild (required.insertPatterns [2, 3]), .pushChild (optional.insertFilter 11),
    .eraseChild (required.insertPatterns [3, 2]), .insertFilter 10, .insertFilter 10,
    .insertPattern 1, .insertPattern 0, .insertPattern 1, .insertPattern 0, .insertPattern 2]

theorem summary_mixedHistory :
    (optional : PatternGroup Nat Nat).Fresh ∧
      SummaryOf optional mixedHistory (optional.applyAll mixedHistory) ∧
      (optional.applyAll mixedHistory).patterns.toList = [1, 0, 2] ∧
      (optional.applyAll mixedHistory).filters.toList = [10] ∧
      (optional.applyAll mixedHistory).children = [optional.insertFilter 11] ∧
      optional.applyAll sortedHistory = optional.applyAll mixedHistory :=
  have fresh : (optional : PatternGroup Nat Nat).Fresh := .inr (.inl rfl)
  have summary := summary_applyAll fresh mixedHistory
  ⟨fresh, summary, summary.patterns.trans (by decide), summary.filters.trans (by decide), rfl,
    summary.determined fresh rfl rfl rfl rfl⟩

end PatternGroup

end GroupPlan
