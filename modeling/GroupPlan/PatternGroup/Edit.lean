import GroupPlan.PatternGroup.Equality

/-! Edits of a group as data, so that a whole history of edits can be applied,
compared with another one and reasoned about. -/

namespace GroupPlan

inductive Edit (P C : Type) where
  | insertPattern (p : P)
  | insertPatterns (ps : List P)
  | insertFilter (c : C)
  | pushChild (child : PatternGroup P C)
  | eraseChild (child : PatternGroup P C)

def Edit.child? {P C : Type} : Edit P C → Option (PatternGroup P C)
  | pushChild child => some child
  | eraseChild child => some child
  | _ => none

namespace PatternGroup

variable {P C : Type} [DecidableEq P] [DecidableEq C]

def apply (g : PatternGroup P C) : Edit P C → PatternGroup P C
  | .insertPattern p => g.insertPattern p
  | .insertPatterns ps => g.insertPatterns ps
  | .insertFilter c => g.insertFilter c
  | .pushChild child => g.pushChild child
  | .eraseChild child => (g.eraseChild? child).getD g

def applyAll (g : PatternGroup P C) (edits : List (Edit P C)) : PatternGroup P C :=
  edits.foldl apply g

@[simp] theorem applyAll_nil (g : PatternGroup P C) : g.applyAll [] = g := rfl

@[simp] theorem applyAll_cons (g : PatternGroup P C) (edit : Edit P C) (edits : List (Edit P C)) :
    g.applyAll (edit :: edits) = (g.apply edit).applyAll edits := rfl

theorem applyAll_append (g : PatternGroup P C) (edits edits' : List (Edit P C)) :
    g.applyAll (edits ++ edits') = (g.applyAll edits).applyAll edits' := List.foldl_append

@[simp] theorem isOptional_apply (g : PatternGroup P C) (edit : Edit P C) :
    (g.apply edit).isOptional = g.isOptional := by
  cases edit with
  | eraseChild child =>
    rw [apply, eraseChild?]
    split <;> rfl
  | _ => rfl

@[simp] theorem isOptional_applyAll (g : PatternGroup P C) (edits : List (Edit P C)) :
    (g.applyAll edits).isOptional = g.isOptional := by
  induction edits generalizing g with
  | nil => rfl
  | cons edit edits ih => rw [applyAll_cons, ih, isOptional_apply]

def history (g : PatternGroup P C) : List (Edit P C) :=
  .insertPatterns g.patterns.toList ::
    (g.filters.toList.map .insertFilter ++ g.children.map .pushChild)

theorem applyAll_insertFilter (g : PatternGroup P C) (cs : List C) :
    g.applyAll (cs.map .insertFilter) = g.insertFilters cs := List.foldl_map

theorem applyAll_pushChild (g : PatternGroup P C) (cs : List (PatternGroup P C)) :
    g.applyAll (cs.map .pushChild) = { g with children := g.children ++ cs } := by
  induction cs generalizing g with
  | nil => exact PatternGroup.ext rfl rfl rfl (List.append_nil _).symm
  | cons c cs ih =>
    rw [List.map_cons, applyAll_cons, ih]
    exact PatternGroup.ext rfl rfl rfl (List.append_assoc _ _ _)

theorem applyAll_history (g : PatternGroup P C) :
    applyAll ⟨g.isOptional, ∅, ∅, []⟩ g.history = g := by
  rw [history, applyAll_cons, applyAll_append, applyAll_insertFilter, applyAll_pushChild,
    insertFilters_eq]
  exact PatternGroup.ext rfl (UniqueList.ext (UniqueList.toList_ofList_of_nodup g.patterns.nodup))
    (UniqueList.ext (UniqueList.toList_ofList_of_nodup g.filters.nodup)) rfl

/-- What edits make of the empty groups, with such groups as children. -/
inductive Built : PatternGroup P C → Prop where
  | required : Built required
  | optional : Built optional
  | edited {g : PatternGroup P C} {edit : Edit P C} :
    Built g → (∀ child ∈ edit.child?, Built child) → Built (g.apply edit)

theorem Built.applyAll {g : PatternGroup P C} {edits : List (Edit P C)} (built : g.Built)
    (there : ∀ edit ∈ edits, ∀ child ∈ edit.child?, child.Built) : (g.applyAll edits).Built := by
  induction edits generalizing g with
  | nil => exact built
  | cons edit edits ih =>
    rw [List.forall_mem_cons] at there
    exact ih (.edited built there.1) there.2

theorem built (g : PatternGroup P C) : g.Built := by
  induction g with
  | group o ps fs cs ih =>
    have empty : Built (⟨o, ∅, ∅, []⟩ : PatternGroup P C) := by
      cases o with
      | false => exact .required
      | true => exact .optional
    rw [← applyAll_history ⟨o, ps, fs, cs⟩]
    refine empty.applyAll fun edit step child named => ?_
    simp only [history, List.mem_cons, List.mem_append, List.mem_map] at step
    rcases step with rfl | ⟨c, -, rfl⟩ | ⟨c, held, rfl⟩
    · cases named
    · cases named
    · obtain rfl : c = child := Option.some.inj named
      exact ih c held

end PatternGroup

end GroupPlan
