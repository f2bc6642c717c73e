import GroupPlan.PatternGroup.Edit
import GroupPlan.PatternGroup.Subtree
import Mathlib.Data.List.Forall2

/-! What `==` on groups is. Patterns and filters are held once each, so lists with the
same members are permutations of each other, and two groups are equal exactly if their
patterns and filters are rearranged, at every level of the tree. This is an equivalence
which every edit respects, removing a child included: the child that is removed is the
first of its class on both sides. -/

namespace GroupPlan

namespace UniqueList

variable {α : Type} [DecidableEq α] {s t : UniqueList α}

theorem sameMembers_iff_perm : s.sameMembers t ↔ s.toList.Perm t.toList := by
  rw [sameMembers_iff, List.perm_ext_iff_of_nodup s.nodup t.nodup]
  rfl

theorem perm_insertAll (perm : s.toList.Perm t.toList) (as : List α) :
    (s.insertAll as).toList.Perm (t.insertAll as).toList := by
  rw [← sameMembers_iff_perm, sameMembers_iff]
  intro b
  rw [mem_insertAll, mem_insertAll]
  exact or_congr_left perm.mem_iff

theorem perm_insert (perm : s.toList.Perm t.toList) (a : α) :
    (s.insert a).toList.Perm (t.insert a).toList :=
  perm_insertAll perm [a]

end UniqueList

namespace PatternGroup

variable {P C : Type} [DecidableEq P] [DecidableEq C]

theorem beq_children_iff {cs ds : List (PatternGroup P C)} :
    (cs == ds) = true ↔ List.Forall₂ (fun c d => (c == d) = true) cs ds := by
  induction cs generalizing ds with
  | nil => cases ds <;> simp
  | cons c cs ih => cases ds <;> simp [ih]

theorem beq_iff_perm {g h : PatternGroup P C} :
    (g == h) = true ↔ g.isOptional = h.isOptional ∧ g.patterns.toList.Perm h.patterns.toList ∧
      g.filters.toList.Perm h.filters.toList ∧
      List.Forall₂ (fun c d => (c == d) = true) g.children h.children := by
  rw [beq_iff, UniqueList.sameMembers_iff_perm, UniqueList.sameMembers_iff_perm, beq_children_iff]

theorem beq_self (g : PatternGroup P C) : (g == g) = true := by
  induction g with
  | group o ps fs cs ih =>
    exact beq_iff_perm.mpr ⟨rfl, .refl _, .refl _, List.forall₂_same.mpr ih⟩

theorem beq_symm {g h : PatternGroup P C} (same : (g == h) = true) : (h == g) = true := by
  induction g generalizing h with
  | group o ps fs cs ih =>
    obtain ⟨flags, patterns, filters, children⟩ := beq_iff_perm.mp same
    refine beq_iff_perm.mpr ⟨flags.symm, patterns.symm, filters.symm, .flip ?_⟩
    exact ((List.forall₂_and_left cs h.children).mpr ⟨ih, children⟩).imp
      fun c d pair => pair.1 pair.2

theorem forall₂_beq_trans {cs ds es : List (PatternGroup P C)}
    (there : ∀ c ∈ cs, ∀ {d e : PatternGroup P C}, (c == d) = true → (d == e) = true →
      (c == e) = true)
    (first : List.Forall₂ (fun c d => (c == d) = true) cs ds)
    (second : List.Forall₂ (fun d e => (d == e) = true) ds es) :
    List.Forall₂ (fun c e => (c == e) = true) cs es := by
  induction first generalizing es with
  | nil =>
    cases second
    exact .nil
  | cons here _ ih =>
    cases second with
    | cons here' second =>
      rw [List.forall_mem_cons] at there
      exact .cons (there.1 here here') (ih there.2 second)

theorem beq_trans {g h k : PatternGroup P C} (first : (g == h) = true)
    (second : (h == k) = true) : (g == k) = true := by
  induction g generalizing h k with
  | group o ps fs cs ih =>
    obtain ⟨flags, patterns, filters, children⟩ := beq_iff_perm.mp first
    obtain ⟨flags', patterns', filters', children'⟩ := beq_iff_perm.mp second
    exact beq_iff_perm.mpr ⟨flags.trans flags', patterns.trans patterns', filters.trans filters',
      forall₂_beq_trans (fun c held => ih c held) children children'⟩

instance : EquivBEq (PatternGroup P C) where
  rfl := beq_self _
  symm := beq_symm
  trans := beq_trans

variable {g h c d : PatternGroup P C}

theorem isEmpty_eq_of_beq (same : (g == h) = true) : g.isEmpty = h.isEmpty := by
  obtain ⟨-, patterns, filters, children⟩ := beq_iff_perm.mp same
  have bare : g.patterns.toList = [] ↔ h.patterns.toList = [] := by
    rw [← List.length_eq_zero_iff, patterns.length_eq, List.length_eq_zero_iff]
  have unfiltered : g.filters.toList = [] ↔ h.filters.toList = [] := by
    rw [← List.length_eq_zero_iff, filters.length_eq, List.length_eq_zero_iff]
  have childless : g.children = [] ↔ h.children = [] := by
    rw [← List.length_eq_zero_iff, children.length_eq, List.length_eq_zero_iff]
  rw [Bool.eq_iff_iff, isEmpty_iff, isEmpty_iff, bare, unfiltered, childless]

theorem patternCountEach_eq_of_beq {cs ds : List (PatternGroup P C)}
    (there : ∀ c ∈ cs, ∀ {d : PatternGroup P C}, (c == d) = true →
      c.patternCount = d.patternCount)
    (same : List.Forall₂ (fun c d => (c == d) = true) cs ds) :
    patternCountEach cs = patternCountEach ds := by
  induction same with
  | nil => rfl
  | cons here _ ih =>
    rw [List.forall_mem_cons] at there
    rw [patternCountEach, patternCountEach, there.1 here, ih there.2]

theorem patternCount_eq_of_beq (same : (g == h) = true) : g.patternCount = h.patternCount := by
  induction g generalizing h with
  | group o ps fs cs ih =>
    cases h with
    | mk o' ps' fs' ds =>
      obtain ⟨-, patterns, -, children⟩ := beq_iff_perm.mp same
      have size : ps.size = ps'.size := patterns.length_eq
      rw [patternCount, patternCount, size, patternCountEach_eq_of_beq ih children]

theorem any_beq_congr {cs ds : List (PatternGroup P C)} (sought : (c == d) = true)
    (same : List.Forall₂ (fun c d => (c == d) = true) cs ds) :
    cs.any (· == c) = ds.any (· == d) := by
  induction same with
  | nil => rfl
  | cons here _ ih =>
    rw [List.any_cons, List.any_cons, ih, BEq.congr_left here, BEq.congr_right sought]

theorem forall₂_beq_eraseP {cs ds : List (PatternGroup P C)} (sought : (c == d) = true)
    (same : List.Forall₂ (fun c d => (c == d) = true) cs ds) :
    List.Forall₂ (fun c d => (c == d) = true) (cs.eraseP (· == c)) (ds.eraseP (· == d)) := by
  induction same with
  | nil => exact .nil
  | @cons a b as bs here rest ih =>
    have found : (a == c) = (b == d) := by rw [BEq.congr_left here, BEq.congr_right sought]
    rw [List.eraseP_cons, List.eraseP_cons, found]
    cases b == d with
    | true => exact rest
    | false => exact .cons here ih

theorem eraseChild?_isSome_eq (same : (g == h) = true) (sought : (c == d) = true) :
    (g.eraseChild? c).isSome = (h.eraseChild? d).isSome := by
  rw [eraseChild?_isSome, eraseChild?_isSome]
  exact any_beq_congr sought (beq_iff_perm.mp same).2.2.2

end PatternGroup

variable {P C : Type} [DecidableEq P] [DecidableEq C]

inductive Edit.Same : Edit P C → Edit P C → Prop where
  | insertPattern (p : P) : Same (.insertPattern p) (.insertPattern p)
  | insertPatterns (ps : List P) : Same (.insertPatterns ps) (.insertPatterns ps)
  | insertFilter (c : C) : Same (.insertFilter c) (.insertFilter c)
  | pushChild {c d : PatternGroup P C} (same : (c == d) = true) :
    Same (.pushChild c) (.pushChild d)
  | eraseChild {c d : PatternGroup P C} (same : (c == d) = true) :
    Same (.eraseChild c) (.eraseChild d)

namespace PatternGroup

variable {g h : PatternGroup P C}

theorem beq_eraseChild {c d : PatternGroup P C} (same : (g == h) = true)
    (sought : (c == d) = true) :
    ((g.eraseChild? c).getD g == (h.eraseChild? d).getD h) = true := by
  obtain ⟨flags, patterns, filters, children⟩ := beq_iff_perm.mp same
  have found := any_beq_congr sought children
  rw [eraseChild?, eraseChild?, found]
  split
  · exact beq_iff_perm.mpr ⟨flags, patterns, filters, forall₂_beq_eraseP sought children⟩
  · exact same

theorem beq_apply {edit edit' : Edit P C} (same : (g == h) = true) (alike : edit.Same edit') :
    (g.apply edit == h.apply edit') = true := by
  obtain ⟨flags, patterns, filters, children⟩ := beq_iff_perm.mp same
  cases alike with
  | insertPattern p =>
    exact beq_iff_perm.mpr ⟨flags, UniqueList.perm_insert patterns p, filters, children⟩
  | insertPatterns ps =>
    exact beq_iff_perm.mpr ⟨flags, UniqueList.perm_insertAll patterns ps, filters, children⟩
  | insertFilter c =>
    exact beq_iff_perm.mpr ⟨flags, patterns, UniqueList.perm_insert filters c, children⟩
  | pushChild added =>
    exact beq_iff_perm.mpr
      ⟨flags, patterns, filters, List.rel_append children (.cons added .nil)⟩
  | eraseChild sought => exact beq_eraseChild same sought

theorem beq_applyAll {edits edits' : List (Edit P C)} (same : (g == h) = true)
    (alike : List.Forall₂ Edit.Same edits edits') :
    (g.applyAll edits == h.applyAll edits') = true := by
  induction alike generalizing g h with
  | nil => exact same
  | cons first _ ih => exact ih (beq_apply same first)

/-- The groups stay equal under the same edits, and what is asked of them without regard to the
order of patterns and filters has one answer. -/
structure Interchangeable (g h : PatternGroup P C) : Prop where
  isOptional : g.isOptional = h.isOptional
  isEmpty : g.isEmpty = h.isEmpty
  patternCount : g.patternCount = h.patternCount
  eraseChild : ∀ {c d : PatternGroup P C}, (c == d) = true →
    (g.eraseChild? c).isSome = (h.eraseChild? d).isSome
  apply : ∀ {edit edit' : Edit P C}, edit.Same edit' → (g.apply edit == h.apply edit') = true
  applyAll : ∀ {edits edits' : List (Edit P C)}, List.Forall₂ Edit.Same edits edits' →
    (g.applyAll edits == h.applyAll edits') = true

/-- Equality is an equivalence, holds up to the order of patterns and filters at every level, and
is kept by every edit. -/
theorem beq_congruence :
    Equivalence (fun g h : PatternGroup P C => (g == h) = true) ∧
      (∀ g h : PatternGroup P C, (g == h) = true ↔
        g.isOptional = h.isOptional ∧ g.patterns.toList.Perm h.patterns.toList ∧
          g.filters.toList.Perm h.filters.toList ∧
          List.Forall₂ (fun c d => (c == d) = true) g.children h.children) ∧
      ∀ g h : PatternGroup P C, (g == h) = true → g.Interchangeable h := by
  refine ⟨⟨beq_self, beq_symm, beq_trans⟩, fun g h => beq_iff_perm, fun g h same => ?_⟩
  exact {
    isOptional := (beq_iff_perm.mp same).1
    isEmpty := isEmpty_eq_of_beq same
    patternCount := patternCount_eq_of_beq same
    eraseChild := eraseChild?_isSome_eq same
    apply := beq_apply same
    applyAll := beq_applyAll same }

def orderedSample (order : List Nat → List Nat) : PatternGroup Nat Nat :=
  ((required.insertPatterns (order [0, 1])).insertFilters (order [10, 11]))
    |>.pushChild ((optional.insertPatterns (order [2, 3])).insertFilters (order [12, 13]))
    |>.pushChild (optional.insertFilters (order [14, 15]))

theorem interchangeable_orderedSample :
    (orderedSample id == orderedSample List.reverse) = true ∧
      (orderedSample id).patterns ≠ (orderedSample List.reverse).patterns ∧
      (orderedSample id).Interchangeable (orderedSample List.reverse) :=
  have same : (orderedSample id == orderedSample List.reverse) = true := by decide
  ⟨same, by decide, beq_congruence.2.2 _ _ same⟩

end PatternGroup

end GroupPlan
