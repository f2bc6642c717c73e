import GroupPlan.Proofs.FilterAccounting
import GroupPlan.Proofs.Rearrangement

/-! Equal groups have plans of one shape. Rearranged plans are built from lists of equal
length, so their nodes can be paired off, position by position, and the conditions with
them. Nothing moves from one node to another: the leaves below the right side of a left
join and the filters on it are the same on both sides but for their order. -/

namespace GroupPlan

variable {P C : Type}

theorem foldl_rel_of_length_eq {α β S T : Type} {R : S → T → Prop} {f : S → α → S} {g : T → β → T}
    (step : ∀ s t a b, R s t → R (f s a) (g t b)) {as : List α} {bs : List β}
    (same : as.length = bs.length) {s : S} {t : T} (start : R s t) :
    R (as.foldl f s) (bs.foldl g t) := by
  induction as generalizing bs s t with
  | nil =>
    rw [List.eq_nil_of_length_eq_zero same.symm]
    exact start
  | cons a as ih =>
    cases bs with
    | nil => cases same
    | cons b bs =>
      rw [List.foldl_cons, List.foldl_cons]
      exact ih (Nat.add_right_cancel same) (step s t a b start)

namespace Condition

def shape : Condition C → Condition Unit
  | atom _ => atom ()
  | and lhs rhs => and lhs.shape rhs.shape

theorem shape_extend {fs gs : List C} {base base' : Condition C} (same : fs.length = gs.length)
    (start : base.shape = base'.shape) : (base.extend fs).shape = (base'.extend gs).shape :=
  have step (k k' : Condition C) (c d : C) (before : k.shape = k'.shape) :
      (and (atom c) k).shape = (and (atom d) k').shape := congrArg (and (atom ())) before
  foldl_rel_of_length_eq step same start

theorem shape_of_ofFilters {fs gs : List C} {k k' : Condition C} (same : fs.length = gs.length)
    (conjoined : ofFilters fs = .ok k) (conjoined' : ofFilters gs = .ok k') :
    k.shape = k'.shape := by
  cases fs with
  | nil => cases conjoined
  | cons c fs =>
    cases gs with
    | nil => cases conjoined'
    | cons d gs =>
      cases conjoined
      cases conjoined'
      exact shape_extend (Nat.add_right_cancel same) rfl

end Condition

namespace Plan

def shape : Plan P C → Plan Unit Unit
  | pattern _ => pattern ()
  | join lhs rhs => join lhs.shape rhs.shape
  | leftJoin lhs rhs condition => leftJoin lhs.shape rhs.shape (condition.map Condition.shape)
  | filter inner condition => filter inner.shape condition.shape
  | empty => empty

/-- The nodes of the plans correspond, position by position. -/
inductive Aligned : Plan P C → Plan P C → Prop where
  | pattern (p q : P) : Aligned (.pattern p) (.pattern q)
  | join {lhs lhs' rhs rhs' : Plan P C} (left : Aligned lhs lhs') (right : Aligned rhs rhs') :
    Aligned (.join lhs rhs) (.join lhs' rhs')
  | leftJoin {lhs lhs' rhs rhs' : Plan P C} (left : Aligned lhs lhs') (right : Aligned rhs rhs') :
    Aligned (.leftJoin lhs rhs none) (.leftJoin lhs' rhs' none)
  | conditioned {lhs lhs' rhs rhs' : Plan P C} {k k' : Condition C} (left : Aligned lhs lhs')
    (right : Aligned rhs rhs') (shape : k.shape = k'.shape) (atoms : k.atoms.Perm k'.atoms)
    (leaves : rhs.leaves.Perm rhs'.leaves) :
    Aligned (.leftJoin lhs rhs (some k)) (.leftJoin lhs' rhs' (some k'))
  | filter {e e' : Plan P C} {k k' : Condition C} (inner : Aligned e e')
    (shape : k.shape = k'.shape) : Aligned (.filter e k) (.filter e' k')
  | empty : Aligned .empty .empty

theorem Aligned.shape_eq {e e' : Plan P C} (aligned : e.Aligned e') : e.shape = e'.shape := by
  induction aligned with
  | pattern p q => rfl
  | join _ _ left right => rw [Plan.shape, Plan.shape, left, right]
  | leftJoin _ _ left right => rw [Plan.shape, Plan.shape, left, right]
  | conditioned _ _ shape _ _ left right =>
    rw [Plan.shape, Plan.shape, left, right, Option.map_some, Option.map_some, shape]
  | filter _ shape inner => rw [Plan.shape, Plan.shape, inner, shape]
  | empty => rfl

variable {e e' : Plan P C}

theorem aligned_joinEach {ps qs : List P} (same : ps.length = qs.length) (base : e.Aligned e') :
    (e.joinEach ps).Aligned (e'.joinEach qs) :=
  foldl_rel_of_length_eq (fun _ _ p q before => .join before (.pattern p q)) same base

theorem aligned_of_ofPatterns {ps qs : List P} (same : ps.length = qs.length)
    (joined : ofPatterns ps = .ok e) (joined' : ofPatterns qs = .ok e') : e.Aligned e' := by
  cases ps with
  | nil => cases joined
  | cons p ps =>
    cases qs with
    | nil => cases joined'
    | cons q qs =>
      cases joined
      cases joined'
      exact aligned_joinEach (Nat.add_right_cancel same) (.pattern p q)

theorem aligned_filterEach {fs gs : List C} (same : fs.length = gs.length)
    (base : e.Aligned e') : (e.filterEach fs).Aligned (e'.filterEach gs) :=
  foldl_rel_of_length_eq (fun _ _ _ _ before => .filter before rfl) same base

theorem aligned_filterAll {fs gs : List C} (same : fs.length = gs.length)
    (base : e.Aligned e') : (e.filterAll fs).Aligned (e'.filterAll gs) := by
  cases fs with
  | nil =>
    rw [List.eq_nil_of_length_eq_zero same.symm]
    exact base
  | cons c fs =>
    cases gs with
    | nil => cases same
    | cons d gs => exact .filter base (Condition.shape_extend (Nat.add_right_cancel same) rfl)

namespace Rearranged

theorem perm_leaves (rearranged : e.Rearranged e') : e.leaves.Perm e'.leaves := by
  induction rearranged with
  | ofPatterns perm joined joined' =>
    rwa [leaves_of_ofPatterns joined, leaves_of_ofPatterns joined']
  | empty => exact .refl _
  | filterEach _ _ inner => rwa [leaves_filterEach, leaves_filterEach]
  | filterAll _ _ inner => rwa [leaves_filterAll, leaves_filterAll]
  | join _ _ left right => exact left.append right
  | leftJoin _ _ left right => exact left.append right
  | conditioned _ _ _ _ _ left right => exact left.append right

theorem perm_conditionAtoms (rearranged : e.Rearranged e') :
    e.conditionAtoms.Perm e'.conditionAtoms := by
  have sameBag : e.atomBag = e'.atomBag := by
    induction rearranged with
    | ofPatterns _ joined joined' =>
      rw [(joinsPatterns_of_ofPatterns joined).atomBag_eq_zero,
        (joinsPatterns_of_ofPatterns joined').atomBag_eq_zero]
    | empty => rfl
    | filterEach perm _ inner =>
      rw [atomBag_filterEach, atomBag_filterEach, inner, Multiset.coe_eq_coe.mpr perm]
    | filterAll perm _ inner =>
      rw [atomBag_filterAll, atomBag_filterAll, inner, Multiset.coe_eq_coe.mpr perm]
    | join _ _ left right => rw [atomBag_join, atomBag_join, left, right]
    | leftJoin _ _ left right =>
      rw [atomBag_leftJoin_none, atomBag_leftJoin_none, left, right]
    | conditioned _ _ perm conjoined conjoined' left right =>
      rw [atomBag_leftJoin_some, atomBag_leftJoin_some, coe_atoms_of_ofFilters conjoined,
        coe_atoms_of_ofFilters conjoined', left, right, Multiset.coe_eq_coe.mpr perm]
  exact Multiset.coe_eq_coe.mp sameBag

theorem aligned (rearranged : e.Rearranged e') : e.Aligned e' := by
  induction rearranged with
  | ofPatterns perm joined joined' => exact aligned_of_ofPatterns perm.length_eq joined joined'
  | empty => exact .empty
  | filterEach perm _ inner => exact aligned_filterEach perm.length_eq inner
  | filterAll perm _ inner => exact aligned_filterAll perm.length_eq inner
  | join _ _ left right => exact .join left right
  | leftJoin _ _ left right => exact .leftJoin left right
  | conditioned _ below perm conjoined conjoined' left right =>
    have atoms := Multiset.coe_eq_coe.mpr perm
    rw [← coe_atoms_of_ofFilters conjoined, ← coe_atoms_of_ofFilters conjoined'] at atoms
    exact .conditioned left right
      (Condition.shape_of_ofFilters perm.length_eq conjoined conjoined')
      (Multiset.coe_eq_coe.mp atoms) below.perm_leaves

end Rearranged

end Plan

namespace PatternGroup

variable [DecidableEq P] [DecidableEq C]

/-- Equal groups have plans of one shape, with the same leaves and filters at corresponding
places, or no plan. -/
theorem shape_eq_of_beq {g h : PatternGroup P C} (same : (g == h) = true) :
    (g.plan? = none ∧ h.plan? = none) ∨
      ∃ e e', g.plan? = some e ∧ h.plan? = some e' ∧ e.shape = e'.shape ∧
        e.leaves.Perm e'.leaves ∧ e.conditionAtoms.Perm e'.conditionAtoms ∧ e.Aligned e' := by
  rcases plan?_cases_of_beq same with unplanned | ⟨e, e', planned, planned', rearranged⟩
  · exact .inl unplanned
  · exact .inr ⟨e, e', planned, planned', rearranged.aligned.shape_eq, rearranged.perm_leaves,
      rearranged.perm_conditionAtoms, rearranged.aligned⟩

theorem shape_orderedSample :
    (orderedSample id == orderedSample List.reverse) = true ∧
      ∃ e e', (orderedSample id).plan? = some e ∧ (orderedSample List.reverse).plan? = some e' ∧
        e ≠ e' ∧ e.shape = e'.shape ∧ e.leaves.Perm e'.leaves ∧
        e.conditionAtoms.Perm e'.conditionAtoms ∧ e.Aligned e' := by
  have same : (orderedSample id == orderedSample List.reverse) = true := by decide
  have held : (orderedSample id).plan? ≠ none := by decide
  have differ : (orderedSample id).plan? ≠ (orderedSample List.reverse).plan? := by decide
  refine ⟨same, ?_⟩
  rcases shape_eq_of_beq same with ⟨unplanned, -⟩ | ⟨e, e', planned, planned', alike⟩
  · exact absurd unplanned held
  · rw [planned, planned'] at differ
    exact ⟨e, e', planned, planned', mt (congrArg some) differ, alike⟩

end PatternGroup

end GroupPlan
