import GroupPlan.Proofs.Leaves
import GroupPlan.Proofs.PlanSize

/-! Exchanging two required children. The plan keeps its leaves and every group its own nodes;
what may change is whether the children between the two are folded. They are folded behind
a child that contributes and not behind one that does not, so where nothing else stands to
their left and only one of the two contributes, the exchange decides whether the first of
them starts the plan. If that one is optional, its left join comes or goes. -/

namespace GroupPlan.PatternGroup

variable {P C : Type}

section Permuted

variable {g : PatternGroup P C} {ds : List (PatternGroup P C)}

theorem plan?_isSome_of_perm (perm : g.children.Perm ds) :
    ({ g with children := ds } : PatternGroup P C).plan?.isSome = g.plan?.isSome := by
  rw [plan?_isSome, plan?_isSome, contributes_eq, contributes_eq, perm.any_eq]

theorem perm_leaves_of_perm (perm : g.children.Perm ds) :
    (({ g with children := ds } : PatternGroup P C).plan?.elim [] Plan.leaves).Perm
      (g.plan?.elim [] Plan.leaves) := by
  rw [plan?_eq, plan?_eq, plansAllPatterns, plansAllPatterns, allPatterns_eq, g.allPatterns_eq]
  exact (perm.symm.flatMap_right allPatterns).append_left g.patterns.toList

end Permuted

section Weight

variable (w : Plan.Mark → Nat)

def weightAmong (left : Bool) (cs : List (PatternGroup P C)) : Nat :=
  ((descendantsEach left cs).map (Occurrence.weight w)).sum

theorem weight_plan?_eq (g : PatternGroup P C) :
    g.plan?.elim 0 (Plan.weight w) =
      g.ownWeight w .applied + weightAmong w (!g.patterns.isEmpty) g.children := by
  rw [plan?_eq, g.plansAllWeight, weightBelow, descendants_eq]
  rfl

theorem weightAmong_cons (left : Bool) (c : PatternGroup P C) (cs : List (PatternGroup P C)) :
    weightAmong w left (c :: cs) =
      (⟨c, left⟩ : Occurrence P C).weight w + c.weightBelow w +
        weightAmong w (left || c.contributes) cs :=
  sum_descendantsEach_cons (Occurrence.weight w) left c cs

theorem weightAmong_append (left : Bool) (cs ds : List (PatternGroup P C)) :
    weightAmong w left (cs ++ ds) =
      weightAmong w left cs + weightAmong w (left || cs.any contributes) ds := by
  rw [weightAmong, descendantsEach_append, List.map_append, List.sum_append]
  rfl

/-- Being folded matters to the first child that contributes, because it alone may start the plan,
and to no other. -/
theorem weightAmong_folded (cs : List (PatternGroup P C)) :
    weightAmong w true cs +
        (cs.find? contributes).elim 0 (fun m => (⟨m, false⟩ : Occurrence P C).weight w) =
      weightAmong w false cs +
        (cs.find? contributes).elim 0 (fun m => (⟨m, true⟩ : Occurrence P C).weight w) := by
  induction cs with
  | nil => rfl
  | cons c cs ih =>
    rw [weightAmong_cons, weightAmong_cons, Bool.true_or, Bool.false_or]
    cases held : c.contributes with
    | false =>
      have folded := weight_of_blank (c.plansAllWeight w) held true
      have started := weight_of_blank (c.plansAllWeight w) held false
      rw [List.find?_cons_of_neg (by simp [held])]
      omega
    | true =>
      rw [List.find?_cons_of_pos held, Option.elim_some, Option.elim_some]
      omega

variable {w}

theorem weight_of_required (free : w ⟨.join, false⟩ = 0) {c : PatternGroup P C}
    (required : c.isOptional = false) (folded : Bool) :
    (⟨c, folded⟩ : Occurrence P C).weight w = c.ownWeight w .applied := by
  simp [Occurrence.weight, Occurrence.filterUse, Occurrence.joinWeight, joinMark, required, free]

end Weight

structure RequiredPair (g : PatternGroup P C) where
  before : List (PatternGroup P C)
  first : PatternGroup P C
  between : List (PatternGroup P C)
  second : PatternGroup P C
  after : List (PatternGroup P C)
  children : g.children = before ++ first :: (between ++ second :: after)
  first_required : first.isOptional = false
  second_required : second.isOptional = false

namespace RequiredPair

variable {g : PatternGroup P C} (x : g.RequiredPair)

def exchange : PatternGroup P C :=
  { g with children := x.before ++ x.second :: (x.between ++ x.first :: x.after) }

@[simp] theorem patterns_exchange : x.exchange.patterns = g.patterns := rfl

@[simp] theorem children_exchange :
    x.exchange.children = x.before ++ x.second :: (x.between ++ x.first :: x.after) := rfl

def hasLeft : Bool := ({ g with children := x.before } : PatternGroup P C).hasLeft

/-- The order of the two decides whether `m`, an optional child between them, starts the plan. -/
structure MovesStart (m : PatternGroup P C) : Prop where
  alone : x.hasLeft = false
  differ : x.first.contributes ≠ x.second.contributes
  found : x.between.find? contributes = some m
  optional : m.isOptional = true

theorem perm_children : g.children.Perm x.exchange.children := by
  have turned : (x.first :: (x.between ++ x.second :: x.after)).Perm
      (x.second :: (x.between ++ x.first :: x.after)) :=
    (List.perm_middle.cons _).trans ((List.Perm.swap _ _ _).trans (List.perm_middle.symm.cons _))
  rw [x.children]
  exact turned.append_left x.before

theorem weight_plan?_exchange {w : Plan.Mark → Nat} (free : w ⟨.join, false⟩ = 0) :
    ∃ rest,
      g.plan?.elim 0 (Plan.weight w) =
        rest + weightAmong w (x.hasLeft || x.first.contributes) x.between ∧
      x.exchange.plan?.elim 0 (Plan.weight w) =
        rest + weightAmong w (x.hasLeft || x.second.contributes) x.between := by
  have own : x.exchange.ownWeight w .applied = g.ownWeight w .applied := by
    rw [ownWeight, ownWeight, x.perm_children.any_eq]
    rfl
  have left : x.hasLeft = (!g.patterns.isEmpty || x.before.any contributes) := rfl
  have turned : (x.hasLeft || x.second.contributes || x.between.any contributes ||
      x.first.contributes) =
      (x.hasLeft || x.first.contributes || x.between.any contributes || x.second.contributes) := by
    ac_rfl
  refine ⟨g.ownWeight w .applied + weightAmong w (!g.patterns.isEmpty) x.before +
    (x.first.ownWeight w .applied + x.first.weightBelow w) +
    (x.second.ownWeight w .applied + x.second.weightBelow w) +
    weightAmong w (x.hasLeft || x.first.contributes || x.between.any contributes ||
      x.second.contributes) x.after, ?_, ?_⟩
  · rw [weight_plan?_eq, x.children, weightAmong_append, weightAmong_cons, weightAmong_append,
      weightAmong_cons, ← left, weight_of_required free x.first_required,
      weight_of_required free x.second_required]
    omega
  · rw [weight_plan?_eq, own, x.patterns_exchange, x.children_exchange, weightAmong_append,
      weightAmong_cons, weightAmong_append, weightAmong_cons, ← left, turned,
      weight_of_required free x.first_required, weight_of_required free x.second_required]
    omega

theorem weight_plan?_eq_of_not_movesStart {w : Plan.Mark → Nat} (free : w ⟨.join, false⟩ = 0)
    (stays : ∀ m, ¬x.MovesStart m) :
    x.exchange.plan?.elim 0 (Plan.weight w) = g.plan?.elim 0 (Plan.weight w) := by
  have folded := weightAmong_folded w x.between
  obtain ⟨rest, old, new⟩ := x.weight_plan?_exchange free
  rw [old, new]
  by_cases same : x.first.contributes = x.second.contributes
  · rw [same]
  cases left : x.hasLeft with
  | true => rw [Bool.true_or, Bool.true_or]
  | false =>
    have unmoved : weightAmong w true x.between = weightAmong w false x.between := by
      cases found : x.between.find? contributes with
      | none => simpa [found] using folded
      | some m =>
        have required : m.isOptional = false := by
          cases optional : m.isOptional with
          | false => rfl
          | true => exact absurd ⟨left, same, found, optional⟩ (stays m)
        rw [found, Option.elim_some, Option.elim_some, weight_of_required free required,
          weight_of_required free required] at folded
        omega
    cases x.first.contributes <;> cases x.second.contributes <;> simp [unmoved]

theorem count_exchange (test : Plan.Mark → Bool) (free : test ⟨.join, false⟩ = false)
    (stays : ∀ m, ¬x.MovesStart m) :
    x.exchange.plan?.elim 0 (Plan.count fun n => test n.mark) =
      g.plan?.elim 0 (Plan.count fun n => test n.mark) := by
  rw [funext (Plan.count_mark test)]
  exact x.weight_plan?_eq_of_not_movesStart (Plan.counting_eq_zero free) stays

/-- The group of which the plan starts from a child between the two, if the order decides. -/
def starting : PatternGroup P C := if x.first.contributes then x.exchange else g

/-- The group of which the plan attaches that child. -/
def attaching : PatternGroup P C := if x.first.contributes then g else x.exchange

variable {m : PatternGroup P C}

theorem weight_plan?_of_movesStart {w : Plan.Mark → Nat} (free : w ⟨.join, false⟩ = 0)
    (moves : x.MovesStart m) :
    x.starting.plan?.elim 0 (Plan.weight w) + (⟨m, true⟩ : Occurrence P C).weight w =
      x.attaching.plan?.elim 0 (Plan.weight w) + (⟨m, false⟩ : Occurrence P C).weight w := by
  have folded := weightAmong_folded w x.between
  obtain ⟨rest, old, new⟩ := x.weight_plan?_exchange free
  rw [moves.found, Option.elim_some, Option.elim_some] at folded
  rw [moves.alone, Bool.false_or] at old new
  rw [starting, attaching]
  cases first : x.first.contributes with
  | true =>
    have second : x.second.contributes = false := by simpa [first] using moves.differ
    rw [first] at old
    rw [second] at new
    rw [if_pos rfl, if_pos rfl, old, new]
    omega
  | false =>
    have second : x.second.contributes = true := by simpa [first] using moves.differ
    rw [first] at old
    rw [second] at new
    rw [if_neg Bool.false_ne_true, if_neg Bool.false_ne_true, old, new]
    omega

theorem count_of_movesStart (test : Plan.Mark → Bool) (free : test ⟨.join, false⟩ = false)
    (moves : x.MovesStart m) :
    x.starting.plan?.elim 0 (Plan.count fun n => test n.mark) +
        (⟨m, true⟩ : Occurrence P C).weight (Plan.counting test) =
      x.attaching.plan?.elim 0 (Plan.count fun n => test n.mark) +
        (⟨m, false⟩ : Occurrence P C).weight (Plan.counting test) := by
  rw [funext (Plan.count_mark test)]
  exact x.weight_plan?_of_movesStart (Plan.counting_eq_zero free) moves

end RequiredPair

structure SameCounts (g h : PatternGroup P C) : Prop where
  filters : g.plan?.elim 0 (Plan.countKind .filter) = h.plan?.elim 0 (Plan.countKind .filter)
  leftJoins : g.plan?.elim 0 (Plan.countKind .leftJoin) =
    h.plan?.elim 0 (Plan.countKind .leftJoin)
  conditioned : g.plan?.elim 0 Plan.countConditionalLeftJoins =
    h.plan?.elim 0 Plan.countConditionalLeftJoins

/-- The second plan attaches `m` by a left join, with its filters, if any, as the condition; the
first has no such node, and a filter for each of them if `m` has patterns. -/
structure CountsApart (m g h : PatternGroup P C) : Prop where
  filters : g.plan?.elim 0 (Plan.countKind .filter) =
    h.plan?.elim 0 (Plan.countKind .filter) + if m.patterns.isEmpty then 0 else m.filters.size
  leftJoins : h.plan?.elim 0 (Plan.countKind .leftJoin) =
    g.plan?.elim 0 (Plan.countKind .leftJoin) + 1
  conditioned : h.plan?.elim 0 Plan.countConditionalLeftJoins =
    g.plan?.elim 0 Plan.countConditionalLeftJoins + if m.filters.isEmpty then 0 else 1

theorem RequiredPair.countsApart {m g : PatternGroup P C} (x : g.RequiredPair)
    (moves : x.MovesStart m) : CountsApart m x.starting x.attaching := by
  have optional : m.isOptional = true := moves.optional
  have held : m.contributes = true := List.find?_some moves.found
  constructor
  case filters =>
    have total : x.starting.plan?.elim 0 (Plan.countKind .filter) + _ =
      x.attaching.plan?.elim 0 (Plan.countKind .filter) + _ :=
      x.count_of_movesStart (·.kind = .filter) rfl moves
    rw [Occurrence.weight_filter, Occurrence.weight_filter] at total
    cases bare : m.patterns.isEmpty <;> simp [optional, bare] at total ⊢ <;> omega
  case leftJoins =>
    have total : x.starting.plan?.elim 0 (Plan.countKind .leftJoin) + _ =
      x.attaching.plan?.elim 0 (Plan.countKind .leftJoin) + _ :=
      x.count_of_movesStart (·.kind = .leftJoin) rfl moves
    rw [Occurrence.weight_leftJoin, Occurrence.weight_leftJoin] at total
    simpa [optional, held] using total.symm
  case conditioned =>
    have total : x.starting.plan?.elim 0 Plan.countConditionalLeftJoins + _ =
      x.attaching.plan?.elim 0 Plan.countConditionalLeftJoins + _ :=
      x.count_of_movesStart (fun n => n.kind = .leftJoin && n.isConditioned) rfl moves
    rw [Occurrence.weight_conditioned, Occurrence.weight_conditioned] at total
    cases unfiltered : m.filters.isEmpty <;>
      simpa [optional, held, unfiltered] using total.symm

/-- Exchanging two required children keeps the leaves and the presence of a plan. Filters and left
joins stay as many unless the exchange moves the start of the plan; then they differ by what
the child that starts one of the plans is in the other. -/
theorem exchange_required (g : PatternGroup P C) (x : g.RequiredPair) :
    x.exchange.plan?.isSome = g.plan?.isSome ∧
      (x.exchange.plan?.elim [] Plan.leaves).Perm (g.plan?.elim [] Plan.leaves) ∧
      ((∀ m, ¬x.MovesStart m) → SameCounts x.exchange g) ∧
      ∀ m, x.MovesStart m → CountsApart m x.starting x.attaching := by
  refine ⟨plan?_isSome_of_perm x.perm_children, perm_leaves_of_perm x.perm_children, ?_,
    fun m moves => x.countsApart moves⟩
  intro stays
  exact {
    filters := x.count_exchange (fun n => n.kind = .filter) rfl stays
    leftJoins := x.count_exchange (fun n => n.kind = .leftJoin) rfl stays
    conditioned := x.count_exchange (fun n => n.kind = .leftJoin && n.isConditioned) rfl stays }

def startSample (first last : PatternGroup Nat Nat) : PatternGroup Nat Nat :=
  ((required.pushChild first).pushChild ((optional.insertPattern 1).insertFilter 10)).pushChild last

def startPair : (startSample (required.insertPattern 0) required).RequiredPair where
  before := []
  first := required.insertPattern 0
  between := [(optional.insertPattern 1).insertFilter 10]
  second := required
  after := []
  children := rfl
  first_required := rfl
  second_required := rfl

/-- The exchange makes a filter of a left join, so the counts do not stay in every case. -/
theorem not_sameCounts_startPair :
    startPair.exchange = startSample required (required.insertPattern 0) ∧
      (startSample (required.insertPattern 0) required).plan? =
        some (.leftJoin (.pattern 0) (.pattern 1) (some (.atom 10))) ∧
      startPair.exchange.plan? = some (.join (.filter (.pattern 1) (.atom 10)) (.pattern 0)) ∧
      ¬SameCounts startPair.exchange (startSample (required.insertPattern 0) required) :=
  ⟨rfl, by decide, by decide, fun same => absurd same.leftJoins (by decide)⟩

def steadySample : PatternGroup Nat Nat :=
  ((required.insertFilter 20).pushChild (optional.insertPattern 2))
    |>.pushChild (required.insertPattern 0)
    |>.pushChild ((optional.insertPattern 1).insertFilter 10)
    |>.pushChild required

def steadyPair : steadySample.RequiredPair where
  before := [optional.insertPattern 2]
  first := required.insertPattern 0
  between := [(optional.insertPattern 1).insertFilter 10]
  second := required
  after := []
  children := rfl
  first_required := rfl
  second_required := rfl

theorem exchange_steadyPair :
    (∀ m, ¬steadyPair.MovesStart m) ∧ steadyPair.exchange.plan? ≠ steadySample.plan? ∧
      SameCounts steadyPair.exchange steadySample ∧
      startPair.MovesStart ((optional.insertPattern 1).insertFilter 10) ∧
      CountsApart ((optional.insertPattern 1).insertFilter 10) startPair.exchange
        (startSample (required.insertPattern 0) required) :=
  have stays : ∀ m, ¬steadyPair.MovesStart m := fun _ moves => absurd moves.alone (by decide)
  have moves : startPair.MovesStart ((optional.insertPattern 1).insertFilter 10) :=
    ⟨by decide, by decide, rfl, rfl⟩
  ⟨stays, by decide, (exchange_required _ steadyPair).2.2.1 stays, moves,
    (exchange_required _ startPair).2.2.2 _ moves⟩

end GroupPlan.PatternGroup
