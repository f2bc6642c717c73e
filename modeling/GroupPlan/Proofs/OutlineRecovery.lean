import GroupPlan.Proofs.OutlineLines

/-! Plans over texts are read back from their outlines. The line of a node tells its kind,
its pattern or condition, and so also how many plans follow it; the lines of a plan
therefore never run on into those after it, and the depths of the lines are not needed.
Filters must not contain what conjunctions are written with. -/

namespace GroupPlan.Plan

variable {P C : Type}

theorem length_operands_eq {e e' : Plan P C} (same : e.kind = e'.kind) :
    e.operands.length = e'.operands.length := by
  cases e <;> cases e' <;> simp_all [kind, operands]

theorem flatMap_append_inj {α β : Type} {f : α → List β} {as as' : List α} {rest rest' : List β}
    (each : ∀ a ∈ as, ∀ a' ∈ as', ∀ more more',
      f a ++ more = f a' ++ more' → a = a' ∧ more = more')
    (size : as.length = as'.length) (same : as.flatMap f ++ rest = as'.flatMap f ++ rest') :
    as = as' ∧ rest = rest' := by
  induction as generalizing as' with
  | nil =>
    obtain rfl := List.length_eq_zero_iff.mp size.symm
    exact ⟨rfl, same⟩
  | cons a as ih =>
    cases as' with
    | nil => cases size
    | cons a' as' =>
      rw [List.flatMap_cons, List.flatMap_cons, List.append_assoc, List.append_assoc] at same
      have later := fun b held b' held' =>
        each b (List.mem_cons_of_mem a held) b' (List.mem_cons_of_mem a' held')
      obtain ⟨rfl, tails⟩ := each a List.mem_cons_self a' List.mem_cons_self _ _ same
      obtain ⟨rfl, rests⟩ := ih later (Nat.succ.inj size) tails
      exact ⟨rfl, rests⟩

structure Legible (e : Plan String String) : Prop extends e.Unbroken where
  plain : ∀ c ∈ e.conditionAtoms, ∀ letter ∈ c.toList, letter ∉ ['(', ')', '&']

theorem Legible.of_mem_operands {e m : Plan String String} (legible : e.Legible)
    (input : m ∈ e.operands) : m.Legible where
  toUnbroken := legible.toUnbroken.of_mem_operands input
  plain c held := legible.plain c (conditionAtoms_subset_of_mem_operands input held)

theorem Legible.condition {e : Plan String String} (legible : e.Legible) {k : Condition String}
    (carried : e.condition? = some k) : k.Plain :=
  fun c held => legible.plain c (mem_conditionAtoms_of_condition? carried held)

theorem eq_of_headline_eq {e e' : Plan String String} (legible : e.Legible) (legible' : e'.Legible)
    (same : e.headline = e'.headline) (inputs : e.operands = e'.operands) : e = e' := by
  obtain ⟨kinds, details⟩ := kind_eq_and_detail?_eq same
  cases e with
  | pattern p =>
    cases e' with
    | pattern p' => exact congrArg pattern (Option.some.inj details)
    | _ => cases kinds
  | join lhs rhs =>
    cases e' with
    | join lhs' rhs' => simpa [operands] using inputs
    | _ => cases kinds
  | leftJoin lhs rhs condition =>
    cases e' with
    | leftJoin lhs' rhs' condition' =>
      have conditions : condition = condition' := by
        cases condition with
        | none => cases condition' <;> simp_all [detail?]
        | some k =>
          cases condition' with
          | none => simp [detail?] at details
          | some k' =>
            have written := Option.some.inj details
            exact congrArg some (Condition.eq_of_render_eq (legible.condition rfl)
              (legible'.condition rfl) written)
      simpa [operands, conditions] using inputs
    | _ => cases kinds
  | filter inner k =>
    cases e' with
    | filter inner' k' =>
      have conditions : k = k' := Condition.eq_of_render_eq (legible.condition rfl)
        (legible'.condition rfl) (Option.some.inj details)
      simpa [operands, conditions] using inputs
    | _ => cases kinds
  | empty =>
    cases e' with
    | empty => rfl
    | _ => cases kinds

/-- Lines that begin with those of a plan begin with those of no other plan. -/
theorem linesAt_append_inj {e e' : Plan String String} (legible : e.Legible)
    (legible' : e'.Legible) {depth : Nat} {rest rest' : List String}
    (same : e.linesAt depth ++ rest = e'.linesAt depth ++ rest') : e = e' ∧ rest = rest' := by
  induction e using inductOperands generalizing e' depth rest rest' with
  | node e ih =>
    rw [linesAt_eq, linesAt_eq, List.cons_append, List.cons_append] at same
    obtain ⟨line, below⟩ := List.cons.inj same
    have heads := headline_eq_of_line_eq line
    have sizes := length_operands_eq (kind_eq_and_detail?_eq heads).1
    obtain ⟨inputs, rests⟩ := flatMap_append_inj
      (fun m input m' input' more more' => ih m input (legible.of_mem_operands input)
        (legible'.of_mem_operands input')) sizes below
    exact ⟨eq_of_headline_eq legible legible' heads inputs, rests⟩

theorem eq_of_outline_eq {e e' : Plan String String} (legible : e.Legible) (legible' : e'.Legible)
    (same : e.outline = e'.outline) : e = e' := by
  have lines : e.linesAt 0 = e'.linesAt 0 := by
    have texts := congrArg (fun s : String => s.toList.splitOn '\n') same
    simp only [splitOn_outline legible.toUnbroken, splitOn_outline legible'.toUnbroken] at texts
    exact (List.map_injective_iff.mpr fun _ _ => String.toList_inj.mp) texts
  have ended : e.linesAt 0 ++ [] = e'.linesAt 0 ++ [] := by rw [lines]
  exact (linesAt_append_inj legible legible' ended).1

def spacedPlan : Plan String String :=
  .leftJoin (.filter (.pattern "") (.atom " x ")) (.pattern " Join")
    (some (.and (.atom " ") (.and (.atom "") (.atom "a: "))))

def spacedGroup : PatternGroup String String :=
  ((PatternGroup.required.insertPattern "").insertFilter " x ").pushChild
    ((PatternGroup.optional.insertPattern " Join").insertFilters ["a: ", "", " "])

theorem eq_spacedPlan :
    ∃ e, spacedGroup.plan? = some e ∧ e.Legible ∧ spacedPlan.Legible ∧
      e.outline = "LeftJoin: (  && ( && a: ))\n  Filter:  x \n    Pattern: \n  Pattern:  Join" ∧
      e.outline = spacedPlan.outline ∧ e = spacedPlan := by
  have planned : spacedGroup.plan? = some spacedPlan := by decide
  have legible : spacedPlan.Legible := by
    refine ⟨⟨?_, ?_⟩, ?_⟩
    · simp [spacedPlan, leaves]
    all_goals simp [spacedPlan, conditionAtoms, nodes, condition?, Condition.atoms]
  have text : spacedPlan.outline =
      "LeftJoin: (  && ( && a: ))\n  Filter:  x \n    Pattern: \n  Pattern:  Join" := by decide
  exact ⟨spacedPlan, planned, legible, legible, text, rfl, eq_of_outline_eq legible legible rfl⟩

end GroupPlan.Plan
