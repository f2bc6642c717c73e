import GroupPlan.PatternGroup.Planning

/-! Planning with failures passed on. This run stops where patterns cannot be joined or
filters cannot be conjoined, for want of any. It checks for them first, so it never
fails: it reports and returns what planning does. -/

namespace GroupPlan

abbrev Attempt (α : Type) : Type := ExceptT AssemblyError Traced α

namespace PatternGroup

variable {P C : Type}

open MonadExcept (ofExcept)
open Traced (emit)

mutual

def attempt (use : FilterUse) : PatternGroup P C → Attempt (Option (Plan P C))
  | ⟨_, ps, fs, cs⟩ =>
    if ps.isEmpty then attemptFrom fs.toList cs
    else do
      let base ← ofExcept (Plan.ofPatterns ps.toList)
      let e ← attemptOnto (use.place base fs.toList) cs
      return some e

def attemptFrom (fs : List C) : List (PatternGroup P C) → Attempt (Option (Plan P C))
  | [] =>
    if fs.isEmpty then return none
    else do
      let condition ← ofExcept (Condition.ofFilters fs)
      return some (.filter .empty condition)
  | c :: cs => do
    match ← c.attempt .applied with
    | none =>
      emit .skippedChild
      attemptFrom fs cs
    | some first =>
      if fs.isEmpty then
        let e ← attemptOnto first cs
        return some e
      else
        emit .filteredFirstChild
        let condition ← ofExcept (Condition.ofFilters fs)
        let e ← attemptOnto (.filter first condition) cs
        return some e

def attemptOnto (lhs : Plan P C) : List (PatternGroup P C) → Attempt (Plan P C)
  | [] => return lhs
  | c :: cs =>
    if c.isOptional && !c.filters.isEmpty then do
      emit .foldingWithCondition
      let condition ← ofExcept (Condition.ofFilters c.filters.toList)
      match ← c.attempt .withheld with
      | none => attemptOnto lhs cs
      | some rhs => attemptOnto (.leftJoin lhs rhs (some condition)) cs
    else do
      match ← c.attempt .applied with
      | none =>
        emit .skippedChild
        attemptOnto lhs cs
      | some rhs =>
        emit (.folded c.isOptional)
        attemptOnto (if c.isOptional then .leftJoin lhs rhs none else .join lhs rhs) cs

end

def attemptPlanning (g : PatternGroup P C) : Attempt (Option (Plan P C)) := do
  emit (.started g.patterns.size g.filters.size g.children.length)
  let plan ← g.attempt .applied
  emit (.finished plan.isNone)
  return plan

/-- The run that passes failures on is the one that cannot fail. -/
def NeverFails (g : PatternGroup P C) : Prop :=
  ∀ use, g.attempt use = liftM (g.assemble use)

theorem ofExcept_ok {α : Type} (a : α) :
    (ofExcept (Except.ok a : Except AssemblyError α) : Attempt α) = pure a := rfl

theorem attemptOnto_eq (lhs : Plan P C) {cs : List (PatternGroup P C)}
    (there : ∀ c ∈ cs, c.NeverFails) : attemptOnto lhs cs = liftM (assembleOnto lhs cs) := by
  induction cs generalizing lhs with
  | nil => rw [attemptOnto, assembleOnto, liftM_pure]
  | cons c cs ih =>
    rw [List.forall_mem_cons] at there
    have rest := fun lhs => ih lhs there.2
    rw [attemptOnto, assembleOnto, ← isSome_joinCondition?]
    cases conditioned : c.joinCondition? with
    | some k =>
      rw [(joinCondition?_eq_some_iff.mp conditioned).2]
      simp only [Option.isSome_some, if_true, ofExcept_ok, pure_bind, liftM_bind,
        there.1 .withheld]
      refine bind_congr fun _ => bind_congr fun right => ?_
      cases right <;> exact rest _
    | none =>
      simp only [Option.isSome_none, liftM_bind, there.1 .applied]
      refine bind_congr fun right => ?_
      cases right <;> simp only [liftM_bind, rest]

theorem attemptFrom_eq (fs : List C) {cs : List (PatternGroup P C)}
    (there : ∀ c ∈ cs, c.NeverFails) : attemptFrom fs cs = liftM (assembleFrom fs cs) := by
  induction cs with
  | nil => cases fs <;> rfl
  | cons c cs ih =>
    rw [List.forall_mem_cons] at there
    rw [attemptFrom, assembleFrom, there.1 .applied, liftM_bind]
    refine bind_congr fun started => ?_
    cases started with
    | none => simp only [liftM_bind, ih there.2]
    | some first =>
      cases fs with
      | nil => simp [attemptOnto_eq _ there.2]
      | cons k fs =>
        rw [Condition.ofFilters]
        simp only [attemptOnto_eq _ there.2, ofExcept_ok, pure_bind]
        rfl

theorem neverFails (g : PatternGroup P C) : g.NeverFails := by
  induction g with
  | group o ps fs cs there =>
    intro use
    rw [attempt, assemble, base?, UniqueList.isEmpty]
    cases ps.toList with
    | nil => exact attemptFrom_eq fs.toList there
    | cons p ps =>
      rw [Plan.ofPatterns]
      simp only [attemptOnto_eq _ there, ofExcept_ok, pure_bind]
      rfl

theorem run_attemptPlanning (g : PatternGroup P C) :
    g.attemptPlanning.run = Except.ok <$> g.planning := by
  have eq : g.attemptPlanning = liftM g.planning := by
    simp only [attemptPlanning, planning, liftM_bind, liftM_pure, g.neverFails .applied]
  rw [eq]
  rfl

end PatternGroup

end GroupPlan
