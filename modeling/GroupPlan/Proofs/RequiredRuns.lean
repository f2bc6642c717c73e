import GroupPlan.Proofs.ChildTables
import GroupPlan.Proofs.Place
import Mathlib.Data.List.Forall2

/-! Neighbours among required children. Required children are joined, and joins may be taken
in any order, so the order inside a run of required children does not matter to the table of
a group; at the start of a group without filters it does not matter which of them starts the
plan. A group with the same table in the place of another keeps the tables of all groups
around it, with filters applied and with filters withheld. -/

namespace GroupPlan

open scoped Classical

variable {P C V T : Type}

namespace PatternGroup

/-- The second list is the first with some runs of required children permuted. -/
inductive RunsPermuted : List (PatternGroup P C) → List (PatternGroup P C) → Prop where
  | nil : RunsPermuted [] []
  | keep (c : PatternGroup P C) {cs ds : List (PatternGroup P C)} (rest : RunsPermuted cs ds) :
    RunsPermuted (c :: cs) (c :: ds)
  | run {rs ss cs ds : List (PatternGroup P C)} (required : ∀ c ∈ rs, c.isOptional = false)
    (perm : rs.Perm ss) (rest : RunsPermuted cs ds) : RunsPermuted (rs ++ cs) (ss ++ ds)

theorem RunsPermuted.perm {cs ds : List (PatternGroup P C)} (runs : RunsPermuted cs ds) :
    cs.Perm ds := by
  induction runs with
  | nil => exact .nil
  | keep c _ ih => exact ih.cons c
  | run _ perm _ ih => exact perm.append ih

theorem RunsPermuted.contributes_eq {d : PatternGroup P C} {ds : List (PatternGroup P C)}
    (runs : RunsPermuted d.children ds) :
    ({ d with children := ds } : PatternGroup P C).contributes = d.contributes := by
  rw [PatternGroup.contributes_eq, d.contributes_eq, runs.perm.any_eq]

theorem RunsPermuted.of_perm {rs ss : List (PatternGroup P C)}
    (required : ∀ c ∈ rs, c.isOptional = false) (perm : rs.Perm ss) : RunsPermuted rs ss := by
  simpa using RunsPermuted.run required perm .nil

variable (M : Interpretation P C V T) (reading : EmptyReading)

section Start

theorem tableFrom_cons_of_required {c : PatternGroup P C} (cs : List (PatternGroup P C))
    (held : c.contributes) (required : c.isOptional = false) :
    tableFrom M reading [] (c :: cs) =
      (c :: cs).foldl (tableAfter M reading) Table.unit := by
  rw [tableFrom_cons_of_held M reading [] cs held, M.filter_holdsAll_nil, List.foldl_cons,
    tableAfter_required M reading _ required, Table.unit_join]

theorem tableFrom_append_of_required {rs : List (PatternGroup P C)}
    (required : ∀ c ∈ rs, c.isOptional = false) (cs : List (PatternGroup P C)) :
    tableFrom M reading [] (rs ++ cs) =
      if rs.any contributes then (rs ++ cs).foldl (tableAfter M reading) Table.unit
      else tableFrom M reading [] cs := by
  induction rs with
  | nil => rfl
  | cons c rs ih =>
    rw [List.forall_mem_cons] at required
    rw [List.cons_append, List.any_cons]
    cases held : c.contributes with
    | false =>
      rw [tableFrom_cons_of_blank M reading [] _ held, ih required.2, List.foldl_cons,
        tableAfter_of_blank M reading _ held, Bool.false_or]
    | true =>
      rw [tableFrom_cons_of_required M reading _ held required.1]
      rfl

end Start

section Runs

theorem foldl_tableAfter_perm {rs ss : List (PatternGroup P C)}
    (required : ∀ c ∈ rs, c.isOptional = false) (perm : rs.Perm ss) (A : Table V T) :
    rs.foldl (tableAfter M reading) A = ss.foldl (tableAfter M reading) A := by
  refine perm.foldl_eq' (fun c hc d hd A => ?_) A
  simp only [tableAfter_required M reading _ (required c hc),
    tableAfter_required M reading _ (required d hd)]
  exact Table.join_right_comm A _ _

variable {cs ds : List (PatternGroup P C)}

theorem RunsPermuted.foldl_tableAfter (runs : RunsPermuted cs ds) (A : Table V T) :
    cs.foldl (tableAfter M reading) A = ds.foldl (tableAfter M reading) A := by
  induction runs generalizing A with
  | nil => rfl
  | keep c _ ih => rw [List.foldl_cons, List.foldl_cons, ih]
  | run required perm _ ih =>
    rw [List.foldl_append, List.foldl_append, foldl_tableAfter_perm M reading required perm, ih]

theorem RunsPermuted.tableFrom (runs : RunsPermuted cs ds) :
    tableFrom M reading [] cs = tableFrom M reading [] ds := by
  induction runs with
  | nil => rfl
  | @keep c cs ds rest ih =>
    cases held : c.contributes with
    | false =>
      rw [tableFrom_cons_of_blank M reading [] cs held,
        tableFrom_cons_of_blank M reading [] ds held, ih]
    | true =>
      rw [tableFrom_cons_of_held M reading [] cs held, tableFrom_cons_of_held M reading [] ds held,
        rest.foldl_tableAfter M reading]
  | @run rs ss cs ds required perm rest ih =>
    have required' : ∀ c ∈ ss, c.isOptional = false := fun c hc =>
      required c (perm.mem_iff.mpr hc)
    have whole := (RunsPermuted.run required perm rest).foldl_tableAfter M reading Table.unit
    rw [tableFrom_append_of_required M reading required,
      tableFrom_append_of_required M reading required', perm.any_eq, whole, ih]

end Runs

/-- A parent has the same table with the one group as with the other. -/
structure SameTables (c d : PatternGroup P C) : Prop where
  isOptional : c.isOptional = d.isOptional
  filters : c.filters = d.filters
  contributes : c.contributes = d.contributes
  table : ∀ use, c.table M reading use = d.table M reading use

section Around

variable {M reading} {c d : PatternGroup P C}

theorem SameTables.refl (c : PatternGroup P C) : SameTables M reading c c :=
  ⟨rfl, rfl, rfl, fun _ => rfl⟩

theorem SameTables.tableAfter (same : SameTables M reading c d) (A : Table V T) :
    tableAfter M reading A c = tableAfter M reading A d := by
  simp only [PatternGroup.tableAfter, same.isOptional, same.filters, same.table]

variable {cs ds : List (PatternGroup P C)}

theorem foldl_tableAfter_congr (same : List.Forall₂ (SameTables M reading) cs ds)
    (A : Table V T) :
    cs.foldl (tableAfter M reading) A = ds.foldl (tableAfter M reading) A := by
  induction same generalizing A with
  | nil => rfl
  | cons here _ ih => rw [List.foldl_cons, List.foldl_cons, here.tableAfter, ih]

theorem tableFrom_congr (same : List.Forall₂ (SameTables M reading) cs ds) (fs : List C) :
    tableFrom M reading fs cs = tableFrom M reading fs ds := by
  induction same with
  | nil => rfl
  | @cons c d cs ds here rest ih =>
    cases held : c.contributes with
    | false =>
      rw [tableFrom_cons_of_blank M reading fs cs held,
        tableFrom_cons_of_blank M reading fs ds (here.contributes ▸ held), ih]
    | true =>
      rw [tableFrom_cons_of_held M reading fs cs held,
        tableFrom_cons_of_held M reading fs ds (here.contributes ▸ held), here.table,
        foldl_tableAfter_congr rest]

theorem table_congr {g h : PatternGroup P C} (use : FilterUse) (patterns : g.patterns = h.patterns)
    (filters : g.filters = h.filters)
    (onto : ∀ A : Table V T, g.children.foldl (tableAfter M reading) A =
      h.children.foldl (tableAfter M reading) A)
    (start : g.patterns.toList = [] → tableFrom M reading g.filters.toList g.children =
      tableFrom M reading g.filters.toList h.children) :
    g.table M reading use = h.table M reading use := by
  by_cases bare : g.patterns.toList = []
  · rw [table_of_noPatterns M reading use bare,
      table_of_noPatterns M reading use (patterns ▸ bare), start bare, filters]
  · obtain ⟨base, joined⟩ := exists_ofPatterns (C := C) bare
    rw [table_of_ofPatterns M reading use joined,
      table_of_ofPatterns M reading use (patterns ▸ joined), onto, filters]

theorem SameTables.fill (same : SameTables M reading c d) (x : Gap P C) :
    SameTables M reading (x.fill c) (x.fill d) := by
  have children : List.Forall₂ (SameTables M reading) (x.before ++ c :: x.after)
      (x.before ++ d :: x.after) :=
    List.rel_append (List.forall₂_same.mpr fun e _ => .refl e)
      (.cons same (List.forall₂_same.mpr fun e _ => .refl e))
  exact {
    isOptional := rfl
    filters := rfl
    contributes := contributes_fill_congr x same.contributes
    table := fun use => table_congr use rfl rfl (foldl_tableAfter_congr children)
      fun _ => tableFrom_congr children _ }

theorem SameTables.within (same : SameTables M reading c d) (place : List (Gap P C)) :
    SameTables M reading (c.within place) (d.within place) := by
  induction place generalizing c d with
  | nil => exact same
  | cons x place ih => exact ih (same.fill x)

end Around

theorem RunsPermuted.sameTables {d : PatternGroup P C} {ds : List (PatternGroup P C)}
    (runs : RunsPermuted d.children ds)
    (placed : d.patterns.toList ≠ [] ∨ d.filters.toList = []) :
    SameTables M reading d { d with children := ds } where
  isOptional := rfl
  filters := rfl
  contributes := runs.contributes_eq.symm
  table use := by
    refine table_congr use rfl rfl (runs.foldl_tableAfter M reading) fun bare => ?_
    rw [placed.resolve_left (not_not.mpr bare)]
    exact runs.tableFrom M reading

/-- Permuting required children inside their runs, in a group at any place that has patterns or no
filters, leaves a tree without a plan without one, and a tree with a plan with one that has the
same solutions. -/
theorem solutions_eq_of_runsPermuted {d : PatternGroup P C} {ds : List (PatternGroup P C)}
    (place : List (Gap P C)) (runs : RunsPermuted d.children ds)
    (placed : d.patterns.toList ≠ [] ∨ d.filters.toList = []) :
    ((d.within place).plan? = none ∧
        (({ d with children := ds } : PatternGroup P C).within place).plan? = none) ∨
      ∃ e e', (d.within place).plan? = some e ∧
        (({ d with children := ds } : PatternGroup P C).within place).plan? = some e' ∧
        ∀ (V T : Type) (M : Interpretation P C V T) (reading : EmptyReading),
          e.solutions M reading = e'.solutions M reading := by
  have held' := contributes_within_congr place runs.contributes_eq
  cases held : (d.within place).contributes with
  | false => exact .inl ⟨plan?_of_blank held, plan?_of_blank (held'.trans held)⟩
  | true =>
    obtain ⟨e, planned⟩ := exists_plan? held
    obtain ⟨e', planned'⟩ := exists_plan? (held'.trans held)
    refine .inr ⟨e, e', planned, planned', fun V T M reading => ?_⟩
    have same := ((runs.sameTables M reading placed).within place).table .applied
    rwa [table_of_planWith? M reading planned, table_of_planWith? M reading planned'] at same

def runsSample (first second : List (PatternGroup Nat Nat)) : PatternGroup Nat Nat :=
  ⟨true, ∅, ∅, first ++ (optional.insertPattern 2).insertFilter 13 :: second⟩

def firstRun : List (PatternGroup Nat Nat) :=
  [required, required.insertFilter 12, required.insertPattern 4]

def secondRun : List (PatternGroup Nat Nat) :=
  [required.insertPattern 5, (required.insertPattern 6).insertFilter 14]

theorem solutions_runsSample :
    RunsPermuted (runsSample firstRun secondRun).children
        (runsSample firstRun.reverse secondRun.reverse).children ∧
      ∃ e e', ((runsSample firstRun secondRun).within withheldPlace).plan? = some e ∧
        ((runsSample firstRun.reverse secondRun.reverse).within withheldPlace).plan? = some e' ∧
        e ≠ e' ∧ ∀ (V T : Type) (M : Interpretation Nat Nat V T) (reading : EmptyReading),
          e.solutions M reading = e'.solutions M reading := by
  have runs : RunsPermuted (runsSample firstRun secondRun).children
      (runsSample firstRun.reverse secondRun.reverse).children :=
    .run (by decide) (List.reverse_perm _).symm
      (.keep _ (.of_perm (by decide) (List.reverse_perm _).symm))
  have held : ((runsSample firstRun secondRun).within withheldPlace).plan? ≠ none := by decide
  have differ : ((runsSample firstRun secondRun).within withheldPlace).plan? ≠
      ((runsSample firstRun.reverse secondRun.reverse).within withheldPlace).plan? := by decide
  refine ⟨runs, ?_⟩
  rcases solutions_eq_of_runsPermuted withheldPlace runs (.inr rfl) with
    ⟨unplanned, -⟩ | ⟨e, e', planned, planned', equal⟩
  · exact absurd unplanned held
  · have apart : e ≠ e' := fun same => differ (planned.trans (same ▸ planned'.symm))
    exact ⟨e, e', planned, planned', apart, equal⟩

end PatternGroup

end GroupPlan
