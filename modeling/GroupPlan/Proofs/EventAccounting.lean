import GroupPlan.Proofs.Occurrence
import Mathlib.Algebra.GroupWithZero.Nat

/-! The events of a planning run, read off the tree. Each group below the root is reported
once by the group above it, as passed over, attached in one of two ways, or, where the
plan starts from it, not at all; and a group whose filters go over its first child
reports that. Nothing else is reported, whatever is done with the filters. -/

namespace GroupPlan

variable {P C : Type}

namespace PatternGroup

theorem attachEvents_of_blank {c : PatternGroup P C} (blank : c.contributes = false) :
    attachEvents c = (c.assemble .applied).events ++ [.skippedChild] := by
  have unfiltered := (contributes_eq_false_iff.mp blank).2.1
  have plain : c.joinCondition? = none := joinCondition?_eq_none_iff.mpr (.inr unfiltered)
  rw [attachEvents, plain, planWith?_eq_none_iff.mpr blank]
  rfl

theorem attachEvents_of_plain {c : PatternGroup P C} (held : c.contributes)
    (plain : c.isOptional = false ∨ c.filters.toList = []) :
    attachEvents c = (c.assemble .applied).events ++ [.folded c.isOptional] := by
  obtain ⟨e, planned⟩ := exists_planWith? .applied held
  rw [attachEvents, joinCondition?_eq_none_iff.mpr plain, planned]
  rfl

theorem attachEvents_of_conditioned {c : PatternGroup P C} (optional : c.isOptional = true)
    (filtered : c.filters.toList ≠ []) :
    attachEvents c = .foldingWithCondition :: (c.assemble .withheld).events := by
  obtain ⟨k, conjoined⟩ := Condition.exists_ofFilters filtered
  rw [attachEvents, joinCondition?_eq_some_iff.mpr ⟨optional, conjoined⟩]

theorem assembleFrom_events_of_blank (fs : List C) {c : PatternGroup P C}
    (cs : List (PatternGroup P C)) (blank : c.contributes = false) :
    (assembleFrom fs (c :: cs)).events =
      (c.assemble .applied).events ++ .skippedChild :: (assembleFrom fs cs).events := by
  rw [assembleFrom_events_cons, planWith?_eq_none_iff.mpr blank]

theorem assembleFrom_events_of_held (fs : List C) {c : PatternGroup P C}
    (cs : List (PatternGroup P C)) (held : c.contributes) :
    (assembleFrom fs (c :: cs)).events =
      (c.assemble .applied).events ++
        ((if fs.isEmpty then [] else [.filteredFirstChild]) ++ cs.flatMap attachEvents) := by
  obtain ⟨e, planned⟩ := exists_planWith? .applied held
  rw [assembleFrom_events_cons, planned]

theorem assemble_events_of_own {g : PatternGroup P C} (use : FilterUse)
    (own : g.patterns.toList ≠ []) :
    (g.assemble use).events = g.children.flatMap attachEvents := by
  cases based : g.base? use with
  | none => exact absurd (base?_eq_none_iff.mp based) own
  | some base => rw [assemble_events, based]

theorem assemble_events_of_noPatterns {g : PatternGroup P C} (use : FilterUse)
    (bare : g.patterns.toList = []) :
    (g.assemble use).events = (assembleFrom g.filters.toList g.children).events := by
  rw [assemble_events, base?_eq_none_iff.mpr bare]

end PatternGroup

def Event.total (w : Event → Nat) (events : List Event) : Nat := (events.map w).sum

section Weight

variable (w : Event → Nat)

namespace Event

@[simp] theorem total_nil : total w [] = 0 := rfl

@[simp] theorem total_cons (event : Event) (events : List Event) :
    total w (event :: events) = w event + total w events := List.sum_cons

@[simp] theorem total_append (events events' : List Event) :
    total w (events ++ events') = total w events + total w events' := by
  rw [total, List.map_append, List.sum_append]
  rfl

def counting (event e : Event) : Nat := if e = event then 1 else 0

theorem count_eq_total (event : Event) (events : List Event) :
    events.count event = total (counting event) events := by
  induction events with
  | nil => rfl
  | cons e events ih => simp [List.count_cons, ih, counting, Nat.add_comm]

end Event

namespace PatternGroup

/-- What the group reports of its own filters. -/
def firstChildReport (fs : List C) (isOpened : Bool) : Nat :=
  if !fs.isEmpty && isOpened then w .filteredFirstChild else 0

def ownReport (g : PatternGroup P C) : Nat :=
  if g.patterns.isEmpty then firstChildReport w g.filters.toList (g.children.any contributes)
  else 0

theorem ownReport_eq_zero {w : Event → Nat} (silent : w .filteredFirstChild = 0)
    (g : PatternGroup P C) : g.ownReport w = 0 := by
  rw [ownReport, firstChildReport, silent, ite_self, ite_self]

end PatternGroup

namespace Occurrence

/-- What the group above reports of the group. -/
def reportAbove (d : Occurrence P C) : Nat :=
  if !d.group.contributes then w .skippedChild
  else if !d.isFolded then 0
  else if d.group.isOptional && !d.group.filters.isEmpty then w .foldingWithCondition
  else w (.folded d.group.isOptional)

def report (d : Occurrence P C) : Nat := d.reportAbove w + d.group.ownReport w

theorem report_eq (c : PatternGroup P C) (folded : Bool) :
    (⟨c, folded⟩ : Occurrence P C).report w =
      (⟨c, folded⟩ : Occurrence P C).reportAbove w + c.ownReport w := rfl

theorem reportAbove_of_blank {c : PatternGroup P C} (blank : c.contributes = false)
    (folded : Bool) : (⟨c, folded⟩ : Occurrence P C).reportAbove w = w .skippedChild := by
  simp [reportAbove, blank]

theorem reportAbove_notFolded {c : PatternGroup P C} (held : c.contributes) :
    (⟨c, false⟩ : Occurrence P C).reportAbove w = 0 := by
  simp [reportAbove, held]

theorem reportAbove_of_plain {c : PatternGroup P C} (held : c.contributes)
    (plain : c.isOptional = false ∨ c.filters.toList = []) :
    (⟨c, true⟩ : Occurrence P C).reportAbove w = w (.folded c.isOptional) := by
  rcases plain with required | unfiltered
  · simp [reportAbove, held, required]
  · simp [reportAbove, held, UniqueList.isEmpty_iff.mpr unfiltered]

theorem reportAbove_of_conditioned {c : PatternGroup P C} (held : c.contributes)
    (optional : c.isOptional = true) (filtered : c.filters.toList ≠ []) :
    (⟨c, true⟩ : Occurrence P C).reportAbove w = w .foldingWithCondition := by
  simp [reportAbove, held, optional, UniqueList.isEmpty_eq_false_iff.mpr filtered]

end Occurrence

namespace PatternGroup

def reportsBelow (g : PatternGroup P C) : Nat := (g.descendants.map (Occurrence.report w)).sum

def ReportsAll (g : PatternGroup P C) : Prop :=
  ∀ use, Event.total w (g.assemble use).events = g.ownReport w + g.reportsBelow w

variable {w}

theorem total_attachEvents {c : PatternGroup P C} (there : c.ReportsAll w) :
    Event.total w (attachEvents c) =
      (⟨c, true⟩ : Occurrence P C).report w + c.reportsBelow w := by
  have applied := there .applied
  have withheld := there .withheld
  rw [Occurrence.report_eq]
  cases held : c.contributes with
  | false =>
    rw [attachEvents_of_blank held, Occurrence.reportAbove_of_blank w held, Event.total_append,
      Event.total_cons, Event.total_nil]
    omega
  | true =>
    by_cases plain : c.isOptional = false ∨ c.filters.toList = []
    · rw [attachEvents_of_plain held plain, Occurrence.reportAbove_of_plain w held plain,
        Event.total_append, Event.total_cons, Event.total_nil]
      omega
    · rw [not_or, Bool.not_eq_false] at plain
      rw [attachEvents_of_conditioned plain.1 plain.2,
        Occurrence.reportAbove_of_conditioned w held plain.1 plain.2, Event.total_cons]
      omega

theorem total_flatMap_attachEvents {cs : List (PatternGroup P C)}
    (there : ∀ c ∈ cs, c.ReportsAll w) :
    Event.total w (cs.flatMap attachEvents) =
      ((descendantsEach true cs).map (Occurrence.report w)).sum := by
  induction cs with
  | nil => rfl
  | cons c cs ih =>
    rw [List.forall_mem_cons] at there
    rw [List.flatMap_cons, Event.total_append, total_attachEvents there.1, ih there.2,
      sum_descendantsEach_cons, ← reportsBelow, Bool.true_or]

theorem total_assembleFrom (fs : List C) {cs : List (PatternGroup P C)}
    (there : ∀ c ∈ cs, c.ReportsAll w) :
    Event.total w (assembleFrom fs cs).events =
      firstChildReport w fs (cs.any contributes) +
        ((descendantsEach false cs).map (Occurrence.report w)).sum := by
  induction cs with
  | nil => simp [assembleFrom, firstChildReport, descendantsEach]
  | cons c cs ih =>
    rw [List.forall_mem_cons] at there
    have here := there.1 .applied
    rw [sum_descendantsEach_cons, ← reportsBelow, Bool.false_or, List.any_cons,
      Occurrence.report_eq]
    cases held : c.contributes with
    | false =>
      rw [assembleFrom_events_of_blank fs cs held, Event.total_append, Event.total_cons, ih there.2,
        Occurrence.reportAbove_of_blank w held, Bool.false_or]
      omega
    | true =>
      have own : Event.total w (if fs.isEmpty then [] else [.filteredFirstChild]) =
          firstChildReport w fs true := by
        cases fs <;> simp [firstChildReport]
      rw [assembleFrom_events_of_held fs cs held, Event.total_append, Event.total_append, own,
        total_flatMap_attachEvents there.2, Occurrence.reportAbove_notFolded w held, Bool.true_or]
      omega

theorem reportsAll (w : Event → Nat) (g : PatternGroup P C) : g.ReportsAll w := by
  induction g with
  | group o ps fs cs ih =>
    intro use
    rw [reportsBelow, descendants_eq, ownReport]
    by_cases bare : ps.toList = []
    · have none_held : ps.isEmpty = true := UniqueList.isEmpty_iff.mpr bare
      rw [assemble_events_of_noPatterns use bare, total_assembleFrom _ ih, none_held]
      rfl
    · have some_held : ps.isEmpty = false := UniqueList.isEmpty_eq_false_iff.mpr bare
      rw [assemble_events_of_own use bare, total_flatMap_attachEvents ih, some_held]
      exact (Nat.zero_add _).symm

theorem total_events (w : Event → Nat) (g : PatternGroup P C) :
    Event.total w g.events =
      w (.started g.patterns.size g.filters.size g.children.length) +
        (g.ownReport w + g.reportsBelow w + w (.finished g.plan?.isNone)) := by
  rw [events_eq, Event.total_cons, Event.total_append, reportsAll w g .applied, Event.total_cons,
    Event.total_nil, Nat.add_zero]

end PatternGroup

end Weight

end GroupPlan
