/-! Lists that hold each value once, in the order in which the values first came.
Inserting a value that is already there changes nothing, so the list behind any
sequence of insertions keeps the first occurrence of each value. Membership is
the view that ignores the order. -/

namespace GroupPlan

@[ext] structure UniqueList (α : Type) where
  toList : List α
  nodup : toList.Nodup
deriving DecidableEq

namespace UniqueList

variable {α : Type}

def empty : UniqueList α := ⟨[], .nil⟩

instance : EmptyCollection (UniqueList α) := ⟨empty⟩

instance : Inhabited (UniqueList α) := ⟨empty⟩

instance : Membership α (UniqueList α) := ⟨fun s a => a ∈ s.toList⟩

@[simp] theorem toList_empty : (∅ : UniqueList α).toList = [] := rfl

@[simp] theorem mem_toList {s : UniqueList α} {a : α} : a ∈ s.toList ↔ a ∈ s := .rfl

@[simp] theorem notMem_empty (a : α) : a ∉ (∅ : UniqueList α) := List.not_mem_nil

def size (s : UniqueList α) : Nat := s.toList.length

def isEmpty (s : UniqueList α) : Bool := s.toList.isEmpty

theorem isEmpty_iff {s : UniqueList α} : s.isEmpty ↔ s.toList = [] := List.isEmpty_iff

theorem isEmpty_eq_false_iff {s : UniqueList α} : s.isEmpty = false ↔ s.toList ≠ [] :=
  List.isEmpty_eq_false_iff

variable [DecidableEq α]

instance (a : α) (s : UniqueList α) : Decidable (a ∈ s) :=
  inferInstanceAs (Decidable (a ∈ s.toList))

/-- A new value goes to the end; a value that is present keeps its place. -/
def insert (s : UniqueList α) (a : α) : UniqueList α :=
  if h : a ∈ s.toList then s
  else ⟨s.toList ++ [a], by grind [List.nodup_append, s.nodup]⟩

theorem toList_insert (s : UniqueList α) (a : α) :
    (s.insert a).toList = if a ∈ s then s.toList else s.toList ++ [a] := by
  rw [insert]
  split <;> rename_i h
  · rw [if_pos (mem_toList.mp h)]
  · rw [if_neg (mt mem_toList.mpr h)]

@[simp] theorem mem_insert {s : UniqueList α} {a b : α} : b ∈ s.insert a ↔ b ∈ s ∨ b = a := by
  rw [← mem_toList, toList_insert]
  grind [mem_toList]

theorem insert_of_mem {s : UniqueList α} {a : α} (h : a ∈ s) : s.insert a = s :=
  UniqueList.ext (by rw [toList_insert, if_pos h])

def insertAll (s : UniqueList α) (as : List α) : UniqueList α := as.foldl insert s

@[simp] theorem insertAll_nil (s : UniqueList α) : s.insertAll [] = s := rfl

@[simp] theorem insertAll_cons (s : UniqueList α) (a : α) (as : List α) :
    s.insertAll (a :: as) = (s.insert a).insertAll as := rfl

theorem insertAll_append (s : UniqueList α) (as bs : List α) :
    s.insertAll (as ++ bs) = (s.insertAll as).insertAll bs := List.foldl_append

@[simp] theorem mem_insertAll {s : UniqueList α} {as : List α} {b : α} :
    b ∈ s.insertAll as ↔ b ∈ s ∨ b ∈ as := by
  induction as generalizing s with
  | nil => simp
  | cons a as ih => rw [insertAll_cons, ih, mem_insert, List.mem_cons, or_assoc]

theorem toList_insertAll_of_nodup {s : UniqueList α} {as : List α}
    (distinct : (s.toList ++ as).Nodup) : (s.insertAll as).toList = s.toList ++ as := by
  induction as generalizing s with
  | nil => rw [insertAll_nil, List.append_nil]
  | cons a as ih =>
    have new : a ∉ s := fun held =>
      (List.nodup_append.mp distinct).2.2 a held a List.mem_cons_self rfl
    have pushed : (s.insert a).toList = s.toList ++ [a] := by rw [toList_insert, if_neg new]
    have split : s.toList ++ a :: as = (s.insert a).toList ++ as := by
      rw [pushed, List.append_assoc, List.singleton_append]
    rw [insertAll_cons, split]
    exact ih (split ▸ distinct)

/-- What comes anew goes to the end, each value at its first occurrence. -/
theorem toList_insertAll (s : UniqueList α) (as : List α) :
    (s.insertAll as).toList = s.toList ++ (as.removeAll s.toList).eraseDups := by
  induction as generalizing s with
  | nil => simp [List.removeAll]
  | cons a as ih =>
    rw [insertAll_cons, ih, toList_insert]
    by_cases held : a ∈ s
    · have skipped : (a :: as).removeAll s.toList = as.removeAll s.toList := by
        simp [List.removeAll, held]
      rw [if_pos held, skipped]
    · have taken : (a :: as).removeAll s.toList = a :: as.removeAll s.toList := by
        simp [List.removeAll, held]
      have later : as.removeAll (s.toList ++ [a]) =
          (as.removeAll s.toList).filter fun b => !b == a := by
        simp [List.removeAll, List.filter_filter, Bool.and_comm, Bool.beq_eq_decide_eq]
      rw [if_neg held, taken, later, List.eraseDups_cons, List.append_assoc, List.singleton_append]

def ofList (as : List α) : UniqueList α := empty.insertAll as

theorem toList_ofList (as : List α) : (ofList as).toList = as.eraseDups := by
  have whole : as.removeAll [] = as := by simp [List.removeAll]
  rw [ofList, toList_insertAll, empty, List.nil_append, whole]

@[simp] theorem mem_ofList {as : List α} {a : α} : a ∈ ofList as ↔ a ∈ as := by
  rw [ofList, mem_insertAll]
  exact or_iff_right (notMem_empty a)

theorem toList_ofList_of_nodup {as : List α} (distinct : as.Nodup) : (ofList as).toList = as :=
  toList_insertAll_of_nodup (s := ∅) distinct

/-- Equality as sets: the order of the members does not count. -/
def sameMembers (s t : UniqueList α) : Bool :=
  s.toList.all (· ∈ t) && t.toList.all (· ∈ s)

theorem sameMembers_iff {s t : UniqueList α} : s.sameMembers t ↔ ∀ a, a ∈ s ↔ a ∈ t := by
  simp only [sameMembers, Bool.and_eq_true, List.all_eq_true, decide_eq_true_eq, mem_toList]
  exact ⟨fun h a => ⟨h.1 a, h.2 a⟩, fun h => ⟨fun a => (h a).mp, fun a => (h a).mpr⟩⟩

end UniqueList

end GroupPlan
