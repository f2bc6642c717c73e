import GroupPlan.Condition

/-! The text of a condition over filters that are texts themselves. If no filter contains
a parenthesis or an ampersand, the text has one reading: up to such a character it is a
filter, whatever spaces the filter contains, and a filter never starts like a
conjunction. The lemmas therefore speak of a text followed by more, of which only the
next character matters. -/

namespace GroupPlan.Condition

/-- The characters of a conjunction that no filter contains. -/
def marks : List Char := ['(', ')', '&']

/-- Where a filter can end: at the end of the text or before a character that no filter contains
and no condition starts with. -/
def EndsBefore (rest : List Char) : Prop := ∀ c ∈ rest.head?, c = ')' ∨ c = '&'

theorem endsBefore_nil : EndsBefore [] := by
  intro c next
  cases next

theorem endsBefore_close (rest : List Char) : EndsBefore (')' :: rest) := by
  simp [EndsBefore]

theorem endsBefore_ampersand (rest : List Char) : EndsBefore ('&' :: rest) := by
  simp [EndsBefore]

theorem append_inj_of_noMark {text text' rest rest' : List Char} (plain : ∀ c ∈ text, c ∉ marks)
    (plain' : ∀ c ∈ text', c ∉ marks) (ends : EndsBefore rest) (ends' : EndsBefore rest')
    (same : text ++ rest = text' ++ rest') : text = text' ∧ rest = rest' := by
  have marked : ∀ {c rest}, EndsBefore (c :: rest) → c ∈ marks := by
    intro c rest ends
    rcases ends c rfl with rfl | rfl <;> simp [marks]
  induction text generalizing text' with
  | nil =>
    cases text' with
    | nil => exact ⟨rfl, same⟩
    | cons c text' =>
      rw [List.nil_append, List.cons_append] at same
      exact absurd (marked (same ▸ ends)) (plain' c List.mem_cons_self)
  | cons c text ih =>
    cases text' with
    | nil =>
      rw [List.nil_append, List.cons_append] at same
      exact absurd (marked (same ▸ ends')) (plain c List.mem_cons_self)
    | cons c' text' =>
      rw [List.forall_mem_cons] at plain plain'
      obtain ⟨rfl, tails⟩ := List.cons.inj same
      obtain ⟨rfl, rests⟩ := ih plain.2 plain'.2 tails
      exact ⟨rfl, rests⟩

theorem append_ne_open {text rest more : List Char} (plain : ∀ c ∈ text, c ∉ marks)
    (ends : EndsBefore rest) : text ++ rest ≠ '(' :: more := by
  intro same
  cases text with
  | nil =>
    rw [List.nil_append] at same
    rcases ends '(' (by rw [same]; rfl) with next | next <;> cases next
  | cons c text =>
    obtain ⟨rfl, -⟩ := List.cons.inj same
    exact plain '(' List.mem_cons_self (by simp [marks])

/-- No filter of the condition contains a mark. -/
def Plain (k : Condition String) : Prop := ∀ a ∈ k.atoms, ∀ c ∈ a.toList, c ∉ marks

theorem plain_atom {a : String} : (atom a).Plain ↔ ∀ c ∈ a.toList, c ∉ marks := by
  simp [Plain, atoms]

theorem plain_and {lhs rhs : Condition String} :
    (and lhs rhs).Plain ↔ lhs.Plain ∧ rhs.Plain := by
  simp [Plain, atoms, or_imp, forall_and]

theorem toList_render_atom (a : String) : (atom a).render.toList = a.toList := rfl

theorem toList_render_and_append (lhs rhs : Condition String) (rest : List Char) :
    (and lhs rhs).render.toList ++ rest =
      '(' :: (lhs.render.toList ++ ([' '] ++ '&' :: '&' :: ' ' ::
        (rhs.render.toList ++ ')' :: rest))) := by
  simp [render]

/-- A text that is the same up to where a condition ends, with the same padding after it, starts
with the same condition. -/
theorem render_append_inj {k k' : Condition String} (plain : k.Plain) (plain' : k'.Plain)
    (pad : List Char) {rest rest' : List Char} (padded : ∀ c ∈ pad, c ∉ marks)
    (ends : EndsBefore rest) (ends' : EndsBefore rest')
    (same : k.render.toList ++ (pad ++ rest) = k'.render.toList ++ (pad ++ rest')) :
    k = k' ∧ rest = rest' := by
  induction k generalizing k' pad rest rest' with
  | atom a =>
    have plain := List.forall_mem_append.mpr ⟨plain_atom.mp plain, padded⟩
    rw [toList_render_atom, ← List.append_assoc] at same
    cases k' with
    | atom a' =>
      have plain' := List.forall_mem_append.mpr ⟨plain_atom.mp plain', padded⟩
      rw [toList_render_atom, ← List.append_assoc] at same
      obtain ⟨texts, rests⟩ := append_inj_of_noMark plain plain' ends ends' same
      rw [String.toList_inj.mp (List.append_cancel_right texts)]
      exact ⟨rfl, rests⟩
    | and lhs' rhs' =>
      rw [toList_render_and_append] at same
      exact absurd same (append_ne_open plain ends)
  | and lhs rhs left right =>
    rw [plain_and] at plain
    rw [toList_render_and_append] at same
    cases k' with
    | atom a' =>
      have plain' := List.forall_mem_append.mpr ⟨plain_atom.mp plain', padded⟩
      rw [toList_render_atom, ← List.append_assoc a'.toList] at same
      exact absurd same.symm (append_ne_open plain' ends')
    | and lhs' rhs' =>
      rw [plain_and] at plain'
      rw [toList_render_and_append] at same
      obtain ⟨rfl, tails⟩ := left plain.1 plain'.1 [' '] (by simp [marks])
        (endsBefore_ampersand _) (endsBefore_ampersand _) (List.cons.inj same).2
      simp only [List.cons.injEq, true_and] at tails
      obtain ⟨rfl, closed⟩ := right plain.2 plain'.2 [] (by simp) (endsBefore_close _)
        (endsBefore_close _) tails
      exact ⟨rfl, List.append_cancel_left (List.cons.inj closed).2⟩

theorem eq_of_render_eq {k k' : Condition String} (plain : k.Plain) (plain' : k'.Plain)
    (same : k.render = k'.render) : k = k' := by
  have unpadded : ∀ c ∈ ([] : List Char), c ∉ marks := by simp
  have texts : k.render.toList ++ ([] ++ []) = k'.render.toList ++ ([] ++ []) := by rw [same]
  exact (render_append_inj plain plain' [] unpadded endsBefore_nil endsBefore_nil texts).1

theorem notMem_toList_render {k : Condition String} {c : Char} (apart : c ∉ ' ' :: marks)
    (absent : ∀ a ∈ k.atoms, c ∉ a.toList) : c ∉ k.render.toList := by
  induction k with
  | atom a => exact absent a (List.mem_singleton_self a)
  | and lhs rhs left right =>
    simp only [atoms, List.mem_append, or_imp, forall_and] at absent
    have around := List.append_nil (and lhs rhs).render.toList
    rw [toList_render_and_append] at around
    simp only [marks, List.mem_cons, List.not_mem_nil, or_false, not_or] at apart
    rw [← around]
    simp [left absent.1, right absent.2, apart]

end GroupPlan.Condition
