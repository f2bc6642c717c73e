import Mathlib.Data.Multiset.Bind
import Mathlib.Data.Multiset.Filter

/-! Solutions and tables of them. A solution binds some of the variables; a table holds
each of its solutions with a multiplicity and in no order. A table is joined with
another by uniting every compatible pair, and left joined under a test by keeping
the unions that pass and those rows of the left table that have none. -/

namespace GroupPlan

/-- A partial map from variables to terms. -/
def Solution (V T : Type) : Type := V → Option T

namespace Solution

variable {V T : Type}

def blank : Solution V T := fun _ => none

def Compatible (s t : Solution V T) : Prop :=
  ∀ v a b, s v = some a → t v = some b → a = b

theorem Compatible.symm {s t : Solution V T} (clear : s.Compatible t) : t.Compatible s :=
  fun v a b here there => (clear v b a there here).symm

/-- The bindings of both; those of compatible solutions never clash. -/
def union (s t : Solution V T) : Solution V T := fun v => (s v).or (t v)

theorem compatible_blank (s : Solution V T) : s.Compatible blank := by
  intro v a b _ unbound
  cases unbound

theorem blank_compatible (s : Solution V T) : Compatible blank s := by
  intro v a b unbound _
  cases unbound

@[simp] theorem union_blank (s : Solution V T) : s.union blank = s := by
  funext v
  exact Option.or_none

@[simp] theorem blank_union (s : Solution V T) : blank.union s = s := by
  funext v
  exact Option.none_or

theorem union_eq_some_iff {s t : Solution V T} {v : V} {a : T} :
    s.union t v = some a ↔ s v = some a ∨ s v = none ∧ t v = some a :=
  Option.or_eq_some_iff

theorem compatible_union_iff {s t : Solution V T} (u : Solution V T) (clear : s.Compatible t) :
    (s.union t).Compatible u ↔ s.Compatible u ∧ t.Compatible u := by
  constructor
  · intro both
    refine ⟨fun v a b here there => both v a b (union_eq_some_iff.mpr (.inl here)) there, ?_⟩
    intro v a b here there
    cases left : s v with
    | none => exact both v a b (union_eq_some_iff.mpr (.inr ⟨left, here⟩)) there
    | some a' =>
      rw [← clear v a' a left here]
      exact both v a' b (union_eq_some_iff.mpr (.inl left)) there
  · rintro ⟨left, right⟩ v a b here there
    rcases union_eq_some_iff.mp here with here | ⟨-, here⟩
    · exact left v a b here there
    · exact right v a b here there

theorem union_right_comm (s : Solution V T) {t u : Solution V T} (clear : t.Compatible u) :
    (s.union t).union u = (s.union u).union t := by
  funext v
  have pair : (t v).or (u v) = (u v).or (t v) := by
    cases left : t v with
    | none => rw [Option.none_or, Option.or_none]
    | some a =>
      cases right : u v with
      | none => rfl
      | some b => rw [clear v a b left right]
  rw [union, union, union, union, Option.or_assoc, Option.or_assoc, pair]

end Solution

abbrev Table (V T : Type) : Type := Multiset (Solution V T)

namespace Table

open scoped Classical

variable {V T : Type}

def unit : Table V T := {Solution.blank}

/-- The unions of a solution with the rows of a table that are compatible with it. -/
noncomputable def partners (B : Table V T) (s : Solution V T) : Table V T :=
  (B.filter s.Compatible).map s.union

noncomputable def join (A B : Table V T) : Table V T := A.bind (partners B)

/-- Rows of the left table without a partner that passes the test stay as they are. -/
noncomputable def leftJoin (test : Solution V T → Prop) (A B : Table V T) : Table V T :=
  (join A B).filter test + A.filter fun s => (partners B s).filter test = 0

noncomputable def kept (test : Solution V T → Prop) (B : Table V T) (s : Solution V T) :
    Table V T :=
  if (partners B s).filter test = 0 then {s} else (partners B s).filter test

theorem leftJoin_eq_bind (test : Solution V T → Prop) (A B : Table V T) :
    leftJoin test A B = A.bind (kept test B) := by
  rw [leftJoin, join, Multiset.filter_bind, Multiset.filter_eq_bind, ← Multiset.bind_add]
  refine Multiset.bind_congr fun s _ => ?_
  rw [kept]
  split <;> simp_all

theorem partners_unit (s : Solution V T) : partners unit s = {s} := by
  have kept : unit.filter s.Compatible = unit :=
    Multiset.filter_eq_self.mpr fun t ht => by
      rw [Multiset.mem_singleton.mp ht]
      exact s.compatible_blank
  rw [partners, kept, unit, Multiset.map_singleton, Solution.union_blank]

theorem partners_blank (B : Table V T) : partners B Solution.blank = B := by
  have kept : B.filter Solution.blank.Compatible = B :=
    Multiset.filter_eq_self.mpr fun t _ => t.blank_compatible
  rw [partners, kept]
  exact (Multiset.map_congr rfl fun t _ => t.blank_union).trans B.map_id

theorem join_unit (A : Table V T) : join A unit = A := by
  rw [join, funext partners_unit]
  exact Multiset.bind_singleton A id |>.trans A.map_id

theorem unit_join (B : Table V T) : join unit B = B := by
  rw [join, unit, Multiset.singleton_bind, partners_blank]

theorem bind_partners (B D : Table V T) (s : Solution V T) :
    (partners B s).bind (partners D) = B.bind fun t => D.bind fun u =>
      if s.Compatible t ∧ s.Compatible u ∧ t.Compatible u then {(s.union t).union u} else 0 := by
  rw [partners, Multiset.bind_map, Multiset.filter_eq_bind, Multiset.bind_assoc]
  refine Multiset.bind_congr fun t _ => ?_
  by_cases clear : s.Compatible t
  · rw [if_pos clear, Multiset.singleton_bind, partners, Multiset.filter_eq_bind,
      Multiset.map_bind]
    refine Multiset.bind_congr fun u _ => ?_
    rw [Solution.compatible_union_iff u clear]
    by_cases more : s.Compatible u ∧ t.Compatible u
    · rw [if_pos more, if_pos ⟨clear, more⟩, Multiset.map_singleton]
    · rw [if_neg more, if_neg fun all => more all.2, Multiset.map_zero]
  · rw [if_neg clear, Multiset.zero_bind]
    simp [clear]

theorem join_right_comm (A B D : Table V T) : join (join A B) D = join (join A D) B := by
  rw [join, join, join, join, Multiset.bind_assoc, Multiset.bind_assoc]
  refine Multiset.bind_congr fun s _ => ?_
  rw [bind_partners, bind_partners, Multiset.bind_bind]
  refine Multiset.bind_congr fun u _ => Multiset.bind_congr fun t _ => ?_
  by_cases clear : s.Compatible t ∧ s.Compatible u ∧ t.Compatible u
  · rw [if_pos clear, if_pos ⟨clear.2.1, clear.1, clear.2.2.symm⟩, s.union_right_comm clear.2.2]
  · rw [if_neg clear, if_neg fun turned => clear ⟨turned.2.1, turned.1, turned.2.2.symm⟩]

theorem join_zero (A : Table V T) : join A 0 = 0 := by
  have none_left : partners (0 : Table V T) = fun _ => 0 := rfl
  rw [join, none_left, Multiset.bind_zero]

theorem leftJoin_congr {test test' : Solution V T → Prop} (same : ∀ s, test s ↔ test' s)
    (A B : Table V T) : leftJoin test A B = leftJoin test' A B := by
  rw [funext fun s => propext (same s)]

theorem leftJoin_zero (test : Solution V T → Prop) (A : Table V T) : leftJoin test A 0 = A := by
  rw [leftJoin, join_zero, Multiset.filter_zero, zero_add]
  exact Multiset.filter_eq_self.mpr fun _ _ => rfl

theorem leftJoin_unit (test : Solution V T → Prop) (A : Table V T) : leftJoin test A unit = A := by
  have alone : ∀ s, (partners unit s).filter test = 0 ↔ ¬ test s := by
    intro s
    rw [partners_unit, Multiset.filter_singleton]
    split <;> simp_all
  rw [leftJoin, join_unit, Multiset.filter_congr fun s _ => alone s, Multiset.filter_add_not]

theorem leftJoin_of_le_unit (test : Solution V T → Prop) (A : Table V T) {B : Table V T}
    (small : B ≤ unit) : leftJoin test A B = A := by
  rcases Multiset.le_singleton.mp small with rfl | rfl
  · exact leftJoin_zero test A
  · exact leftJoin_unit test A

theorem bind_le_bind {A A' : Table V T} (f : Solution V T → Table V T)
    (le : A ≤ A') : A.bind f ≤ A'.bind f := by
  obtain ⟨D, rfl⟩ := Multiset.le_iff_exists_add.mp le
  rw [Multiset.add_bind]
  exact Multiset.le_add_right _ _

theorem join_le_join {A A' : Table V T} (B : Table V T) (le : A ≤ A') :
    join A B ≤ join A' B :=
  bind_le_bind _ le

theorem leftJoin_le_leftJoin {A A' : Table V T} (test : Solution V T → Prop) (B : Table V T)
    (le : A ≤ A') : leftJoin test A B ≤ leftJoin test A' B := by
  rw [leftJoin_eq_bind, leftJoin_eq_bind]
  exact bind_le_bind _ le

end Table

end GroupPlan
