import GroupPlan.Event

/-! A value together with the events reported on the way to it. Running one
computation after another puts their events one after another. -/

namespace GroupPlan

@[ext] structure Traced (α : Type) where
  value : α
  events : List Event

namespace Traced

variable {α β : Type}

def pure (a : α) : Traced α := ⟨a, []⟩

def bind (x : Traced α) (f : α → Traced β) : Traced β :=
  ⟨(f x.value).value, x.events ++ (f x.value).events⟩

instance : Monad Traced where
  pure := Traced.pure
  bind := Traced.bind

def emit (event : Event) : Traced Unit := ⟨(), [event]⟩

@[simp] theorem pure_value (a : α) : (Pure.pure a : Traced α).value = a := rfl

@[simp] theorem pure_events (a : α) : (Pure.pure a : Traced α).events = [] := rfl

@[simp] theorem bind_value (x : Traced α) (f : α → Traced β) :
    (x >>= f).value = (f x.value).value := rfl

@[simp] theorem bind_events (x : Traced α) (f : α → Traced β) :
    (x >>= f).events = x.events ++ (f x.value).events := rfl

@[simp] theorem map_value (f : α → β) (x : Traced α) : (f <$> x).value = f x.value := rfl

@[simp] theorem map_events (f : α → β) (x : Traced α) : (f <$> x).events = x.events :=
  List.append_nil _

@[simp] theorem emit_value (event : Event) : (emit event).value = () := rfl

@[simp] theorem emit_events (event : Event) : (emit event).events = [event] := rfl

instance : LawfulMonad Traced :=
  LawfulMonad.mk' Traced (fun _ => Traced.ext rfl (List.append_nil _))
    (fun _ _ => Traced.ext rfl (List.nil_append _))
    (fun _ _ _ => Traced.ext rfl (List.append_assoc _ _ _))

end Traced

end GroupPlan
