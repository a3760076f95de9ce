import PoxTokens.Log.Event

/-!
# PoxTokens.Log

Computations that report events.  The events are part of the result, in the
order in which they were reported.
-/

namespace PoxTokens

/-- A value with the events that led to it. -/
structure Logged (α : Type) where
  events : List Event
  value : α

namespace Logged

/-- A value without events. -/
def pure {α : Type} (value : α) : Logged α := ⟨[], value⟩

/-- Goes on with the value; the events of both parts follow each other. -/
def bind {α β : Type} (x : Logged α) (f : α → Logged β) : Logged β :=
  ⟨x.events ++ (f x.value).events, (f x.value).value⟩

/-- Reports one event. -/
def report (event : Event) : Logged Unit := ⟨[event], ()⟩

end Logged

instance : Monad Logged where
  pure := Logged.pure
  bind := Logged.bind

namespace Logged

/-! ## Values and events -/

@[simp] theorem value_pure {α : Type} (a : α) : (Pure.pure a : Logged α).value = a := rfl

@[simp] theorem events_pure {α : Type} (a : α) : (Pure.pure a : Logged α).events = [] := rfl

/-- The value of a part is what the next part goes on with. -/
@[simp] theorem value_bind {α β : Type} (x : Logged α) (f : α → Logged β) :
    (x >>= f).value = (f x.value).value := rfl

/-- The events of both parts follow each other. -/
@[simp] theorem events_bind {α β : Type} (x : Logged α) (f : α → Logged β) :
    (x >>= f).events = x.events ++ (f x.value).events := rfl

@[simp] theorem events_report (event : Event) : (report event).events = [event] := rfl

end Logged

end PoxTokens
