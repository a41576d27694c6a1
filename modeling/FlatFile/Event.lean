/-!
# Events

What the library reports while it works.  A function that reports returns its events, in order,
beside its result (`Traced`); nothing is printed.
-/

namespace FlatFile

/-- How much an event matters. -/
inductive Level where
  | debug
  | info
  | warn
  deriving DecidableEq, Repr

/-- The level in capitals. -/
def Level.label : Level → String
  | debug => "DEBUG"
  | info => "INFO"
  | warn => "WARN"

/-- A field of an event. -/
inductive Detail where
  | number (n : Nat)
  | text (s : String)
  deriving DecidableEq, Repr

/-- One report. -/
structure Event where
  level : Level
  message : String
  fields : List (String × Detail)
  deriving DecidableEq, Repr

/-- A result with the events on the way to it. -/
structure Traced (α : Type) where
  /-- The result. -/
  result : α
  /-- The events, first to last. -/
  events : List Event := []

namespace Traced

variable {α β : Type}

/-- Goes on from a result, keeping the events so far. -/
def andThen (t : Traced α) (f : α → Traced β) : Traced β :=
  let u := f t.result
  ⟨u.result, t.events ++ u.events⟩

/-- Changes a result and keeps its events. -/
def map (f : α → β) (t : Traced α) : Traced β := ⟨f t.result, t.events⟩

@[simp] theorem andThen_result (t : Traced α) (f : α → Traced β) :
    (t.andThen f).result = (f t.result).result := rfl

@[simp] theorem andThen_events (t : Traced α) (f : α → Traced β) :
    (t.andThen f).events = t.events ++ (f t.result).events := rfl

@[simp] theorem map_result (f : α → β) (t : Traced α) : (t.map f).result = f t.result := rfl

@[simp] theorem map_events (f : α → β) (t : Traced α) : (t.map f).events = t.events := rfl

end Traced

end FlatFile
