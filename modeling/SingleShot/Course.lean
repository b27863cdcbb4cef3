import SingleShot.Clock
import SingleShot.Failure

/-!
# Courses of activities

An activity takes its course: things happen at moments, and in the end it has a value or has
failed, unless the horizon comes first. `Course.andThen` lets one activity follow another.
-/

namespace SingleShot

/-- Something that happens at a moment. -/
structure Timed (ε : Type) where
  moment : Moment
  event : ε
  deriving DecidableEq

/-- How an activity ends. -/
inductive Outcome (α : Type)
  | finished (value : α) (moment : Moment)
  | failed (failure : Failure) (moment : Moment)
  /-- It breaks off, because the program has come upon something that cannot be. -/
  | crashed (moment : Moment)
  /-- It has not ended before the horizon. -/
  | pending
  deriving DecidableEq

/-- What happens in an activity, in order, and how it ends. -/
structure Course (ε α : Type) where
  trace : List (Timed ε)
  outcome : Outcome α

namespace Course

variable {ε ε' α β : Type}

/-- An activity that is over at once. -/
def done (value : α) (moment : Moment) : Course ε α :=
  ⟨[], .finished value moment⟩

/-- An activity that fails at once. -/
def fail (failure : Failure) (moment : Moment) : Course ε α :=
  ⟨[], .failed failure moment⟩

/-- An activity that breaks off at once. -/
def crash (moment : Moment) : Course ε α :=
  ⟨[], .crashed moment⟩

/-- An activity before which something happens. -/
def after (moment : Moment) (events : List ε) (c : Course ε α) : Course ε α :=
  ⟨events.map (Timed.mk moment) ++ c.trace, c.outcome⟩

/-- An activity that goes on from the value of another, if that has one. -/
def andThen (c : Course ε α) (next : α → Moment → Course ε β) : Course ε β :=
  match c.outcome with
  | .finished value moment =>
    let d := next value moment
    ⟨c.trace ++ d.trace, d.outcome⟩
  | .failed failure moment => ⟨c.trace, .failed failure moment⟩
  | .crashed moment => ⟨c.trace, .crashed moment⟩
  | .pending => ⟨c.trace, .pending⟩

/-- The same activity with its events seen in another way. -/
def mapEvents (f : ε → ε') (c : Course ε α) : Course ε' α :=
  ⟨c.trace.map fun t => ⟨t.moment, f t.event⟩, c.outcome⟩

/-- What happens, without the moments. -/
def events (c : Course ε α) : List ε :=
  c.trace.map (·.event)

@[simp] theorem events_fail (f : Failure) (m : Moment) : (fail f m : Course ε α).events = [] :=
  rfl

@[simp] theorem events_after (m : Moment) (es : List ε) (c : Course ε α) :
    (after m es c).events = es ++ c.events := by
  simp [after, events, Function.comp_def]

@[simp] theorem outcome_after (m : Moment) (es : List ε) (c : Course ε α) :
    (after m es c).outcome = c.outcome :=
  rfl

theorem andThen_of_finished {c : Course ε α} {value : α} {m : Moment}
    (h : c.outcome = .finished value m) (next : α → Moment → Course ε β) :
    c.andThen next = ⟨c.trace ++ (next value m).trace, (next value m).outcome⟩ := by
  rw [andThen, h]

end Course

end SingleShot
