import SingleShot.Course

/-!
# Courses that follow each other

A course that goes on from another one finishes if both do, and fails with the first that fails.
-/

namespace SingleShot.Course

variable {ε ε' α β : Type} {c : Course ε α} {next : α → Moment → Course ε β} {m : Moment}

@[simp] theorem events_mapEvents (f : ε → ε') (c : Course ε α) :
    (c.mapEvents f).events = c.events.map f := by
  simp [mapEvents, events, Function.comp_def]

@[simp] theorem outcome_mapEvents (f : ε → ε') (c : Course ε α) :
    (c.mapEvents f).outcome = c.outcome :=
  rfl

theorem events_andThen_of_finished {x : α} (h : c.outcome = .finished x m) :
    (c.andThen next).events = c.events ++ (next x m).events := by
  rw [andThen_of_finished h]
  exact List.map_append

theorem trace_andThen_of_not_finished (h : ∀ x m, c.outcome ≠ .finished x m) :
    (c.andThen next).trace = c.trace := by
  unfold andThen
  cases ho : c.outcome with
  | finished x m' => exact absurd ho (h x m')
  | failed | crashed | pending => rfl

theorem events_andThen_of_not_finished (h : ∀ x m, c.outcome ≠ .finished x m) :
    (c.andThen next).events = c.events := by
  rw [events, trace_andThen_of_not_finished h, events]

theorem andThen_finished_iff {v : β} :
    (c.andThen next).outcome = .finished v m ↔
      ∃ x m', c.outcome = .finished x m' ∧ (next x m').outcome = .finished v m := by
  unfold andThen
  cases c.outcome with
  | finished x m' =>
    constructor
    · intro h
      exact ⟨x, m', rfl, h⟩
    · rintro ⟨_, _, hx, h⟩
      cases hx
      exact h
  | failed | crashed | pending => simp

theorem andThen_failed_iff {f : Failure} :
    (c.andThen next).outcome = .failed f m ↔
      c.outcome = .failed f m ∨
        ∃ x m', c.outcome = .finished x m' ∧ (next x m').outcome = .failed f m := by
  unfold andThen
  cases c.outcome with
  | finished x m' =>
    constructor
    · intro h
      exact Or.inr ⟨x, m', rfl, h⟩
    · rintro (hx | ⟨_, _, hx, h⟩)
      · cases hx
      · cases hx
        exact h
  | failed | crashed | pending => simp

theorem andThen_crashed_iff :
    (c.andThen next).outcome = .crashed m ↔
      c.outcome = .crashed m ∨
        ∃ x m', c.outcome = .finished x m' ∧ (next x m').outcome = .crashed m := by
  unfold andThen
  cases c.outcome <;> simp [and_assoc]

end SingleShot.Course
