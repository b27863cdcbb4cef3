/-!
# Moments

Time runs in nanoseconds from the start of a run. Some things take no time and still come
after others, such as an answer that arrives in the same nanosecond as the question: an
instant is divided into rounds, and a moment is an instant with a round.

* `Moment.pause`: waiting for a while; waiting for no time is no waiting.
* `Moment.reply`: when an answer arrives; without delay it comes in the next round.
* `Limits.wait`: how a deadline and a horizon cut waiting short.
* `Clock.Counts`: whether a clock counts up to an instant.
-/

namespace SingleShot

/-- A point of a run: an instant, and a round within it. -/
structure Moment where
  instant : Nat
  round : Nat
  deriving DecidableEq, Repr

namespace Moment

/-- The beginning of an instant. -/
def dawn (instant : Nat) : Moment :=
  ⟨instant, 0⟩

/-- Moments are ordered by their instants, and within an instant by their rounds. -/
def le (a b : Moment) : Bool :=
  a.instant < b.instant || a.instant = b.instant && a.round ≤ b.round

/-- The later of two moments. -/
def later (a b : Moment) : Moment :=
  if a.le b then b else a

/-- The moment at which a pause ends. -/
def pause (m : Moment) (length : Nat) : Moment :=
  if length = 0 then m else dawn (m.instant + length)

/-- The moment at which an answer arrives. -/
def reply (m : Moment) (delay : Nat) : Moment :=
  if delay = 0 then ⟨m.instant, m.round + 1⟩ else dawn (m.instant + delay)

theorem le_refl (m : Moment) : m.le m = true := by
  simp [le]

theorem le_trans {a b c : Moment} (hab : a.le b = true) (hbc : b.le c = true) :
    a.le c = true := by
  simp only [le, Bool.or_eq_true, Bool.and_eq_true, decide_eq_true_eq] at *
  omega

theorem le_total (a b : Moment) : (a.le b || b.le a) = true := by
  simp only [le, Bool.or_eq_true, Bool.and_eq_true, decide_eq_true_eq]
  omega

theorem le_pause (m : Moment) (length : Nat) : m.le (m.pause length) = true := by
  unfold pause
  split
  · exact le_refl m
  · simp [le, dawn]
    omega

theorem le_reply (m : Moment) (delay : Nat) : m.le (m.reply delay) = true := by
  unfold reply
  split
  · simp [le]
  · simp [le, dawn]
    omega

end Moment

/-- A clock counts instants, up to a last one if it has a last one. -/
structure Clock where
  last : Option Nat
  deriving DecidableEq

namespace Clock

/-- A clock that counts every instant. -/
def endless : Clock :=
  ⟨none⟩

/-- An instant is one of those that a clock counts. -/
def Counts (clock : Clock) (instant : Nat) : Prop :=
  ∀ last, clock.last = some last → instant ≤ last

instance (clock : Clock) (instant : Nat) : Decidable (clock.Counts instant) :=
  match h : clock.last with
  | none => isTrue (by simp [Counts, h])
  | some last => decidable_of_iff (instant ≤ last) (by simp [Counts, h])

end Clock

/-- What bounds a wait: the instant of its deadline, if it has one, and the horizon, an instant
from which on nothing is observed. -/
structure Limits where
  deadline : Option Nat
  horizon : Nat

/-- How waiting ends. -/
inductive Waited
  /-- What was waited for has come. -/
  | resumed
  /-- The deadline came first, at this moment. -/
  | expired (moment : Moment)
  /-- The horizon came first. -/
  | unseen
  deriving DecidableEq, Repr

namespace Limits

/-- Waiting from one moment until another. Only who waits is stopped by a deadline, so what
takes no waiting still happens at its instant, and what is due at its instant still comes. -/
def wait (limits : Limits) (since next : Moment) : Waited :=
  let stop : Option Moment :=
    limits.deadline.bind fun deadline =>
      if deadline ≤ since.instant then some since
      else if deadline < next.instant then some (Moment.dawn deadline)
      else none
  if since = next then .resumed
  else
    match stop with
    | some moment => if moment.instant < limits.horizon then .expired moment else .unseen
    | none => if next.instant < limits.horizon then .resumed else .unseen

/-- Without a deadline nothing expires. -/
theorem wait_ne_expired {limits : Limits} (h : limits.deadline = none) (since next m : Moment) :
    limits.wait since next ≠ .expired m := by
  unfold wait
  simp only [h, Option.bind_none]
  split
  · simp
  · split <;> simp

end Limits

end SingleShot
