import SingleShot.Config
import SingleShot.Readiness.Attempt

/-!
# Polling a peer

One peer is asked again and again, with a pause after each failed attempt, until it accepts.
`Poll.run` is the course of this under a deadline and up to a horizon; its value is the number of
attempts.
-/

namespace SingleShot.Readiness

/-- What happens while peers are waited for. -/
inductive Event
  /-- An address is left out, because it cannot be resolved. -/
  | skipped (input : String) (error : AddressError)
  /-- So many peers are now waited for. -/
  | waiting (peers : Nat)
  | started (attempt : Attempt)
  | ended (attempt : Attempt) (ending : Ending)
  /-- All of so many peers have accepted. -/
  | allOnline (peers : Nat)
  deriving DecidableEq

/-- The deadline of a wait: when it is, and the time that it allows. -/
structure Deadline where
  instant : Nat
  allowed : Duration
  deriving DecidableEq

namespace Deadline

/-- The deadline of a wait that begins at an instant. -/
def of (policy : Policy) (start : Nat) : Option Deadline :=
  policy.deadline.map fun allowed => ⟨start + allowed.nanos, allowed⟩

/-- The clock counts the instant of a deadline, if there is a deadline. -/
def Counted (clock : Clock) (deadline : Option Deadline) : Prop :=
  ∀ d, deadline = some d → clock.Counts d.instant

instance (clock : Clock) (deadline : Option Deadline) : Decidable (Counted clock deadline) :=
  match deadline with
  | none => isTrue (by simp [Counted])
  | some d => decidable_of_iff (clock.Counts d.instant) (by simp [Counted])

end Deadline

/-- A poll of a peer: everything that stays the same from attempt to attempt. -/
structure Poll where
  environment : Environment
  policy : Policy
  deadline : Option Deadline
  horizon : Nat
  entry : Nat
  peer : Endpoint

namespace Poll

/-- What bounds the waiting in a poll. -/
def limits (p : Poll) : Limits :=
  ⟨p.deadline.map (·.instant), p.horizon⟩

/-- The failure of a poll whose deadline has come. -/
def expiry (p : Poll) : Failure :=
  .readinessTimeout p.peer.text ((p.deadline.map (·.allowed)).getD Duration.zero)

/-- The attempt of a number that starts at a moment. -/
def attempt (p : Poll) (number : Nat) (m : Moment) : Attempt :=
  ⟨p.entry, p.peer, number, m.instant⟩

/-- When and how an attempt ends. -/
def ending (p : Poll) (number : Nat) (m : Moment) : Moment × Ending :=
  (p.environment (p.attempt number m)).ending m p.policy.attemptTimeout

/-- Waits from one moment until another and goes on then. -/
def wait (p : Poll) (since next : Moment) (goOn : Moment → Course Event Nat) :
    Course Event Nat :=
  match p.limits.wait since next with
  | .resumed => goOn next
  | .expired moment => .fail p.expiry moment
  | .unseen => ⟨[], .pending⟩

/-- The attempts from a number on, the first of them at a moment. `fuel` bounds their count, as
no clock stands still: when it is used up, the clock has come to the horizon. -/
def attempts (p : Poll) : (fuel number : Nat) → Moment → Course Event Nat
  | 0, _, m => p.wait m (Moment.dawn p.horizon) fun _ => ⟨[], .pending⟩
  | fuel + 1, number, m =>
    let attempt := p.attempt number m
    let ending := p.ending number m
    .after m [.started attempt] <|
      p.wait m ending.1 fun m =>
        .after m [.ended attempt ending.2] <|
          match ending.2 with
          | .accepted => .done number m
          | .refused _ | .timedOut _ =>
            p.wait m (m.pause p.policy.retryInterval.nanos) (p.attempts fuel (number + 1))

/-- The course of a poll from a moment on. A pause between attempts moves the clock on, so up to
the horizon there are at most as many attempts as instants. Attempts that take no time are not
made more often either, and a deadline before the horizon comes for them too. -/
def run (p : Poll) (start : Moment) : Course Event Nat :=
  p.attempts (p.horizon - start.instant) 1 start

end Poll

end SingleShot.Readiness
