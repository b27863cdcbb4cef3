import SingleShot.Course

/-!
# Connection attempts

A peer is asked for a connection, and it accepts, refuses, or does not answer. What the
peers answer to which attempt, and the clock that is read, are the environment of a wait.
`Answer.ending` says when and how an attempt ends under a timeout.
-/

namespace SingleShot.Readiness

/-- An attempt to connect to a peer: the peer's place among those waited for, the peer, the
number of the attempt on it, from one, and the instant at which it starts. -/
structure Attempt where
  entry : Nat
  peer : Endpoint
  number : Nat
  start : Nat
  deriving DecidableEq

/-- What an attempt meets with. -/
inductive Answer
  /-- The peer accepts after a delay. -/
  | accepts (delay : Nat)
  /-- The peer refuses after a delay. -/
  | refuses (delay : Nat) (why : Refusal)
  /-- There is no way to the peer, which is known before anything is waited for. -/
  | fails (why : Refusal)
  /-- The peer never answers. -/
  | silent
  deriving DecidableEq, Repr

/-- What a wait meets with: the answer to every attempt, and its clock. -/
structure Environment where
  answer : Attempt → Answer
  clock : Clock

instance : CoeFun Environment fun _ => Attempt → Answer :=
  ⟨Environment.answer⟩

/-- How an attempt ends. -/
inductive Ending
  | accepted
  | refused (why : Refusal)
  | timedOut (after : Duration)
  deriving DecidableEq

/-- When and how an attempt ends that starts at a moment. An answer counts if it arrives before
the timeout; a timeout of zero comes before every answer that is waited for. -/
def Answer.ending (answer : Answer) (start : Moment) (timeout : Duration) : Moment × Ending :=
  let timedOut := (start.pause timeout.nanos, Ending.timedOut timeout)
  match answer with
  | .accepts delay => if delay < timeout.nanos then (start.reply delay, .accepted) else timedOut
  | .refuses delay why =>
    if delay < timeout.nanos then (start.reply delay, .refused why) else timedOut
  | .fails why => (start, .refused why)
  | .silent => timedOut

/-- No attempt ends before it starts. -/
theorem Answer.le_ending (answer : Answer) (start : Moment) (timeout : Duration) :
    start.le (answer.ending start timeout).1 = true := by
  unfold ending
  cases answer with
  | accepts delay => dsimp only; split <;> simp [Moment.le_reply, Moment.le_pause]
  | refuses delay why => dsimp only; split <;> simp [Moment.le_reply, Moment.le_pause]
  | fails why => exact Moment.le_refl start
  | silent => exact Moment.le_pause _ _

end SingleShot.Readiness
