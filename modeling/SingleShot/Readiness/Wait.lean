import SingleShot.Readiness.Poll

/-!
# Waiting for peers

A list of addresses is waited for: every peer is polled, one after the other or all at once,
under one deadline. Addresses that cannot be resolved are left out. `awaitAll` is the course of
such a wait; it fails only when the deadline comes, and names the first peer, in the order of
the list, that had not accepted. The instant of the deadline is computed when the wait begins,
and if the clock does not count so far the wait crashes.
-/

namespace SingleShot.Readiness

/-- What has been waited for. -/
structure Report where
  /-- The peers that accepted, in input order. -/
  ready : List Endpoint
  /-- The addresses that were left out. -/
  skipped : List String
  /-- The number of attempts on all peers. -/
  attempts : Nat
  deriving DecidableEq

/-- The polls of the peers in a list. -/
def pollsOf (environment : Environment) (policy : Policy) (deadline : Option Deadline)
    (horizon : Nat) (peers : List Endpoint) : List Poll :=
  peers.zipIdx.map fun (peer, entry) => ⟨environment, policy, deadline, horizon, entry, peer⟩

/-- Polls, one after the other, after so many attempts on others. -/
def inTurn (attempts : Nat) : List Poll → Moment → Course Event Nat
  | [], m => .done attempts m
  | p :: polls, m => (p.run m).andThen fun more m => inTurn (attempts + more) polls m

/-- How several activities that begin together end: when all have ended, with the sum of their
values or the first failure in their order. -/
def joined (start : Moment) : List (Outcome Nat) → Outcome Nat
  | [] => .finished 0 start
  | first :: others =>
    match first, joined start others with
    | .finished n m, .finished k m' => .finished (n + k) (m.later m')
    | .finished _ m, .failed f m' => .failed f (m.later m')
    | .failed f m, .finished _ m' => .failed f (m.later m')
    | .failed f m, .failed _ m' => .failed f (m.later m')
    | .crashed m, _ => .crashed m
    | _, .crashed m => .crashed m
    | .pending, _ => .pending
    | _, .pending => .pending

/-- What happens in several activities at once: in the order of the moments, and at one moment
in the order of the activities. -/
def interleaved (traces : List (List (Timed Event))) : List (Timed Event) :=
  traces.flatten.mergeSort fun a b => a.moment.le b.moment

/-- Polls, all at once. -/
def together (polls : List Poll) (m : Moment) : Course Event Nat :=
  let courses := polls.map (·.run m)
  ⟨interleaved (courses.map (·.trace)), joined m (courses.map (·.outcome))⟩

/-- Polls in the order of a mode. -/
def inMode : Mode → List Poll → Moment → Course Event Nat
  | .sequential => inTurn 0
  | .concurrent => together

/-- The wait for a list of addresses. Without peers nothing is waited for. -/
def awaitAll (environment : Environment) (policy : Policy) (horizon : Nat) (start : Moment)
    (addresses : List String) : Course Event Report :=
  let resolution := Endpoint.resolveAll addresses
  let peers := resolution.resolved
  let skipped := resolution.rejected.map (·.1)
  .after start (resolution.rejected.map fun (input, error) => .skipped input error) <|
    if peers = [] then .done ⟨[], skipped, 0⟩ start
    else
      let deadline := Deadline.of policy start.instant
      .after start [.waiting peers.length] <|
        if Deadline.Counted environment.clock deadline then
          (inMode policy.mode (pollsOf environment policy deadline horizon peers) start).andThen
            fun attempts m =>
              .after m [.allOnline peers.length] (.done ⟨peers, skipped, attempts⟩ m)
        else .crash start

/-- The wait for a single peer. -/
def awaitPeer (environment : Environment) (policy : Policy) (horizon : Nat) (start : Moment)
    (peer : Endpoint) : Course Event Nat :=
  let deadline := Deadline.of policy start.instant
  if Deadline.Counted environment.clock deadline then
    Poll.run ⟨environment, policy, deadline, horizon, 0, peer⟩ start
  else .crash start

end SingleShot.Readiness
