import SingleShot.Readiness.Attempt
import SingleShot.Text.Decimal

/-!
# Hosts

A host has ports that open, close and fall silent at set times, and it is reached over a link.
`Host.environment` is what attempts to connect to it meet with.
-/

namespace SingleShot.Network

/-- What a port does with an attempt to connect to it. -/
inductive PortState
  | closed
  | listening
  /-- Attempts are left without an answer. -/
  | stalled
  deriving DecidableEq, Repr

/-- When a port changes its state, in the order of the instants. -/
abbrev Schedule :=
  List (Nat × PortState)

/-- The state of a port at an instant. A port is closed before its first change. -/
def Schedule.stateAt (schedule : Schedule) (instant : Nat) : PortState :=
  ((schedule.filter fun (since, _) => since ≤ instant).getLast?.map (·.2)).getD .closed

/-- Whether there is a way to a host. -/
inductive Link
  | up
  | down
  deriving DecidableEq, Repr

/-- A host: the clock on this side, the link to it, how long its answers take, and its ports by
name. -/
structure Host where
  clock : Clock
  link : Link
  latency : Nat
  ports : List (String × Schedule)

namespace Host

/-- Numbers of ports lie below this bound. -/
def portBound : Nat :=
  65536

/-- Whether a text names one of the ports here, or is the number of any port. -/
def knows (h : Host) (port : String) : Bool :=
  (h.ports.lookup port).isSome || (Text.readNumber portBound port).toOption.isSome

/-- The state of a port at an instant. Ports without a schedule are closed. -/
def stateAt (h : Host) (port : String) (instant : Nat) : PortState :=
  ((h.ports.lookup port).map (·.stateAt instant)).getD .closed

/-- What an attempt to connect to a port meets with. The port is looked at when the attempt
starts. A text that names no port is refused like a closed port, whatever the link. -/
def answer (h : Host) (port : String) (instant : Nat) : Readiness.Answer :=
  if !h.knows port then .refuses h.latency .invalidPort
  else
    match h.link with
    | .down => .fails .networkUnreachable
    | .up =>
      match h.stateAt port instant with
      | .closed => .refuses h.latency .connectionRefused
      | .listening => .accepts h.latency
      | .stalled => .silent

/-- The environment of a wait for peers on a host. -/
def environment (h : Host) : Readiness.Environment :=
  ⟨fun attempt => h.answer attempt.peer.port attempt.start, h.clock⟩

end Host

end SingleShot.Network
