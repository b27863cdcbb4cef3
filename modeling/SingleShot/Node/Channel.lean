import SingleShot.Node.Site
import SingleShot.Submission

/-!
# Channels to nodes

A channel leads to a node that listens at an endpoint. Whether the endpoint makes the address of a
service, and what listens there, is for `Sites` to say.
-/

namespace SingleShot.Node

open Submission (Reply)

/-- Opens a channel. -/
def connect (sites : Sites) (e : Endpoint) : Reply :=
  match sites e with
  | .refusing why => .failed (.connection e.text why)
  | .unreachable => .absent
  | .unready _ | .node _ => .passed

/-- The failure of a call to a service that is not ready. -/
def notReady (error : String) : Failure :=
  .stream ⟨.unavailable, s!"Service was not ready: {error}", [], []⟩

/-- Opens a stream on a channel, for which the service must be ready. -/
def openStream (sites : Sites) (e : Endpoint) : Reply :=
  match sites e with
  | .unready error => .failed (notReady error)
  | _ => .passed

end SingleShot.Node
