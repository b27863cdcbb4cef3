import SingleShot.Log.Line
import SingleShot.Node.Channel
import SingleShot.Wire.Message

/-!
# Streams to nodes

A stream collects the payloads of a call; they go out together when it is closed.

* `Stream.queue_foldl_send`: sending puts payloads at the end of the queue, in order.
* `Stream.Use` is a stream together with all that is done with it and comes of it.
* `transport` is what a submission needs: it opens a channel and sends over a stream.
-/

namespace SingleShot.Node

open Submission (Call Reply Transport)

/-- An open stream: where it leads, and the payloads that wait to be transmitted. -/
structure Stream where
  endpoint : Endpoint
  queue : List Payload
  deriving DecidableEq

namespace Stream

/-- A new stream on a channel. -/
def start (e : Endpoint) : Stream :=
  ⟨e, []⟩

/-- Puts a payload at the end of the queue. Nothing is transmitted yet. -/
def send (s : Stream) (p : Payload) : Stream :=
  { s with queue := s.queue ++ [p] }

/-- The call that closing the stream makes. -/
def delivery (s : Stream) : Delivery :=
  ⟨s.endpoint, callPath, s.queue.map fun p => Wire.encode p.bytes⟩

/-- The failure of a call whose answer is not what it should be. -/
def internal (message : String) (headers : Metadata) : Failure :=
  .stream ⟨.internal, message, [], headers⟩

/-- Reads the answer to a call. It must be an acknowledgement, whatever unknown fields it carries;
then the call ends with this reply. -/
def reading (message : List UInt8) (headers : Metadata) (reply : Reply) : Reply :=
  match Wire.Kind.acknowledgement.decode message with
  | .ok _ => reply
  | .error e => .failed (internal e.message headers)

/-- What comes back from a call. A call that ends well must have an answer. -/
def replyTo : Behaviour → Reply
  | .responds message headers => reading message headers .passed
  | .revokes message headers status _ => reading message headers (.failed (.stream status))
  | .fails status =>
    if status.code = .ok then .failed (internal "Missing response message." [])
    else .failed (.stream status)
  | .silent => .absent

/-- The failure of a call on a channel that has lost its node. -/
def connectionLost : Failure :=
  .stream ⟨.unavailable, "tcp connect error", [], []⟩

/-- Transmits the queue as one call: what the node receives, and what comes back. -/
def close (sites : Sites) (s : Stream) : Option Delivery × Reply :=
  match sites s.endpoint with
  | .refusing _ => (none, .failed connectionLost)
  | .unreachable => (none, .absent)
  | .unready error => (none, .failed (notReady error))
  | .node behaviour => (some s.delivery, replyTo behaviour)

theorem queue_foldl_send (sent : List Payload) (s : Stream) :
    (sent.foldl Stream.send s).queue = s.queue ++ sent := by
  induction sent generalizing s with
  | nil => simp
  | cons p sent ih => simp [ih, Stream.send]

theorem endpoint_foldl_send (sent : List Payload) (s : Stream) :
    (sent.foldl Stream.send s).endpoint = s.endpoint := by
  induction sent generalizing s with
  | nil => rfl
  | cons p sent ih => rw [List.foldl_cons, ih]; rfl

/-! ## Streams in use -/

/-- What is done with an open stream. -/
inductive Act
  | send (payload : Payload)
  | close
  /-- The stream is given up. -/
  | drop
  deriving DecidableEq

/-- A stream in use: the stream as long as it is open, the replies to what was done with it, and
the calls that nodes have received through it. -/
structure Use where
  stream : Option Stream
  replies : List Reply
  deliveries : List Delivery
  deriving DecidableEq

namespace Use

/-- Nothing has been done with a stream. -/
def start (s : Stream) : Use :=
  ⟨some s, [], []⟩

/-- Does something with a stream. Closing it and giving it up use it up, and then there is nothing
left to be done. -/
def act (sites : Sites) (u : Use) (a : Act) : Use :=
  match u.stream with
  | none => u
  | some s =>
    match a with
    | .send p => { u with stream := some (s.send p), replies := u.replies ++ [.passed] }
    | .close =>
      let (delivery, reply) := s.close sites
      ⟨none, u.replies ++ [reply], u.deliveries ++ delivery.toList⟩
    | .drop => { u with stream := none }

/-- Does one thing after another. -/
def run (sites : Sites) (u : Use) (acts : List Act) : Use :=
  acts.foldl (act sites) u

theorem run_cons (sites : Sites) (u : Use) (a : Act) (acts : List Act) :
    u.run sites (a :: acts) = (u.act sites a).run sites acts :=
  rfl

theorem run_append (sites : Sites) (u : Use) (acts acts' : List Act) :
    u.run sites (acts ++ acts') = (u.run sites acts).run sites acts' :=
  List.foldl_append

end Use

end Stream

/-- The transport over channels to nodes. -/
def transport (sites : Sites) : Transport where
  connect := connect sites
  openStream := openStream sites
  send _ _ := .passed
  close e sent := ((sent.foldl Stream.send (Stream.start e)).close sites).2

/-- What a node receives through a call of a submission. -/
def received (sites : Sites) : Call → Option Delivery
  | .close e sent => ((sent.foldl Stream.send (Stream.start e)).close sites).1
  | _ => none

/-- The lines that tell of a call over a channel. -/
def callLines (call : Call) (reply : Reply) : List Log.Line :=
  match call with
  | .connect e =>
    ⟨.debug, .channel, s!"Connecting to {e.text}..."⟩ ::
      if reply = .passed then [⟨.debug, .channel, s!"Connected to {e.text}."⟩] else []
  | .send payload => [⟨.trace, .channel, s!"Queueing transaction of {payload.size} B"⟩]
  | .openStream => []
  | .close _ _ => []

end SingleShot.Node
