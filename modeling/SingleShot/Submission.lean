import SingleShot.Config
import SingleShot.Course

/-!
# Submitting a transaction

One transaction is sent to one node: a channel is opened to it, a stream on the channel, the
transaction goes into the stream, and closing the stream waits for the acknowledgement. The
first call that fails ends the submission; nothing is tried twice. A stream and a channel that
have been opened are released on every way out.
-/

namespace SingleShot.Submission

/-- The calls that a submission makes. -/
inductive Call
  | connect (endpoint : Endpoint)
  | openStream
  | send (payload : Payload)
  /-- Closes the stream to an endpoint into which these payloads have been sent. -/
  | close (endpoint : Endpoint) (sent : List Payload)
  deriving DecidableEq

/-- What comes back from a call. -/
inductive Reply
  | passed
  | failed (why : Failure)
  /-- The call never returns. -/
  | absent
  deriving DecidableEq

/-- What carries transactions to nodes: the reply to each call, given the endpoint that the
channel was opened to and the payloads concerned. -/
structure Transport where
  connect : Endpoint → Reply
  openStream : Endpoint → Reply
  send : Endpoint → Payload → Reply
  close : Endpoint → List Payload → Reply

/-- What happens in a submission. -/
inductive Event
  | call (call : Call) (reply : Reply)
  /-- The transaction is about to go into the stream. -/
  | sending (size : Nat) (counter : UInt64) (endpoint : Endpoint)
  | acknowledged (size : Nat) (endpoint : Endpoint)
  | streamReleased
  | channelReleased
  deriving DecidableEq

/-- The counter of the only transaction of a run. -/
def singleCounter : UInt64 :=
  0

/-- Makes a call and goes on if it passes. If it fails, what is held is released. -/
def calling (m : Moment) (call : Call) (reply : Reply) (held : List Event)
    (next : Course Event Unit) : Course Event Unit :=
  .after m [.call call reply] <|
    match reply with
    | .passed => next
    | .failed why => .after m held (.fail why m)
    | .absent => ⟨[], .pending⟩

/-- Sends a payload over an opened stream and waits for the acknowledgement. Closing the stream
uses it up, whether the call passes or fails. -/
def deliver (transport : Transport) (m : Moment) (endpoint : Endpoint) (payload : Payload) :
    Course Event Unit :=
  .after m [.sending payload.size singleCounter endpoint] <|
    calling m (.send payload) (transport.send endpoint payload)
      [.streamReleased, .channelReleased] <|
      calling m (.close endpoint [payload]) (transport.close endpoint [payload])
        [.streamReleased, .channelReleased] <|
        .after m [.streamReleased, .acknowledged payload.size endpoint, .channelReleased]
          (.done () m)

/-- Submits one transaction of a size to a target. The size is checked first, then the target,
and only then are calls made. -/
def submitOne (transport : Transport) (m : Moment) (target : String) (size : Nat) :
    Course Event Unit :=
  match checkSize size with
  | .error why => .fail why m
  | .ok () =>
    match Config.resolveTarget target with
    | .error why => .fail why m
    | .ok endpoint =>
      calling m (.connect endpoint) (transport.connect endpoint) [] <|
        calling m .openStream (transport.openStream endpoint) [.channelReleased] <|
          match Payload.benchmark size singleCounter with
          | .error why => .after m [.streamReleased, .channelReleased] (.fail why m)
          | .ok payload => deliver transport m endpoint payload

end SingleShot.Submission
