import SingleShot.Log.Line
import SingleShot.Session

/-!
# What a session writes to the log

Every event of a session has the lines that tell of it. The calls of a submission are told by
what makes them, so their lines are a parameter.
-/

namespace SingleShot

open Log (Line)

/-- The lines of an event of a wait. -/
def Readiness.Event.lines (event : Readiness.Event) : List Line :=
  let line (level : Log.Level) (text : String) : List Line := [⟨level, .readiness, text⟩]
  match event with
  | .skipped input error =>
    let message := (Failure.invalidAddress error).message
    line .warn s!"Skipping peer {input}, cannot parse its address: {message}"
  | .waiting peers => line .info s!"Waiting for {peers} node(s) to come online..."
  | .started _ => []
  | .ended attempt ending =>
    let peer := attempt.peer.text
    match ending with
    | .accepted => line .debug s!"Node {peer} is online after {attempt.number} attempt(s)."
    | .refused why => line .trace s!"Node {peer} is not reachable yet: {why.text}"
    | .timedOut after =>
      line .trace s!"Connection attempt to {peer} timed out after {after.text}"
  | .allOnline peers => line .info s!"All {peers} node(s) are online."

/-- The lines of an event of a submission. -/
def Submission.Event.lines (callLines : Submission.Call → Submission.Reply → List Line)
    (event : Submission.Event) : List Line :=
  let line (text : String) : List Line := [⟨.info, .submission, text⟩]
  match event with
  | .call made reply => callLines made reply
  | .sending size counter endpoint =>
    line s!"Sending sample transaction {counter} of {size} B to {endpoint.text}..."
  | .acknowledged size endpoint =>
    line s!"Transaction of {size} B was acknowledged by {endpoint.text}."
  | .streamReleased => []
  | .channelReleased => []

/-- The lines of an event of a session. -/
def Session.Event.lines (callLines : Submission.Call → Submission.Reply → List Line)
    (event : Session.Event) : List Line :=
  match event with
  | .targeted endpoint => [⟨.info, .session, s!"Node address: {endpoint.text}"⟩]
  | .sized size => [⟨.info, .session, s!"Transaction size: {size} B"⟩]
  | .readiness event => event.lines
  | .leftOut addresses =>
    let names := String.intercalate ", " addresses
    [⟨.debug, .session,
      s!"Did not wait for {addresses.length} node(s) with invalid addresses: {names}"⟩]
  | .submission event => event.lines callLines

end SingleShot
