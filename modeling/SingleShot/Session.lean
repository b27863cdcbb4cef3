import SingleShot.Readiness.Wait
import SingleShot.Submission

/-!
# Sessions

A session is one run: the settings are checked, the peers are waited for, and one transaction
is submitted. Each stage happens only if the one before it has succeeded.
-/

namespace SingleShot.Session

/-- What happens in a session. -/
inductive Event
  /-- The settings are valid, and this is the node that receives the transaction. -/
  | targeted (endpoint : Endpoint)
  | sized (size : Nat)
  | readiness (event : Readiness.Event)
  /-- These addresses have not been waited for. -/
  | leftOut (addresses : List String)
  | submission (event : Submission.Event)
  deriving DecidableEq

/-- What follows the wait: the addresses left out are told, and the transaction is sent. -/
def submit (transport : Submission.Transport) (config : Config) (report : Readiness.Report)
    (m : Moment) : Course Event Unit :=
  .after m (if report.skipped = [] then [] else [.leftOut report.skipped]) <|
    (Submission.submitOne transport m config.target config.size).mapEvents .submission

/-- The course of a session. -/
def run (environment : Readiness.Environment) (transport : Submission.Transport)
    (horizon : Nat) (start : Moment) (config : Config) : Course Event Unit :=
  match config.validate with
  | .error why => .fail why start
  | .ok endpoint =>
    .after start [.targeted endpoint, .sized config.size] <|
      ((Readiness.awaitAll environment config.policy horizon start config.peers).mapEvents
        .readiness).andThen (submit transport config)

end SingleShot.Session
