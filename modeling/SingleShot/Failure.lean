import SingleShot.Duration
import SingleShot.Endpoint
import SingleShot.Payload
import SingleShot.Status

/-!
# Failures

Everything that can keep a transaction from being sent, with the message and the chain of
causes that a reader is shown.
-/

namespace SingleShot

/-- What is wrong with the settings of a run. -/
inductive ConfigFault
  | missingTarget
  /-- This many bytes leave no room for the header of a payload. -/
  | sizeTooSmall (size : Nat)
  /-- A fault that somebody else found, in their words. -/
  | other (text : String)
  deriving DecidableEq, Repr

/-- The wording of a fault in the settings. -/
def ConfigFault.text : ConfigFault → String
  | missingTarget => "target address is required"
  | sizeTooSmall size => s!"transaction size must be at least {minPayloadSize} bytes, got {size}"
  | other text => text

/-- Why a connection is not made. -/
inductive Refusal
  | connectionRefused
  | networkUnreachable
  /-- The endpoint's port is no number below `2 ^ 16`. -/
  | invalidPort
  /-- Any other error of the system, in its words. -/
  | other (text : String)
  deriving DecidableEq, Repr

/-- The wording of a refusal. -/
def Refusal.text : Refusal → String
  | connectionRefused => "Connection refused (os error 111)"
  | networkUnreachable => "Network is unreachable (os error 101)"
  | invalidPort => "invalid port value"
  | other text => text

/-- What keeps a channel from being opened. -/
inductive ChannelFault
  /-- The endpoint makes no valid address of a service. -/
  | invalidUri
  | refused (why : Refusal)
  /-- Any other error of the channel, with the causes that it tells. -/
  | other (causes : List String)
  deriving DecidableEq, Repr

/-- The causes of a channel fault, from the outermost. -/
def ChannelFault.causes : ChannelFault → List String
  | invalidUri => ["invalid URI", "invalid uri character"]
  | refused why => ["transport error", "tcp connect error", "tcp connect error", why.text]
  | other causes => causes

/-- Why a run fails. -/
inductive Failure
  | invalidConfiguration (fault : ConfigFault)
  | invalidAddress (error : AddressError)
  | connection (endpoint : String) (fault : ChannelFault)
  | stream (status : Status)
  | readinessTimeout (endpoint : String) (deadline : Duration)
  deriving DecidableEq

namespace Failure

/-- The message of a failure. -/
def message : Failure → String
  | invalidConfiguration fault => s!"Invalid configuration: {fault.text}"
  | invalidAddress error => s!"Invalid address '{error.address}': {error.fault.text}"
  | connection endpoint _ => s!"Cannot connect to {endpoint}"
  | stream status => s!"Stream error: {status.text}"
  | readinessTimeout endpoint deadline =>
    s!"Peer {endpoint} was not ready within {deadline.text}"

/-- What lies behind a failure, from the outermost cause to the innermost. -/
def causes : Failure → List String
  | connection _ fault => fault.causes
  | stream status => [status.text]
  | _ => []

/-- Whether an address is to blame. -/
def isInvalidAddress : Failure → Bool
  | invalidAddress _ => true
  | _ => false

end Failure

/-- Checks that a payload of a size has room for its header. -/
def checkSize (size : Nat) : Except Failure Unit :=
  if size < minPayloadSize then .error (.invalidConfiguration (.sizeTooSmall size)) else .ok ()

/-- The benchmark payload of a size with a counter; a size without room is a failure. -/
def Payload.benchmark (size : Nat) (counter : UInt64) : Except Failure Payload :=
  match benchmark? size counter with
  | some payload => .ok payload
  | none => .error (.invalidConfiguration (.sizeTooSmall size))

end SingleShot
