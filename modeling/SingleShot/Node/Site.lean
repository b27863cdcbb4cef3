import SingleShot.Endpoint
import SingleShot.Failure

/-!
# Nodes

A node takes transactions as one call of a service, with a stream of messages from the client
and one message in answer. This module says what can be found at an endpoint and what a node
receives.
-/

namespace SingleShot.Node

/-- What a node does with a call, once it has read all of its messages. -/
inductive Behaviour
  /-- It answers with metadata and the bytes of a message. -/
  | responds (message : List UInt8) (headers : Metadata)
  /-- It answers in the same way, and then ends the call with a status that is no success. -/
  | revokes (message : List UInt8) (headers : Metadata) (status : Status)
      (failing : status.code ≠ .ok)
  /-- It ends the call with a status. -/
  | fails (status : Status)
  /-- It never answers. -/
  | silent
  deriving DecidableEq

/-- What is found at an endpoint. -/
inductive Site
  /-- No channel can be opened: the endpoint makes no address of a service, or there is no
  connection to be had. -/
  | refusing (why : ChannelFault)
  /-- A connection is neither made nor refused. -/
  | unreachable
  /-- A connection is made, but the service never gets ready for a call. -/
  | unready (error : String)
  | node (behaviour : Behaviour)
  deriving DecidableEq

/-- What is found at every endpoint. -/
abbrev Sites :=
  Endpoint → Site

/-- The name of the call. -/
def callPath : String :=
  "/narwhal.Transactions/SubmitTransactionStream"

/-- A call as the node receives it: the messages of its stream in order. -/
structure Delivery where
  endpoint : Endpoint
  path : String
  messages : List (List UInt8)
  deriving DecidableEq

end SingleShot.Node
