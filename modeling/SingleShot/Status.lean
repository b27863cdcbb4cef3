import SingleShot.Text.Quoted

/-!
# Statuses

How a call to a node ends when it is not acknowledged: a code, a message for a reader, details
as bytes, and the metadata of the call.
-/

namespace SingleShot

/-- The codes of a call, in the order of their numbers from zero. -/
inductive Code
  | ok
  | cancelled
  | unknown
  | invalidArgument
  | deadlineExceeded
  | notFound
  | alreadyExists
  | permissionDenied
  | resourceExhausted
  | failedPrecondition
  | aborted
  | outOfRange
  | unimplemented
  | internal
  | unavailable
  | dataLoss
  | unauthenticated
  deriving DecidableEq, Repr

namespace Code

/-- All codes; the place of a code is its number. -/
def all : List Code :=
  [ok, cancelled, unknown, invalidArgument, deadlineExceeded, notFound, alreadyExists,
    permissionDenied, resourceExhausted, failedPrecondition, aborted, outOfRange, unimplemented,
    internal, unavailable, dataLoss, unauthenticated]

/-- The code of a number. A number that has none counts as unknown. -/
def ofInt (n : Int) : Code :=
  if n < 0 then unknown else all[n.toNat]?.getD unknown

def name : Code → String
  | ok => "Ok"
  | cancelled => "Cancelled"
  | unknown => "Unknown"
  | invalidArgument => "InvalidArgument"
  | deadlineExceeded => "DeadlineExceeded"
  | notFound => "NotFound"
  | alreadyExists => "AlreadyExists"
  | permissionDenied => "PermissionDenied"
  | resourceExhausted => "ResourceExhausted"
  | failedPrecondition => "FailedPrecondition"
  | aborted => "Aborted"
  | outOfRange => "OutOfRange"
  | unimplemented => "Unimplemented"
  | internal => "Internal"
  | unavailable => "Unavailable"
  | dataLoss => "DataLoss"
  | unauthenticated => "Unauthenticated"

end Code

/-- The entries of a call's metadata: their names, and their values as they are printed. -/
abbrev Metadata :=
  List (String × String)

/-- How a call ended, as the node or the channel to it tells. -/
structure Status where
  code : Code
  message : String
  details : List UInt8
  metadata : Metadata
  deriving DecidableEq

namespace Status

/-- The details as decimal numbers. -/
def detailsText (s : Status) : String :=
  "[" ++ String.intercalate ", " (s.details.map fun b => toString b.toNat) ++ "]"

/-- The entries of the metadata, one after the other. -/
def metadataText (s : Status) : String :=
  String.intercalate ", " (s.metadata.map fun (name, value) =>
    Text.quoted name ++ ": " ++ "\"" ++ value ++ "\"")

/-- A status on one line. -/
def text (s : Status) : String :=
  s!"status: {s.code.name}, message: {Text.quoted s.message}, details: {s.detailsText}, " ++
    "metadata: MetadataMap \x7b headers: \x7b" ++ s.metadataText ++ "\x7d \x7d"

end Status

end SingleShot
