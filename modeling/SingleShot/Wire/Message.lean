import SingleShot.Wire.Field

/-!
# Messages

A message is a sequence of fields. Two kinds are exchanged: a submission, whose field 1 holds
a payload, and an acknowledgement without fields. A reader skips every field it does not know,
also whole groups of fields; of several fields 1 the last holds the payload.

* `Kind.decode` reads a message in one pass that keeps the tags of the open groups.
* `encode` writes a submission as short as can be.
-/

namespace SingleShot.Wire

/-- The kinds of messages. -/
inductive Kind
  | submission
  | acknowledgement
  deriving DecidableEq, Repr

/-- The tag of the payload in a submission. -/
def payloadTag : Nat :=
  1

/-- Whether a tag is the payload's. -/
def Kind.holdsPayload : Kind → Nat → Bool
  | submission, tag => tag = payloadTag
  | acknowledgement, _ => false

/-- A fault, and whether it arose in the payload's field. -/
structure DecodeError where
  fault : Fault
  inPayload : Bool
  deriving DecidableEq, Repr

/-- The message of a decode error. -/
def DecodeError.message (e : DecodeError) : String :=
  "failed to decode Protobuf message: " ++
    (if e.inPayload then "TransactionProto.transaction: " else "") ++ e.fault.text

/-- What has been read of a message: the tags of the open groups, and the last payload. -/
structure Progress where
  groups : List Nat
  payload : List UInt8
  deriving DecidableEq, Repr

/-- Reads on from a key: the payload if the key is its and stands in no group. -/
def Kind.readField (kind : Kind) (p : Progress) (key : Key) (bytes : List UInt8) :
    Except DecodeError (Progress × List UInt8) :=
  if p.groups = [] ∧ kind.holdsPayload key.tag then
    match readPayload key.wireType bytes with
    | .error e => .error ⟨e, true⟩
    | .ok (payload, rest) => .ok (⟨[], payload⟩, rest)
  else
    match skip p.groups key bytes with
    | .error e => .error ⟨e, false⟩
    | .ok (groups, rest) => .ok (⟨groups, p.payload⟩, rest)

theorem readField_length {kind : Kind} {p p' : Progress} {key : Key} {bytes rest : List UInt8}
    (h : kind.readField p key bytes = .ok (p', rest)) : rest.length ≤ bytes.length := by
  unfold Kind.readField at h
  split at h
  · split at h
    · cases h
    · rename_i hp
      cases h
      exact readPayload_length hp
  · split at h
    · cases h
    · rename_i hs
      cases h
      exact skip_length hs

/-- Reads fields until the bytes end outside of all groups. -/
def Kind.readFields (kind : Kind) (p : Progress) (bytes : List UInt8) :
    Except DecodeError (List UInt8) :=
  if p.groups = [] ∧ bytes = [] then .ok p.payload
  else
    match hk : Key.read bytes with
    | .error e => .error ⟨e, false⟩
    | .ok (key, rest) =>
      match hf : kind.readField p key rest with
      | .error e => .error e
      | .ok (p', rest') =>
        have : rest'.length < bytes.length :=
          Nat.lt_of_le_of_lt (readField_length hf) (Key.read_length hk)
        kind.readFields p' rest'
termination_by bytes.length

/-- The payload of a message, empty if no field holds one. -/
def Kind.decode (kind : Kind) (bytes : List UInt8) : Except DecodeError (List UInt8) :=
  kind.readFields ⟨[], []⟩ bytes

/-- The submission with a payload. An empty payload needs no field. -/
def encode (payload : List UInt8) : List UInt8 :=
  if payload = [] then []
  else
    Varint.encode (Key.toNat ⟨payloadTag, .lengthDelimited⟩)
      ++ Varint.encode payload.length ++ payload

end SingleShot.Wire
