import SingleShot.Wire.Key

/-!
# Values of fields

How the value of a field is read, and how an unknown field is skipped. Groups of fields are
skipped in one pass that keeps the tags of the open groups.

* `skip_length`: skipping never leaves more bytes.
-/

namespace SingleShot.Wire

/-- Divides off the first bytes, which must be there. -/
def takeBytes (count : Nat) (bytes : List UInt8) : Except Fault (List UInt8 × List UInt8) :=
  if bytes.length < count then .error .bufferUnderflow
  else .ok (bytes.take count, bytes.drop count)

/-- Reads a length and so many bytes. -/
def readDelimited (bytes : List UInt8) : Except Fault (List UInt8 × List UInt8) :=
  match readVarint bytes with
  | .error e => .error e
  | .ok (count, rest) => takeBytes count rest

/-- The content of a field with this key, which must be length-delimited. -/
def readPayload (wireType : WireType) (bytes : List UInt8) :
    Except Fault (List UInt8 × List UInt8) :=
  match wireType with
  | .lengthDelimited => readDelimited bytes
  | found => .error (.unexpectedWireType found)

/-- The depth at which nothing is skipped any more. -/
def depthLimit : Nat :=
  100

/-- Skips what a key of an unknown field announces. `groups` are the tags of the open groups,
the innermost first; the result has those that are open thereafter. -/
def skip (groups : List Nat) (key : Key) (bytes : List UInt8) :
    Except Fault (List Nat × List UInt8) :=
  match groups, key.wireType with
  | tag :: outer, .endGroup =>
    if tag = key.tag then .ok (outer, bytes) else .error .unexpectedEndGroup
  | _, wireType =>
    if depthLimit ≤ groups.length then .error .recursionLimit
    else
      match wireType with
      | .varint => (readVarint bytes).map fun (_, rest) => (groups, rest)
      | .sixtyFourBit => (takeBytes 8 bytes).map fun (_, rest) => (groups, rest)
      | .lengthDelimited => (readDelimited bytes).map fun (_, rest) => (groups, rest)
      | .thirtyTwoBit => (takeBytes 4 bytes).map fun (_, rest) => (groups, rest)
      | .startGroup => .ok (key.tag :: groups, bytes)
      | .endGroup => .error .unexpectedEndGroup

theorem takeBytes_length {count : Nat} {bytes taken rest : List UInt8}
    (h : takeBytes count bytes = .ok (taken, rest)) : rest.length ≤ bytes.length := by
  unfold takeBytes at h
  split at h
  · cases h
  · cases h
    simp

theorem readDelimited_length {bytes taken rest : List UInt8}
    (h : readDelimited bytes = .ok (taken, rest)) : rest.length ≤ bytes.length := by
  unfold readDelimited at h
  split at h
  · cases h
  · rename_i hv
    exact Nat.le_trans (takeBytes_length h) (Nat.le_of_lt (readVarint_length hv))

theorem map_rest_length {α β γ : Type} {x : Except Fault (α × List β)} {groups : γ}
    {result : γ × List β} {bound : Nat} (hx : ∀ a rest, x = .ok (a, rest) → rest.length ≤ bound)
    (h : x.map (fun (_, rest) => (groups, rest)) = .ok result) : result.2.length ≤ bound := by
  cases x with
  | error e => cases h
  | ok r =>
    cases h
    exact hx r.1 r.2 rfl

theorem readPayload_length {wireType : WireType} {bytes taken rest : List UInt8}
    (h : readPayload wireType bytes = .ok (taken, rest)) : rest.length ≤ bytes.length := by
  unfold readPayload at h
  split at h
  · exact readDelimited_length h
  · cases h

/-- Skipping never leaves more bytes. -/
theorem skip_length {groups groups' : List Nat} {key : Key} {bytes rest : List UInt8}
    (h : skip groups key bytes = .ok (groups', rest)) : rest.length ≤ bytes.length := by
  unfold skip at h
  split at h
  · split at h
    · cases h
      exact Nat.le_refl _
    · cases h
  · split at h
    · cases h
    · split at h
      · exact map_rest_length (fun _ _ hv => Nat.le_of_lt (readVarint_length hv)) h
      · exact map_rest_length (fun _ _ ht => takeBytes_length ht) h
      · exact map_rest_length (fun _ _ hd => readDelimited_length hd) h
      · exact map_rest_length (fun _ _ ht => takeBytes_length ht) h
      · cases h
        exact Nat.le_refl _
      · cases h

end SingleShot.Wire
