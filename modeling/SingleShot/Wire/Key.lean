import SingleShot.Wire.Varint

/-!
# Keys of fields

Every field of a message begins with a key: the field's number, called its tag, and the wire
type that says how the field's value is laid out. This module also names what can be wrong
with a message.
-/

namespace SingleShot.Wire

/-- How the value of a field is laid out. -/
inductive WireType
  | varint
  | sixtyFourBit
  | lengthDelimited
  | startGroup
  | endGroup
  | thirtyTwoBit
  deriving DecidableEq, Repr

namespace WireType

/-- The number of a wire type in a key. -/
def code : WireType → Nat
  | varint => 0
  | sixtyFourBit => 1
  | lengthDelimited => 2
  | startGroup => 3
  | endGroup => 4
  | thirtyTwoBit => 5

def ofCode? : Nat → Option WireType
  | 0 => some varint
  | 1 => some sixtyFourBit
  | 2 => some lengthDelimited
  | 3 => some startGroup
  | 4 => some endGroup
  | 5 => some thirtyTwoBit
  | _ => none

def name : WireType → String
  | varint => "Varint"
  | sixtyFourBit => "SixtyFourBit"
  | lengthDelimited => "LengthDelimited"
  | startGroup => "StartGroup"
  | endGroup => "EndGroup"
  | thirtyTwoBit => "ThirtyTwoBit"

theorem ofCode?_code (w : WireType) : ofCode? w.code = some w := by
  cases w <;> rfl

end WireType

/-- What is wrong with the bytes of a message. -/
inductive Fault
  | invalidVarint
  /-- A key does not fit 32 bits. -/
  | invalidKey (key : Nat)
  | invalidWireType (code : Nat)
  /-- A tag is zero. -/
  | invalidTag
  /-- A field that must be length-delimited has another wire type. -/
  | unexpectedWireType (found : WireType)
  /-- The bytes end within a field. -/
  | bufferUnderflow
  /-- A group ends that has not begun, or another than the innermost. -/
  | unexpectedEndGroup
  /-- Groups are nested too deeply. -/
  | recursionLimit
  deriving DecidableEq, Repr

/-- The wording of a fault. -/
def Fault.text : Fault → String
  | invalidVarint => "invalid varint"
  | invalidKey key => s!"invalid key value: {key}"
  | invalidWireType code => s!"invalid wire type value: {code}"
  | invalidTag => "invalid tag value: 0"
  | unexpectedWireType found => s!"invalid wire type: {found.name} (expected LengthDelimited)"
  | bufferUnderflow => "buffer underflow"
  | unexpectedEndGroup => "unexpected end group tag"
  | recursionLimit => "recursion limit reached"

/-- Reads a varint, which must be there. -/
def readVarint (bytes : List UInt8) : Except Fault (Nat × List UInt8) :=
  match Varint.decode bytes with
  | some result => .ok result
  | none => .error .invalidVarint

theorem readVarint_length {n : Nat} {bytes rest : List UInt8}
    (h : readVarint bytes = .ok (n, rest)) : rest.length < bytes.length := by
  unfold readVarint at h
  split at h
  · rename_i hd
    cases h
    exact Varint.decode_length hd
  · cases h

/-- The tag of a field and the wire type of its value. -/
structure Key where
  tag : Nat
  wireType : WireType
  deriving DecidableEq, Repr

namespace Key

/-- The number that stands for a key. -/
def toNat (k : Key) : Nat :=
  8 * k.tag + k.wireType.code

/-- Keys are numbers below this bound, `2 ^ 32`. -/
def keyBound : Nat :=
  4294967296

/-- The key that a number stands for. The wire type is checked before the tag. -/
def ofNat (n : Nat) : Except Fault Key :=
  if keyBound ≤ n then .error (.invalidKey n)
  else
    match WireType.ofCode? (n % 8) with
    | none => .error (.invalidWireType (n % 8))
    | some wireType => if n / 8 = 0 then .error .invalidTag else .ok ⟨n / 8, wireType⟩

/-- Reads a key and returns what follows it. -/
def read (bytes : List UInt8) : Except Fault (Key × List UInt8) :=
  match readVarint bytes with
  | .error e => .error e
  | .ok (n, rest) => (ofNat n).map (·, rest)

/-- Reading a key takes at least one byte. -/
theorem read_length {k : Key} {bytes rest : List UInt8} (h : read bytes = .ok (k, rest)) :
    rest.length < bytes.length := by
  unfold read at h
  split at h
  · cases h
  · rename_i n rest' hv
    cases hk : ofNat n with
    | error e => simp [hk, Except.map] at h
    | ok k' =>
      obtain ⟨-, rfl⟩ : k' = k ∧ rest' = rest := by simpa [hk, Except.map] using h
      exact readVarint_length hv

end Key

end SingleShot.Wire
