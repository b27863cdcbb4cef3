/-!
# Payloads

A payload is the content of one transaction: a tag byte, a counter of eight bytes, the least
significant first, and zeros up to the wanted size. `Payload.benchmark` builds it and refuses
a size that leaves no room for the header. Memory is taken to be without bound, so there is no
size that is too large.
-/

namespace SingleShot

/-- The bytes before the padding: the tag and the counter. -/
def minPayloadSize : Nat :=
  9

/-- The first byte of a benchmark transaction. -/
def benchmarkTag : UInt8 :=
  0

/-- The lowest `count` bytes of a number, the least significant first. -/
def littleEndian : (count n : Nat) → List UInt8
  | 0, _ => []
  | count + 1, n => UInt8.ofNat n :: littleEndian count (n / 256)

/-- The number that bytes write, the least significant first. -/
def ofLittleEndian : List UInt8 → Nat
  | [] => 0
  | b :: rest => b.toNat + 256 * ofLittleEndian rest

theorem length_littleEndian (count n : Nat) : (littleEndian count n).length = count := by
  induction count generalizing n with
  | zero => rfl
  | succ count ih => rw [littleEndian, List.length_cons, ih]

/-- The bytes of a number give it back, as far as they reach. -/
theorem ofLittleEndian_littleEndian (count n : Nat) :
    ofLittleEndian (littleEndian count n) = n % Nat.pow 256 count := by
  induction count generalizing n with
  | zero => simp [littleEndian, ofLittleEndian, Nat.mod_one]
  | succ count ih =>
    have low : (UInt8.ofNat n).toNat = n % 256 := UInt8.toNat_ofNat'
    calc
      _ = n % 256 + 256 * (n / 256 % Nat.pow 256 count) := by
        rw [littleEndian, ofLittleEndian, ih, low]
      _ = n % (256 * Nat.pow 256 count) := Nat.mod_mul.symm
      _ = n % Nat.pow 256 (count + 1) := by rw [Nat.mul_comm]; rfl

/-- A payload always holds its header. -/
structure Payload where
  bytes : List UInt8
  min_le : minPayloadSize ≤ bytes.length
  deriving DecidableEq

namespace Payload

/-- The payload of a size with a counter, if the size leaves room for the header. -/
def benchmark? (size : Nat) (counter : UInt64) : Option Payload :=
  if h : minPayloadSize ≤ size then
    some
      { bytes :=
          benchmarkTag :: littleEndian 8 counter.toNat ++ List.replicate (size - minPayloadSize) 0
        min_le := by simp [length_littleEndian, minPayloadSize] }
  else none

/-- The number of bytes. -/
def size (p : Payload) : Nat :=
  p.bytes.length

/-- Whether there are no bytes. -/
def isEmpty (p : Payload) : Bool :=
  p.bytes.isEmpty

/-- Whether the payload is tagged as a benchmark transaction. -/
def isBenchmark (p : Payload) : Bool :=
  p.bytes.head? == some benchmarkTag

/-- The counter in the header. -/
def counter (p : Payload) : UInt64 :=
  UInt64.ofNat (ofLittleEndian ((p.bytes.drop 1).take 8))

end Payload

end SingleShot
