import SingleShot.Proofs.Payload

/-!
# The layout of a payload

A benchmark payload is a tag, a counter in eight bytes and zeros up to its size, and these bytes
say everything about it: the size and the counter are read back from them, and whatever bytes are
laid out in this way are a payload that can be built.

* `littleEndian_ofLittleEndian`: bytes are written back from the number that they write.
* `benchmark_eq_ok_iff`: the payload that is built is the one that is laid out so.
* `benchmark_inj`: payloads that are built differ if their sizes or their counters do.
* `reads_header`: what is read of a payload is there to be read.
-/

namespace SingleShot

variable {count n i : Nat} {bytes bytes' header : List UInt8}

/-! ## Numbers in bytes -/

theorem getElem?_littleEndian (h : i < count) :
    (littleEndian count n)[i]? = some (UInt8.ofNat (n / Nat.pow 256 i)) := by
  induction count generalizing n i with
  | zero => exact absurd h (Nat.not_lt_zero i)
  | succ count ih =>
    rw [littleEndian]
    cases i with
    | zero =>
      show some (UInt8.ofNat n) = some (UInt8.ofNat (n / 1))
      rw [Nat.div_one]
    | succ i =>
      have hpow : Nat.pow 256 (i + 1) = 256 * Nat.pow 256 i := Nat.mul_comm _ _
      rw [List.getElem?_cons_succ, ih (Nat.lt_of_succ_lt_succ h), Nat.div_div_eq_div_mul, hpow]

theorem ofLittleEndian_lt (bytes : List UInt8) :
    ofLittleEndian bytes < Nat.pow 256 bytes.length := by
  induction bytes with
  | nil => exact Nat.one_pos
  | cons b rest ih =>
    have hb : b.toNat < 256 := b.toNat_lt
    have hpow : Nat.pow 256 (b :: rest).length = 256 * Nat.pow 256 rest.length := Nat.mul_comm _ _
    rw [ofLittleEndian, hpow]
    omega

/-- Bytes are written back from the number that they write. -/
theorem littleEndian_ofLittleEndian (bytes : List UInt8) :
    littleEndian bytes.length (ofLittleEndian bytes) = bytes := by
  induction bytes with
  | nil => rfl
  | cons b rest ih =>
    have hb : b.toNat < 256 := b.toNat_lt
    have hlow : UInt8.ofNat (b.toNat + 256 * ofLittleEndian rest) = b := by
      apply UInt8.toNat_inj.mp
      rw [UInt8.toNat_ofNat']
      omega
    have hhigh : (b.toNat + 256 * ofLittleEndian rest) / 256 = ofLittleEndian rest := by omega
    rw [List.length_cons, ofLittleEndian, littleEndian, hlow, hhigh, ih]

/-- The number that eight bytes write is a counter. -/
theorem toNat_ofLittleEndian (h : header.length = 8) :
    (UInt64.ofNat (ofLittleEndian header)).toNat = ofLittleEndian header := by
  have hlt := ofLittleEndian_lt header
  rw [h] at hlt
  exact UInt64.toNat_ofNat_of_lt' hlt

namespace Payload

variable {size size' : Nat} {counter counter' : UInt64} {payload payload' : Payload}

/-! ## The layout -/

/-- The bytes from one index up to another, if they are all there. -/
def stretch? (bytes : List UInt8) (first past : Nat) : Option (List UInt8) :=
  if first ≤ past ∧ past ≤ bytes.length then some ((bytes.take past).drop first) else none

/-- Bytes that are a benchmark transaction of a size with a counter, index by index. -/
structure LaidOut (bytes : List UInt8) (size : Nat) (counter : UInt64) : Prop where
  room : 9 ≤ size
  length : bytes.length = size
  tag : bytes[0]? = some 0
  header : ∀ i < 8, bytes[i + 1]? = some (UInt8.ofNat (counter.toNat / Nat.pow 256 i))
  padding : ∀ i, 9 ≤ i → i < size → bytes[i]? = some 0

theorem laidOut_of_benchmark (h : Payload.benchmark size counter = .ok payload) :
    LaidOut payload.bytes size counter := by
  obtain ⟨hsize, hbytes⟩ := bytes_of_benchmark h
  have hlength : payload.bytes.length = size := size_of_benchmark h
  rw [minPayloadSize] at hsize hbytes
  refine ⟨hsize, hlength, ?_, ?_, ?_⟩
  · rw [hbytes]
    rfl
  · intro i hi
    have hin : i < (littleEndian 8 counter.toNat).length := by rwa [length_littleEndian]
    rw [hbytes, List.cons_append, List.getElem?_cons_succ, List.getElem?_append_left hin,
      getElem?_littleEndian hi]
  · intro i hi hlt
    have hpast : (benchmarkTag :: littleEndian 8 counter.toNat).length ≤ i := by
      rwa [List.length_cons, length_littleEndian]
    rw [hbytes, List.getElem?_append_right hpast, List.length_cons, length_littleEndian]
    apply List.getElem?_replicate_of_lt
    omega

/-- Nothing about the bytes is left open by their layout. -/
theorem LaidOut.unique (h : LaidOut bytes size counter) (h' : LaidOut bytes' size counter) :
    bytes = bytes' := by
  apply List.ext_getElem?
  intro i
  rcases Nat.lt_or_ge i size with hlt | hge
  · rcases Nat.lt_or_ge i 9 with hheader | hpadding
    · cases i with
      | zero => rw [h.tag, h'.tag]
      | succ i =>
        have hi : i < 8 := by omega
        rw [h.header i hi, h'.header i hi]
    · rw [h.padding i hpadding hlt, h'.padding i hpadding hlt]
  · have hpast : bytes.length ≤ i := Nat.le_trans (Nat.le_of_eq h.length) hge
    have hpast' : bytes'.length ≤ i := Nat.le_trans (Nat.le_of_eq h'.length) hge
    rw [List.getElem?_eq_none hpast, List.getElem?_eq_none hpast']

theorem benchmark_eq_ok_iff :
    Payload.benchmark size counter = .ok payload ↔ LaidOut payload.bytes size counter := by
  constructor
  · exact laidOut_of_benchmark
  · intro h
    obtain ⟨built, hbuilt⟩ := exists_benchmark (checkSize_of_le h.room) counter
    have hbytes : built.bytes = payload.bytes := (laidOut_of_benchmark hbuilt).unique h
    have hsame : built = payload := by
      cases built
      cases payload
      cases hbytes
      rfl
    rw [hbuilt, hsame]

theorem benchmark_eq_error_iff {why : Failure} :
    Payload.benchmark size counter = .error why ↔
      size < 9 ∧ why = .invalidConfiguration (.sizeTooSmall size) := by
  rcases Nat.lt_or_ge size 9 with hlt | hge
  · have hnone : benchmark? size counter = none := dif_neg (Nat.not_le.mpr hlt)
    rw [Payload.benchmark, hnone]
    constructor
    · intro h
      cases h
      exact ⟨hlt, rfl⟩
    · rintro ⟨-, rfl⟩
      rfl
  · obtain ⟨payload, hpayload⟩ := exists_benchmark (checkSize_of_le hge) counter
    rw [hpayload]
    constructor
    · intro h
      cases h
    · rintro ⟨hlt, -⟩
      exact absurd hlt (Nat.not_lt.mpr hge)

theorem benchmark_inj (h : Payload.benchmark size counter = .ok payload)
    (h' : Payload.benchmark size' counter' = .ok payload') :
    payload = payload' ↔ size = size' ∧ counter = counter' := by
  constructor
  · rintro rfl
    exact ⟨(size_of_benchmark h).symm.trans (size_of_benchmark h'),
      (counter_of_benchmark h).symm.trans (counter_of_benchmark h')⟩
  · rintro ⟨rfl, rfl⟩
    exact Except.ok.inj (h.symm.trans h')

/-! ## What is read of a payload -/

theorem stretch?_header (h : 9 ≤ bytes.length) :
    stretch? bytes 1 9 = some ((bytes.drop 1).take 8) := by
  rw [stretch?, if_pos ⟨by decide, h⟩, List.drop_take]

theorem length_header (h : 9 ≤ bytes.length) : ((bytes.drop 1).take 8).length = 8 := by
  rw [List.length_take, List.length_drop]
  omega

/-- The tag and the counter are read of bytes that are there. -/
theorem reads_header (payload : Payload) :
    ∃ tag header, payload.bytes[0]? = some tag ∧ stretch? payload.bytes 1 9 = some header ∧
      header.length = 8 ∧ payload.isBenchmark = (tag == benchmarkTag) ∧
      payload.counter = UInt64.ofNat (ofLittleEndian header) := by
  have hroom : 9 ≤ payload.bytes.length := payload.min_le
  obtain ⟨tag, htag⟩ : ∃ tag, payload.bytes[0]? = some tag :=
    ⟨_, List.getElem?_eq_getElem (Nat.zero_lt_of_lt hroom)⟩
  refine ⟨tag, _, htag, stretch?_header hroom, length_header hroom, ?_, rfl⟩
  rw [isBenchmark, List.head?_eq_getElem?, htag]
  rfl

theorem LaidOut.isBenchmark (h : LaidOut payload.bytes size counter) :
    payload.isBenchmark = true := by
  obtain ⟨tag, header, htag, -, -, hbenchmark, -⟩ := reads_header payload
  rw [h.tag] at htag
  cases htag
  exact hbenchmark

theorem LaidOut.isEmpty (h : LaidOut payload.bytes size counter) : payload.isEmpty = false := by
  apply List.isEmpty_eq_false_iff.mpr
  intro hnil
  have htag := h.tag
  rw [hnil] at htag
  cases htag

/-- Bytes with the tag and with zeros after the header are laid out with the counter in them. -/
theorem laidOut_of_zeros (hroom : 9 ≤ bytes.length) (htag : bytes[0]? = some 0)
    (hpadding : ∀ i, 9 ≤ i → i < bytes.length → bytes[i]? = some 0) :
    LaidOut bytes bytes.length (UInt64.ofNat (ofLittleEndian ((bytes.drop 1).take 8))) := by
  have hlength := length_header hroom
  refine ⟨hroom, rfl, htag, ?_, hpadding⟩
  intro i hi
  have hback := littleEndian_ofLittleEndian ((bytes.drop 1).take 8)
  rw [hlength] at hback
  rw [toNat_ofLittleEndian hlength, ← getElem?_littleEndian hi, hback, List.getElem?_take_of_lt hi,
    List.getElem?_drop, Nat.add_comm]

/-- A payload can be built of every size with room for the header, and is refused for every other
size. Built, it is laid out as the format says and gives back its size and its counter, so no two
are alike; bytes laid out as the format says are the payload of the size and the counter that are
read of them; and neither the tag nor the counter of a payload is ever read beyond its bytes. -/
theorem benchmark_lays_out :
    (∀ size counter,
      (∀ why, Payload.benchmark size counter = .error why ↔
        size < 9 ∧ why = .invalidConfiguration (.sizeTooSmall size)) ∧
      (9 ≤ size → ∃ payload, Payload.benchmark size counter = .ok payload ∧
        LaidOut payload.bytes size counter ∧ payload.size = size ∧ payload.counter = counter ∧
        payload.isBenchmark = true ∧ payload.isEmpty = false)) ∧
    (∀ size size' counter counter' payload payload',
      Payload.benchmark size counter = .ok payload →
      Payload.benchmark size' counter' = .ok payload' →
        (payload = payload' ↔ size = size' ∧ counter = counter')) ∧
    (∀ bytes : List UInt8, 9 ≤ bytes.length → bytes[0]? = some 0 →
      (∀ i, 9 ≤ i → i < bytes.length → bytes[i]? = some 0) →
        ∃ header payload, stretch? bytes 1 9 = some header ∧
          Payload.benchmark bytes.length (UInt64.ofNat (ofLittleEndian header)) = .ok payload ∧
          payload.bytes = bytes) ∧
    (∀ payload : Payload, ∃ tag header,
      payload.bytes[0]? = some tag ∧ stretch? payload.bytes 1 9 = some header ∧
        header.length = 8 ∧ payload.isBenchmark = (tag == benchmarkTag) ∧
        payload.counter = UInt64.ofNat (ofLittleEndian header)) := by
  refine ⟨?_, ?_, ?_, reads_header⟩
  · intro size counter
    refine ⟨fun why => benchmark_eq_error_iff, ?_⟩
    intro hroom
    obtain ⟨payload, hpayload⟩ := exists_benchmark (checkSize_of_le hroom) counter
    have hlaid := laidOut_of_benchmark hpayload
    exact ⟨payload, hpayload, hlaid, size_of_benchmark hpayload, counter_of_benchmark hpayload,
      hlaid.isBenchmark, hlaid.isEmpty⟩
  · intro size size' counter counter' payload payload' h h'
    exact benchmark_inj h h'
  · intro bytes hroom htag hpadding
    exact ⟨_, ⟨bytes, hroom⟩, stretch?_header hroom,
      benchmark_eq_ok_iff.mpr (laidOut_of_zeros hroom htag hpadding), rfl⟩

theorem benchmark_lays_out_of_eleven :
    ∃ payload, Payload.benchmark 11 258 = .ok payload ∧
      payload.bytes = [0, 2, 1, 0, 0, 0, 0, 0, 0, 0, 0] ∧ payload.counter = 258 ∧
      ∀ payload', Payload.benchmark 11 513 = .ok payload' → payload ≠ payload' := by
  obtain ⟨hsizes, hdiffer, hread, -⟩ := benchmark_lays_out
  have hpadding : ∀ i, 9 ≤ i → i < 11 →
      ([0, 2, 1, 0, 0, 0, 0, 0, 0, 0, 0] : List UInt8)[i]? = some 0 := by
    intro i hi hlt
    obtain rfl | rfl : i = 9 ∨ i = 10 := by omega
    · rfl
    · rfl
  obtain ⟨header, payload, hheader, hpayload, hbytes⟩ :=
    hread [0, 2, 1, 0, 0, 0, 0, 0, 0, 0, 0] (by decide) rfl hpadding
  cases hheader
  obtain ⟨-, hroom⟩ := hsizes 11 258
  obtain ⟨built, hbuilt, -, -, hcounter, -⟩ := hroom (by decide)
  have hsame : built = payload :=
    (hdiffer 11 11 258 258 built payload hbuilt hpayload).mpr ⟨rfl, rfl⟩
  rw [hsame] at hcounter
  refine ⟨payload, hpayload, hbytes, hcounter, ?_⟩
  intro payload' hpayload' hsame
  have hcounters := ((hdiffer 11 11 258 513 payload payload' hpayload hpayload').mp hsame).2
  exact absurd hcounters (by decide)

end Payload

end SingleShot
