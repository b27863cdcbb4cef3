import SingleShot.Word

/-!
# Variable-length integers

The wire form of a number: seven bits a byte, the least significant first, with the high bit
set on all bytes but the last. Numbers are 64-bit words, so they take at most ten bytes.

* `Varint.decode_encode`: a word is read back from its encoding, whatever follows it.
-/

namespace SingleShot.Wire.Varint

/-- The shortest encoding of a number. -/
def encode (n : Nat) : List UInt8 :=
  if n < 128 then [UInt8.ofNat n] else UInt8.ofNat (n % 128 + 128) :: encode (n / 128)
termination_by n

/-- Reads groups of seven bits, at most so many, up to the first byte without its high bit. -/
def readGroups : Nat → List UInt8 → Option (Nat × List UInt8)
  | 0, _ => none
  | _ + 1, [] => none
  | groups + 1, b :: rest =>
    if b < 128 then some (b.toNat, rest)
    else (readGroups groups rest).map fun (n, rest) => (b.toNat % 128 + 128 * n, rest)

/-- The most bytes that a word takes. -/
def maxGroups : Nat :=
  10

/-- Reads a word and returns what follows it. Groups of zeros at the end are allowed. -/
def decode (bytes : List UInt8) : Option (Nat × List UInt8) :=
  (readGroups maxGroups bytes).filter fun (n, _) => n < wordBound

theorem readGroups_length {groups n : Nat} {bytes rest : List UInt8}
    (h : readGroups groups bytes = some (n, rest)) : rest.length < bytes.length := by
  induction groups generalizing n bytes rest with
  | zero => simp [readGroups] at h
  | succ groups ih =>
    cases bytes with
    | nil => simp [readGroups] at h
    | cons b bytes =>
      rw [readGroups] at h
      split at h
      · obtain ⟨-, rfl⟩ : b.toNat = n ∧ bytes = rest := by simpa using h
        simp
      · obtain ⟨⟨m, rest'⟩, hm, he⟩ := Option.map_eq_some_iff.1 h
        obtain ⟨-, rfl⟩ : b.toNat % 128 + 128 * m = n ∧ rest' = rest := by simpa using he
        exact Nat.lt_succ_of_lt (ih hm)

/-- Reading a word takes at least one byte. -/
theorem decode_length {n : Nat} {bytes rest : List UInt8}
    (h : decode bytes = some (n, rest)) : rest.length < bytes.length :=
  readGroups_length (Option.filter_eq_some_iff.1 h).1

theorem readGroups_encode (rest : List UInt8) (groups n : Nat) (h : n < Nat.pow 128 (groups + 1)) :
    readGroups (groups + 1) (encode n ++ rest) = some (n, rest) := by
  induction groups generalizing n with
  | zero => simp_all [encode, readGroups, UInt8.lt_iff_toNat_lt]; omega
  | succ groups ih =>
    rw [encode]
    split
    · rename_i hn
      have : (UInt8.ofNat n).toNat = n := by simp; omega
      simp [readGroups, UInt8.lt_iff_toNat_lt, this, hn]
    · have hb : (UInt8.ofNat (n % 128 + 128)).toNat = n % 128 + 128 := by simp; omega
      have hd : n / 128 < Nat.pow 128 (groups + 1) := by
        rw [Nat.div_lt_iff_lt_mul (by decide)]
        simpa [Nat.pow_succ] using h
      have hlt : ¬ UInt8.ofNat (n % 128 + 128) < 128 := by
        rw [UInt8.lt_iff_toNat_lt, hb]
        simp
      simp only [List.cons_append, readGroups.eq_3, if_neg hlt, ih _ hd, hb, Option.map_some]
      congr 2
      omega

/-- A word is read back from its encoding, whatever follows it. -/
theorem decode_encode {n : Nat} (h : n < wordBound) (rest : List UInt8) :
    decode (encode n ++ rest) = some (n, rest) := by
  rw [decode, maxGroups, readGroups_encode rest 9 n (Nat.lt_trans h (by decide))]
  exact Option.filter_eq_some_iff.2 ⟨rfl, decide_eq_true h⟩

end SingleShot.Wire.Varint
