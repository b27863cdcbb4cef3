import SingleShot.Wire.Varint

/-!
# The shortest form of a word

A word can be written in several ways, as groups of zeros may follow it. `minimal_encode` says
that its encoding is the only shortest of them.
-/

namespace SingleShot.Wire.Varint

variable {n groups : Nat} {bytes rest : List UInt8}

theorem encode_of_lt (h : n < 128) : encode n = [UInt8.ofNat n] := by
  rw [encode, if_pos h]

theorem encode_of_ge (h : 128 ≤ n) :
    encode n = UInt8.ofNat (n % 128 + 128) :: encode (n / 128) := by
  rw [encode, if_neg (Nat.not_lt.mpr h)]

/-- Bytes from which a number can be read begin with its encoding, or more of them are read than
its encoding has. -/
theorem readGroups_cases (h : readGroups groups bytes = some (n, rest)) :
    bytes = encode n ++ rest ∨ (encode n).length + rest.length < bytes.length := by
  induction groups generalizing n bytes with
  | zero => cases h
  | succ groups ih =>
    cases bytes with
    | nil => cases h
    | cons b bytes =>
      rw [readGroups] at h
      split at h
      · rename_i hb
        cases h
        have hlt : b.toNat < 128 := UInt8.lt_iff_toNat_lt.mp hb
        left
        rw [encode_of_lt hlt, UInt8.ofNat_toNat]
        rfl
      · rename_i hb
        obtain ⟨⟨m, rest'⟩, hm, he⟩ := Option.map_eq_some_iff.mp h
        cases he
        have hge : 128 ≤ b.toNat := Nat.not_lt.mp fun hlt => hb (UInt8.lt_iff_toNat_lt.mpr hlt)
        have hbyte : b.toNat < 256 := b.toNat_lt
        have hlength := readGroups_length hm
        by_cases hn : b.toNat % 128 + 128 * m < 128
        · right
          rw [encode_of_lt hn, List.length_singleton, List.length_cons]
          omega
        · have hlow : (b.toNat % 128 + 128 * m) % 128 + 128 = b.toNat := by omega
          have hhigh : (b.toNat % 128 + 128 * m) / 128 = m := by omega
          rw [encode_of_ge (Nat.not_lt.mp hn), hlow, hhigh, UInt8.ofNat_toNat]
          rcases ih hm with hbytes | hlonger
          · left
            rw [List.cons_append, ← hbytes]
          · right
            simp only [List.length_cons]
            omega

theorem length_encode_le (h : decode bytes = some (n, rest)) :
    (encode n).length + rest.length ≤ bytes.length := by
  rcases readGroups_cases (Option.filter_eq_some_iff.mp h).1 with hbytes | hlonger
  · exact Nat.le_of_eq (by rw [hbytes, List.length_append])
  · exact Nat.le_of_lt hlonger

/-- Bytes that write a word, and fewer than in every other way of writing it. -/
structure Minimal (bytes : List UInt8) (n : Nat) : Prop where
  reads : decode bytes = some (n, [])
  least : ∀ other, decode other = some (n, []) → other = bytes ∨ bytes.length < other.length

theorem minimal_encode (h : n < wordBound) : Minimal (encode n) n := by
  constructor
  · have hdecode := decode_encode h []
    rwa [List.append_nil] at hdecode
  · intro other hother
    rcases readGroups_cases (Option.filter_eq_some_iff.mp hother).1 with hbytes | hlonger
    · left
      rw [hbytes, List.append_nil]
    · exact Or.inr hlonger

end SingleShot.Wire.Varint
