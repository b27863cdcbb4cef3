import SingleShot.Proofs.Wire.Varint
import SingleShot.Wire.Message

/-!
# How messages are read

Reading a message is a run of fields. `Reads` is that run as a relation, and what a whole run
does follows from what one field does by induction on it.

* `readFields_eq_ok_iff`: a message is read exactly if there is a run over it.
* `readDelimited_eq_ok_iff`, `Key.read_encode`: what the parts of a field are read from.
* `Reads.payload_cases`: where the payload comes from.
-/

namespace SingleShot.Wire

variable {kind : Kind} {p p' : Progress} {key : Key} {count : Nat}
  {bytes rest rest' content payload : List UInt8}

/-! ## The parts of a field -/

theorem readVarint_eq_ok_iff {result : Nat × List UInt8} :
    readVarint bytes = .ok result ↔ Varint.decode bytes = some result := by
  unfold readVarint
  cases Varint.decode bytes with
  | none => simp
  | some result' => simp

theorem takeBytes_eq_ok_iff :
    takeBytes count bytes = .ok (content, rest) ↔
      content.length = count ∧ bytes = content ++ rest := by
  unfold takeBytes
  constructor
  · intro h
    split at h
    · cases h
    · rename_i hcount
      cases h
      exact ⟨List.length_take_of_le (Nat.not_lt.mp hcount), (List.take_append_drop _ _).symm⟩
  · rintro ⟨rfl, rfl⟩
    rw [if_neg (by simp), List.take_left, List.drop_left]

theorem readDelimited_eq_ok_iff :
    readDelimited bytes = .ok (content, rest) ↔
      Varint.decode bytes = some (content.length, content ++ rest) := by
  unfold readDelimited
  constructor
  · intro h
    split at h
    · cases h
    · rename_i hvarint
      obtain ⟨rfl, rfl⟩ := takeBytes_eq_ok_iff.mp h
      exact readVarint_eq_ok_iff.mp hvarint
  · intro h
    rw [readVarint_eq_ok_iff.mpr h]
    exact takeBytes_eq_ok_iff.mpr ⟨rfl, rfl⟩

/-- A key is what its number stands for. -/
theorem Key.ofNat_toNat (htag : 0 < key.tag) (hbound : key.toNat < keyBound) :
    Key.ofNat key.toNat = .ok key := by
  have hcode : key.wireType.code < 8 := by
    cases key.wireType <;> decide
  have hlow : key.toNat % 8 = key.wireType.code := by
    rw [Key.toNat]
    omega
  have hhigh : key.toNat / 8 = key.tag := by
    rw [Key.toNat]
    omega
  rw [Key.ofNat, if_neg (Nat.not_le.mpr hbound), hlow, WireType.ofCode?_code]
  simp only [hhigh]
  rw [if_neg (by omega)]

/-- A key is read back from its number, whatever follows it. -/
theorem Key.read_encode (htag : 0 < key.tag) (hbound : key.toNat < keyBound)
    (rest : List UInt8) : Key.read (Varint.encode key.toNat ++ rest) = .ok (key, rest) := by
  have hword : key.toNat < wordBound := Nat.lt_trans hbound (by decide)
  have hvarint := readVarint_eq_ok_iff.mpr (Varint.decode_encode hword rest)
  simp only [Key.read, hvarint, Key.ofNat_toNat htag hbound]
  rfl

/-! ## One field -/

theorem readField_of_delimited (htag : kind.holdsPayload key.tag = true)
    (htype : key.wireType = .lengthDelimited) (h : readDelimited bytes = .ok (content, rest)) :
    kind.readField ⟨[], payload⟩ key bytes = .ok (⟨[], content⟩, rest) := by
  simp [Kind.readField, htag, htype, readPayload, h]

/-- A field leaves the payload as it is, or holds the new one. -/
theorem readField_payload (h : kind.readField p key bytes = .ok (p', rest)) :
    p'.payload = p.payload ∨ readDelimited bytes = .ok (p'.payload, rest) := by
  unfold Kind.readField at h
  split at h
  · split at h
    · cases h
    · rename_i hpayload
      cases h
      right
      unfold readPayload at hpayload
      split at hpayload
      · exact hpayload
      · cases hpayload
  · split at h
    · cases h
    · cases h
      exact Or.inl rfl

/-! ## All fields -/

/-- From what has been read of a message, the bytes are read to their end, field by field. -/
inductive Reads (kind : Kind) : Progress → List UInt8 → List UInt8 → Prop
  | done (payload : List UInt8) : Reads kind ⟨[], payload⟩ [] payload
  | field {p p' : Progress} {key : Key} {bytes rest rest' payload : List UInt8}
      (hkey : Key.read bytes = .ok (key, rest))
      (hfield : kind.readField p key rest = .ok (p', rest'))
      (htail : Reads kind p' rest' payload) : Reads kind p bytes payload

theorem readFields_of_field (hkey : Key.read bytes = .ok (key, rest))
    (hfield : kind.readField p key rest = .ok (p', rest')) :
    kind.readFields p bytes = kind.readFields p' rest' := by
  have hne : ¬ (p.groups = [] ∧ bytes = []) := by
    rintro ⟨-, rfl⟩
    exact absurd (Key.read_length hkey) (by simp)
  rw [Kind.readFields, if_neg hne]
  split
  · rename_i hkey'
    rw [hkey] at hkey'
    cases hkey'
  · rename_i hkey'
    rw [hkey] at hkey'
    cases hkey'
    split
    · rename_i hfield'
      rw [hfield] at hfield'
      cases hfield'
    · rename_i hfield'
      rw [hfield] at hfield'
      cases hfield'
      rfl

/-- A message is read exactly if there is a run over it. -/
theorem readFields_eq_ok_iff : kind.readFields p bytes = .ok payload ↔ Reads kind p bytes payload := by
  constructor
  · intro h
    induction hn : bytes.length using Nat.strongRecOn generalizing p bytes with
    | ind n ih =>
      rw [Kind.readFields] at h
      split at h
      · rename_i hend
        obtain ⟨groups, payload'⟩ := p
        obtain ⟨rfl, rfl⟩ : groups = [] ∧ bytes = [] := hend
        cases h
        exact .done _
      · split at h
        · cases h
        · rename_i key rest hkey
          split at h
          · cases h
          · rename_i p' rest' hfield
            have hshorter : rest'.length < bytes.length :=
              Nat.lt_of_le_of_lt (readField_length hfield) (Key.read_length hkey)
            exact .field hkey hfield (ih rest'.length (hn ▸ hshorter) h rfl)
  · intro h
    induction h with
    | done payload => rw [Kind.readFields, if_pos ⟨rfl, rfl⟩]
    | field hkey hfield htail ih => rw [readFields_of_field hkey hfield, ih]

/-- The payload is the one that was there before, or was read from a field on the way. -/
theorem Reads.payload_cases (h : Reads kind p bytes payload) :
    payload = p.payload ∨ ∃ inner rest, inner.length < bytes.length ∧
      readDelimited inner = .ok (payload, rest) := by
  induction h with
  | done payload => exact Or.inl rfl
  | field hkey hfield htail ih =>
    have hkey_length := Key.read_length hkey
    have hfield_length := readField_length hfield
    rcases ih with hsame | ⟨inner, rest, hlength, hinner⟩
    · rw [hsame]
      rcases readField_payload hfield with hbefore | hread
      · exact Or.inl hbefore
      · exact Or.inr ⟨_, _, hkey_length, hread⟩
    · exact Or.inr ⟨inner, rest, by omega, hinner⟩

end SingleShot.Wire
