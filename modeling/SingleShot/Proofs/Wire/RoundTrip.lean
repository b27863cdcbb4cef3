import SingleShot.Proofs.Wire.Reading

/-!
# Submissions written and read

A payload is read back from the message that is written for it. Many messages hold the same
payload, with fields that nobody knows, payloads that later ones replace, and padded lengths; what
is written is the shortest of them.

* `decode_encode`: a payload is read back.
* `length_encode_le`: no message with a payload is shorter than the one that is written.
* `normalize`: a message made as short as can be.
-/

namespace SingleShot.Wire

variable {bytes payload : List UInt8}

theorem encode_of_ne_nil (h : payload ≠ []) :
    encode payload = 0x0a :: (Varint.encode payload.length ++ payload) := by
  have hkey : Varint.encode (Key.toNat ⟨payloadTag, .lengthDelimited⟩) = [0x0a] :=
    Varint.encode_of_lt (by decide)
  rw [encode, if_neg h, hkey]
  rfl

theorem decode_encode (h : payload.length < wordBound) :
    Kind.submission.decode (encode payload) = .ok payload := by
  rw [Kind.decode, readFields_eq_ok_iff]
  by_cases hempty : payload = []
  · subst hempty
    exact .done []
  · have hkey : Key.read (encode payload)
        = .ok (⟨payloadTag, .lengthDelimited⟩, Varint.encode payload.length ++ payload) := by
      rw [encode, if_neg hempty, List.append_assoc]
      exact Key.read_encode (by decide) (by decide) _
    have hread : readDelimited (Varint.encode payload.length ++ payload) = .ok (payload, []) := by
      rw [readDelimited_eq_ok_iff, List.append_nil]
      exact Varint.decode_encode h payload
    exact .field hkey (readField_of_delimited rfl rfl hread) (.done payload)

/-- A payload that is read from a message is short enough to be written, and no longer message
is written for it. -/
theorem length_encode_le (h : Kind.submission.decode bytes = .ok payload) :
    payload.length < wordBound ∧ (encode payload).length ≤ bytes.length := by
  by_cases hempty : payload = []
  · rw [hempty, encode, if_pos rfl]
    exact ⟨by decide, Nat.zero_le _⟩
  rcases (readFields_eq_ok_iff.mp h).payload_cases with hnone | ⟨inner, rest, hlength, hinner⟩
  · exact absurd hnone hempty
  have hvarint := readDelimited_eq_ok_iff.mp hinner
  have hword : payload.length < wordBound :=
    of_decide_eq_true (Option.filter_eq_some_iff.mp hvarint).2
  have hshort := Varint.length_encode_le hvarint
  rw [List.length_append] at hshort
  refine ⟨hword, ?_⟩
  rw [encode_of_ne_nil hempty, List.length_cons, List.length_append]
  omega

/-- The message that is written for the payload of a message. -/
def normalize (bytes : List UInt8) : Except DecodeError (List UInt8) :=
  (Kind.submission.decode bytes).map encode

theorem normalize_of_decode (h : Kind.submission.decode bytes = .ok payload) :
    normalize bytes = .ok (encode payload) := by
  rw [normalize, h]
  rfl

/-- Submissions are written as the format says and read back. Without a payload nothing is
written; else the key of field 1, the length as short as can be, and the payload. Every payload
short enough to have a length is read back. A message that can be read is normalized to the one
that is written for its payload: that holds the same payload, is no longer than any other message
that does, and stays as it is when it is normalized again. -/
theorem submission_round_trip :
    encode [] = [] ∧
    (∀ payload, payload ≠ [] → payload.length < wordBound →
      ∃ length, Varint.Minimal length payload.length ∧
        encode payload = 0x0a :: (length ++ payload)) ∧
    (∀ payload, payload.length < wordBound →
      Kind.submission.decode (encode payload) = .ok payload) ∧
    (∀ bytes payload, Kind.submission.decode bytes = .ok payload →
      normalize bytes = .ok (encode payload) ∧
      Kind.submission.decode (encode payload) = .ok payload ∧
      normalize (encode payload) = .ok (encode payload) ∧
      ∀ other, Kind.submission.decode other = .ok payload →
        (encode payload).length ≤ other.length) := by
  refine ⟨rfl, ?_, fun _ => decode_encode, ?_⟩
  · intro payload hne hword
    exact ⟨_, Varint.minimal_encode hword, encode_of_ne_nil hne⟩
  · intro bytes payload h
    have hagain := decode_encode (length_encode_le h).1
    refine ⟨normalize_of_decode h, hagain, normalize_of_decode hagain, ?_⟩
    intro other hother
    exact (length_encode_le hother).2

/-- A field that nobody knows, a payload that is replaced, and a padded length are all left out. -/
theorem submission_round_trip_of_padded :
    let bytes := [0x10, 0x05, 0x0a, 0x01, 0xff, 0x0a, 0x82, 0x00, 0x01, 0x02]
    Kind.submission.decode bytes = .ok [1, 2] ∧ normalize bytes = .ok [0x0a, 0x02, 1, 2] ∧
      Kind.submission.decode [0x0a, 0x02, 1, 2] = .ok [1, 2] := by
  intro bytes
  have hdecode : Kind.submission.decode bytes = .ok [1, 2] := by cbv
  have hencode : encode [1, 2] = [0x0a, 0x02, 1, 2] := by
    rw [encode_of_ne_nil (by simp), Varint.encode_of_lt (by simp)]
    rfl
  obtain ⟨-, -, -, hnormal⟩ := submission_round_trip
  obtain ⟨hshort, hagain, -⟩ := hnormal bytes [1, 2] hdecode
  rw [hencode] at hshort hagain
  exact ⟨hdecode, hshort, hagain⟩

end SingleShot.Wire
