import SingleShot.Proofs.Wire.Agreement

/-!
# Messages one after the other

A message that is read ends with a field, so bytes after it are read as if they stood alone. What
has been read before is only kept as the payload until another one comes.

* `decode_append`: how a reader goes on after a message.
* `readFields_of_holds`, `readFields_of_none`: which payload there is at the end.
* `decode_append_merges`: the whole of it.
-/

namespace SingleShot.Wire

variable {kind : Kind} {groups : List Nat} {fields : List Field} {e : DecodeError}
  {bytes before content payload payload' later : List UInt8}

theorem decode_append (h : kind.decode before = .ok payload) (bytes : List UInt8) :
    kind.decode (before ++ bytes) = kind.readFields ⟨[], payload⟩ bytes := by
  obtain ⟨fields, hspells⟩ := exists_spells_of_decode h
  have hread := hspells.readFields_top (fits_of_decode hspells h) [] bytes
  rw [← payload_of_decode hspells h] at hread
  exact hread

/-- A failure does not depend on what has been read before. -/
theorem readFields_eq_error_congr :
    kind.readFields ⟨groups, payload⟩ bytes = .error e ↔
      kind.readFields ⟨groups, payload'⟩ bytes = .error e :=
  (readFields_eq_error_iff (s := ⟨groups, bytes⟩)).trans
    (readFields_eq_error_iff (s := ⟨groups, bytes⟩)).symm

theorem readFields_of_decode (hspells : Spells 0 fields bytes) (h : kind.decode bytes = .ok later)
    (payload : List UInt8) :
    kind.readFields ⟨[], payload⟩ bytes = .ok ((kind.payloads fields).getLastD payload) := by
  have hread := hspells.readFields_top (fits_of_decode hspells h) payload []
  rw [List.append_nil, readFields_nil] at hread
  exact hread

/-- There is a field that holds a payload outside of all groups. -/
def Kind.Holds (kind : Kind) (bytes : List UInt8) : Prop :=
  ∃ fields, Spells 0 fields bytes ∧ ∃ f ∈ fields, kind.holdsPayload f.key.tag

theorem payloads_ne_nil (h : ∃ f ∈ fields, kind.holdsPayload f.key.tag) :
    kind.payloads fields ≠ [] := by
  obtain ⟨f, hf, htag⟩ := h
  have hmem : f.content ∈ kind.payloads fields :=
    List.mem_map_of_mem (List.mem_filter.mpr ⟨hf, htag⟩)
  exact List.ne_nil_of_mem hmem

/-- The last of some values is the same whatever stands in for none. -/
theorem getLastD_of_ne_nil {contents : List (List UInt8)} (h : contents ≠ [])
    (payload payload' : List UInt8) : contents.getLastD payload = contents.getLastD payload' := by
  rw [List.getLastD_eq_getLast?, List.getLastD_eq_getLast?, List.getLast?_eq_some_getLast h]
  rfl

theorem readFields_of_holds (hholds : kind.Holds bytes) (h : kind.decode bytes = .ok later)
    (payload : List UInt8) : kind.readFields ⟨[], payload⟩ bytes = .ok later := by
  obtain ⟨fields, hspells, hsome⟩ := hholds
  rw [readFields_of_decode hspells h, payload_of_decode hspells h,
    getLastD_of_ne_nil (payloads_ne_nil hsome) payload []]

theorem readFields_of_none (hnone : ¬ kind.Holds bytes) (h : kind.decode bytes = .ok later)
    (payload : List UInt8) : kind.readFields ⟨[], payload⟩ bytes = .ok payload := by
  obtain ⟨fields, hspells⟩ := exists_spells_of_decode h
  have hunknown : ∀ f ∈ fields, ¬ kind.holdsPayload f.key.tag :=
    fun f hf htag => hnone ⟨fields, hspells, f, hf, htag⟩
  rw [readFields_of_decode hspells h, payloads_of_unknown hunknown]
  rfl

/-- A payload is the last one if no other follows. -/
theorem readFields_of_last {front value rest : List UInt8}
    (hfront : Key.Writes front ⟨payloadTag, .lengthDelimited⟩)
    (hvalue : Lays .lengthDelimited value content) (hspells : Spells 0 fields rest)
    (hunknown : ∀ f ∈ fields, f.key.tag ≠ payloadTag) (payload : List UInt8) :
    Kind.submission.readFields ⟨[], payload⟩ (front ++ value ++ rest) = .ok content := by
  have hfield : Spells 0 [⟨⟨payloadTag, .lengthDelimited⟩, content⟩] (front ++ value) :=
    .single (by decide) hfront hvalue
  have hfits : Kind.submission.Fits [⟨⟨payloadTag, .lengthDelimited⟩, content⟩] := by
    simp [Kind.Fits]
  have hunknown' : ∀ f ∈ fields, ¬ Kind.submission.holdsPayload f.key.tag :=
    fun f hf => mt holdsPayload_submission.mp (hunknown f hf)
  have hfits' : Kind.submission.Fits fields := fun f hf htag => absurd htag (hunknown' f hf)
  have hread := hspells.readFields_top hfits' content []
  rw [List.append_nil, readFields_nil, payloads_of_unknown hunknown'] at hread
  rw [hfield.readFields_top hfits]
  exact hread

/-- What comes of bytes after a submission that is read.

* They fail behind it exactly if they fail alone, and for the same reason.
* If they are a submission too, the payload is theirs if they hold one, else the first one's.
* So of all payload's fields the last one wins, also if it is empty. -/
theorem decode_append_merges {a payload : List UInt8}
    (h : Kind.submission.decode a = .ok payload) (b : List UInt8) :
    (∀ e, Kind.submission.decode (a ++ b) = .error e ↔ Kind.submission.decode b = .error e) ∧
    (∀ later, Kind.submission.decode b = .ok later →
      (Kind.submission.Holds b → Kind.submission.decode (a ++ b) = .ok later) ∧
      (¬ Kind.submission.Holds b → Kind.submission.decode (a ++ b) = .ok payload)) ∧
    ∀ front value rest content fields, Key.Writes front ⟨payloadTag, .lengthDelimited⟩ →
      Lays .lengthDelimited value content → Spells 0 fields rest →
      (∀ f ∈ fields, f.key.tag ≠ payloadTag) →
      Kind.submission.decode (a ++ (front ++ value ++ rest)) = .ok content := by
  refine ⟨fun e => ?_, fun later hlater => ⟨fun hholds => ?_, fun hnone => ?_⟩, ?_⟩
  · rw [decode_append h, Kind.decode]
    exact readFields_eq_error_congr
  · rw [decode_append h]
    exact readFields_of_holds hholds hlater payload
  · rw [decode_append h]
    exact readFields_of_none hnone hlater payload
  · intro front value rest content fields hfront hvalue hspells hunknown
    rw [decode_append h]
    exact readFields_of_last hfront hvalue hspells hunknown payload

/-- After one payload come an empty one, and a length of five with one byte behind it. -/
theorem decode_append_merges_after_one :
    Kind.submission.decode [0x0a, 0x01, 0xff] = .ok [0xff] ∧
    Kind.submission.decode ([0x0a, 0x01, 0xff] ++ [0x0a, 0x00]) = .ok [] ∧
    Kind.submission.decode ([0x0a, 0x01, 0xff] ++ [0x0a, 0x05, 0x01])
      = .error ⟨.bufferUnderflow, true⟩ := by
  have hfirst : Spells 0 [⟨⟨payloadTag, .lengthDelimited⟩, [0xff]⟩] [0x0a, 0x01, 0xff] :=
    spells_payload (by decide) rfl
  have hlast : Spells 0 [⟨⟨payloadTag, .lengthDelimited⟩, []⟩] [0x0a, 0x00] :=
    spells_payload (by decide) rfl
  have h : Kind.submission.decode [0x0a, 0x01, 0xff] = .ok [0xff] :=
    hfirst.decode (by simp [Kind.Fits])
  have hlater : Kind.submission.decode [0x0a, 0x00] = .ok [] :=
    hlast.decode (by simp [Kind.Fits])
  have hholds : Kind.submission.Holds [0x0a, 0x00] :=
    ⟨_, hlast, _, List.mem_singleton_self _, rfl⟩
  exact ⟨h, ((decode_append_merges h [0x0a, 0x00]).2.1 [] hlater).1 hholds,
    ((decode_append_merges h [0x0a, 0x05, 0x01]).1 _).mpr decode_short_payload⟩

end SingleShot.Wire
