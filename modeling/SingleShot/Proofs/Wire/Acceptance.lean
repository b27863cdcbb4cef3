import SingleShot.Proofs.Wire.Runs

/-!
# Which bytes are a message

An acknowledgement has no field of its own, so its reader accepts every message that is laid out
as the grammar says. `acknowledgement_accepts_grammar` says that, and how the reader comes to its
answer: it ends on all bytes, and it accepts them if it has used them up outside of all groups.

* `nested`: groups inside each other, as many as wanted.
* `exists_decode_nested_iff`: they are accepted up to the limit of the depth.
-/

namespace SingleShot.Wire

variable {kind : Kind} {key : Key} {groups : List Nat} {bytes rest payload : List UInt8}

theorem fits_acknowledgement (fields : List Field) : Kind.acknowledgement.Fits fields := by
  intro f _ htag
  cases htag

theorem exists_decode_iff_spells :
    (∃ payload, Kind.acknowledgement.decode bytes = .ok payload) ↔
      ∃ fields, Spells 0 fields bytes := by
  constructor
  · rintro ⟨payload, h⟩
    exact exists_spells_of_decode h
  · rintro ⟨fields, hspells⟩
    exact ⟨_, hspells.decode (fits_acknowledgement fields)⟩

/-! ## Groups inside each other -/

/-- The byte with which a group of tag 1 begins. -/
def groupStart : UInt8 :=
  0x0b

/-- The byte with which a group of tag 1 ends. -/
def groupEnd : UInt8 :=
  0x0c

/-- So many groups inside each other, the innermost of them empty. -/
def nested (count : Nat) : List UInt8 :=
  List.replicate count groupStart ++ List.replicate count groupEnd

theorem writes_groupStart : Key.Writes [groupStart] ⟨1, .startGroup⟩ :=
  ⟨Varint.writes_byte (by decide), by decide, by decide⟩

theorem writes_groupEnd : Key.Writes [groupEnd] ⟨1, .endGroup⟩ :=
  ⟨Varint.writes_byte (by decide), by decide, by decide⟩

theorem exists_spells_nested {count depth : Nat} (h : depth + count ≤ depthLimit) :
    ∃ fields, Spells depth fields (nested count) := by
  induction count generalizing depth with
  | zero => exact ⟨[], .nil⟩
  | succ count ih =>
    have hroom : depth + 1 + count ≤ depthLimit := by omega
    obtain ⟨inner, hinner⟩ := ih hroom
    have hgroup := Spells.group (by omega) writes_groupStart hinner writes_groupEnd .nil
    have hbytes : nested (count + 1) = [groupStart] ++ nested count ++ [groupEnd] ++ [] := by
      simp [nested, List.replicate_succ, ← List.replicate_succ', List.append_assoc]
    rw [hbytes]
    exact ⟨_, hgroup⟩

/-- Where the depth is used up, no further group is begun. -/
theorem breaks_of_depth (hdepth : depthLimit ≤ groups.length)
    (hkey : Key.read bytes = .ok (key, rest)) (htype : key.wireType = .startGroup) :
    kind.Breaks ⟨groups, bytes⟩ ⟨.recursionLimit, false⟩ := by
  have hne : groups ≠ [] := by
    rintro rfl
    exact absurd hdepth (by decide)
  refine .unknown hkey (fun h => hne h.1) ?_
  obtain ⟨tag, wireType⟩ := key
  cases htype
  simp only [skip, if_pos hdepth]

theorem readFields_of_too_deep {depth count : Nat} (hdepth : depth ≤ depthLimit)
    (hdeep : depthLimit < depth + count) (payload rest : List UInt8) :
    Kind.acknowledgement.readFields ⟨List.replicate depth 1, payload⟩
        (List.replicate count groupStart ++ rest)
      = .error ⟨.recursionLimit, false⟩ := by
  induction count generalizing depth with
  | zero => omega
  | succ count ih =>
    have hkey := writes_groupStart.read (List.replicate count groupStart ++ rest)
    by_cases hlast : depth = depthLimit
    · subst hlast
      have hfull : depthLimit ≤ (List.replicate depthLimit 1).length :=
        Nat.le_of_eq List.length_replicate.symm
      exact readFields_of_breaks (breaks_of_depth hfull hkey rfl) payload
    · have hopens : Skips (List.replicate depth 1) ⟨1, .startGroup⟩
          (List.replicate count groupStart ++ rest) (List.replicate (depth + 1) 1) _ :=
        .opens (by rw [List.length_replicate]; omega) rfl
      have hunknown : ¬ (List.replicate depth 1 = [] ∧ Kind.acknowledgement.holdsPayload 1) := by
        simp [Kind.holdsPayload]
      have hopened := readField_of_skips hopens hunknown payload
      rw [List.replicate_succ]
      exact (readFields_of_field hkey hopened).trans (ih (by omega) (by omega))

theorem exists_decode_nested_iff {count : Nat} :
    (∃ payload, Kind.acknowledgement.decode (nested count) = .ok payload) ↔ count ≤ 100 := by
  constructor
  · rintro ⟨payload, h⟩
    apply Nat.le_of_not_lt
    intro hdeep
    have hdeep : depthLimit < 0 + count := by
      rw [Nat.zero_add]
      exact hdeep
    have herror := readFields_of_too_deep (Nat.zero_le _) hdeep [] (List.replicate count groupEnd)
    cases h.symm.trans herror
  · intro h
    have hroom : 0 + count ≤ depthLimit := by
      rw [Nat.zero_add]
      exact h
    exact exists_decode_iff_spells.mpr (exists_spells_nested hroom)

/-! ## The whole of it -/

/-- An acknowledgement is read from bytes if and only if they are fields, one after the other. The
reader goes from key to key, with fewer bytes ahead at each, until the bytes are used up outside
of all groups, which is when it succeeds, or until it breaks off, which is how it fails. Empty
groups inside each other are accepted up to a hundred of them. -/
theorem acknowledgement_accepts_grammar (bytes : List UInt8) :
    ((∃ payload, Kind.acknowledgement.decode bytes = .ok payload) ↔
      ∃ fields, Spells 0 fields bytes) ∧
    ((∃ payload, Kind.acknowledgement.decode bytes = .ok payload) ↔
      Kind.acknowledgement.Runs ⟨[], bytes⟩ ⟨[], []⟩) ∧
    (∀ e, Kind.acknowledgement.decode bytes = .error e ↔
      ∃ t, Kind.acknowledgement.Runs ⟨[], bytes⟩ t ∧ Kind.acknowledgement.Breaks t e) ∧
    (∀ s t, Kind.acknowledgement.Step s t → t.ahead.length < s.ahead.length) ∧
    ∀ count, (∃ payload, Kind.acknowledgement.decode (nested count) = .ok payload) ↔
      count ≤ 100 :=
  ⟨exists_decode_iff_spells, exists_decode_eq_ok_iff, fun _ => decode_eq_error_iff,
    fun _ _ => length_ahead_of_step, fun _ => exists_decode_nested_iff⟩

/-- A group that is begun by a padded key, with a field in it. -/
theorem acknowledgement_accepts_padded_group :
    ∃ payload, Kind.acknowledgement.decode [0x8b, 0x00, 0x10, 0x05, 0x0c] = .ok payload := by
  have hopen : Key.Writes [0x8b, 0x00] ⟨1, .startGroup⟩ :=
    ⟨⟨.more (by decide) (.last (by decide)), by simp, by decide⟩, by decide, by decide⟩
  have hkey : Key.Writes [0x10] ⟨2, .varint⟩ :=
    ⟨Varint.writes_byte (by decide), by decide, by decide⟩
  have hvalue : Lays .varint [0x05] [0x05] :=
    .varint (Varint.writes_byte (by decide))
  have hinner : Spells 1 [⟨⟨2, .varint⟩, [0x05]⟩] [0x10, 0x05] :=
    .value (by decide) hkey hvalue .nil
  have hgroup : Spells 0 [⟨⟨1, .startGroup⟩, [0x10, 0x05]⟩] [0x8b, 0x00, 0x10, 0x05, 0x0c] :=
    .group (by decide) hopen hinner writes_groupEnd .nil
  exact (acknowledgement_accepts_grammar _).1.mpr ⟨_, hgroup⟩

end SingleShot.Wire
