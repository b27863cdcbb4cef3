import SingleShot.Proofs.Wire.Acceptance

/-!
# Submissions and acknowledgements

The two kinds of messages are read alike, but for the fields that hold a payload: a submission's
reader looks into them, an acknowledgement's skips them. Their runs go through the same positions
for as long as the payload's fields are length-delimited.

* `exists_decode_submission_iff`, `payload_of_decode`: what a submission is, and what it holds.
* `exists_decode_submission_eq_error`: a failure of the one reader is carried over to the other.
* `submission_agrees_with_acknowledgement`: the whole of it.
-/

namespace SingleShot.Wire

variable {kind : Kind} {key : Key} {bytes bytes' ahead before rest content payload : List UInt8}
  {fields fields' others : List Field} {e e' : DecodeError} {t : Position}

theorem holdsPayload_submission {tag : Nat} :
    Kind.submission.holdsPayload tag ↔ tag = payloadTag :=
  decide_eq_true_iff

/-! ## Fields that fit -/

theorem fits_append : kind.Fits (fields ++ fields') ↔ kind.Fits fields ∧ kind.Fits fields' :=
  List.forall_mem_append

theorem fits_submission :
    Kind.submission.Fits fields ↔
      ∀ f ∈ fields, f.key.tag = payloadTag → f.key.wireType = .lengthDelimited := by
  simp only [Kind.Fits, holdsPayload_submission]

theorem fits_of_readFields {result : List UInt8} (h : Spells 0 fields bytes)
    (hread : kind.readFields ⟨[], payload⟩ bytes = .ok result) : kind.Fits fields := by
  induction fields generalizing bytes payload with
  | nil =>
    intro f hf
    cases hf
  | cons f fields ih =>
    obtain ⟨front, after, rfl, hfront, hafter⟩ := h.split_cons
    obtain ⟨inner, hkey⟩ := hfront.read_key after
    have hruns := (exists_readFields_eq_ok_iff (s := ⟨[], front ++ after⟩)).mp ⟨result, hread⟩
    have hfirst : kind.Fits [f] := by
      intro g hg htag
      obtain rfl := List.mem_singleton.mp hg
      rcases hruns.cases_head with hend | ⟨t, ⟨key, rest, hkey', htakes, -⟩, -⟩
      · have hempty : front ++ after = [] := congrArg Position.ahead hend
        have hlength := Key.read_length hkey
        rw [hempty] at hlength
        exact absurd hlength (Nat.not_lt_zero _)
      · cases hkey.symm.trans hkey'
        exact htakes rfl htag
    rw [hfront.readFields_top hfirst] at hread
    exact fits_append.mpr ⟨hfirst, ih hafter hread⟩

/-- In a message that is read, every field that holds a payload is length-delimited. -/
theorem fits_of_decode (h : Spells 0 fields bytes) (hdecode : kind.decode bytes = .ok payload) :
    kind.Fits fields :=
  fits_of_readFields h hdecode

theorem payload_of_decode (h : Spells 0 fields bytes) (hdecode : kind.decode bytes = .ok payload) :
    payload = (kind.payloads fields).getLastD [] := by
  have hdecode' := h.decode (fits_of_decode h hdecode)
  cases hdecode.symm.trans hdecode'
  rfl

theorem exists_decode_submission_iff :
    (∃ payload, Kind.submission.decode bytes = .ok payload) ↔
      (∃ payload, Kind.acknowledgement.decode bytes = .ok payload) ∧
        ∀ fields, Spells 0 fields bytes → Kind.submission.Fits fields := by
  rw [exists_decode_iff_spells]
  constructor
  · rintro ⟨payload, h⟩
    exact ⟨exists_spells_of_decode h, fun fields hspells => fits_of_decode hspells h⟩
  · rintro ⟨⟨fields, hspells⟩, hfits⟩
    exact ⟨_, hspells.decode (hfits fields hspells)⟩

theorem payloads_of_unknown (h : ∀ f ∈ others, ¬ kind.holdsPayload f.key.tag) :
    kind.payloads others = [] := by
  have hnone : (others.filter fun f => kind.holdsPayload f.key.tag) = [] :=
    List.filter_eq_nil_iff.mpr h
  rw [Kind.payloads, hnone, List.map_nil]

theorem payloads_append :
    kind.payloads (fields ++ fields') = kind.payloads fields ++ kind.payloads fields' := by
  simp [Kind.payloads]

/-- Fields that hold no payload can be put between others, and the payload stays. -/
theorem decode_insert (h : Spells 0 fields before) (h' : Spells 0 fields' rest)
    (hothers : Spells 0 others bytes') (hunknown : ∀ f ∈ others, ¬ kind.holdsPayload f.key.tag)
    (hdecode : kind.decode (before ++ rest) = .ok payload) :
    kind.decode (before ++ (bytes' ++ rest)) = .ok payload := by
  obtain ⟨hfits, hfits'⟩ := fits_append.mp (fits_of_decode (h.append h') hdecode)
  have hfits_others : kind.Fits others := fun f hf htag => absurd htag (hunknown f hf)
  have hall := (h.append (hothers.append h')).decode
    (fits_append.mpr ⟨hfits, fits_append.mpr ⟨hfits_others, hfits'⟩⟩)
  rw [hall, payload_of_decode (h.append h') hdecode]
  simp only [payloads_append, payloads_of_unknown hunknown, List.nil_append]

/-- The byte that is the key of a payload's field. -/
def payloadByte : UInt8 :=
  0x0a

theorem writes_payloadByte : Key.Writes [payloadByte] ⟨payloadTag, .lengthDelimited⟩ :=
  ⟨Varint.writes_byte (by decide), by decide, by decide⟩

/-- A payload of less than 128 bytes has its length in one byte. -/
theorem spells_payload {length : UInt8} (h : length < 128)
    (hcontent : content.length = length.toNat) :
    Spells 0 [⟨⟨payloadTag, .lengthDelimited⟩, content⟩] (payloadByte :: length :: content) := by
  have hlength : Varint.Writes [length] content.length := by
    rw [hcontent]
    exact Varint.writes_byte h
  exact .single (by decide) writes_payloadByte (.lengthDelimited hlength)

/-! ## Keys that are met -/

/-- The bytes up to a key are fields outside of all groups, so it is the key of the next one.
`ahead` are the bytes from the key on. -/
def Meets (bytes : List UInt8) (key : Key) (ahead : List UInt8) : Prop :=
  ∃ fields before front rest, Spells 0 fields before ∧ bytes = before ++ ahead ∧
    key.Writes front ∧ ahead = front ++ rest

/-- No field can be read off the front of the bytes. -/
def Broken (ahead : List UInt8) : Prop :=
  ∀ field taken rest, Spells 0 [field] taken → ahead ≠ taken ++ rest

/-- What is wrong with the bytes is within a field of this tag: its key is met, and no field begins
there. -/
def FailsIn (bytes : List UInt8) (tag : Nat) : Prop :=
  ∃ key ahead, Meets bytes key ahead ∧ key.tag = tag ∧ Broken ahead

/-- Every payload's key that is met is that of a length-delimited field. -/
def MeetsDelimited (bytes : List UInt8) : Prop :=
  ∀ key ahead, Meets bytes key ahead → key.tag = payloadTag → key.wireType = .lengthDelimited

theorem exists_meets_of_mem {f : Field} (h : Spells 0 fields before) (hf : f ∈ fields)
    (rest : List UInt8) : ∃ ahead, Meets (before ++ rest) f.key ahead := by
  obtain ⟨earlier, later, rfl⟩ := List.append_of_mem hf
  obtain ⟨front, after, rfl, hfront, hafter⟩ := h.split
  obtain ⟨inner, hkey⟩ := hafter.read_key rest
  obtain ⟨written, hwrites, hahead⟩ := Key.read_eq_ok_iff.mp hkey
  exact ⟨after ++ rest, earlier, front, written, inner, hfront, List.append_assoc _ _ _, hwrites,
    hahead⟩

theorem fits_of_meetsDelimited (h : Spells 0 fields before)
    (hmet : MeetsDelimited (before ++ rest)) : Kind.submission.Fits fields := by
  rw [fits_submission]
  intro f hf htag
  obtain ⟨ahead, hmeets⟩ := exists_meets_of_mem h hf rest
  exact hmet _ _ hmeets htag

/-- A reader outside of all groups stands before the next field's key. -/
theorem meets_of_runs (h : kind.Runs ⟨[], bytes⟩ ⟨[], ahead⟩)
    (hkey : Key.read ahead = .ok (key, rest)) : Meets bytes key ahead := by
  obtain ⟨fields, before, hbytes, hopened⟩ := opened_of_runs h
  obtain ⟨front, hwrites, hahead⟩ := Key.read_eq_ok_iff.mp hkey
  cases hopened with
  | top hspells => exact ⟨fields, before, front, rest, hspells, hbytes, hwrites, hahead⟩

/-! ## Failures are carried over -/

theorem skip_of_delimited (groups : List Nat) (hdepth : groups.length < depthLimit)
    (htype : key.wireType = .lengthDelimited) :
    skip groups key bytes = (readDelimited bytes).map fun (_, rest) => (groups, rest) := by
  obtain ⟨tag, wireType⟩ := key
  cases htype
  simp only [skip, if_neg (Nat.not_le.mpr hdepth)]

theorem readPayload_of_skip_error {fault : Fault} (htype : key.wireType = .lengthDelimited)
    (h : skip [] key bytes = .error fault) : readPayload key.wireType bytes = .error fault := by
  rw [skip_of_delimited [] (by decide) htype] at h
  rw [htype, readPayload]
  cases hread : readDelimited bytes with
  | error fault' =>
    rw [hread] at h
    cases h
    rfl
  | ok r =>
    rw [hread] at h
    cases h

/-- If a length-delimited field cannot be skipped, the bytes have no field in front. -/
theorem broken_of_skip_error {fault : Fault} (hkey : Key.read ahead = .ok (key, rest))
    (htype : key.wireType = .lengthDelimited) (h : skip [] key rest = .error fault) :
    Broken ahead := by
  rintro field taken more hfield rfl
  cases hfield with
  | value hdepth hwrites hvalue hrest =>
    simp only [List.append_assoc] at hkey
    cases hkey.symm.trans (hwrites.read _)
    cases h.symm.trans (skip_eq_ok_iff.mpr (.value hdepth hvalue))
  | group hdepth hopen =>
    simp only [List.append_assoc] at hkey
    cases hkey.symm.trans (hopen.read _)
    cases htype

theorem runs_submission (hmet : MeetsDelimited bytes)
    (h : Kind.acknowledgement.Runs ⟨[], bytes⟩ t) : Kind.submission.Runs ⟨[], bytes⟩ t := by
  induction h with
  | refl => exact .refl
  | @tail s t hruns hstep ih =>
    obtain ⟨key, rest, hkey, -, hskips⟩ := hstep
    refine ih.tail ⟨key, rest, hkey, ?_, hskips⟩
    intro hgroups htag
    obtain ⟨groups, ahead⟩ := s
    cases hgroups
    exact hmet key ahead (meets_of_runs hruns hkey) (holdsPayload_submission.mp htag)

/-- Where the one reader breaks off, the other one does for the same fault. -/
theorem exists_breaks_submission (hmet : MeetsDelimited bytes)
    (hruns : Kind.acknowledgement.Runs ⟨[], bytes⟩ t) (h : Kind.acknowledgement.Breaks t e) :
    ∃ e', Kind.submission.Breaks t e' ∧ e'.fault = e.fault ∧
      (e'.inPayload → FailsIn bytes payloadTag) := by
  cases h with
  | key hmore hkey => exact ⟨_, .key hmore hkey, rfl, nofun⟩
  | @unknown groups ahead rest key fault hkey _ hskip =>
    by_cases hholds : groups = [] ∧ Kind.submission.holdsPayload key.tag
    · obtain ⟨rfl, htag⟩ := hholds
      have hmeets := meets_of_runs hruns hkey
      have htag' := holdsPayload_submission.mp htag
      have htype := hmet key ahead hmeets htag'
      have hpayload := readPayload_of_skip_error htype hskip
      exact ⟨_, .payload hkey htag hpayload, rfl,
        fun _ => ⟨key, ahead, hmeets, htag', broken_of_skip_error hkey htype hskip⟩⟩
    · exact ⟨_, .unknown hkey hholds hskip, rfl, nofun⟩
  | payload hkey htag => cases htag

theorem exists_decode_submission_eq_error (hmet : MeetsDelimited bytes)
    (h : Kind.acknowledgement.decode bytes = .error e) :
    ∃ e', Kind.submission.decode bytes = .error e' ∧ e'.fault = e.fault ∧
      (e'.inPayload → FailsIn bytes payloadTag) := by
  obtain ⟨t, hruns, hbreaks⟩ := decode_eq_error_iff.mp h
  obtain ⟨e', hbreaks', hfault, hfails⟩ := exists_breaks_submission hmet hruns hbreaks
  exact ⟨e', decode_eq_error_iff.mpr ⟨t, runs_submission hmet hruns, hbreaks'⟩, hfault, hfails⟩

/-- A failure within the payload's field is reported as one. -/
theorem inPayload_of_failsIn (hmet : MeetsDelimited bytes) (hfails : FailsIn bytes payloadTag)
    (h : Kind.submission.decode bytes = .error e) : e.inPayload = true := by
  obtain ⟨key, ahead, hmeets, htag, hbroken⟩ := hfails
  have htype := hmet key ahead hmeets htag
  obtain ⟨fields, before, front, rest, hspells, rfl, hwrites, rfl⟩ := hmeets
  have hfits := fits_of_meetsDelimited hspells hmet
  rw [Kind.decode, hspells.readFields_top hfits] at h
  have hpayload : ∃ fault, readPayload key.wireType rest = .error fault := by
    rw [htype, readPayload]
    cases hread : readDelimited rest with
    | error fault => exact ⟨fault, rfl⟩
    | ok r =>
      obtain ⟨content, more⟩ := r
      obtain ⟨value, hvalue, rfl⟩ := readDelimited_eq_ok_iff_lays.mp hread
      rw [← htype] at hvalue
      exact absurd (List.append_assoc _ _ _).symm
        (hbroken _ _ more (.single (by decide) hwrites hvalue))
  obtain ⟨fault, hpayload⟩ := hpayload
  have hbreaks : Kind.submission.Breaks ⟨[], front ++ rest⟩ ⟨fault, true⟩ :=
    .payload (hwrites.read rest) (holdsPayload_submission.mpr htag) hpayload
  cases h.symm.trans (readFields_of_breaks hbreaks _)
  rfl

theorem message_of_inPayload (h : e.inPayload = true) :
    e.message = "failed to decode Protobuf message: " ++ "TransactionProto.transaction: "
      ++ e.fault.text := by
  unfold DecodeError.message
  rw [if_pos h]

theorem message_of_not_inPayload (h : e.inPayload = false) :
    e.message = "failed to decode Protobuf message: " ++ e.fault.text := by
  have hpath : ¬ e.inPayload = true := by
    rw [h]
    exact Bool.false_ne_true
  unfold DecodeError.message
  rw [if_neg hpath, String.append_empty]

theorem not_inPayload_of_acknowledgement
    (h : Kind.acknowledgement.decode bytes = .error e) : e.inPayload = false := by
  obtain ⟨t, -, hbreaks⟩ := decode_eq_error_iff.mp h
  cases hbreaks with
  | key => rfl
  | unknown => rfl
  | payload hkey htag => cases htag

/-! ## The whole of it -/

/-- What the reader of submissions and that of acknowledgements have in common, for all bytes.

* The former accepts what the latter does, if all payload's fields are length-delimited.
* It yields the content of the last of them, or nothing, and other fields do not matter.
* They fail for the same fault, unless a payload's key of another wire type comes before. Their
  messages then differ by the path to the payload if it is there that they fail. -/
theorem submission_agrees_with_acknowledgement (bytes : List UInt8) :
    ((∃ payload, Kind.submission.decode bytes = .ok payload) ↔
      (∃ payload, Kind.acknowledgement.decode bytes = .ok payload) ∧
        ∀ fields, Spells 0 fields bytes →
          ∀ f ∈ fields, f.key.tag = payloadTag → f.key.wireType = .lengthDelimited) ∧
    (∀ fields payload, Spells 0 fields bytes → Kind.submission.decode bytes = .ok payload →
      payload = ((fields.filter fun f => f.key.tag = payloadTag).map (·.content)).getLastD []) ∧
    (∀ before after other fields fields' others payload, bytes = before ++ after →
      Spells 0 fields before → Spells 0 fields' after → Spells 0 others other →
      (∀ f ∈ others, f.key.tag ≠ payloadTag) → Kind.submission.decode bytes = .ok payload →
      Kind.submission.decode (before ++ (other ++ after)) = .ok payload) ∧
    ∀ e e', Kind.acknowledgement.decode bytes = .error e →
      Kind.submission.decode bytes = .error e' → MeetsDelimited bytes →
      e'.fault = e.fault ∧
        e.message = "failed to decode Protobuf message: " ++ e.fault.text ∧
        (FailsIn bytes payloadTag → e'.message = "failed to decode Protobuf message: "
          ++ "TransactionProto.transaction: " ++ e.fault.text) ∧
        (¬ FailsIn bytes payloadTag → e'.message = e.message) := by
  simp only [← fits_submission]
  refine ⟨exists_decode_submission_iff, fun _ _ => payload_of_decode, ?_, ?_⟩
  · rintro before after other fields fields' others payload rfl h h' hothers hunknown hdecode
    exact decode_insert h h' hothers (fun f hf => mt holdsPayload_submission.mp (hunknown f hf))
      hdecode
  · intro e e' h h' hmet
    obtain ⟨e'', h'', hfault, hinside⟩ := exists_decode_submission_eq_error hmet h
    cases h'.symm.trans h''
    have hmessage := message_of_not_inPayload (not_inPayload_of_acknowledgement h)
    refine ⟨hfault, hmessage, ?_, ?_⟩
    · intro hfails
      rw [message_of_inPayload (inPayload_of_failsIn hmet hfails h'), hfault]
    · intro hfails
      have hpath := Bool.eq_false_iff.mpr (mt hinside hfails)
      rw [message_of_not_inPayload hpath, hfault, hmessage]

theorem decode_short_payload :
    Kind.submission.decode [0x0a, 0x05, 0x01] = .error ⟨.bufferUnderflow, true⟩ :=
  decode_eq_error_iff.mpr ⟨_, .refl, .payload (writes_payloadByte.read _) rfl rfl⟩

/-- A payload, a varint of another tag and an empty payload; and a length of five with one byte
behind it. -/
theorem submission_agrees_with_acknowledgement_of_short :
    Kind.submission.decode ([0x0a, 0x01, 0xff] ++ ([0x10, 0x05] ++ [0x0a, 0x00])) = .ok [] ∧
    MeetsDelimited [0x0a, 0x05, 0x01] ∧ FailsIn [0x0a, 0x05, 0x01] payloadTag ∧
    Kind.acknowledgement.decode [0x0a, 0x05, 0x01] = .error ⟨.bufferUnderflow, false⟩ ∧
    Kind.submission.decode [0x0a, 0x05, 0x01] = .error ⟨.bufferUnderflow, true⟩ ∧
    DecodeError.message ⟨.bufferUnderflow, true⟩ = "failed to decode Protobuf message: "
      ++ "TransactionProto.transaction: " ++ Fault.text .bufferUnderflow := by
  have hfirst : Spells 0 [⟨⟨payloadTag, .lengthDelimited⟩, [0xff]⟩] [0x0a, 0x01, 0xff] :=
    spells_payload (by decide) rfl
  have hlast : Spells 0 [⟨⟨payloadTag, .lengthDelimited⟩, []⟩] [0x0a, 0x00] :=
    spells_payload (by decide) rfl
  have hkey : Key.Writes [0x10] ⟨2, .varint⟩ :=
    ⟨Varint.writes_byte (by decide), by decide, by decide⟩
  have hother : Spells 0 [⟨⟨2, .varint⟩, [0x05]⟩] [0x10, 0x05] :=
    .single (by decide) hkey (.varint (Varint.writes_byte (by decide)))
  have hboth : Kind.submission.decode ([0x0a, 0x01, 0xff] ++ [0x0a, 0x00]) = .ok [] :=
    (hfirst.append hlast).decode (by simp [Kind.Fits])
  have hread : Key.read [0x0a, 0x05, 0x01] = .ok (⟨payloadTag, .lengthDelimited⟩, [0x05, 0x01]) :=
    writes_payloadByte.read _
  have hskip : skip [] ⟨payloadTag, .lengthDelimited⟩ [0x05, 0x01] = .error .bufferUnderflow :=
    rfl
  have hbroken : Broken [0x0a, 0x05, 0x01] := broken_of_skip_error hread rfl hskip
  have h : Kind.acknowledgement.decode [0x0a, 0x05, 0x01] = .error ⟨.bufferUnderflow, false⟩ :=
    decode_eq_error_iff.mpr ⟨_, .refl, .unknown hread (fun h => nomatch h.2) hskip⟩
  have h' := decode_short_payload
  have hmet : MeetsDelimited [0x0a, 0x05, 0x01] := by
    rintro key ahead ⟨fields, before, front, rest, hspells, hbytes, hwrites, rfl⟩ -
    cases fields with
    | nil =>
      cases hspells
      rw [hbytes, List.nil_append] at hread
      cases hread.symm.trans (hwrites.read rest)
      rfl
    | cons f fields =>
      obtain ⟨taken, more, rfl, htaken, -⟩ := hspells.split_cons
      rw [List.append_assoc] at hbytes
      exact absurd hbytes (hbroken f taken _ htaken)
  have hfails : FailsIn [0x0a, 0x05, 0x01] payloadTag :=
    ⟨_, _, ⟨[], [], _, _, .nil, rfl, writes_payloadByte, rfl⟩, rfl, hbroken⟩
  have hunknown : ∀ f ∈ [(⟨⟨2, .varint⟩, [0x05]⟩ : Field)], f.key.tag ≠ payloadTag := by
    decide
  have hagrees := submission_agrees_with_acknowledgement
  exact ⟨(hagrees _).2.2.1 _ _ _ _ _ _ _ rfl hfirst hlast hother hunknown hboth, hmet, hfails, h,
    h', ((hagrees _).2.2.2 _ _ h h' hmet).2.2.1 hfails⟩

end SingleShot.Wire
