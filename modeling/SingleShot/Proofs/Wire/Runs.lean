import Mathlib.Logic.Relation
import SingleShot.Proofs.Wire.Grammar

/-!
# Runs of a reader

A reader goes over the bytes of a message from key to key, and what counts of what lies behind it
are the groups that are open. `Kind.Step` is what it does at one key. It goes on until the
bytes are used up outside of all groups, or it breaks off.

* `decode_eq_error_iff`, `exists_decode_eq_ok_iff`: a reader fails if its run breaks off,
  and succeeds if its run comes to the end.
* `opened_of_runs`: behind a reader there are fields and the beginnings of the open groups.
* `Spells.readFields_append`: fields are read, whatever follows them.
-/

namespace SingleShot.Wire

open Relation (ReflTransGen)

variable {kind : Kind} {key : Key} {depth : Nat} {groups groups' : List Nat}
  {bytes rest before content payload : List UInt8} {fields : List Field} {e : DecodeError}

/-! ## One key -/

/-- Where a reader stands: the tags of the open groups, and the bytes ahead. -/
structure Position where
  groups : List Nat
  ahead : List UInt8

/-- A key is no obstacle: outside of all groups the payload must be length-delimited. -/
def Kind.Takes (kind : Kind) (groups : List Nat) (key : Key) : Prop :=
  groups = [] → kind.holdsPayload key.tag → key.wireType = .lengthDelimited

theorem readField_of_skips (h : Skips groups key bytes groups' rest)
    (hunknown : ¬ (groups = [] ∧ kind.holdsPayload key.tag)) (payload : List UInt8) :
    kind.readField ⟨groups, payload⟩ key bytes = .ok (⟨groups', payload⟩, rest) := by
  rw [Kind.readField, if_neg hunknown, skip_eq_ok_iff.mpr h]

/-- A reader gets past a key if it takes it and the value can be skipped, and what it has read
before does not matter. -/
theorem exists_readField_eq_ok_iff :
    (∃ payload', kind.readField ⟨groups, payload⟩ key bytes = .ok (⟨groups', payload'⟩, rest)) ↔
      kind.Takes groups key ∧ Skips groups key bytes groups' rest := by
  by_cases hholds : groups = [] ∧ kind.holdsPayload key.tag
  · obtain ⟨rfl, htag⟩ := hholds
    constructor
    · rintro ⟨payload', h⟩
      rw [Kind.readField, if_pos ⟨rfl, htag⟩] at h
      split at h
      · cases h
      · rename_i content rest' hread
        cases h
        unfold readPayload at hread
        split at hread
        · rename_i htype
          obtain ⟨value, hvalue, rfl⟩ := readDelimited_eq_ok_iff_lays.mp hread
          rw [← htype] at hvalue
          exact ⟨fun _ _ => htype, .value (by decide) hvalue⟩
        · cases hread
    · rintro ⟨htakes, hskips⟩
      have htype := htakes rfl htag
      cases hskips with
      | value hdepth hvalue =>
        rw [htype] at hvalue
        exact ⟨_, readField_of_delimited htag htype (hvalue.readDelimited rest)⟩
      | opens hdepth hopens =>
        cases htype.symm.trans hopens
  · constructor
    · rintro ⟨payload', h⟩
      rw [Kind.readField, if_neg hholds] at h
      split at h
      · cases h
      · rename_i hskip
        cases h
        exact ⟨fun hgroups htag => absurd ⟨hgroups, htag⟩ hholds, skip_eq_ok_iff.mp hskip⟩
    · rintro ⟨-, hskips⟩
      exact ⟨payload, readField_of_skips hskips hholds payload⟩

/-- What a reader does at a key that it gets past. -/
def Kind.Step (kind : Kind) (s t : Position) : Prop :=
  ∃ key rest, Key.read s.ahead = .ok (key, rest) ∧ kind.Takes s.groups key ∧
    Skips s.groups key rest t.groups t.ahead

/-- From one position a reader comes to another. -/
abbrev Kind.Runs (kind : Kind) : Position → Position → Prop :=
  ReflTransGen kind.Step

/-- What breaks a run off, and how that is reported. -/
inductive Kind.Breaks (kind : Kind) : Position → DecodeError → Prop
  | key {groups : List Nat} {bytes : List UInt8} {fault : Fault}
    (hmore : ¬ (groups = [] ∧ bytes = [])) (hkey : Key.read bytes = .error fault) :
    Breaks kind ⟨groups, bytes⟩ ⟨fault, false⟩
  | unknown {groups : List Nat} {bytes rest : List UInt8} {key : Key} {fault : Fault}
    (hkey : Key.read bytes = .ok (key, rest))
    (hunknown : ¬ (groups = [] ∧ kind.holdsPayload key.tag))
    (hskip : skip groups key rest = .error fault) : Breaks kind ⟨groups, bytes⟩ ⟨fault, false⟩
  | payload {bytes rest : List UInt8} {key : Key} {fault : Fault}
    (hkey : Key.read bytes = .ok (key, rest)) (htag : kind.holdsPayload key.tag)
    (hpayload : readPayload key.wireType rest = .error fault) :
    Breaks kind ⟨[], bytes⟩ ⟨fault, true⟩

variable {s t : Position}

theorem readFields_of_step (h : kind.Step s t) (payload : List UInt8) :
    ∃ payload', kind.readFields ⟨s.groups, payload⟩ s.ahead
      = kind.readFields ⟨t.groups, payload'⟩ t.ahead := by
  obtain ⟨key, rest, hkey, htakes, hskips⟩ := h
  obtain ⟨payload', hfield⟩ := exists_readField_eq_ok_iff.mpr ⟨htakes, hskips⟩
  exact ⟨payload', readFields_of_field hkey hfield⟩

theorem length_ahead_of_step (h : kind.Step s t) : t.ahead.length < s.ahead.length := by
  obtain ⟨key, rest, hkey, -, hskips⟩ := h
  exact Nat.lt_of_le_of_lt (skip_length (skip_eq_ok_iff.mpr hskips)) (Key.read_length hkey)

theorem readFields_of_key_error (hmore : ¬ (groups = [] ∧ bytes = [])) {fault : Fault}
    (hkey : Key.read bytes = .error fault) :
    kind.readFields ⟨groups, payload⟩ bytes = .error ⟨fault, false⟩ := by
  rw [Kind.readFields, if_neg hmore]
  split
  · rename_i hkey'
    cases hkey.symm.trans hkey'
    rfl
  · rename_i hkey'
    cases hkey.symm.trans hkey'

theorem readFields_of_field_error (hkey : Key.read bytes = .ok (key, rest))
    (hfield : kind.readField ⟨groups, payload⟩ key rest = .error e) :
    kind.readFields ⟨groups, payload⟩ bytes = .error e := by
  have hmore : ¬ (groups = [] ∧ bytes = []) := by
    rintro ⟨-, rfl⟩
    exact absurd (Key.read_length hkey) (by simp)
  rw [Kind.readFields, if_neg hmore]
  split
  · rename_i hkey'
    cases hkey.symm.trans hkey'
  · rename_i hkey'
    cases hkey.symm.trans hkey'
    split
    · rename_i hfield'
      cases hfield.symm.trans hfield'
      rfl
    · rename_i hfield'
      cases hfield.symm.trans hfield'

theorem readFields_of_breaks (h : kind.Breaks s e) (payload : List UInt8) :
    kind.readFields ⟨s.groups, payload⟩ s.ahead = .error e := by
  cases h with
  | key hmore hkey => exact readFields_of_key_error hmore hkey
  | unknown hkey hunknown hskip =>
    refine readFields_of_field_error hkey ?_
    rw [Kind.readField, if_neg hunknown, hskip]
  | payload hkey htag hpayload =>
    refine readFields_of_field_error hkey ?_
    rw [Kind.readField, if_pos ⟨rfl, htag⟩, hpayload]

/-- A reader is at the end, or gets past the next key, or breaks off. -/
theorem ended_or_step_or_breaks (kind : Kind) (s : Position) :
    s = ⟨[], []⟩ ∨ (∃ t, kind.Step s t) ∨ ∃ e, kind.Breaks s e := by
  obtain ⟨groups, bytes⟩ := s
  by_cases hmore : groups = [] ∧ bytes = []
  · left
    rw [hmore.1, hmore.2]
  right
  cases hkey : Key.read bytes with
  | error fault => exact Or.inr ⟨_, .key hmore hkey⟩
  | ok r =>
    obtain ⟨key, rest⟩ := r
    cases hfield : kind.readField ⟨groups, []⟩ key rest with
    | ok r =>
      obtain ⟨⟨groups', payload'⟩, rest'⟩ := r
      obtain ⟨htakes, hskips⟩ := exists_readField_eq_ok_iff.mp ⟨payload', hfield⟩
      exact Or.inl ⟨⟨groups', rest'⟩, key, rest, hkey, htakes, hskips⟩
    | error e =>
      right
      unfold Kind.readField at hfield
      split at hfield
      · rename_i hholds
        obtain ⟨rfl, htag⟩ := hholds
        split at hfield
        · rename_i hpayload
          exact ⟨_, .payload hkey htag hpayload⟩
        · cases hfield
      · rename_i hunknown
        split at hfield
        · rename_i hskip
          exact ⟨_, .unknown hkey hunknown hskip⟩
        · cases hfield

/-! ## A whole run -/

theorem readFields_of_runs (h : kind.Runs s t) (payload : List UInt8) :
    ∃ payload', kind.readFields ⟨s.groups, payload⟩ s.ahead
      = kind.readFields ⟨t.groups, payload'⟩ t.ahead := by
  induction h with
  | refl => exact ⟨payload, rfl⟩
  | tail _ hstep ih =>
    obtain ⟨payload₁, h₁⟩ := ih
    obtain ⟨payload₂, h₂⟩ := readFields_of_step hstep payload₁
    exact ⟨payload₂, h₁.trans h₂⟩

/-- Every run comes to the end or breaks off, as every step leaves fewer bytes. -/
theorem exists_runs (kind : Kind) (s : Position) :
    ∃ t, kind.Runs s t ∧ (t = ⟨[], []⟩ ∨ ∃ e, kind.Breaks t e) := by
  induction hn : s.ahead.length using Nat.strongRecOn generalizing s with
  | ind n ih =>
    rcases ended_or_step_or_breaks kind s with hend | ⟨t, hstep⟩ | hbreaks
    · exact ⟨s, .refl, Or.inl hend⟩
    · obtain ⟨u, hruns, hu⟩ := ih _ (hn ▸ length_ahead_of_step hstep) t rfl
      exact ⟨u, .head hstep hruns, hu⟩
    · exact ⟨s, .refl, Or.inr hbreaks⟩

theorem readFields_nil (payload : List UInt8) :
    kind.readFields ⟨[], payload⟩ [] = .ok payload := by
  rw [Kind.readFields, if_pos ⟨rfl, rfl⟩]

theorem readFields_eq_error_iff :
    kind.readFields ⟨s.groups, payload⟩ s.ahead = .error e ↔
      ∃ t, kind.Runs s t ∧ kind.Breaks t e := by
  constructor
  · intro h
    obtain ⟨t, hruns, hend⟩ := exists_runs kind s
    obtain ⟨payload', hsame⟩ := readFields_of_runs hruns payload
    rw [h] at hsame
    rcases hend with rfl | ⟨e', hbreaks⟩
    · rw [readFields_nil] at hsame
      cases hsame
    · rw [readFields_of_breaks hbreaks] at hsame
      cases hsame
      exact ⟨t, hruns, hbreaks⟩
  · rintro ⟨t, hruns, hbreaks⟩
    obtain ⟨payload', hsame⟩ := readFields_of_runs hruns payload
    rw [hsame, readFields_of_breaks hbreaks]

theorem exists_readFields_eq_ok_iff :
    (∃ payload', kind.readFields ⟨s.groups, payload⟩ s.ahead = .ok payload') ↔
      kind.Runs s ⟨[], []⟩ := by
  constructor
  · rintro ⟨payload', h⟩
    obtain ⟨t, hruns, hend⟩ := exists_runs kind s
    rcases hend with rfl | ⟨e, hbreaks⟩
    · exact hruns
    · rw [readFields_eq_error_iff.mpr ⟨t, hruns, hbreaks⟩] at h
      cases h
  · intro hruns
    obtain ⟨payload', hsame⟩ := readFields_of_runs hruns payload
    exact ⟨payload', by rw [hsame, readFields_nil]⟩

theorem decode_eq_error_iff :
    kind.decode bytes = .error e ↔ ∃ t, kind.Runs ⟨[], bytes⟩ t ∧ kind.Breaks t e := by
  rw [Kind.decode]
  exact readFields_eq_error_iff (s := ⟨[], bytes⟩)

theorem exists_decode_eq_ok_iff :
    (∃ payload, kind.decode bytes = .ok payload) ↔ kind.Runs ⟨[], bytes⟩ ⟨[], []⟩ := by
  simp only [Kind.decode]
  exact exists_readFields_eq_ok_iff (s := ⟨[], bytes⟩)

/-! ## What lies behind a reader -/

/-- Fields, and after them the beginnings of groups inside each other, each with the fields that
are already in it. -/
inductive Opened : List Nat → List Field → List UInt8 → Prop
  | top {fields : List Field} {bytes : List UInt8} (h : Spells 0 fields bytes) :
    Opened [] fields bytes
  | inside {groups : List Nat} {tag : Nat} {fields inner : List Field}
    {before front content : List UInt8} (h : Opened groups fields before)
    (hdepth : groups.length < depthLimit) (hopen : Key.Writes front ⟨tag, .startGroup⟩)
    (hinner : Spells (groups.length + 1) inner content) :
    Opened (tag :: groups) fields (before ++ front ++ content)

theorem Opened.append (h : Opened groups fields before) {more : List Field}
    (hmore : Spells groups.length more bytes) :
    ∃ fields', Opened groups fields' (before ++ bytes) := by
  cases h with
  | top h => exact ⟨_, .top (h.append hmore)⟩
  | inside h hdepth hopen hinner =>
    rw [List.append_assoc]
    exact ⟨_, .inside h hdepth hopen (hinner.append hmore)⟩

theorem Spells.single {front value : List UInt8} (hdepth : depth < depthLimit)
    (hkey : key.Writes front) (hvalue : Lays key.wireType value content) :
    Spells depth [⟨key, content⟩] (front ++ value) := by
  have h := Spells.value hdepth hkey hvalue .nil
  rwa [List.append_nil] at h

theorem opened_of_step (h : Opened s.groups fields before) (hstep : kind.Step s t) :
    ∃ taken fields', s.ahead = taken ++ t.ahead ∧ Opened t.groups fields' (before ++ taken) := by
  obtain ⟨groups, bytes⟩ := s
  obtain ⟨groups', rest'⟩ := t
  obtain ⟨key, rest, hkey, -, hskips⟩ := hstep
  obtain ⟨front, hfront, rfl⟩ := Key.read_eq_ok_iff.mp hkey
  dsimp only at h hskips ⊢
  cases hskips with
  | value hdepth hvalue =>
    obtain ⟨fields', h'⟩ := h.append (.single hdepth hfront hvalue)
    exact ⟨_, fields', (List.append_assoc _ _ _).symm, h'⟩
  | opens hdepth htype =>
    have hopen : Key.Writes front ⟨key.tag, .startGroup⟩ := by
      rwa [← htype]
    have h' := Opened.inside h hdepth hopen .nil
    rw [List.append_nil] at h'
    exact ⟨front, fields, rfl, h'⟩
  | closes htag htype =>
    -- The innermost group is complete now, and so a field of what it stands in.
    cases h with
    | inside h hdepth hopen hinner =>
      have hclose : Key.Writes front ⟨key.tag, .endGroup⟩ := by
        rwa [← htype]
      rw [htag] at hopen
      have hgroup := Spells.group hdepth hopen hinner hclose .nil
      obtain ⟨fields', h'⟩ := h.append hgroup
      refine ⟨front, fields', rfl, ?_⟩
      simpa only [List.append_assoc, List.append_nil] using h'

theorem opened_of_runs (h : kind.Runs ⟨[], bytes⟩ t) :
    ∃ fields before, bytes = before ++ t.ahead ∧ Opened t.groups fields before := by
  induction h with
  | refl => exact ⟨[], [], rfl, .top .nil⟩
  | tail _ hstep ih =>
    obtain ⟨fields, before, rfl, hopened⟩ := ih
    obtain ⟨taken, fields', hahead, hopened'⟩ := opened_of_step hopened hstep
    exact ⟨fields', _, by rw [hahead, List.append_assoc], hopened'⟩

/-- What a reader accepts is fields. -/
theorem exists_spells_of_decode (h : kind.decode bytes = .ok payload) :
    ∃ fields, Spells 0 fields bytes := by
  obtain ⟨fields, before, hbytes, hopened⟩ :=
    opened_of_runs (exists_decode_eq_ok_iff.mp ⟨payload, h⟩)
  rw [List.append_nil] at hbytes
  cases hopened with
  | top hspells => exact ⟨fields, hbytes ▸ hspells⟩

/-! ## Fields are read -/

/-- The payloads in fields, in their order. -/
def Kind.payloads (kind : Kind) (fields : List Field) : List (List UInt8) :=
  (fields.filter fun f => kind.holdsPayload f.key.tag).map (·.content)

theorem payloads_cons_of_holds {f : Field} (htag : kind.holdsPayload f.key.tag)
    (fields : List Field) : kind.payloads (f :: fields) = f.content :: kind.payloads fields := by
  simp [Kind.payloads, htag]

theorem payloads_cons_of_unknown {f : Field} (htag : ¬ kind.holdsPayload f.key.tag)
    (fields : List Field) : kind.payloads (f :: fields) = kind.payloads fields := by
  simp [Kind.payloads, htag]

/-- Every field that holds a payload is length-delimited. -/
def Kind.Fits (kind : Kind) (fields : List Field) : Prop :=
  ∀ f ∈ fields, kind.holdsPayload f.key.tag → f.key.wireType = .lengthDelimited

/-- The payload after more fields. Inside of a group it stays as it is. -/
def Kind.latest (kind : Kind) : List Nat → List Field → List UInt8 → List UInt8
  | [], fields, payload => (kind.payloads fields).getLastD payload
  | _ :: _, _, payload => payload

theorem latest_cons (groups : List Nat) (f : Field) (fields : List Field) (payload : List UInt8) :
    kind.latest groups (f :: fields) payload
      = kind.latest groups fields (kind.latest groups [f] payload) := by
  cases groups with
  | nil =>
    by_cases htag : kind.holdsPayload f.key.tag
    · have hcons := payloads_cons_of_holds htag fields
      have hone := payloads_cons_of_holds htag []
      simp only [Kind.latest, hcons, hone, List.getLastD_cons]
      rfl
    · have hcons := payloads_cons_of_unknown htag fields
      have hone := payloads_cons_of_unknown htag []
      simp only [Kind.latest, hcons, hone]
      rfl
  | cons tag groups => rfl

theorem latest_of_unknown {f : Field}
    (hunknown : ¬ (groups = [] ∧ kind.holdsPayload f.key.tag)) (payload : List UInt8) :
    kind.latest groups [f] payload = payload := by
  cases groups with
  | nil =>
    have htag : ¬ kind.holdsPayload f.key.tag := fun h => hunknown ⟨rfl, h⟩
    have hone := payloads_cons_of_unknown htag []
    simp only [Kind.latest, hone]
    rfl
  | cons tag groups => rfl

theorem readField_of_lays {value : List UInt8} (hdepth : groups.length < depthLimit)
    (hvalue : Lays key.wireType value content) (htakes : kind.Takes groups key)
    (payload rest : List UInt8) :
    kind.readField ⟨groups, payload⟩ key (value ++ rest)
      = .ok (⟨groups, kind.latest groups [⟨key, content⟩] payload⟩, rest) := by
  by_cases hholds : groups = [] ∧ kind.holdsPayload key.tag
  · obtain ⟨rfl, htag⟩ := hholds
    have htype := htakes rfl htag
    rw [htype] at hvalue
    have hone := payloads_cons_of_holds (f := ⟨key, content⟩) htag []
    rw [readField_of_delimited htag htype (hvalue.readDelimited rest), Kind.latest, hone]
    rfl
  · rw [readField_of_skips (.value hdepth hvalue) hholds, latest_of_unknown hholds]

/-- Fields are read, whatever follows them. The payload is then the last of theirs, if they have
any. -/
theorem Spells.readFields_append (h : Spells depth fields bytes) (hdepth : groups.length = depth)
    (hfits : groups = [] → kind.Fits fields) (payload rest : List UInt8) :
    kind.readFields ⟨groups, payload⟩ (bytes ++ rest)
      = kind.readFields ⟨groups, kind.latest groups fields payload⟩ rest := by
  induction h generalizing groups payload rest with
  | nil => cases groups <;> rfl
  | @value depth key front value content rest' fields hlimit hkey hvalue _ ih =>
    subst hdepth
    have htakes : kind.Takes groups key := fun hgroups => hfits hgroups _ List.mem_cons_self
    have hfield := readField_of_lays hlimit hvalue htakes payload (rest' ++ rest)
    rw [List.append_assoc, List.append_assoc, readFields_of_field (hkey.read _) hfield,
      ih rfl (fun hgroups f hf => hfits hgroups f (List.mem_cons_of_mem _ hf)), ← latest_cons]
  | @group depth tag front content back rest' inner fields hlimit hopen _ hclose _ ihinner ih =>
    subst hdepth
    have hunknown : ¬ (groups = [] ∧ kind.holdsPayload tag) := by
      rintro ⟨hgroups, htag⟩
      cases hfits hgroups _ List.mem_cons_self htag
    have hopens : Skips groups ⟨tag, .startGroup⟩ (content ++ (back ++ (rest' ++ rest)))
        (tag :: groups) _ := .opens hlimit rfl
    have hopened := readField_of_skips hopens hunknown payload
    have hcloses : Skips (tag :: groups) ⟨tag, .endGroup⟩ (rest' ++ rest) groups _ :=
      .closes rfl rfl
    have hinner : ¬ (tag :: groups = [] ∧ kind.holdsPayload tag) := by simp
    have hclosed := readField_of_skips hcloses hinner payload
    have hinside : kind.readFields ⟨tag :: groups, payload⟩ (content ++ (back ++ (rest' ++ rest)))
        = kind.readFields ⟨tag :: groups, payload⟩ (back ++ (rest' ++ rest)) :=
      ihinner rfl (by simp) payload _
    simp only [List.append_assoc]
    rw [readFields_of_field (hopen.read _) hopened, hinside,
      readFields_of_field (hclose.read _) hclosed,
      ih rfl (fun hgroups f hf => hfits hgroups f (List.mem_cons_of_mem _ hf)), latest_cons,
      latest_of_unknown hunknown]

theorem Spells.readFields_top (h : Spells 0 fields bytes) (hfits : kind.Fits fields)
    (payload rest : List UInt8) :
    kind.readFields ⟨[], payload⟩ (bytes ++ rest)
      = kind.readFields ⟨[], (kind.payloads fields).getLastD payload⟩ rest :=
  h.readFields_append rfl (fun _ => hfits) payload rest

/-- Fields are decoded to the last of their payloads. -/
theorem Spells.decode (h : Spells 0 fields bytes) (hfits : kind.Fits fields) :
    kind.decode bytes = .ok ((kind.payloads fields).getLastD []) := by
  have hread := h.readFields_top hfits [] []
  rw [List.append_nil, readFields_nil] at hread
  exact hread

end SingleShot.Wire
