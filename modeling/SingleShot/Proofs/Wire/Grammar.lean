import SingleShot.Proofs.Success
import SingleShot.Proofs.Wire.Reading

/-!
# The grammar of messages

What the bytes of a message may be, said without a reader: words in groups of seven bits, keys,
values as their wire types lay them out, and fields one after the other, some of them groups of
fields.

* `Spells`: bytes that are fields, inside of so many groups.
* `Varint.decode_eq_some_iff`, `Key.read_eq_ok_iff`, `skip_eq_ok_iff`: what each reader reads is
  what the grammar says.
* `Spells.append`, `Spells.split`: fields can be put together and taken apart.
-/

namespace SingleShot.Wire

/-! ## Words -/

namespace Varint

variable {n count : Nat} {bytes rest : List UInt8}

/-- Groups of seven bits, the least significant first. All bytes but the last have the high bit. -/
inductive Groups : List UInt8 → Nat → Prop
  | last {b : UInt8} (h : b < 128) : Groups [b] b.toNat
  | more {b : UInt8} {bytes : List UInt8} {n : Nat} (h : ¬ b < 128) (hrest : Groups bytes n) :
    Groups (b :: bytes) (b.toNat % 128 + 128 * n)

/-- Bytes that write a word, ten of them at most. -/
structure Writes (bytes : List UInt8) (n : Nat) : Prop where
  groups : Groups bytes n
  short : bytes.length ≤ 10
  word : n < wordBound

theorem readGroups_eq_some_iff :
    readGroups count bytes = some (n, rest) ↔
      ∃ front, Groups front n ∧ front.length ≤ count ∧ bytes = front ++ rest := by
  induction count generalizing n bytes with
  | zero =>
    constructor
    · intro h
      cases h
    · rintro ⟨front, hgroups, hlength, -⟩
      cases hgroups <;> simp at hlength
  | succ count ih =>
    constructor
    · intro h
      cases bytes with
      | nil => cases h
      | cons b bytes =>
        rw [readGroups] at h
        split at h
        · rename_i hb
          cases h
          exact ⟨[b], .last hb, by simp, rfl⟩
        · rename_i hb
          obtain ⟨⟨m, rest'⟩, hm, he⟩ := Option.map_eq_some_iff.mp h
          cases he
          obtain ⟨front, hgroups, hlength, rfl⟩ := ih.mp hm
          exact ⟨b :: front, .more hb hgroups, by simpa using hlength, rfl⟩
    · rintro ⟨front, hgroups, hlength, rfl⟩
      cases hgroups with
      | last hb => rw [List.singleton_append, readGroups, if_pos hb]
      | @more b front m hb hgroups =>
        have hrest := ih.mpr ⟨front, hgroups, by simpa using hlength, rfl⟩
        rw [List.cons_append, readGroups, if_neg hb, hrest]
        rfl

theorem decode_eq_some_iff :
    decode bytes = some (n, rest) ↔ ∃ front, Writes front n ∧ bytes = front ++ rest := by
  rw [decode, Option.filter_eq_some_iff, readGroups_eq_some_iff, decide_eq_true_iff]
  constructor
  · rintro ⟨⟨front, hgroups, hlength, rfl⟩, hword⟩
    exact ⟨front, ⟨hgroups, hlength, hword⟩, rfl⟩
  · rintro ⟨front, hwrites, rfl⟩
    exact ⟨⟨front, hwrites.groups, hwrites.short, rfl⟩, hwrites.word⟩

theorem writes_byte {b : UInt8} (h : b < 128) : Writes [b] b.toNat :=
  ⟨.last h, by simp, Nat.lt_trans b.toNat_lt (by decide)⟩

theorem Writes.decode {front : List UInt8} (h : Writes front n) (rest : List UInt8) :
    decode (front ++ rest) = some (n, rest) :=
  decode_eq_some_iff.mpr ⟨front, h, rfl⟩

end Varint

/-! ## Keys -/

namespace Key

variable {key : Key} {n : Nat} {bytes rest : List UInt8}

/-- Bytes that write a key: its number is a word of 32 bits, and its tag is not zero. -/
structure Writes (bytes : List UInt8) (key : Key) : Prop where
  varint : Varint.Writes bytes key.toNat
  bound : key.toNat < keyBound
  tag : 0 < key.tag

theorem ofNat_eq_ok_iff :
    ofNat n = .ok key ↔ n = key.toNat ∧ n < keyBound ∧ 0 < key.tag := by
  constructor
  · intro h
    unfold ofNat at h
    split at h
    · cases h
    · rename_i hbound
      split at h
      · cases h
      · rename_i wireType htype
        split at h
        · cases h
        · rename_i htag
          cases h
          have hcode : wireType.code = n % 8 := by
            generalize n % 8 = code at htype
            unfold WireType.ofCode? at htype
            split at htype <;> cases htype <;> rfl
          refine ⟨?_, Nat.not_le.mp hbound, Nat.pos_of_ne_zero htag⟩
          simp only [toNat, hcode]
          omega
  · rintro ⟨rfl, hbound, htag⟩
    exact ofNat_toNat htag hbound

theorem read_eq_ok_iff :
    read bytes = .ok (key, rest) ↔ ∃ front, Writes front key ∧ bytes = front ++ rest := by
  constructor
  · intro h
    unfold read at h
    split at h
    · cases h
    · rename_i n rest' hvarint
      obtain ⟨key', hkey, he⟩ := Success.map_eq_ok_iff.mp h
      cases he
      obtain ⟨rfl, hbound, htag⟩ := ofNat_eq_ok_iff.mp hkey
      obtain ⟨front, hwrites, rfl⟩ :=
        Varint.decode_eq_some_iff.mp (readVarint_eq_ok_iff.mp hvarint)
      exact ⟨front, ⟨hwrites, hbound, htag⟩, rfl⟩
  · rintro ⟨front, hwrites, rfl⟩
    have hvarint := readVarint_eq_ok_iff.mpr (hwrites.varint.decode rest)
    have hkey := ofNat_toNat hwrites.tag hwrites.bound
    simp only [read, hvarint, hkey]
    rfl

theorem Writes.read {front : List UInt8} (h : Writes front key) (rest : List UInt8) :
    read (front ++ rest) = .ok (key, rest) :=
  read_eq_ok_iff.mpr ⟨front, h, rfl⟩

end Key

/-! ## Values -/

variable {kind : Kind} {key : Key} {wireType : WireType} {groups groups' : List Nat}
  {bytes bytes' rest content : List UInt8}

/-- How a value is laid out: its bytes, and the content that is in them. -/
inductive Lays : WireType → List UInt8 → List UInt8 → Prop
  | varint {bytes : List UInt8} {n : Nat} (h : Varint.Writes bytes n) : Lays .varint bytes bytes
  | sixtyFourBit {bytes : List UInt8} (h : bytes.length = 8) : Lays .sixtyFourBit bytes bytes
  | lengthDelimited {length content : List UInt8} (h : Varint.Writes length content.length) :
    Lays .lengthDelimited (length ++ content) content
  | thirtyTwoBit {bytes : List UInt8} (h : bytes.length = 4) : Lays .thirtyTwoBit bytes bytes

theorem readDelimited_eq_ok_iff_lays :
    readDelimited bytes = .ok (content, rest) ↔
      ∃ value, Lays .lengthDelimited value content ∧ bytes = value ++ rest := by
  rw [readDelimited_eq_ok_iff, Varint.decode_eq_some_iff]
  constructor
  · rintro ⟨length, hlength, rfl⟩
    exact ⟨length ++ content, .lengthDelimited hlength, (List.append_assoc _ _ _).symm⟩
  · rintro ⟨value, hvalue, rfl⟩
    cases hvalue with
    | lengthDelimited hlength => exact ⟨_, hlength, List.append_assoc _ _ _⟩

theorem takeBytes_append {count : Nat} (h : content.length = count) (rest : List UInt8) :
    takeBytes count (content ++ rest) = .ok (content, rest) :=
  takeBytes_eq_ok_iff.mpr ⟨h, rfl⟩

theorem Lays.readDelimited {value : List UInt8} (h : Lays .lengthDelimited value content)
    (rest : List UInt8) : readDelimited (value ++ rest) = .ok (content, rest) :=
  readDelimited_eq_ok_iff_lays.mpr ⟨value, h, rfl⟩

/-- What is skipped after the key of an unknown field, and the groups that are open then. -/
inductive Skips : List Nat → Key → List UInt8 → List Nat → List UInt8 → Prop
  | value {groups : List Nat} {key : Key} {value content rest : List UInt8}
    (hdepth : groups.length < depthLimit) (h : Lays key.wireType value content) :
    Skips groups key (value ++ rest) groups rest
  | opens {groups : List Nat} {key : Key} {rest : List UInt8}
    (hdepth : groups.length < depthLimit) (h : key.wireType = .startGroup) :
    Skips groups key rest (key.tag :: groups) rest
  | closes {tag : Nat} {groups : List Nat} {key : Key} {rest : List UInt8}
    (htag : tag = key.tag) (h : key.wireType = .endGroup) :
    Skips (tag :: groups) key rest groups rest

theorem skip_eq_ok_iff :
    skip groups key bytes = .ok (groups', rest) ↔ Skips groups key bytes groups' rest := by
  obtain ⟨tag, wireType⟩ := key
  constructor
  · intro h
    unfold skip at h
    split at h
    · rename_i htype
      split at h
      · rename_i htag
        cases h
        exact .closes htag htype
      · cases h
    · split at h
      · cases h
      · rename_i hdepth
        have hdepth := Nat.not_le.mp hdepth
        cases wireType with
        | varint =>
          obtain ⟨⟨n, rest'⟩, hread, he⟩ := Success.map_eq_ok_iff.mp h
          cases he
          obtain ⟨value, hvalue, rfl⟩ :=
            Varint.decode_eq_some_iff.mp (readVarint_eq_ok_iff.mp hread)
          exact .value hdepth (.varint hvalue)
        | sixtyFourBit =>
          obtain ⟨⟨value, rest'⟩, hread, he⟩ := Success.map_eq_ok_iff.mp h
          cases he
          obtain ⟨hlength, rfl⟩ := takeBytes_eq_ok_iff.mp hread
          exact .value hdepth (.sixtyFourBit hlength)
        | lengthDelimited =>
          obtain ⟨⟨content, rest'⟩, hread, he⟩ := Success.map_eq_ok_iff.mp h
          cases he
          obtain ⟨value, hvalue, rfl⟩ := readDelimited_eq_ok_iff_lays.mp hread
          exact .value hdepth hvalue
        | thirtyTwoBit =>
          obtain ⟨⟨value, rest'⟩, hread, he⟩ := Success.map_eq_ok_iff.mp h
          cases he
          obtain ⟨hlength, rfl⟩ := takeBytes_eq_ok_iff.mp hread
          exact .value hdepth (.thirtyTwoBit hlength)
        | startGroup =>
          cases h
          exact .opens hdepth rfl
        | endGroup => cases h
  · intro h
    cases h with
    | value hdepth hvalue =>
      have hdepth := Nat.not_le.mpr hdepth
      cases hvalue with
      | varint h =>
        have hread := readVarint_eq_ok_iff.mpr (h.decode rest)
        simp only [skip, if_neg hdepth, hread]
        rfl
      | sixtyFourBit h =>
        have hread := takeBytes_append h rest
        simp only [skip, if_neg hdepth, hread]
        rfl
      | lengthDelimited h =>
        have hread := (Lays.lengthDelimited h).readDelimited rest
        simp only [skip, if_neg hdepth, hread]
        rfl
      | thirtyTwoBit h =>
        have hread := takeBytes_append h rest
        simp only [skip, if_neg hdepth, hread]
        rfl
    | opens hdepth htype =>
      cases htype
      simp [skip, Nat.not_le.mpr hdepth]
    | closes htag htype =>
      cases htype
      simp [skip, htag]

/-! ## Fields -/

/-- A field: its key, and the content of its value. The content of a group is what stands in it. -/
structure Field where
  key : Key
  content : List UInt8
  deriving DecidableEq

/-- Bytes that are fields, one after the other, inside of so many groups. -/
inductive Spells : Nat → List Field → List UInt8 → Prop
  | nil {depth : Nat} : Spells depth [] []
  | value {depth : Nat} {key : Key} {front value content rest : List UInt8} {fields : List Field}
    (hdepth : depth < depthLimit) (hkey : key.Writes front)
    (hvalue : Lays key.wireType value content) (hrest : Spells depth fields rest) :
    Spells depth (⟨key, content⟩ :: fields) (front ++ value ++ rest)
  | group {depth tag : Nat} {front content back rest : List UInt8} {inner fields : List Field}
    (hdepth : depth < depthLimit) (hopen : Key.Writes front ⟨tag, .startGroup⟩)
    (hinner : Spells (depth + 1) inner content) (hclose : Key.Writes back ⟨tag, .endGroup⟩)
    (hrest : Spells depth fields rest) :
    Spells depth (⟨⟨tag, .startGroup⟩, content⟩ :: fields) (front ++ content ++ back ++ rest)

variable {depth : Nat} {field : Field} {fields fields' : List Field}

theorem Spells.append (h : Spells depth fields bytes) (h' : Spells depth fields' bytes') :
    Spells depth (fields ++ fields') (bytes ++ bytes') := by
  induction h with
  | nil => exact h'
  | value hdepth hkey hvalue _ ih =>
    rw [List.append_assoc]
    exact .value hdepth hkey hvalue (ih h')
  | group hdepth hopen hinner hclose _ _ ih =>
    rw [List.append_assoc]
    exact .group hdepth hopen hinner hclose (ih h')

theorem Spells.split (h : Spells depth (fields ++ fields') bytes) :
    ∃ before after, bytes = before ++ after ∧ Spells depth fields before ∧
      Spells depth fields' after := by
  induction fields generalizing bytes with
  | nil => exact ⟨[], bytes, rfl, .nil, h⟩
  | cons field fields ih =>
    cases h with
    | value hdepth hkey hvalue hrest =>
      obtain ⟨before, after, rfl, hbefore, hafter⟩ := ih hrest
      exact ⟨_, after, (List.append_assoc _ _ _).symm, .value hdepth hkey hvalue hbefore, hafter⟩
    | group hdepth hopen hinner hclose hrest =>
      obtain ⟨before, after, rfl, hbefore, hafter⟩ := ih hrest
      exact ⟨_, after, (List.append_assoc _ _ _).symm, .group hdepth hopen hinner hclose hbefore,
        hafter⟩

theorem Spells.split_cons (h : Spells depth (field :: fields) bytes) :
    ∃ before after, bytes = before ++ after ∧ Spells depth [field] before ∧
      Spells depth fields after := by
  rw [← List.singleton_append] at h
  exact h.split

/-- Fields begin with the key of the first. -/
theorem Spells.read_key (h : Spells depth (field :: fields) bytes) (rest : List UInt8) :
    ∃ rest', Key.read (bytes ++ rest) = .ok (field.key, rest') := by
  cases h with
  | value hdepth hkey =>
    simp only [List.append_assoc]
    exact ⟨_, hkey.read _⟩
  | group hdepth hopen =>
    simp only [List.append_assoc]
    exact ⟨_, hopen.read _⟩

end SingleShot.Wire
