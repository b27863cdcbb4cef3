import SingleShot.Endpoint.Notation
import SingleShot.Proofs.Endpoint
import SingleShot.Proofs.Success

/-!
# Endpoints kept as their texts

An endpoint may be kept as its text with the byte offset of its `:`. The host and the port are
then slices of the text, which exist only if they begin and end between characters.

* `Text.slice?_append`, `Text.offsetsOf_pair`: slices and offsets of texts of any characters.
* `Stored.read_eq`: reading a text into this form is reading the endpoint that it writes.
* `stored_host?`, `stored_port?`: the slices exist, and are the host and the port.
* `firstBroken?_eq_some_iff`: the fault of a text is the first rule that it breaks.
-/

namespace SingleShot

namespace Text

variable {c : Char} {offset : Nat} {s t before after : List Char}

/-- The byte offsets at which a character stands in a text that begins at an offset. -/
def offsetsOf (c : Char) (offset : Nat) : List Char → List Nat
  | [] => []
  | d :: s =>
    if d = c then offset :: offsetsOf c (offset + d.utf8Size) s
    else offsetsOf c (offset + d.utf8Size) s

theorem length_offsetsOf : (offsetsOf c offset s).length = s.count c := by
  induction s generalizing offset with
  | nil => rfl
  | cons d s ih =>
    rw [offsetsOf, List.count_cons]
    by_cases hd : d = c
    · rw [if_pos hd, List.length_cons, ih, if_pos (beq_iff_eq.mpr hd)]
    · rw [if_neg hd, ih, if_neg (by simpa using hd), Nat.add_zero]

theorem offsetsOf_eq_nil (h : c ∉ s) : offsetsOf c offset s = [] := by
  apply List.eq_nil_of_length_eq_zero
  rw [length_offsetsOf]
  exact List.count_eq_zero.mpr h

theorem offsetsOf_append :
    offsetsOf c offset (s ++ t)
      = offsetsOf c offset s ++ offsetsOf c (offset + (String.ofList s).utf8ByteSize) t := by
  induction s generalizing offset with
  | nil => rfl
  | cons d s ih =>
    have hsize : offset + (String.ofList (d :: s)).utf8ByteSize
        = offset + d.utf8Size + (String.ofList s).utf8ByteSize := by
      rw [String.ofList_cons, String.utf8ByteSize_append, String.utf8ByteSize_singleton,
        Nat.add_assoc]
    rw [hsize, List.cons_append, offsetsOf, offsetsOf, ih]
    split <;> rfl

/-- A character that stands in one place stands at the size of what is before it. -/
theorem offsetsOf_pair (hbefore : c ∉ before) (hafter : c ∉ after) :
    offsetsOf c 0 (before ++ c :: after) = [(String.ofList before).utf8ByteSize] := by
  rw [offsetsOf_append, offsetsOf_eq_nil hbefore, offsetsOf, if_pos rfl, offsetsOf_eq_nil hafter,
    List.nil_append, Nat.zero_add]

theorem extract_middle (first second third : ByteArray) :
    (first ++ second ++ third).extract first.size (first.size + second.size) = second := by
  have hpast : third.extract (first.size - (first ++ second).size)
      (first.size + second.size - (first ++ second).size) = ByteArray.empty := by
    apply ByteArray.extract_eq_empty_iff.mpr
    rw [ByteArray.size_append]
    omega
  rw [ByteArray.extract_append, hpast, ByteArray.append_empty]
  exact ByteArray.extract_append_eq_right rfl rfl

/-- The part of a text from one byte offset up to another, if both lie between characters. -/
def slice? (s : String) (first past : Nat) : Option String :=
  if h : first ≤ past ∧ String.Pos.Raw.IsValid s ⟨first⟩ ∧ String.Pos.Raw.IsValid s ⟨past⟩ then
    some (String.extract ⟨⟨first⟩, h.2.1⟩ ⟨⟨past⟩, h.2.2⟩)
  else none

theorem slice?_append (before s after : String) :
    slice? (before ++ s ++ after) before.utf8ByteSize (before.utf8ByteSize + s.utf8ByteSize)
      = some s := by
  have hfirst : String.Pos.Raw.IsValid (before ++ s ++ after) ⟨before.utf8ByteSize⟩ :=
    String.Pos.Raw.isValid_iff_exists_append.mpr
      ⟨before, s ++ after, String.append_assoc, rfl⟩
  have hpast : String.Pos.Raw.IsValid (before ++ s ++ after)
      ⟨before.utf8ByteSize + s.utf8ByteSize⟩ := by
    apply String.Pos.Raw.isValid_iff_exists_append.mpr
    refine ⟨before ++ s, after, rfl, ?_⟩
    show _ = String.Pos.Raw.mk (before ++ s).utf8ByteSize
    rw [String.utf8ByteSize_append]
  rw [slice?, dif_pos ⟨Nat.le_add_right _ _, hfirst, hpast⟩, Option.some_inj,
    ← String.toByteArray_inj, String.toByteArray_extract, String.toByteArray_append,
    String.toByteArray_append]
  exact extract_middle before.toByteArray s.toByteArray after.toByteArray

end Text

namespace Endpoint

variable {s : String} {t : List Char} {e e' : Endpoint} {fault : AddressFault}

/-- An endpoint as its text and the byte offset of the `:` in it. -/
structure Stored where
  text : String
  separator : Nat
  deriving DecidableEq

namespace Stored

/-- The text before the separator. -/
def host? (x : Stored) : Option String :=
  Text.slice? x.text 0 x.separator

/-- The text after the separator, which is one byte long. -/
def port? (x : Stored) : Option String :=
  Text.slice? x.text (x.separator + 1) x.text.utf8ByteSize

/-- Reads `host:port` by the places of its separators, and names the text if it is refused. -/
def read (s : String) : Except AddressError Stored :=
  match Text.offsetsOf ':' 0 s.toList with
  | [] => .error ⟨s, .noSeparator⟩
  | _ :: _ :: _ => .error ⟨s, .severalSeparators⟩
  | [separator] =>
    if separator = 0 then .error ⟨s, .emptyHost⟩
    else if separator + 1 = s.utf8ByteSize then .error ⟨s, .emptyPort⟩
    else .ok ⟨s, separator⟩

end Stored

/-- What is kept of an endpoint. -/
def stored (e : Endpoint) : Stored :=
  ⟨e.text, e.host.utf8ByteSize⟩

theorem stored_host? (e : Endpoint) : e.stored.host? = some e.host := by
  have hslice := Text.slice?_append "" e.host (":" ++ e.port)
  rw [String.empty_append, ← String.append_assoc, String.utf8ByteSize_empty, Nat.zero_add] at hslice
  exact hslice

theorem stored_port? (e : Endpoint) : e.stored.port? = some e.port := by
  have hslice := Text.slice?_append (e.host ++ ":") e.port ""
  rw [String.append_empty, String.utf8ByteSize_append] at hslice
  have hsize : e.text.utf8ByteSize = e.host.utf8ByteSize + 1 + e.port.utf8ByteSize := by
    rw [text, String.utf8ByteSize_append, String.utf8ByteSize_append]
    rfl
  rw [Stored.port?, stored, hsize]
  exact hslice

theorem text_inj : e.text = e'.text ↔ e = e' := by
  constructor
  · intro h
    have hparse := parse_text e
    rw [h, parse_text e'] at hparse
    exact (Except.ok.inj hparse).symm
  · rintro rfl
    rfl

theorem stored_inj : e.stored = e'.stored ↔ e.text = e'.text := by
  constructor
  · intro h
    exact congrArg Stored.text h
  · intro h
    rw [text_inj.mp h]

/-! ## Reading -/

/-- What a text with one separator is read as. -/
theorem Stored.read_pair {host port : List Char} (hhost : ':' ∉ host) (hport : ':' ∉ port)
    (hs : s.toList = host ++ ':' :: port) :
    Stored.read s = if host = [] then .error ⟨s, .emptyHost⟩
      else if port = [] then .error ⟨s, .emptyPort⟩
      else .ok ⟨s, (String.ofList host).utf8ByteSize⟩ := by
  have hoffsets : Text.offsetsOf ':' 0 s.toList = [(String.ofList host).utf8ByteSize] := by
    rw [hs, Text.offsetsOf_pair hhost hport]
  have hempty : ∀ t : List Char, (String.ofList t).utf8ByteSize = 0 ↔ t = [] := by
    intro t
    rw [String.utf8ByteSize_eq_zero_iff, ← String.toList_inj, String.toList_ofList]
    rfl
  have hsize : s.utf8ByteSize
      = (String.ofList host).utf8ByteSize + 1 + (String.ofList port).utf8ByteSize := by
    rw [← String.ofList_toList (s := s), hs, String.ofList_append, String.ofList_cons,
      String.utf8ByteSize_append, String.utf8ByteSize_append, ← Nat.add_assoc]
    rfl
  -- The `:` is one byte long, so the text ends right after it exactly if there is no port.
  have hlast : (String.ofList host).utf8ByteSize + 1 = s.utf8ByteSize ↔ port = [] := by
    rw [hsize, ← hempty port]
    omega
  rw [read, hoffsets]
  simp only [hempty, hlast]

theorem read_text (e : Endpoint) : Stored.read e.text = .ok e.stored := by
  rw [Stored.read_pair e.separator_notMem_host e.separator_notMem_port (toList_text e),
    if_neg e.host_ne, if_neg e.port_ne, String.ofList_toList]
  rfl

theorem exists_pair_of_count (h : t.count ':' = 1) :
    ∃ host port, t = host ++ ':' :: port ∧ ':' ∉ host ∧ ':' ∉ port := by
  have hmem : ':' ∈ t := List.count_pos_iff.mp (by omega)
  obtain ⟨host, port, rfl, hhost⟩ := List.eq_append_cons_of_mem hmem
  rw [List.count_append, List.count_eq_zero.mpr hhost, List.count_cons_self] at h
  exact ⟨host, port, rfl, hhost, List.count_eq_zero.mp (by omega)⟩

theorem Breaks.read (h : Breaks s.toList fault) : Stored.read s = .error ⟨s, fault⟩ := by
  have hlength : (Text.offsetsOf ':' 0 s.toList).length = s.toList.count ':' :=
    Text.length_offsetsOf
  cases h with
  | noSeparator none =>
    have hoffsets : Text.offsetsOf ':' 0 s.toList = [] :=
      List.eq_nil_of_length_eq_zero (hlength.trans none)
    rw [Stored.read, hoffsets]
  | severalSeparators several =>
    rw [← hlength] at several
    unfold Stored.read
    split
    · rename_i hoffsets
      rw [hoffsets] at several
      exact absurd several (by decide)
    · rfl
    · rename_i hoffsets
      rw [hoffsets] at several
      exact absurd several (Nat.not_succ_le_self 1)
  | emptyHost one first =>
    obtain ⟨host, port, hs, hhost, hport⟩ := exists_pair_of_count one
    rw [hs, head?_pair hhost] at first
    rw [Stored.read_pair hhost hport hs, if_pos first]
  | emptyPort one first last =>
    obtain ⟨host, port, hs, hhost, hport⟩ := exists_pair_of_count one
    rw [hs, Ne, head?_pair hhost] at first
    rw [hs, getLast?_pair hport] at last
    rw [Stored.read_pair hhost hport hs, if_neg first, if_pos last]

/-- Texts are read into this form as they are read into endpoints. -/
theorem Stored.read_eq (s : String) : Stored.read s = (parseNaming s).map stored := by
  unfold parseNaming
  cases hparse : parse s with
  | ok e =>
    rw [← parse_eq_ok_iff.mp hparse]
    exact read_text e
  | error fault => exact (breaks_of_parse hparse).read

/-! ## The rule that is broken first -/

/-- The rules of `host:port`, in the order in which they are named. -/
def rules : List AddressFault :=
  [.noSeparator, .severalSeparators, .emptyHost, .emptyPort]

/-- Whether a text breaks a rule, whatever others it breaks. -/
def violates (t : List Char) : AddressFault → Bool
  | .noSeparator => t.count ':' == 0
  | .severalSeparators => 1 < t.count ':'
  | .emptyHost => t.head? == some ':'
  | .emptyPort => t.getLast? == some ':'
  | _ => false

/-- The first rule that a text breaks. -/
def firstBroken? (t : List Char) : Option AddressFault :=
  rules.find? (violates t)

theorem Breaks.firstBroken? (h : Breaks t fault) : firstBroken? t = some fault := by
  unfold Endpoint.firstBroken? rules
  cases h with
  | noSeparator none => simp [violates, none]
  | severalSeparators several =>
    have hsome : t.count ':' ≠ 0 := by omega
    have hlt : 1 < t.count ':' := several
    simp [violates, hsome, hlt]
  | emptyHost one first => simp [violates, one, first]
  | emptyPort one first last => simp [violates, one, first, last]

theorem firstBroken?_text (e : Endpoint) : firstBroken? e.text.toList = none := by
  obtain ⟨one, first, last⟩ := separator_text e
  unfold firstBroken? rules
  simp [violates, one, first, last]

theorem parseNaming_eq_ok_iff : parseNaming s = .ok e ↔ e.text = s := by
  rw [parseNaming, Success.mapError_eq_ok_iff, parse_eq_ok_iff]

theorem parseNaming_eq_error_iff {error : AddressError} :
    parseNaming s = .error error ↔
      error.address = s ∧ firstBroken? s.toList = some error.fault := by
  unfold parseNaming
  cases hparse : parse s with
  | ok e =>
    rw [← parse_eq_ok_iff.mp hparse, firstBroken?_text]
    constructor
    · intro h
      cases h
    · rintro ⟨-, h⟩
      cases h
  | error fault =>
    rw [(breaks_of_parse hparse).firstBroken?]
    constructor
    · intro h
      cases h
      exact ⟨rfl, rfl⟩
    · rintro ⟨rfl, h⟩
      cases h
      rfl

/-- A text is read as the endpoint with a host and a port exactly if it is these, neither empty
and neither with a `:`, around a `:`. -/
theorem exists_parseNaming_iff {host port : String} :
    (∃ e, parseNaming s = .ok e ∧ e.host = host ∧ e.port = port) ↔
      s = host ++ ":" ++ port ∧ (host ≠ "" ∧ ':' ∉ host.toList) ∧
        (port ≠ "" ∧ ':' ∉ port.toList) := by
  have hempty : ∀ t : String, t.toList ≠ [] ↔ t ≠ "" := fun t => not_congr String.toList_eq_nil_iff
  constructor
  · rintro ⟨e, hread, rfl, rfl⟩
    exact ⟨(parseNaming_eq_ok_iff.mp hread).symm,
      ⟨(hempty _).mp e.host_ne, e.separator_notMem_host⟩,
      ⟨(hempty _).mp e.port_ne, e.separator_notMem_port⟩⟩
  · rintro ⟨rfl, ⟨host_ne, hhost⟩, ⟨port_ne, hport⟩⟩
    let e : Endpoint := ⟨host, port, (hempty _).mpr host_ne, (hempty _).mpr port_ne, hhost, hport⟩
    exact ⟨e, parseNaming_eq_ok_iff.mpr rfl, rfl, rfl⟩

/-- A text is read as an endpoint exactly if it is a host and a port around its only `:`; else it
is refused for the first rule that it breaks. Kept as its text with the byte offset of the `:`, an
endpoint has its host and its port as slices that lie between characters, whatever the characters
are; these and the `:` make up the text, and the text is read as the endpoint again. Two endpoints
are the same, and are kept in the same form, if their texts are. -/
theorem parseNaming_keeps_text :
    (∀ s,
      (∀ host port, (∃ e, parseNaming s = .ok e ∧ e.host = host ∧ e.port = port) ↔
        s = host ++ ":" ++ port ∧ (host ≠ "" ∧ ':' ∉ host.toList) ∧
          (port ≠ "" ∧ ':' ∉ port.toList)) ∧
      (∀ e, parseNaming s = .ok e → e.text = s) ∧
      (∀ error, parseNaming s = .error error ↔
        error.address = s ∧ firstBroken? s.toList = some error.fault) ∧
      Stored.read s = (parseNaming s).map stored) ∧
    (∀ e : Endpoint, e.stored.text = e.text ∧ e.stored.host? = some e.host ∧
      e.stored.port? = some e.port ∧ e.host ++ ":" ++ e.port = e.stored.text ∧
      parseNaming e.stored.text = .ok e) ∧
    (∀ e e' : Endpoint,
      (e = e' ↔ e.text = e'.text) ∧ (e.stored = e'.stored ↔ e.text = e'.text)) := by
  refine ⟨?_, ?_, ?_⟩
  · intro s
    exact ⟨fun _ _ => exists_parseNaming_iff, fun _ => parseNaming_eq_ok_iff.mp,
      fun _ => parseNaming_eq_error_iff, Stored.read_eq s⟩
  · intro e
    exact ⟨rfl, stored_host? e, stored_port? e, rfl, parseNaming_eq_ok_iff.mpr rfl⟩
  · intro e e'
    exact ⟨text_inj.symm, stored_inj⟩

theorem parseNaming_keeps_text_of_wide :
    (∃ e, parseNaming "é:日本" = .ok e ∧ e.text = "é:日本" ∧
      Stored.read "é:日本" = .ok ⟨"é:日本", 2⟩ ∧ e.stored.host? = some "é" ∧
      e.stored.port? = some "日本") ∧
    parseNaming "::" = .error ⟨"::", .severalSeparators⟩ ∧
    parseNaming ":" = .error ⟨":", .emptyHost⟩ := by
  obtain ⟨hreads, hslices, -⟩ := parseNaming_keeps_text
  obtain ⟨hpair, htext, -, hstored⟩ := hreads "é:日本"
  obtain ⟨e, hread, hhost, hport⟩ := (hpair "é" "日本").mpr
    ⟨by decide, ⟨by decide, by decide⟩, ⟨by decide, by decide⟩⟩
  obtain ⟨-, hhost?, hport?, -⟩ := hslices e
  have hkept : e.stored = ⟨"é:日本", 2⟩ := by
    rw [stored, htext e hread, hhost]
    rfl
  rw [hread] at hstored
  refine ⟨⟨e, hread, htext e hread, hkept ▸ hstored, hhost ▸ hhost?, hport ▸ hport?⟩, ?_, ?_⟩
  · exact ((hreads "::").2.2.1 _).mpr ⟨rfl, by decide⟩
  · exact ((hreads ":").2.2.1 _).mpr ⟨rfl, by decide⟩

end Endpoint

end SingleShot
