import SingleShot.Config
import SingleShot.Endpoint.Notation
import SingleShot.Proofs.Endpoint

/-!
# What the notations of addresses denote

The notations as a grammar. An address loses one scheme; what is left is a multiaddress if it
begins like one, and else `host:port`.

* `schemeRemoved_iff`: what is left of an address without its scheme.
* `resolve_eq_ok_iff`: an address resolves to the endpoint that it denotes.
* `resolve_eq_error_iff`: an address that denotes nothing is refused, with the text to blame.
-/

namespace SingleShot.Endpoint

variable {s : String} {t host protocol port more : List Char} {e : Endpoint}
  {error : AddressError} {fault : AddressFault}

/-! ## Schemes -/

/-- `t` is `s` without one scheme in front of it, if there is one. -/
def SchemeRemoved (s t : List Char) : Prop :=
  s = "http://".toList ++ t ∨ s = "https://".toList ++ t ∨
    t = s ∧ ¬ "http://".toList <+: s ∧ ¬ "https://".toList <+: s

theorem schemeRemoved_withoutScheme (s : List Char) : SchemeRemoved s (withoutScheme s) := by
  unfold withoutScheme schemes
  rw [List.findSome?_cons, List.findSome?_cons, List.findSome?_nil]
  cases hhttp : "http://".toList.isPrefixOf? s with
  | some rest => exact Or.inl (Text.isPrefixOf?_eq_some_iff.mp hhttp)
  | none =>
    cases hhttps : "https://".toList.isPrefixOf? s with
    | some rest => exact Or.inr (Or.inl (Text.isPrefixOf?_eq_some_iff.mp hhttps))
    | none =>
      refine Or.inr (Or.inr ⟨rfl, ?_, ?_⟩)
      · rintro ⟨rest, h⟩
        rw [Text.isPrefixOf?_eq_some_iff.mpr h.symm] at hhttp
        cases hhttp
      · rintro ⟨rest, h⟩
        rw [Text.isPrefixOf?_eq_some_iff.mpr h.symm] at hhttps
        cases hhttps

theorem SchemeRemoved.unique {s t t' : List Char} (h : SchemeRemoved s t)
    (h' : SchemeRemoved s t') : t = t' := by
  have hdiffer : ∀ u u', "http://".toList ++ u ≠ "https://".toList ++ u' := by
    intro u u' h
    have hhttp : "http://".toList = "http".toList ++ ':' :: "//".toList := by decide
    have hhttps : "https://".toList = "http".toList ++ 's' :: "://".toList := by decide
    rw [hhttp, hhttps, List.append_assoc, List.append_assoc] at h
    exact absurd (List.cons.inj (List.append_cancel_left h)).1 (by decide)
  rcases h with h | h | ⟨h, hhttp, hhttps⟩
  · rcases h' with h' | h' | ⟨h', hhttp, hhttps⟩
    · exact List.append_cancel_left (h.symm.trans h')
    · exact absurd (h.symm.trans h') (hdiffer t t')
    · exact absurd ⟨t, h.symm⟩ hhttp
  · rcases h' with h' | h' | ⟨h', hhttp, hhttps⟩
    · exact absurd (h'.symm.trans h) (hdiffer t' t)
    · exact List.append_cancel_left (h.symm.trans h')
    · exact absurd ⟨t, h.symm⟩ hhttps
  · rcases h' with h' | h' | ⟨h', -, -⟩
    · exact absurd ⟨t', h'.symm⟩ hhttp
    · exact absurd ⟨t', h'.symm⟩ hhttps
    · rw [h, h']

theorem schemeRemoved_iff {s t : List Char} : SchemeRemoved s t ↔ t = withoutScheme s := by
  constructor
  · intro h
    exact h.unique (schemeRemoved_withoutScheme s)
  · rintro rfl
    exact schemeRemoved_withoutScheme s

/-! ## Multiaddresses -/

/-- A multiaddress `/ip4/<host>/<protocol>/<port>`, with nothing more or with more parts. -/
structure Multiaddress (t host protocol port more : List Char) : Prop where
  written : t = multiaddressStart ++ host ++ '/' :: protocol ++ '/' :: port ++ more
  host_slash : '/' ∉ host
  protocol_slash : '/' ∉ protocol
  port_slash : '/' ∉ port
  more_slash : more = [] ∨ ∃ rest, more = '/' :: rest

theorem splitOn_start (rest : List Char) :
    (multiaddressStart ++ rest).splitOn '/' = [] :: "ip4".toList :: rest.splitOn '/' := by
  have hstart : multiaddressStart = [] ++ '/' :: ("ip4".toList ++ ['/']) := by decide
  have hpieces : multiaddressStart ++ rest = [] ++ '/' :: ("ip4".toList ++ '/' :: rest) := by
    rw [hstart, List.append_assoc, List.cons_append, List.append_assoc, List.singleton_append]
  rw [hpieces, List.splitOn_append_cons_self_of_not_mem (by decide),
    List.splitOn_append_cons_self_of_not_mem (by decide)]

theorem Multiaddress.splitOn (h : Multiaddress t host protocol port more) :
    ∃ others, t.splitOn '/' = [] :: "ip4".toList :: host :: protocol :: port :: others := by
  obtain ⟨others, hothers⟩ := Text.exists_splitOn_eq_cons h.port_slash h.more_slash
  refine ⟨others, ?_⟩
  have hwritten : t = multiaddressStart ++ (host ++ '/' :: (protocol ++ '/' :: (port ++ more))) := by
    rw [h.written]
    simp
  rw [hwritten, splitOn_start, List.splitOn_append_cons_self_of_not_mem h.host_slash,
    List.splitOn_append_cons_self_of_not_mem h.protocol_slash, hothers]

theorem Multiaddress.start (h : Multiaddress t host protocol port more) :
    multiaddressStart <+: t := by
  rw [h.written, List.append_assoc, List.append_assoc, List.append_assoc]
  exact List.prefix_append _ _

/-- What begins like a multiaddress and has enough parts is one. -/
theorem exists_multiaddress (start : multiaddressStart <+: t) (enough : 4 ≤ t.count '/') :
    ∃ host protocol port more, Multiaddress t host protocol port more := by
  obtain ⟨rest, rfl⟩ := start
  have hstart : multiaddressStart.count '/' = 2 := by decide
  rw [List.count_append, hstart] at enough
  have hrest : '/' ∈ rest := List.count_pos_iff.mp (by omega)
  obtain ⟨host, rest, rfl, hhost⟩ := List.eq_append_cons_of_mem hrest
  rw [List.count_append, List.count_eq_zero.mpr hhost, List.count_cons_self] at enough
  have hrest : '/' ∈ rest := List.count_pos_iff.mp (by omega)
  obtain ⟨protocol, rest, rfl, hprotocol⟩ := List.eq_append_cons_of_mem hrest
  by_cases hrest : '/' ∈ rest
  · obtain ⟨port, rest, rfl, hport⟩ := List.eq_append_cons_of_mem hrest
    exact ⟨host, protocol, port, '/' :: rest, by simp, hhost, hprotocol, hport,
      Or.inr ⟨rest, rfl⟩⟩
  · exact ⟨host, protocol, rest, [], by simp, hhost, hprotocol, hrest, Or.inl rfl⟩

theorem resolveMultiaddress_eq (input : String) (h : Multiaddress t host protocol port more) :
    resolveMultiaddress input t =
      if host = [] ∨ port = [] then .error ⟨input, .emptySegment⟩
      else parseNaming (String.ofList (host ++ ':' :: port)) := by
  obtain ⟨others, hpieces⟩ := h.splitOn
  simp only [resolveMultiaddress, hpieces]

theorem resolveMultiaddress_of_few (input : String) (few : t.count '/' < 4) :
    resolveMultiaddress input t = .error ⟨input, .fewSegments⟩ := by
  have hlength := Text.length_splitOn '/' t
  unfold resolveMultiaddress
  split
  · rename_i hpieces
    rw [hpieces] at hlength
    simp only [List.length_cons] at hlength
    omega
  · rfl

theorem parseNaming_ok (h : e.text.toList = t) : parseNaming (String.ofList t) = .ok e := by
  have hparse : parse (String.ofList t) = .ok e := by
    rw [parse_eq_ok_iff, ← h, String.ofList_toList]
  rw [parseNaming, hparse]
  rfl

theorem parseNaming_error (h : Breaks t fault) :
    parseNaming (String.ofList t) = .error ⟨String.ofList t, fault⟩ := by
  have hparse : parse (String.ofList t) = .error fault := by
    rw [parse_eq_error_iff, String.toList_ofList]
    exact h
  rw [parseNaming, hparse]
  rfl

/-! ## The grammar -/

/-- What an address without its scheme denotes. -/
inductive Denotes (t : List Char) (e : Endpoint) : Prop
  | multiaddress {host protocol port more : List Char}
      (parts : Multiaddress t host protocol port more) (host_ne : host ≠ []) (port_ne : port ≠ [])
      (host_colon : ':' ∉ host) (port_colon : ':' ∉ port)
      (text : e.text.toList = host ++ ':' :: port)
  | hostPort (start : ¬ multiaddressStart <+: t) (one : t.count ':' = 1)
      (first : t.head? ≠ some ':') (last : t.getLast? ≠ some ':') (text : e.text.toList = t)

/-- Why an address denotes nothing. `t` is the address without its scheme. The text to blame is
the whole address if its notation is at fault, and what was read as `host:port` if that is. -/
inductive Refused (input : String) (t : List Char) : AddressError → Prop
  | fewSegments (start : multiaddressStart <+: t) (few : t.count '/' < 4) :
      Refused input t ⟨input, .fewSegments⟩
  | emptySegment {host protocol port more : List Char}
      (parts : Multiaddress t host protocol port more) (empty : host = [] ∨ port = []) :
      Refused input t ⟨input, .emptySegment⟩
  | segments {host protocol port more : List Char} {fault : AddressFault}
      (parts : Multiaddress t host protocol port more) (host_ne : host ≠ []) (port_ne : port ≠ [])
      (breaks : Breaks (host ++ ':' :: port) fault) :
      Refused input t ⟨String.ofList (host ++ ':' :: port), fault⟩
  | unknownNotation (start : ¬ multiaddressStart <+: t) (none : ':' ∉ t) :
      Refused input t ⟨input, .unknownNotation⟩
  | hostPort {fault : AddressFault} (start : ¬ multiaddressStart <+: t) (some : ':' ∈ t)
      (breaks : Breaks t fault) : Refused input t ⟨String.ofList t, fault⟩

/-- Every address denotes an endpoint or is refused. -/
theorem denotes_or_refused (input : String) (t : List Char) :
    (∃ e, Denotes t e) ∨ ∃ error, Refused input t error := by
  by_cases start : multiaddressStart <+: t
  · by_cases few : t.count '/' < 4
    · exact Or.inr ⟨_, .fewSegments start few⟩
    obtain ⟨host, protocol, port, more, parts⟩ := exists_multiaddress start (by omega)
    by_cases empty : host = [] ∨ port = []
    · exact Or.inr ⟨_, .emptySegment parts empty⟩
    obtain ⟨host_ne, port_ne⟩ := not_or.mp empty
    cases hparse : parse (String.ofList (host ++ ':' :: port)) with
    | ok e =>
      have htext : e.text.toList = host ++ ':' :: port := by
        rw [parse_eq_ok_iff.mp hparse, String.toList_ofList]
      have hone := (separator_text e).1
      rw [htext, List.count_append, List.count_cons_self] at hone
      have host_colon : ':' ∉ host := List.count_eq_zero.mp (by omega)
      have port_colon : ':' ∉ port := List.count_eq_zero.mp (by omega)
      exact Or.inl ⟨e, .multiaddress parts host_ne port_ne host_colon port_colon htext⟩
    | error fault =>
      have hbreaks := breaks_of_parse hparse
      rw [String.toList_ofList] at hbreaks
      exact Or.inr ⟨_, .segments parts host_ne port_ne hbreaks⟩
  · by_cases some : ':' ∈ t
    · cases hparse : parse (String.ofList t) with
      | ok e =>
        have htext : e.text.toList = t := by
          rw [parse_eq_ok_iff.mp hparse, String.toList_ofList]
        obtain ⟨one, first, last⟩ := exists_text_iff.mp ⟨e, htext⟩
        exact Or.inl ⟨e, .hostPort start one first last htext⟩
      | error fault =>
        have hbreaks := breaks_of_parse hparse
        rw [String.toList_ofList] at hbreaks
        exact Or.inr ⟨_, .hostPort start some hbreaks⟩
    · exact Or.inr ⟨_, .unknownNotation start some⟩

theorem resolve_of_start (start : multiaddressStart <+: withoutScheme s.toList) :
    resolve s = resolveMultiaddress s (withoutScheme s.toList) := by
  rw [resolve, if_pos (List.isPrefixOf_iff_prefix.mpr start)]

theorem resolve_of_not_start (start : ¬ multiaddressStart <+: withoutScheme s.toList) :
    resolve s = if ':' ∈ withoutScheme s.toList then
        parseNaming (String.ofList (withoutScheme s.toList))
      else .error ⟨s, .unknownNotation⟩ := by
  rw [resolve, if_neg (mt List.isPrefixOf_iff_prefix.mp start)]

theorem Denotes.resolve (h : Denotes (withoutScheme s.toList) e) : resolve s = .ok e := by
  cases h with
  | multiaddress parts host_ne port_ne host_colon port_colon text =>
    rw [resolve_of_start parts.start, resolveMultiaddress_eq s parts,
      if_neg (not_or.mpr ⟨host_ne, port_ne⟩), parseNaming_ok text]
  | hostPort start one first last text =>
    have some : ':' ∈ withoutScheme s.toList := List.count_pos_iff.mp (by omega)
    rw [resolve_of_not_start start, if_pos some, parseNaming_ok text]

theorem Refused.resolve (h : Refused s (withoutScheme s.toList) error) :
    resolve s = .error error := by
  cases h with
  | fewSegments start few => rw [resolve_of_start start, resolveMultiaddress_of_few s few]
  | emptySegment parts empty =>
    rw [resolve_of_start parts.start, resolveMultiaddress_eq s parts, if_pos empty]
  | segments parts host_ne port_ne breaks =>
    rw [resolve_of_start parts.start, resolveMultiaddress_eq s parts,
      if_neg (not_or.mpr ⟨host_ne, port_ne⟩), parseNaming_error breaks]
  | unknownNotation start none => rw [resolve_of_not_start start, if_neg none]
  | hostPort start some breaks =>
    rw [resolve_of_not_start start, if_pos some, parseNaming_error breaks]

/-- An address resolves to the endpoint that it denotes. -/
theorem resolve_eq_ok_iff : resolve s = .ok e ↔ Denotes (withoutScheme s.toList) e := by
  constructor
  · intro h
    rcases denotes_or_refused s (withoutScheme s.toList) with ⟨e', h'⟩ | ⟨error, h'⟩
    · rw [h'.resolve] at h
      cases h
      exact h'
    · rw [h'.resolve] at h
      cases h
  · exact Denotes.resolve

/-- An address that denotes nothing is refused, with the text to blame. -/
theorem resolve_eq_error_iff :
    resolve s = .error error ↔ Refused s (withoutScheme s.toList) error := by
  constructor
  · intro h
    rcases denotes_or_refused s (withoutScheme s.toList) with ⟨e, h'⟩ | ⟨error', h'⟩
    · rw [h'.resolve] at h
      cases h
    · rw [h'.resolve] at h
      cases h
      exact h'
  · exact Refused.resolve

theorem Denotes.multiaddress_of_start (start : multiaddressStart <+: t) (h : Denotes t e) :
    ∃ protocol more, Multiaddress t e.host.toList protocol e.port.toList more := by
  cases h with
  | multiaddress parts host_ne port_ne host_colon port_colon text =>
    obtain ⟨rfl, rfl⟩ := eq_of_text_eq_pair host_colon port_colon text
    exact ⟨_, _, parts⟩
  | hostPort start' => exact absurd start start'

/-- What can be wrong with an address. A missing `:` cannot: a text without one is not read as
`host:port`. -/
def addressFaults : List AddressFault :=
  [.severalSeparators, .emptyHost, .emptyPort, .fewSegments, .emptySegment, .unknownNotation]

theorem Breaks.fault_mem (h : Breaks t fault) (some : ':' ∈ t) : fault ∈ addressFaults := by
  cases h with
  | noSeparator none => exact absurd some (List.count_eq_zero.mp none)
  | severalSeparators | emptyHost | emptyPort => decide

theorem Refused.fault_mem {input : String} (h : Refused input t error) :
    error.fault ∈ addressFaults := by
  cases h with
  | fewSegments | emptySegment | unknownNotation => simp [addressFaults]
  | segments parts host_ne port_ne breaks => exact breaks.fault_mem (by simp)
  | hostPort start some breaks => exact breaks.fault_mem some

theorem text_of_mem_addressFaults : ∀ fault ∈ addressFaults,
    fault.text ≠ "missing port separator" := by
  decide

theorem resolveTarget_eq_error_iff {why : Failure} :
    Config.resolveTarget s = .error why ↔
      ∃ error, why = .invalidAddress error ∧ resolve s = .error error := by
  unfold Config.resolveTarget
  cases resolve s with
  | ok e =>
    show Except.ok e = Except.error why ↔ _
    simp
  | error error =>
    show Except.error (Failure.invalidAddress error) = Except.error why ↔ _
    simp [eq_comm]

/-- Addresses are read exactly as the notations say. One scheme is taken away, `http://` or else
`https://`; the rest resolves to the endpoint that it denotes, and to a refusal that blames the
right text if it denotes none. What begins like a multiaddress is read as nothing else, a missing
`:` is never the fault, and a run that cannot resolve an address fails with its refusal. -/
theorem resolve_reads_notations (s : String) :
    ∃ t, (∀ u, SchemeRemoved s.toList u ↔ u = t) ∧
      (∀ e, resolve s = .ok e ↔ Denotes t e) ∧
      (∀ error, resolve s = .error error ↔ Refused s t error) ∧
      (∀ e, multiaddressStart <+: t → resolve s = .ok e →
        ∃ protocol more, Multiaddress t e.host.toList protocol e.port.toList more) ∧
      (∀ error, resolve s = .error error → error.fault.text ≠ "missing port separator") ∧
      (∀ why, Config.resolveTarget s = .error why ↔
        ∃ error, why = .invalidAddress error ∧ Refused s t error) := by
  refine ⟨withoutScheme s.toList, fun _ => schemeRemoved_iff, fun _ => resolve_eq_ok_iff,
    fun _ => resolve_eq_error_iff, ?_, ?_, ?_⟩
  · intro e start h
    exact (resolve_eq_ok_iff.mp h).multiaddress_of_start start
  · intro error h
    exact text_of_mem_addressFaults _ (resolve_eq_error_iff.mp h).fault_mem
  · intro why
    rw [resolveTarget_eq_error_iff]
    simp only [resolve_eq_error_iff]

theorem resolve_reads_notations_of_segments :
    (∃ e, resolve "http:///ip4/a/tcp/1/x" = .ok e ∧ e.text = "a:1") ∧
      resolve "/ip4/a:b/tcp/1" = .error ⟨"a:b:1", .severalSeparators⟩ := by
  constructor
  · obtain ⟨t, hscheme, hok, -⟩ := resolve_reads_notations "http:///ip4/a/tcp/1/x"
    have ht : "/ip4/a/tcp/1/x".toList = t := (hscheme _).mp (Or.inl (by decide))
    have hparts : Multiaddress t "a".toList "tcp".toList "1".toList "/x".toList :=
      ⟨ht ▸ by decide, by decide, by decide, by decide, Or.inr ⟨['x'], by decide⟩⟩
    obtain ⟨e, htext⟩ : ∃ e : Endpoint, e.text.toList = "a:1".toList :=
      exists_text_iff.mpr (by decide)
    refine ⟨e, (hok e).mpr ?_, String.toList_inj.mp htext⟩
    exact .multiaddress hparts (by decide) (by decide) (by decide) (by decide) htext
  · obtain ⟨t, hscheme, -, herror, -⟩ := resolve_reads_notations "/ip4/a:b/tcp/1"
    have ht : "/ip4/a:b/tcp/1".toList = t :=
      (hscheme _).mp (Or.inr (Or.inr ⟨rfl, by decide, by decide⟩))
    have hparts : Multiaddress t "a:b".toList "tcp".toList "1".toList [] :=
      ⟨ht ▸ by decide, by decide, by decide, by decide, Or.inl rfl⟩
    apply (herror _).mpr
    exact .segments hparts (by decide) (by decide) (.severalSeparators (by decide))

end SingleShot.Endpoint
