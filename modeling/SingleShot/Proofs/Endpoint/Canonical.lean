import SingleShot.Proofs.Endpoint.Notation

/-!
# Endpoints that are resolved again

The text of a resolved endpoint is an address again. It resolves to the same endpoint, unless it
begins with a scheme of its own: only one scheme was taken away before, and the next one goes now.

* `resolve_text_eq_self_iff`: which endpoints are resolved again to themselves.
* `two_schemes_of_begins`: all but those of addresses with two schemes in front of them.
* `resolve_text_of_two_schemes`: an address with two schemes, whose endpoint is no address.
-/

namespace SingleShot.Endpoint

variable {s : String} {t : List Char} {e : Endpoint}

def BeginsWithScheme (t : List Char) : Prop :=
  "http://".toList <+: t ∨ "https://".toList <+: t

theorem slash_mem_of_begins (h : BeginsWithScheme t) : '/' ∈ t := by
  rcases h with h | h
  · exact h.subset (by decide)
  · exact h.subset (by decide)

theorem withoutScheme_eq_self_iff : withoutScheme t = t ↔ ¬ BeginsWithScheme t := by
  constructor
  · intro h
    have hremoved := schemeRemoved_withoutScheme t
    rw [h] at hremoved
    rcases hremoved with ht | ht | ⟨-, hhttp, hhttps⟩
    · exact absurd (List.self_eq_append_left.mp ht) (by decide)
    · exact absurd (List.self_eq_append_left.mp ht) (by decide)
    · exact not_or.mpr ⟨hhttp, hhttps⟩
  · intro h
    obtain ⟨hhttp, hhttps⟩ := not_or.mp h
    exact (schemeRemoved_iff.mp (Or.inr (Or.inr ⟨rfl, hhttp, hhttps⟩))).symm

/-- The endpoint of a multiaddress has no `/` left in it, and any other is the address itself. -/
theorem Denotes.text_cases (h : Denotes t e) :
    '/' ∉ e.text.toList ∨ ¬ multiaddressStart <+: t ∧ e.text.toList = t := by
  cases h with
  | multiaddress parts host_ne port_ne host_colon port_colon text =>
    left
    rw [text, List.mem_append, List.mem_cons]
    rintro (h | h | h)
    · exact parts.host_slash h
    · exact absurd h (by decide)
    · exact parts.port_slash h
  | hostPort start one first last text => exact Or.inr ⟨start, text⟩

theorem Denotes.not_start_text (h : Denotes t e) : ¬ multiaddressStart <+: e.text.toList := by
  rcases h.text_cases with hslash | ⟨hstart, htext⟩
  · intro hstart
    exact hslash (hstart.subset (by decide))
  · rw [htext]
    exact hstart

theorem resolve_text_eq_self_iff (h : resolve s = .ok e) :
    resolve e.text = .ok e ↔ ¬ BeginsWithScheme e.text.toList := by
  constructor
  · intro hagain hbegins
    rcases (resolve_eq_ok_iff.mp hagain).text_cases with hslash | ⟨-, htext⟩
    · exact hslash (slash_mem_of_begins hbegins)
    · exact withoutScheme_eq_self_iff.mp htext.symm hbegins
  · intro hbegins
    obtain ⟨one, first, last⟩ := separator_text e
    rw [resolve_eq_ok_iff, withoutScheme_eq_self_iff.mpr hbegins]
    exact .hostPort (resolve_eq_ok_iff.mp h).not_start_text one first last rfl

theorem two_schemes_of_begins (h : resolve s = .ok e) (hbegins : BeginsWithScheme e.text.toList) :
    s = "http://" ++ e.text ∨ s = "https://" ++ e.text := by
  rcases (resolve_eq_ok_iff.mp h).text_cases with hslash | ⟨-, htext⟩
  · exact absurd (slash_mem_of_begins hbegins) hslash
  rw [← String.toList_inj, ← String.toList_inj, String.toList_append, String.toList_append, htext]
  rcases schemeRemoved_withoutScheme s.toList with hs | hs | ⟨hs, hhttp, hhttps⟩
  · exact Or.inl hs
  · exact Or.inr hs
  · rw [htext, hs] at hbegins
    exact absurd hbegins (not_or.mpr ⟨hhttp, hhttps⟩)

/-- A resolved endpoint is resolved again to itself exactly if its text does not begin with a
scheme. It begins with one only if the address had two in front of it. -/
theorem resolve_text_unless_scheme (h : resolve s = .ok e) :
    (resolve e.text = .ok e ↔ ¬ BeginsWithScheme e.text.toList) ∧
      (BeginsWithScheme e.text.toList → s = "http://" ++ e.text ∨ s = "https://" ++ e.text) :=
  ⟨resolve_text_eq_self_iff h, two_schemes_of_begins h⟩

theorem resolve_text_of_multiaddress :
    ∃ e, resolve "http:///ip4/a/tcp/1" = .ok e ∧ e.text = "a:1" ∧ resolve e.text = .ok e := by
  obtain ⟨e, htext⟩ : ∃ e : Endpoint, e.text.toList = "a:1".toList :=
    exists_text_iff.mpr (by decide)
  have hparts : Multiaddress (withoutScheme "http:///ip4/a/tcp/1".toList) "a".toList
      "tcp".toList "1".toList [] :=
    ⟨by decide, by decide, by decide, by decide, Or.inl rfl⟩
  have hresolve : resolve "http:///ip4/a/tcp/1" = .ok e :=
    resolve_eq_ok_iff.mpr
      (.multiaddress hparts (by decide) (by decide) (by decide) (by decide) htext)
  have hbegins : ¬ BeginsWithScheme e.text.toList := by
    rw [htext, BeginsWithScheme]
    decide
  exact ⟨e, hresolve, String.toList_inj.mp htext,
    (resolve_text_unless_scheme hresolve).1.mpr hbegins⟩

/-- Of two schemes one is left, and the endpoint that begins with it is no address. -/
theorem resolve_text_of_two_schemes :
    ∃ e, resolve "http://http://a" = .ok e ∧ e.text = "http://a" ∧
      resolve e.text = .error ⟨"http://a", .unknownNotation⟩ := by
  obtain ⟨e, htext⟩ : ∃ e : Endpoint, e.text.toList = "http://a".toList :=
    exists_text_iff.mpr (by decide)
  have hresolve : resolve "http://http://a" = .ok e :=
    resolve_eq_ok_iff.mpr (.hostPort (by decide) (by decide) (by decide) (by decide) htext)
  refine ⟨e, hresolve, String.toList_inj.mp htext, ?_⟩
  rw [String.toList_inj.mp htext, resolve_eq_error_iff]
  exact .unknownNotation (by decide) (by decide)

end SingleShot.Endpoint
