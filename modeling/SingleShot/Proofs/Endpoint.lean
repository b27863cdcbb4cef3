import SingleShot.Endpoint
import SingleShot.Proofs.Text.Pieces

/-!
# Which texts are endpoints

A text is an endpoint if it holds one `:` with something on both sides of it.

* `parse_eq_ok_iff`: a text is read as the endpoint that it is the text of.
* `parse_eq_error_iff`: a text that is refused breaks the rule that is named.
* `exists_text_iff`: the texts of endpoints.
-/

namespace SingleShot.Endpoint

/-- The first rule of `host:port` that a text breaks. -/
inductive Breaks (t : List Char) : AddressFault → Prop
  | noSeparator (none : t.count ':' = 0) : Breaks t .noSeparator
  | severalSeparators (several : 2 ≤ t.count ':') : Breaks t .severalSeparators
  | emptyHost (one : t.count ':' = 1) (first : t.head? = some ':') : Breaks t .emptyHost
  | emptyPort (one : t.count ':' = 1) (first : t.head? ≠ some ':')
      (last : t.getLast? = some ':') : Breaks t .emptyPort

variable {s : String} {t host port : List Char} {e : Endpoint} {fault fault' : AddressFault}

/-- Of several rules that a text breaks, one is the first. -/
theorem Breaks.unique (h : Breaks t fault) (h' : Breaks t fault') : fault = fault' := by
  cases h <;> cases h' <;> grind

theorem parse_eq_ok_iff : parse s = .ok e ↔ e.text = s := by
  constructor
  · intro h
    unfold parse at h
    split at h
    · rename_i host port hpieces
      obtain ⟨-, -, hs⟩ := Text.splitOn_eq_pair_iff.mp hpieces
      split at h
      · cases h
      split at h
      · cases h
      cases h
      rw [← String.toList_inj, toList_text, String.toList_ofList, String.toList_ofList, hs]
    · cases h
    · cases h
    · cases h
  · rintro rfl
    exact parse_text e

/-! ## Texts that are refused -/

theorem count_pair (hhost : ':' ∉ host) (hport : ':' ∉ port) :
    (host ++ ':' :: port).count ':' = 1 := by
  rw [List.count_append, List.count_cons_self, List.count_eq_zero.mpr hhost,
    List.count_eq_zero.mpr hport]

theorem head?_pair (hhost : ':' ∉ host) : (host ++ ':' :: port).head? = some ':' ↔ host = [] := by
  cases host with
  | nil => simp
  | cons c host =>
    have hc : c ≠ ':' := fun h => hhost (h ▸ List.mem_cons_self)
    simp [hc]

theorem getLast?_pair (hport : ':' ∉ port) :
    (host ++ ':' :: port).getLast? = some ':' ↔ port = [] := by
  have hreverse : (host ++ ':' :: port).reverse = port.reverse ++ ':' :: host.reverse := by simp
  rw [List.getLast?_eq_head?_reverse, hreverse, head?_pair (by simpa using hport),
    List.reverse_eq_nil_iff]

/-- The text of an endpoint is cut in one way. -/
theorem eq_of_text_eq_pair (hhost : ':' ∉ host) (hport : ':' ∉ port)
    (h : e.text.toList = host ++ ':' :: port) : e.host.toList = host ∧ e.port.toList = port := by
  have hpieces := splitOn_text e
  rw [Text.splitOn_eq_pair_iff.mpr ⟨hhost, hport, h⟩] at hpieces
  simpa [eq_comm] using hpieces

/-- The text of an endpoint holds one `:`, with something on both sides of it. -/
theorem separator_text (e : Endpoint) :
    e.text.toList.count ':' = 1 ∧ e.text.toList.head? ≠ some ':' ∧
      e.text.toList.getLast? ≠ some ':' := by
  rw [toList_text]
  refine ⟨count_pair e.separator_notMem_host e.separator_notMem_port, ?_, ?_⟩
  · exact mt (head?_pair e.separator_notMem_host).mp e.host_ne
  · exact mt (getLast?_pair e.separator_notMem_port).mp e.port_ne

theorem breaks_of_parse (h : parse s = .error fault) : Breaks s.toList fault := by
  have hlength := Text.length_splitOn ':' s.toList
  unfold parse at h
  split at h
  · rename_i host port hpieces
    obtain ⟨hhost, hport, hs⟩ := Text.splitOn_eq_pair_iff.mp hpieces
    rw [hs]
    have hone := count_pair hhost hport
    by_cases hempty : host = []
    · rw [dif_pos hempty] at h
      cases h
      exact .emptyHost hone ((head?_pair hhost).mpr hempty)
    · rw [dif_neg hempty] at h
      split at h
      · rename_i hport_empty
        cases h
        exact .emptyPort hone (mt (head?_pair hhost).mp hempty)
          ((getLast?_pair hport).mpr hport_empty)
      · cases h
  · rename_i hpieces
    cases h
    rw [hpieces] at hlength
    simp only [List.length_cons] at hlength
    exact .severalSeparators (by omega)
  · rename_i hpieces
    cases h
    rw [hpieces] at hlength
    simp only [List.length_cons, List.length_nil] at hlength
    exact .noSeparator (by omega)
  · rename_i hpieces
    exact absurd hpieces (List.splitOn_ne_nil _ _)

theorem not_breaks_text (e : Endpoint) : ¬ Breaks e.text.toList fault := by
  obtain ⟨hone, hfirst, hlast⟩ := separator_text e
  intro h
  cases h with
  | noSeparator none => omega
  | severalSeparators several => omega
  | emptyHost one first => exact hfirst first
  | emptyPort one first last => exact hlast last

/-- A text is refused for the first rule that it breaks. -/
theorem parse_eq_error_iff : parse s = .error fault ↔ Breaks s.toList fault := by
  constructor
  · exact breaks_of_parse
  · intro h
    cases hparse : parse s with
    | ok e =>
      rw [← parse_eq_ok_iff.mp hparse] at h
      exact absurd h (not_breaks_text e)
    | error fault' => rw [h.unique (breaks_of_parse hparse)]

theorem exists_text_iff :
    (∃ e : Endpoint, e.text.toList = t) ↔
      t.count ':' = 1 ∧ t.head? ≠ some ':' ∧ t.getLast? ≠ some ':' := by
  constructor
  · rintro ⟨e, rfl⟩
    exact separator_text e
  · rintro ⟨hone, hfirst, hlast⟩
    cases hparse : parse (String.ofList t) with
    | ok e => exact ⟨e, by rw [parse_eq_ok_iff.mp hparse, String.toList_ofList]⟩
    | error fault =>
      have hbreaks := breaks_of_parse hparse
      rw [String.toList_ofList] at hbreaks
      cases hbreaks with
      | noSeparator none => omega
      | severalSeparators several => omega
      | emptyHost one first => exact absurd first hfirst
      | emptyPort one first last => exact absurd last hlast

end SingleShot.Endpoint
