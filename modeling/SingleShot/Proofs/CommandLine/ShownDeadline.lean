import SingleShot.Failure
import SingleShot.Proofs.CommandLine.Grammar
import SingleShot.Proofs.Duration.Printed

/-!
# Deadlines that a timeout shows

The message of a timeout ends with the deadline that passed. Given on a command line this text is
the same deadline again, so a run can be repeated with it, and no two deadlines are shown alike.

* `shownAfter_timeout_iff`: what the message shows is the printed form of the deadline.
* `means_insert_deadline`: a deadline that is given too changes the deadline and nothing else.
* `read_shown_deadline`: both together, for whole command lines.
-/

namespace SingleShot.CommandLine

open Failure (readinessTimeout)

variable {phrase text shown shown' : String} {before after : List Occurrence} {a : Arguments}
  {d : Duration}

/-! ## What a message shows -/

/-- What a text shows after a phrase: all that follows the last place where the phrase stands. -/
structure ShownAfter (phrase text shown : String) : Prop where
  stands : ∃ front, text = front ++ phrase ++ shown
  last : ∀ front' shown', text = front' ++ phrase ++ shown' → shown.length ≤ shown'.length

theorem ShownAfter.unique (h : ShownAfter phrase text shown) (h' : ShownAfter phrase text shown') :
    shown = shown' := by
  obtain ⟨front, htext⟩ := h.stands
  obtain ⟨front', htext'⟩ := h'.stands
  have hlength : shown.length = shown'.length :=
    Nat.le_antisymm (h.last front' shown' htext') (h'.last front shown htext)
  have hlists : (front ++ phrase).toList ++ shown.toList
      = (front' ++ phrase).toList ++ shown'.toList := by
    rw [← String.toList_append, ← String.toList_append, ← htext, htext']
  exact String.toList_inj.mp (List.append_inj_right' hlists hlength)

/-- A phrase that ends with a blank is not found again in a text without blanks. -/
theorem shownAfter_of_no_blank {front : String} (hphrase : phrase.toList.getLast? = some ' ')
    (hshown : ' ' ∉ shown.toList) : ShownAfter phrase (front ++ phrase ++ shown) shown := by
  refine ⟨⟨front, rfl⟩, ?_⟩
  intro front' shown' htext
  have hlists : (front ++ phrase).toList ++ shown.toList
      = (front' ++ phrase).toList ++ shown'.toList := by
    rw [← String.toList_append, htext, String.toList_append]
  have hlast : (front' ++ phrase).toList.getLast? = some ' ' := by
    rw [String.toList_append, List.getLast?_append, hphrase]
    rfl
  rcases List.append_eq_append_iff.mp hlists with ⟨more, hfront, hmore⟩ | ⟨more, -, hmore⟩
  · -- The phrase would end within what is shown, so there is nothing of it there.
    cases more using List.reverseRecOn with
    | nil =>
      rw [List.nil_append] at hmore
      rw [← String.length_toList, ← String.length_toList, hmore]
    | append_singleton more c =>
      rw [hfront, ← List.append_assoc, List.getLast?_concat, Option.some_inj] at hlast
      apply absurd _ hshown
      rw [hmore, hlast]
      simp
  · rw [← String.length_toList, ← String.length_toList, hmore, List.length_append]
    exact Nat.le_add_left _ _

theorem message_timeout (endpoint : String) (d : Duration) :
    (readinessTimeout endpoint d).message
      = "Peer " ++ endpoint ++ " " ++ "was not ready within " ++ d.text := by
  have hphrase : " was not ready within " = " " ++ "was not ready within " := by decide
  show "Peer " ++ endpoint ++ " was not ready within " ++ d.text = _
  rw [hphrase]
  simp only [String.append_assoc]

/-- What the message of a timeout shows is the printed form of the deadline. -/
theorem shownAfter_timeout_iff {endpoint : String} :
    ShownAfter "was not ready within " (readinessTimeout endpoint d).message shown
      ↔ shown = d.text := by
  have hblank : ' ' ∉ d.text.toList := by
    intro hmem
    exact absurd (Duration.isBlank_of_mem_text d ' ' hmem) (by decide)
  have hshown :
      ShownAfter "was not ready within " (readinessTimeout endpoint d).message d.text := by
    rw [message_timeout]
    exact shownAfter_of_no_blank (by decide) hblank
  constructor
  · intro h
    exact h.unique hshown
  · rintro rfl
    exact hshown

/-- The message of a timeout tells the endpoint and the deadline. -/
theorem timeout_inj {endpoint endpoint' : String} {d' : Duration}
    (h : (readinessTimeout endpoint d).message = (readinessTimeout endpoint' d').message) :
    endpoint = endpoint' ∧ d = d' := by
  have hshown :
      ShownAfter "was not ready within " (readinessTimeout endpoint d).message d'.text := by
    rw [h]
    exact shownAfter_timeout_iff.mpr rfl
  obtain rfl : d' = d := Duration.text_inj (shownAfter_timeout_iff.mp hshown)
  refine ⟨?_, rfl⟩
  rw [message_timeout, message_timeout] at h
  have hlists := congrArg String.toList h
  simp only [String.toList_append] at hlists
  apply String.toList_inj.mp
  simpa only [List.append_cancel_right_eq, List.append_cancel_left_eq] using hlists

/-! ## One deadline more -/

theorem valuesOf_append (s : Setting) :
    valuesOf s (before ++ after) = valuesOf s before ++ valuesOf s after :=
  List.filterMap_append

theorem valuesOf_value (s' s : Setting) :
    valuesOf s [.value s' text] = if s' = s then [text] else [] := by
  by_cases hs : s' = s <;> simp [valuesOf, Occurrence.valueOf?, hs]

theorem valuesOf_insert (s' s : Setting) :
    valuesOf s (before ++ .value s' text :: after)
      = valuesOf s before ++ (if s' = s then [text] else []) ++ valuesOf s after := by
  rw [List.append_cons, valuesOf_append, valuesOf_append, valuesOf_value]

theorem timesOf_insert (s' : Setting) (f : Flag) :
    timesOf f (before ++ .value s' text :: after) = timesOf f (before ++ after) := by
  simp [timesOf]

/-- A value among others is the only one, or nothing is told. -/
theorem tells_insert {α : Type} {reads : String → α → Prop} {front back : List String}
    {x : Option α} :
    Tells reads (front ++ [text] ++ back) x ↔
      front ++ back = [] ∧ ∃ y, x = some y ∧ reads text y := by
  constructor
  · intro h
    generalize hvalues : front ++ [text] ++ back = values at h
    cases h with
    | nothing => simp at hvalues
    | @one text' y hy =>
      obtain ⟨rfl, rfl, rfl⟩ : front = [] ∧ text = text' ∧ back = [] := by
        simpa [List.append_eq_singleton_iff] using hvalues
      exact ⟨rfl, y, rfl, hy⟩
  · rintro ⟨hnone, y, rfl, hy⟩
    obtain ⟨rfl, rfl⟩ := List.append_eq_nil_iff.mp hnone
    exact .one hy

/-- Occurrences that differ in the deadline only mean the same but for the deadline. -/
theorem Means.withDeadline {os os' : List Occurrence} {deadline : Option Duration}
    (h : Means os a) (hsettings : ∀ s, s ≠ .waitDeadline → valuesOf s os' = valuesOf s os)
    (hflags : ∀ f, timesOf f os' = timesOf f os)
    (hdeadline : Tells ReadsDuration (valuesOf .waitDeadline os') deadline) :
    Means os' { a with waitDeadline := deadline } where
  addr := (hsettings .addr (by decide)).trans h.addr
  size := hsettings .size (by decide) ▸ h.size
  nodes := hsettings .nodes (by decide) ▸ h.nodes
  attemptTimeout := hsettings .attemptTimeout (by decide) ▸ h.attemptTimeout
  retryInterval := hsettings .retryInterval (by decide) ▸ h.retryInterval
  waitDeadline := hdeadline
  concurrentWait := (hflags .concurrentWait).trans h.concurrentWait
  noAnsi := (hflags .noAnsi).trans h.noAnsi

/-- A deadline that is given too must be the only one. It changes the deadline and nothing else. -/
theorem means_insert_deadline :
    Means (before ++ .value .waitDeadline text :: after) a ↔
      (∃ d, a.waitDeadline = some d ∧ ReadsDuration text d) ∧
        Means (before ++ after) { a with waitDeadline := none } := by
  have hsettings (s : Setting) (hs : s ≠ .waitDeadline) :
      valuesOf s (before ++ .value .waitDeadline text :: after) = valuesOf s (before ++ after) := by
    rw [valuesOf_insert, if_neg hs.symm, List.append_nil, valuesOf_append]
  have hflags (f : Flag) :
      timesOf f (before ++ .value .waitDeadline text :: after) = timesOf f (before ++ after) :=
    timesOf_insert .waitDeadline f
  have hgiven : valuesOf .waitDeadline (before ++ .value .waitDeadline text :: after)
      = valuesOf .waitDeadline before ++ [text] ++ valuesOf .waitDeadline after :=
    valuesOf_insert .waitDeadline .waitDeadline
  constructor
  · intro h
    have htells := h.waitDeadline
    rw [hgiven, tells_insert] at htells
    obtain ⟨hnone, hreads⟩ := htells
    refine ⟨hreads, h.withDeadline (fun s hs => (hsettings s hs).symm)
      (fun f => (hflags f).symm) ?_⟩
    rw [valuesOf_append, hnone]
    exact .nothing
  · rintro ⟨⟨d, hd, hreads⟩, h⟩
    have hnone := h.waitDeadline
    rw [valuesOf_append] at hnone
    generalize hvalues : valuesOf .waitDeadline before ++ valuesOf .waitDeadline after = values
      at hnone
    cases hnone
    have hdeadline : Tells ReadsDuration
        (valuesOf .waitDeadline (before ++ .value .waitDeadline text :: after)) a.waitDeadline := by
      rw [hgiven, tells_insert]
      exact ⟨hvalues, d, hd, hreads⟩
    exact h.withDeadline hsettings hflags hdeadline

/-! ## The whole of it -/

/-- The deadline that the message of a timeout shows is its printed form. It is read as exactly
this deadline, and it may be the word after its switch as well as a part of the switch's word:
a command line that gives it is read if and only if the same command line without it is read and
gives no deadline, and the arguments differ in the deadline only. Deadlines are shown alike only if
they are the same, and so are whole messages. -/
theorem read_shown_deadline (endpoint : String) (d : Duration) :
    (∀ shown, ShownAfter "was not ready within " (readinessTimeout endpoint d).message shown ↔
        shown = d.text) ∧
      Duration.read d.text = .ok d ∧
      ¬ IsSwitchLike d.text ∧
      (∀ before after words words', Spells (before ++ after) words →
        Spells (before ++ .value .waitDeadline d.text :: after) words' →
          ∀ a, Arguments.read words' = .ok a ↔
            a.waitDeadline = some d ∧ Arguments.read words = .ok { a with waitDeadline := none }) ∧
      (∀ d', d'.text = d.text ↔ d' = d) ∧
      ∀ endpoint' d',
        (readinessTimeout endpoint' d').message = (readinessTimeout endpoint d).message ↔
          endpoint' = endpoint ∧ d' = d := by
  have hread := Duration.read_text d
  refine ⟨fun _ => shownAfter_timeout_iff, hread, ?_, ?_, ?_, ?_⟩
  · rintro ⟨c, rest, htext⟩
    obtain ⟨first, s, hcons, hdigit⟩ := Duration.exists_text_eq_cons d
    rw [hcons, List.cons.injEq] at htext
    rw [htext.1] at hdigit
    exact absurd hdigit (by decide)
  · intro before after words words' hwords hwords' a
    rw [Arguments.read_eq_ok_iff_means hwords, Arguments.read_eq_ok_iff_means hwords',
      means_insert_deadline]
    constructor
    · rintro ⟨⟨d', hd', hreads⟩, hmeans⟩
      obtain rfl : d = d' := Except.ok.inj (hread.symm.trans hreads)
      exact ⟨hd', hmeans⟩
    · rintro ⟨hd, hmeans⟩
      exact ⟨⟨d, hd, hread⟩, hmeans⟩
  · intro d'
    exact ⟨Duration.text_inj, congrArg Duration.text⟩
  · intro endpoint' d'
    constructor
    · exact timeout_inj
    · rintro ⟨rfl, rfl⟩
      rfl

theorem read_shown_deadline_of_micros :
    ShownAfter "was not ready within "
        "Peer b was not ready within 9s was not ready within 1.5µs" "1.5µs" ∧
      ∃ a, Arguments.read ["--addr=a:1", "--wait-deadline", "1.5µs"] = .ok a ∧
        a.waitDeadline = some ⟨1500, by decide⟩ := by
  obtain ⟨hshown, -, hword, hline, -, -⟩ :=
    read_shown_deadline "b was not ready within 9s" ⟨1500, by decide⟩
  have htext : Duration.text ⟨1500, by decide⟩ = "1.5µs" := by cbv
  have hmessage : (readinessTimeout "b was not ready within 9s" ⟨1500, by decide⟩).message
      = "Peer b was not ready within 9s was not ready within 1.5µs" := by
    rw [message_timeout, htext]
    decide
  rw [htext, hmessage] at hshown
  rw [htext] at hword hline
  refine ⟨(hshown _).mpr rfl, ?_⟩
  have hwithout : Spells ([.value .addr "a:1"] ++ []) ["--addr=a:1"] :=
    .single (.value .addr "a:1") .done
  have hwith : Spells ([.value .addr "a:1"] ++ .value .waitDeadline "1.5µs" :: [])
      ["--addr=a:1", "--wait-deadline", "1.5µs"] :=
    .single (.value .addr "a:1") (.double .waitDeadline hword .done)
  have hread : Arguments.read ["--addr=a:1"]
      = .ok ⟨"a:1", 100, [], Policy.standard.attemptTimeout, Policy.standard.retryInterval, none,
          false, false⟩ := by
    cbv
  exact ⟨⟨"a:1", 100, [], _, _, _, false, false⟩,
    (hline _ _ _ _ hwithout hwith _).mpr ⟨rfl, hread⟩, rfl⟩

end SingleShot.CommandLine
