import SingleShot.Proofs.CommandLine.Spelling
import SingleShot.Proofs.Success

/-!
# What reading makes of a command line

A setting in two words stays pending while the next words are read, so a reading is compared
with its occurrences through `Reading.settled`: whatever the pending setting is, taking it up
comes first.

* `Spells.reaches_iff`: reading the words of some occurrences ends where taking up the
  occurrences one by one ends.
* `Reading.spells_of_reaches`: only words that spell occurrences are read to the end.
-/

namespace SingleShot.CommandLine

open Success

variable {r r' : Reading} {g g' g₀ : Given} {s : Setting} {f : Flag} {o : Occurrence}
  {os : List Occurrence} {word text : String} {words : List String} {value : Option String}

namespace Given

/-- Takes up one occurrence. -/
def absorb (g : Given) : Occurrence → Except ArgumentError Given
  | .value s text => g.settle s (some text)
  | .flag f => g.raise f

/-- Takes up occurrences from left to right. -/
def absorbAll (g : Given) : List Occurrence → Except ArgumentError Given
  | [] => .ok g
  | o :: os => g.absorb o >>= fun g => g.absorbAll os

theorem absorbAll_cons_eq_ok_iff :
    g.absorbAll (o :: os) = .ok g' ↔ ∃ g₁, g.absorb o = .ok g₁ ∧ g₁.absorbAll os = .ok g' :=
  bind_eq_ok_iff

end Given

namespace Reading

/-! ## One word -/

theorem takeSwitch_name_eq_ok_iff :
    r.takeSwitch (.setting s) none = .ok r' ↔
      ∃ g, r.settled = .ok g ∧ r' = ⟨g, some (s, none)⟩ := by
  simp only [takeSwitch, bind_eq_ok_iff, mapError_eq_ok_iff, pure_eq_ok_iff]

theorem takeSwitch_occurrence_eq_ok_iff (o : Occurrence) :
    r.takeSwitch o.switch o.text? = .ok r' ↔
      ∃ g, r.settled = .ok g ∧ ∃ g₁, g.absorb o = .ok g₁ ∧ r' = ⟨g₁, none⟩ := by
  cases o with
  | value s text =>
    simp only [Occurrence.switch, Occurrence.text?, takeSwitch, bind_eq_ok_iff,
      mapError_eq_ok_iff, pure_eq_ok_iff, Given.absorb]
  | flag f =>
    simp only [Occurrence.switch, Occurrence.text?, takeSwitch, bind_eq_ok_iff,
      mapError_eq_ok_iff, pure_eq_ok_iff, Given.absorb]

theorem takeSwitch_flag_value_ne_ok : r.takeSwitch (.flag f) (some text) ≠ .ok r' :=
  throw_ne_ok

theorem takeSwitch_request_ne_ok {request : Request} :
    r.takeSwitch (.request request) value ≠ .ok r' := by
  cases value with
  | some text => exact throw_ne_ok
  | none =>
    intro h
    simp only [takeSwitch, bind_eq_ok_iff, throw_ne_ok, and_false, exists_false] at h

/-! ## All words -/

/-- The words are read to the end, and all that they give can be taken up. -/
def Reaches (r : Reading) (words : List String) (g : Given) : Prop :=
  ∃ r', r.takeAll words = .ok r' ∧ r'.settled = .ok g

theorem reaches_nil : r.Reaches [] g ↔ r.settled = .ok g := by
  simp [Reaches, takeAll]

theorem reaches_separator : r.Reaches ["--"] g ↔ r.settled = .ok g := by
  have hword : Word.ofString "--" = .separator := rfl
  simp [Reaches, takeAll, hword]

theorem takeAll_cons (hword : Word.ofString word ≠ .separator) :
    r.takeAll (word :: words) = r.take (Word.ofString word) >>= fun r' => r'.takeAll words := by
  rw [takeAll.eq_def]
  dsimp only
  split
  · rename_i hsep
    exact absurd hsep hword
  · rfl

theorem reaches_cons (hword : Word.ofString word ≠ .separator) :
    r.Reaches (word :: words) g ↔
      ∃ r', r.take (Word.ofString word) = .ok r' ∧ r'.Reaches words g := by
  simp only [Reaches, takeAll_cons hword, bind_eq_ok_iff]
  constructor
  · rintro ⟨r₂, ⟨r₁, htake, hall⟩, hg⟩
    exact ⟨r₁, htake, r₂, hall, hg⟩
  · rintro ⟨r₁, htake, r₂, hall, hg⟩
    exact ⟨r₂, ⟨r₁, htake, hall⟩, hg⟩

theorem reaches_longText (switch : Switch) (value : Option String) :
    r.Reaches (Word.longText switch.name value :: words) g ↔
      ∃ r', r.takeSwitch switch value = .ok r' ∧ r'.Reaches words g := by
  have hword : Word.ofString (Word.longText switch.name value) = .long switch.name value :=
    Word.ofString_longText switch
  have htake : r.take (.long switch.name value) = r.takeSwitch switch value := by
    rw [take, switch.ofName?_name]
  rw [reaches_cons (by rw [hword]; intro h; cases h), hword, htake]

theorem reaches_word (o : Occurrence) :
    r.Reaches (o.word :: words) g ↔
      ∃ g₀, r.settled = .ok g₀ ∧ ∃ g₁, g₀.absorb o = .ok g₁ ∧ Reaches ⟨g₁, none⟩ words g := by
  rw [← Word.longText_of_occurrence, reaches_longText]
  simp only [takeSwitch_occurrence_eq_ok_iff]
  constructor
  · rintro ⟨_, ⟨g₀, hg₀, g₁, hg₁, rfl⟩, h⟩
    exact ⟨g₀, hg₀, g₁, hg₁, h⟩
  · rintro ⟨g₀, hg₀, g₁, hg₁, h⟩
    exact ⟨_, ⟨g₀, hg₀, g₁, hg₁, rfl⟩, h⟩

theorem reaches_name :
    r.Reaches (("--" ++ s.name) :: words) g ↔
      ∃ g₀, r.settled = .ok g₀ ∧ Reaches ⟨g₀, some (s, none)⟩ words g := by
  apply (reaches_longText (.setting s) none).trans
  simp only [takeSwitch_name_eq_ok_iff]
  constructor
  · rintro ⟨_, ⟨g₀, hg₀, rfl⟩, h⟩
    exact ⟨g₀, hg₀, h⟩
  · rintro ⟨g₀, hg₀, h⟩
    exact ⟨_, ⟨g₀, hg₀, rfl⟩, h⟩

theorem reaches_text (htext : ¬ IsSwitchLike text) :
    Reaches ⟨g₀, some (s, none)⟩ (text :: words) g ↔
      Reaches ⟨g₀, some (s, some text)⟩ words g := by
  have hword : Word.ofString text = .plain text := Word.ofString_eq_plain_iff.mpr ⟨htext, rfl⟩
  rw [reaches_cons (by rw [hword]; intro h; cases h), hword]
  simp [take]

theorem exists_settled_none {p : Given → Prop} :
    (∃ g₀, Reading.settled ⟨g, none⟩ = .ok g₀ ∧ p g₀) ↔ p g := by
  simp [settled]

theorem settled_value : Reading.settled ⟨g, some (s, some text)⟩ = g.absorb (.value s text) :=
  rfl

end Reading

/-- Reading the words of occurrences takes up what is pending, and then one occurrence after the
other. -/
theorem Spells.reaches_iff (h : Spells os words) (r : Reading) :
    r.Reaches words g ↔ ∃ g₀, r.settled = .ok g₀ ∧ g₀.absorbAll os = .ok g := by
  -- A value in a word of its own is settled by the words after it, hence for every reading.
  induction h generalizing r with
  | done => simp [Reading.reaches_nil, Given.absorbAll]
  | separator => simp [Reading.reaches_separator, Given.absorbAll]
  | single o _ ih =>
    simp only [Reading.reaches_word, ih, Reading.exists_settled_none,
      Given.absorbAll_cons_eq_ok_iff]
  | double s htext _ ih =>
    simp only [Reading.reaches_name, Reading.reaches_text htext, ih, Reading.settled_value,
      Given.absorbAll_cons_eq_ok_iff]

namespace Reading

/-- What a word that is read can be, and what is pending after it. -/
theorem take_eq_ok {word : Word} (hword : word ≠ .separator) (h : r.take word = .ok r') :
    (∃ o : Occurrence, word = .long o.switch.name o.text? ∧ r'.pending = none) ∨
      (∃ s : Setting, word = .long s.name none ∧ r'.pending = some (s, none)) ∨
      (∃ s text, word = .plain text ∧ r.pending = some (s, none) ∧
        r'.pending = some (s, some text)) := by
  cases word with
  | separator => exact absurd rfl hword
  | long name value =>
    rw [take] at h
    split at h
    · rename_i switch hname
      obtain rfl := Switch.eq_name_of_ofName? hname
      rcases switch with s | f | request
      · cases value with
        | none =>
          obtain ⟨g, -, rfl⟩ := takeSwitch_name_eq_ok_iff.mp h
          exact Or.inr (Or.inl ⟨s, rfl, rfl⟩)
        | some text =>
          obtain ⟨-, -, g, -, rfl⟩ := (takeSwitch_occurrence_eq_ok_iff (.value s text)).mp h
          exact Or.inl ⟨.value s text, rfl, rfl⟩
      · cases value with
        | none =>
          obtain ⟨-, -, g, -, rfl⟩ := (takeSwitch_occurrence_eq_ok_iff (.flag f)).mp h
          exact Or.inl ⟨.flag f, rfl, rfl⟩
        | some text => exact absurd h takeSwitch_flag_value_ne_ok
      · exact absurd h takeSwitch_request_ne_ok
    · cases h
  | short letter =>
    rw [take] at h
    split at h
    · exact absurd h takeSwitch_request_ne_ok
    · cases h
  | plain text =>
    rw [take] at h
    split at h
    · rename_i s hpending
      cases h
      exact Or.inr (Or.inr ⟨s, text, rfl, hpending, rfl⟩)
    · cases h

/-- The next word must be the value that is waited for, and occurrences must follow. -/
def Awaits (r : Reading) (words : List String) : Prop :=
  ∃ s text rest os, r.pending = some (s, none) ∧ words = text :: rest ∧
    ¬ IsSwitchLike text ∧ Spells os rest

theorem not_awaits_of_pending_eq_none (h : r.pending = none) : ¬ r.Awaits words := by
  rintro ⟨s, text, rest, os, hpending, -⟩
  rw [h] at hpending
  cases hpending

theorem not_awaits_of_pending_eq_value (h : r.pending = some (s, some text)) :
    ¬ r.Awaits words := by
  rintro ⟨s, text, rest, os, hpending, -⟩
  rw [h] at hpending
  cases hpending

theorem spells_of_reaches (h : r.Reaches words g) :
    (∃ os, Spells os words) ∨ r.Awaits words := by
  induction words generalizing r with
  | nil => exact Or.inl ⟨[], .done⟩
  | cons word words ih =>
    by_cases hsep : Word.ofString word = .separator
    · obtain rfl := Word.eq_of_ofString_separator hsep
      cases words with
      | nil => exact Or.inl ⟨[], .separator⟩
      | cons surplus words =>
        obtain ⟨r', hall, -⟩ := h
        rw [takeAll.eq_def] at hall
        cases hall
    · obtain ⟨r', htake, h'⟩ := (reaches_cons hsep).mp h
      obtain ⟨o, hlong, hnone⟩ | ⟨s, hlong, hname⟩ | ⟨s, text, hplain, hname, hvalue⟩ :=
        take_eq_ok hsep htake
      · obtain rfl := Word.eq_longText_of_ofString hlong
        obtain ⟨os, hos⟩ := (ih h').resolve_right (not_awaits_of_pending_eq_none hnone)
        rw [Word.longText_of_occurrence]
        exact Or.inl ⟨_, .single o hos⟩
      · obtain rfl := Word.eq_longText_of_ofString hlong
        obtain ⟨os, hos⟩ | ⟨s', text, rest, os, hs', rfl, htext, hos⟩ := ih h'
        · -- Without a value the setting could not be taken up any more.
          obtain ⟨g₀, hg₀, -⟩ := (hos.reaches_iff r').mp h'
          simp [settled, hname, Given.settle] at hg₀
        · rw [hname] at hs'
          cases hs'
          exact Or.inl ⟨_, .double s htext hos⟩
      · obtain ⟨htext, rfl⟩ := Word.ofString_eq_plain_iff.mp hplain
        obtain ⟨os, hos⟩ := (ih h').resolve_right (not_awaits_of_pending_eq_value hvalue)
        exact Or.inr ⟨s, text, words, os, hname, rfl, htext, hos⟩

end Reading

end SingleShot.CommandLine
