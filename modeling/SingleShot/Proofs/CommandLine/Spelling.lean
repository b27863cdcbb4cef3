import SingleShot.CommandLine.Reader

/-!
# How a command line is spelled

A command line gives settings with their values and flags, one occurrence after another. A
value is attached to the name of its setting or is the next word; in the latter case it must
not look like a switch itself. `Spells` relates the occurrences to the words.

`Word.ofString_longText` and `Word.eq_longText_of_ofString` tie the words with two dashes to
what they are read as.
-/

namespace SingleShot.CommandLine

/-- What a command line gives: a setting with its value, or a flag. -/
inductive Occurrence
  | value (s : Setting) (text : String)
  | flag (f : Flag)
  deriving DecidableEq, Repr

namespace Occurrence

/-- The switch that is given. -/
def switch : Occurrence → Switch
  | value s _ => .setting s
  | flag f => .flag f

/-- The value that is given to a setting. -/
def text? : Occurrence → Option String
  | value _ text => some text
  | flag _ => none

/-- An occurrence in a single word. -/
def word : Occurrence → String
  | value s text => "--" ++ s.name ++ "=" ++ text
  | flag f => "--" ++ f.name

end Occurrence

/-- A word that cannot be the value of the word before it: a dash, and more. -/
def IsSwitchLike (word : String) : Prop :=
  ∃ c rest, word.toList = '-' :: c :: rest

/-- The words that spell occurrences: one word for each, or two for a setting and its value. Two
dashes alone may stand at the end. -/
inductive Spells : List Occurrence → List String → Prop
  | done : Spells [] []
  | separator : Spells [] ["--"]
  | single (o : Occurrence) {os : List Occurrence} {words : List String} (hos : Spells os words) :
      Spells (o :: os) (o.word :: words)
  | double (s : Setting) {text : String} (htext : ¬ IsSwitchLike text) {os : List Occurrence}
      {words : List String} (hos : Spells os words) :
      Spells (.value s text :: os) (("--" ++ s.name) :: text :: words)

theorem spells_map_word (os : List Occurrence) : Spells os (os.map Occurrence.word) := by
  induction os with
  | nil => exact .done
  | cons o os ih => exact .single o ih

namespace Switch

/-- No name is empty or could be taken for a name with a value. -/
theorem name_ne_nil_and_not_mem (switch : Switch) :
    switch.name.toList ≠ [] ∧ '=' ∉ switch.name.toList := by
  rcases switch with s | f | r
  · cases s <;> decide
  · cases f <;> decide
  · cases r <;> decide

theorem eq_name_of_ofName? {name : String} {switch : Switch} (h : ofName? name = some switch) :
    name = switch.name := by
  have hfound := List.find?_some h
  exact (of_decide_eq_true hfound).symm

end Switch

namespace Word

variable {word name text : String} {value : Option String}

/-- The word with a name after two dashes, and perhaps a value. -/
def longText (name : String) : Option String → String
  | none => "--" ++ name
  | some text => "--" ++ name ++ "=" ++ text

theorem longText_of_occurrence (o : Occurrence) : longText o.switch.name o.text? = o.word := by
  cases o with
  | value s text => rfl
  | flag f => rfl

theorem toList_longText_none : (longText name none).toList = '-' :: '-' :: name.toList := by
  simp [longText]

theorem toList_longText_some :
    (longText name (some text)).toList = '-' :: '-' :: (name.toList ++ '=' :: text.toList) := by
  simp [longText]

theorem ofString_dashes {rest : List Char} (hword : word.toList = '-' :: '-' :: rest)
    (hrest : rest ≠ []) : ofString word = ofLong rest := by
  unfold ofString
  rw [hword]
  cases rest with
  | nil => exact absurd rfl hrest
  | cons c rest => rfl

theorem ne_equals_of_not_mem (hname : '=' ∉ name.toList) :
    ∀ c ∈ name.toList, decide (c ≠ '=') = true := by
  intro c hc
  exact decide_eq_true fun heq => hname (heq ▸ hc)

theorem ofLong_name (hname : '=' ∉ name.toList) : ofLong name.toList = long name none := by
  rw [← List.append_nil name.toList, ofLong,
    List.dropWhile_append_of_pos (ne_equals_of_not_mem hname),
    List.takeWhile_append_of_pos (ne_equals_of_not_mem hname)]
  simp

theorem ofLong_value (hname : '=' ∉ name.toList) :
    ofLong (name.toList ++ '=' :: text.toList) = long name (some text) := by
  rw [ofLong, List.dropWhile_append_of_pos (ne_equals_of_not_mem hname),
    List.takeWhile_append_of_pos (ne_equals_of_not_mem hname)]
  simp

theorem ofString_longText (switch : Switch) :
    ofString (longText switch.name value) = long switch.name value := by
  obtain ⟨hne, hname⟩ := switch.name_ne_nil_and_not_mem
  cases value with
  | none => rw [ofString_dashes toList_longText_none hne, ofLong_name hname]
  | some text => rw [ofString_dashes toList_longText_some (by simp), ofLong_value hname]

theorem toList_longText_of_ofLong {rest : List Char} (h : ofLong rest = long name value) :
    (longText name value).toList = '-' :: '-' :: rest := by
  have hsplit : rest.takeWhile (· ≠ '=') ++ rest.dropWhile (· ≠ '=') = rest :=
    List.takeWhile_append_dropWhile
  unfold ofLong at h
  split at h
  · rename_i hnil
    cases h
    rw [hnil, List.append_nil] at hsplit
    rw [toList_longText_none, String.toList_ofList, hsplit]
  · rename_i c value hcons
    cases h
    have hc : c = '=' := by
      have hstop := List.head?_dropWhile_not (· ≠ '=') rest
      rw [hcons] at hstop
      exact Decidable.of_not_not (of_decide_eq_false hstop)
    rw [hcons, hc] at hsplit
    rw [toList_longText_some, String.toList_ofList, String.toList_ofList, hsplit]

theorem eq_longText_of_ofString (h : ofString word = long name value) :
    word = longText name value := by
  unfold ofString at h
  split at h
  · cases h
  · rename_i rest hne hword
    rw [← String.toList_inj, hword, toList_longText_of_ofLong h]
  · cases h
  · cases h

theorem eq_of_ofString_separator (h : ofString word = separator) : word = "--" := by
  unfold ofString at h
  split at h
  · rename_i hword
    exact String.toList_inj.mp hword
  · rename_i rest hne hword
    unfold ofLong at h
    split at h <;> cases h
  · cases h
  · cases h

/-- What may be a value after its switch is read as plain text, and nothing else is. -/
theorem ofString_eq_plain_iff :
    ofString word = plain text ↔ ¬ IsSwitchLike word ∧ text = word := by
  have hswitch : ∀ {c rest}, word.toList = '-' :: c :: rest → ¬ (¬ IsSwitchLike word ∧ text = word) :=
    fun hword h => h.1 ⟨_, _, hword⟩
  unfold ofString
  split
  · rename_i hword
    exact iff_of_false (by intro h; cases h) (hswitch hword)
  · rename_i rest hne hword
    refine iff_of_false ?_ (hswitch hword)
    unfold ofLong
    split <;> intro h <;> cases h
  · rename_i letter rest _ _ hword
    exact iff_of_false (by intro h; cases h) (hswitch hword)
  · rename_i hplain
    constructor
    · intro h
      cases h
      refine ⟨?_, rfl⟩
      rintro ⟨c, rest, hword⟩
      exact hplain c rest hword
    · rintro ⟨-, rfl⟩
      rfl

end Word

instance (word : String) : Decidable (IsSwitchLike word) :=
  decidable_of_iff (Word.ofString word ≠ .plain word) (by
    rw [Ne, Word.ofString_eq_plain_iff]
    simp)

end SingleShot.CommandLine
