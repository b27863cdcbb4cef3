import SingleShot.Proofs.CommandLine.Grammar
import SingleShot.Proofs.Duration.Reading
import SingleShot.Proofs.Text.Blank

/-!
# Settings written on a command line

Every setting of a run has a written form on the command line, and `Config.words` puts the words
together. `Config.read_words` says that reading them gives the settings back, and that a switch
which is left out leaves its setting at the standard value.

A list of peers is written with commas, so their names must do without, and without the blanks
that would be trimmed.
-/

namespace SingleShot

namespace CommandLine

/-- The name of a node that stays as it is in a list of nodes. -/
structure IsNodeName (name : String) : Prop where
  ne_empty : name ≠ ""
  no_comma : ',' ∉ name.toList
  head : ∀ c ∈ name.toList.head?, Text.isBlank c = false
  last : ∀ c ∈ name.toList.getLast?, Text.isBlank c = false

theorem Arguments.peersOf_eq_self {names : List String} (h : ∀ name ∈ names, IsNodeName name) :
    peersOf names = names := by
  have htrimmed : names.map (fun name => String.ofList (Text.trimmed name.toList)) = names := by
    apply (List.map_congr_left ?_).trans names.map_id
    intro name hname
    rw [Text.trimmed_eq_self (h name hname).head (h name hname).last, String.ofList_toList, id]
  rw [peersOf, htrimmed]
  apply List.filter_eq_self.mpr
  intro name hname
  exact decide_eq_true (h name hname).ne_empty

theorem Given.nodesOf_intercalate {names : List String} (h : ∀ name ∈ names, IsNodeName name)
    (hne : names ≠ []) : nodesOf (",".intercalate names) = names := by
  have hsplit : (",".intercalate names).toList.splitOn ',' = names.map String.toList := by
    rw [String.toList_intercalate]
    apply List.splitOn_intercalate
    · intro piece hpiece
      obtain ⟨name, hname, rfl⟩ := List.mem_map.mp hpiece
      exact (h name hname).no_comma
    · simpa using hne
  rw [nodesOf, hsplit, List.map_map]
  simp [Function.comp_def]

end CommandLine

namespace Config

open CommandLine

variable {kept : Switch → Bool} {c : Config}

/-- The text of a setting on the command line. Without one the setting is not given. -/
def text? (c : Config) : Setting → Option String
  | .addr => some c.target
  | .size => some (toString c.size)
  | .nodes => if c.peers = [] then none else some (",".intercalate c.peers)
  | .attemptTimeout => some c.policy.attemptTimeout.secondsText
  | .retryInterval => some c.policy.retryInterval.secondsText
  | .waitDeadline => c.policy.deadline.map Duration.secondsText

/-- What gives all the settings of a run. -/
def occurrences (c : Config) : List Occurrence :=
  [Setting.addr, .size, .nodes, .attemptTimeout, .retryInterval, .waitDeadline].filterMap
      (fun s => (c.text? s).map (.value s)) ++
    if c.policy.mode = .concurrent then [.flag .concurrentWait] else []

/-- The words that ask for the settings, as far as their switches are kept. -/
def words (kept : Switch → Bool) (c : Config) : List String :=
  (c.occurrences.filter (kept ·.switch)).map Occurrence.word

/-- The settings whose switches are kept, and the standard ones for the rest. -/
def keeping (kept : Switch → Bool) (c : Config) : Config :=
  let standard := Config.standard c.target
  let choose {α : Type} (switch : Switch) (own other : α) : α := if kept switch then own else other
  { target := c.target
    size := choose (.setting .size) c.size standard.size
    peers := choose (.setting .nodes) c.peers standard.peers
    policy :=
      { attemptTimeout :=
          choose (.setting .attemptTimeout) c.policy.attemptTimeout standard.policy.attemptTimeout
        retryInterval :=
          choose (.setting .retryInterval) c.policy.retryInterval standard.policy.retryInterval
        deadline := choose (.setting .waitDeadline) c.policy.deadline standard.policy.deadline
        mode := choose (.flag .concurrentWait) c.policy.mode standard.policy.mode } }

theorem valueOf?_filtered (o : Occurrence) (s : Setting) :
    (if kept o.switch then o.valueOf? s else none)
      = if kept (.setting s) then o.valueOf? s else none := by
  cases o with
  | flag f => simp [Occurrence.valueOf?]
  | value s' text =>
    by_cases hs : s' = s
    · rw [hs, Occurrence.switch]
    · simp [Occurrence.valueOf?, hs]

theorem valuesOf_filter (os : List Occurrence) (s : Setting) :
    valuesOf s (os.filter (kept ·.switch)) = if kept (.setting s) then valuesOf s os else [] := by
  rw [valuesOf, List.filterMap_filter]
  simp only [valueOf?_filtered]
  cases kept (.setting s) with
  | true => rfl
  | false => simp

theorem timesOf_filter (os : List Occurrence) (f : Flag) :
    timesOf f (os.filter (kept ·.switch)) = if kept (.flag f) then timesOf f os else 0 := by
  cases hkept : kept (.flag f) with
  | true => exact List.count_filter hkept
  | false =>
    apply List.count_eq_zero_of_not_mem
    intro hmem
    have hkept' : kept (.flag f) = true := (List.mem_filter.mp hmem).2
    rw [hkept] at hkept'
    cases hkept'

theorem valuesOf_occurrences (s : Setting) : valuesOf s c.occurrences = (c.text? s).toList := by
  have hvalue (s' : Setting) :
      ((c.text? s').map (Occurrence.value s')).bind (·.valueOf? s)
        = if s' = s then c.text? s' else none := by
    cases c.text? s' with
    | none => simp
    | some text => simp [Occurrence.valueOf?]
  have hflag :
      (if c.policy.mode = .concurrent then [Occurrence.flag .concurrentWait] else []).filterMap
        (·.valueOf? s) = [] := by
    split
    · rfl
    · rfl
  rw [valuesOf, occurrences, List.filterMap_append, hflag, List.append_nil, List.filterMap_filterMap]
  simp only [hvalue]
  generalize c.text? = texts
  cases s <;> simp [List.filterMap_cons] <;> rfl

theorem timesOf_occurrences (f : Flag) :
    timesOf f c.occurrences =
      if f = .concurrentWait ∧ c.policy.mode = .concurrent then 1 else 0 := by
  have hsettings (settings : List Setting) :
      (settings.filterMap fun s => (c.text? s).map (Occurrence.value s)).count (.flag f) = 0 := by
    apply List.count_eq_zero_of_not_mem
    intro hmem
    obtain ⟨s, -, hs⟩ := List.mem_filterMap.mp hmem
    obtain ⟨text, -, htext⟩ := Option.map_eq_some_iff.mp hs
    cases htext
  rw [timesOf, occurrences, List.count_append, hsettings]
  by_cases hmode : c.policy.mode = .concurrent
  · cases f with
    | concurrentWait => simp [hmode]
    | noAnsi => simp [hmode]
  · simp [hmode]

theorem valuesOf_kept (s : Setting) :
    valuesOf s (c.occurrences.filter (kept ·.switch))
      = if kept (.setting s) then (c.text? s).toList else [] := by
  rw [valuesOf_filter, valuesOf_occurrences]

theorem timesOf_kept (f : Flag) :
    timesOf f (c.occurrences.filter (kept ·.switch))
      = if kept (.flag f) then
          if f = .concurrentWait ∧ c.policy.mode = .concurrent then 1 else 0
        else 0 := by
  rw [timesOf_filter, timesOf_occurrences]

/-! ## Reading the words -/

/-- The arguments that the settings come from. -/
def arguments (c : Config) : Arguments where
  addr := c.target
  size := c.size
  nodes := c.peers
  attemptTimeout := c.policy.attemptTimeout
  retryInterval := c.policy.retryInterval
  waitDeadline := c.policy.deadline
  concurrentWait := c.policy.mode = .concurrent
  noAnsi := false

theorem config_arguments (hpeers : ∀ name ∈ c.peers, IsNodeName name) :
    c.arguments.config = c := by
  obtain ⟨target, size, peers, attempt, retry, deadline, mode⟩ := c
  have hnames : Arguments.peersOf peers = peers := Arguments.peersOf_eq_self hpeers
  cases mode with
  | sequential => simp [arguments, Arguments.config, hnames]
  | concurrent => simp [arguments, Arguments.config, hnames]

theorem tells_kept {α : Type} {reads : String → α → Prop} {text : String} {x standard : α}
    (h : reads text x) (isKept : Bool) :
    ∃ y, Tells reads (if isKept then [text] else []) y ∧
      (if isKept then x else standard) = y.getD standard := by
  cases isKept with
  | true => exact ⟨some x, .one h, rfl⟩
  | false => exact ⟨none, .nothing, rfl⟩

theorem readsSize_toString {n : Nat} (hn : n < wordBound) : ReadsSize (toString n) n :=
  (Text.readNumber_eq_ok_iff (by decide)).mp (Text.readNumber_toString hn)

theorem tells_deadline (deadline : Option Duration) :
    Tells ReadsDuration (deadline.map Duration.secondsText).toList deadline := by
  cases deadline with
  | none => exact .nothing
  | some d => exact .one (Duration.read_secondsText d)

theorem nodesOf_text? (hpeers : ∀ name ∈ c.peers, IsNodeName name) :
    (c.text? .nodes).toList.flatMap Given.nodesOf = c.peers := by
  rw [text?]
  by_cases hnone : c.peers = []
  · simp [hnone]
  · simp [hnone, Given.nodesOf_intercalate hpeers hnone]

theorem means_keeping (hsize : c.size < wordBound) (hpeers : ∀ name ∈ c.peers, IsNodeName name)
    (htarget : kept (.setting .addr) = true) :
    Means (c.occurrences.filter (kept ·.switch)) (c.keeping kept).arguments where
  addr := by
    rw [valuesOf_kept, htarget]
    rfl
  size := by
    rw [valuesOf_kept]
    exact tells_kept (readsSize_toString hsize) _
  nodes := by
    rw [valuesOf_kept]
    cases hkept : kept (.setting .nodes) with
    | true => simp [arguments, keeping, hkept, nodesOf_text? hpeers]
    | false => simp [arguments, keeping, hkept, standard]
  attemptTimeout := by
    rw [valuesOf_kept]
    exact tells_kept (Duration.read_secondsText _) _
  retryInterval := by
    rw [valuesOf_kept]
    exact tells_kept (Duration.read_secondsText _) _
  waitDeadline := by
    rw [valuesOf_kept]
    cases hkept : kept (.setting .waitDeadline) with
    | true => simpa [arguments, keeping, hkept, text?] using tells_deadline c.policy.deadline
    | false => simpa [arguments, keeping, hkept, standard, Policy.standard] using Tells.nothing
  concurrentWait := by
    rw [timesOf_kept]
    cases hkept : kept (.flag .concurrentWait) with
    | true => simp [arguments, keeping, hkept, Bool.toNat]
    | false => simp [arguments, keeping, hkept, standard, Policy.standard]
  noAnsi := by
    rw [timesOf_kept]
    simp [arguments]

/-- Words with some switches left out are read as the settings with the standard values there. -/
theorem exists_read_words_eq_keeping (hsize : c.size < wordBound)
    (hpeers : ∀ name ∈ c.peers, IsNodeName name) (htarget : kept (.setting .addr) = true) :
    ∃ a, Arguments.read (c.words kept) = .ok a ∧ a.config = c.keeping kept := by
  refine ⟨(c.keeping kept).arguments, ?_, config_arguments ?_⟩
  · apply (Arguments.read_eq_ok_iff_means (spells_map_word _)).mpr
    exact means_keeping hsize hpeers htarget
  · cases hkept : kept (.setting .nodes) with
    | true => simpa [keeping, hkept] using hpeers
    | false => simp [keeping, hkept, standard]

/-- The settings of a run are read back from their words, if the size is a word and the peers can be
written in one list. Whatever is left out but the target takes its standard value. -/
theorem read_words (c : Config) (hsize : c.size < wordBound)
    (hpeers : ∀ name ∈ c.peers, IsNodeName name) :
    (∃ a, Arguments.read (c.words fun _ => true) = .ok a ∧ a.config = c) ∧
      ∀ kept : Switch → Bool, kept (.setting .addr) = true →
        ∃ a, Arguments.read (c.words kept) = .ok a ∧ a.config = c.keeping kept := by
  constructor
  · exact exists_read_words_eq_keeping hsize hpeers rfl
  · intro kept htarget
    exact exists_read_words_eq_keeping hsize hpeers htarget

theorem read_words_of_two_peers :
    let c : Config :=
      { target := "-x=y"
        size := 18446744073709551615
        peers := ["a:1", "--b"]
        policy :=
          { attemptTimeout := ⟨1500000000, by decide⟩
            retryInterval := ⟨1, by decide⟩
            deadline := some Duration.zero
            mode := .concurrent } }
    (∃ a, Arguments.read
        ["--addr=-x=y", "--size=18446744073709551615", "--nodes=a:1,--b",
          "--attempt-timeout=1s 500000000ns", "--retry-interval=0s 1ns", "--wait-deadline=0s 0ns",
          "--concurrent-wait"] = .ok a ∧ a.config = c) ∧
      ∃ a, Arguments.read ["--addr=-x=y", "--nodes=a:1,--b"] = .ok a ∧
        a.config = ⟨"-x=y", 100, ["a:1", "--b"], Policy.standard⟩ := by
  intro c
  have hnames : ∀ name ∈ c.peers, IsNodeName name := by
    simp only [c, List.forall_mem_cons]
    refine ⟨⟨by decide, by decide, ?_, ?_⟩, ⟨by decide, by decide, ?_, ?_⟩, by simp⟩
    all_goals
      rintro _ ⟨⟩
      decide
  obtain ⟨hall, hsome⟩ := read_words c (by decide) hnames
  have hwords : c.words (fun _ => true) =
      ["--addr=-x=y", "--size=18446744073709551615", "--nodes=a:1,--b",
        "--attempt-timeout=1s 500000000ns", "--retry-interval=0s 1ns", "--wait-deadline=0s 0ns",
        "--concurrent-wait"] := by
    cbv
  refine ⟨hwords ▸ hall, ?_⟩
  exact hsome (fun switch => switch = .setting .addr ∨ switch = .setting .nodes) (by decide)

end Config

end SingleShot
