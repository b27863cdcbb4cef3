import SingleShot.Config
import SingleShot.Proofs.CommandLine.Spelling
import SingleShot.Proofs.Text.Decimal

/-!
# What a command line means

The arguments that occurrences ask for, setting by setting: the values of one setting matter
only among themselves, and except for the nodes there may be one at most.

* `exists_means_iff`: occurrences have a meaning if and only if they may be given together.
* `Means.of_perm`: the order of the occurrences does not matter, as far as it is not the order of
  the nodes.
-/

namespace SingleShot.CommandLine

variable {α : Type} {a : Arguments} {s : Setting} {f : Flag} {os os' : List Occurrence}
  {values : List String}

/-! ## The values of a setting -/

/-- The value that an occurrence gives to a setting. -/
def Occurrence.valueOf? (s : Setting) : Occurrence → Option String
  | value s' text => if s' = s then some text else none
  | flag _ => none

/-- The values that occurrences give to a setting, in their order. -/
def valuesOf (s : Setting) (os : List Occurrence) : List String :=
  os.filterMap (·.valueOf? s)

/-- How often a flag is given. -/
def timesOf (f : Flag) (os : List Occurrence) : Nat :=
  os.count (.flag f)

/-- A text that is read as a size. -/
def ReadsSize (text : String) (n : Nat) : Prop :=
  Text.WritesNumber text.toList n ∧ n < wordBound

/-- A text that is read as a duration. -/
def ReadsDuration (text : String) (d : Duration) : Prop :=
  Duration.read text = .ok d

/-- What the values of a setting tell that is given once at most. -/
inductive Tells (reads : String → α → Prop) : List String → Option α → Prop
  | nothing : Tells reads [] none
  | one {text : String} {x : α} (h : reads text x) : Tells reads [text] (some x)

theorem tells_some {reads : String → α → Prop} {x : α} :
    Tells reads values (some x) ↔ ∃ text, values = [text] ∧ reads text x := by
  constructor
  · intro h
    cases h with
    | one hx => exact ⟨_, rfl, hx⟩
  · rintro ⟨text, rfl, hx⟩
    exact .one hx

/-- The arguments that occurrences ask for. -/
structure Means (os : List Occurrence) (a : Arguments) : Prop where
  addr : valuesOf .addr os = [a.addr]
  size : ∃ n, Tells ReadsSize (valuesOf .size os) n ∧ a.size = n.getD Config.defaultSize
  nodes : a.nodes = (valuesOf .nodes os).flatMap Given.nodesOf
  attemptTimeout : ∃ d, Tells ReadsDuration (valuesOf .attemptTimeout os) d ∧
    a.attemptTimeout = d.getD Policy.standard.attemptTimeout
  retryInterval : ∃ d, Tells ReadsDuration (valuesOf .retryInterval os) d ∧
    a.retryInterval = d.getD Policy.standard.retryInterval
  waitDeadline : Tells ReadsDuration (valuesOf .waitDeadline os) a.waitDeadline
  concurrentWait : timesOf .concurrentWait os = a.concurrentWait.toNat
  noAnsi : timesOf .noAnsi os = a.noAnsi.toNat

/-- Occurrences that may be given together: the target once, everything else once at most but for
the nodes, every size a number below the bound, and every time a duration. -/
structure Admitted (os : List Occurrence) : Prop where
  addr : (valuesOf .addr os).length = 1
  settings : ∀ s, s ≠ .nodes → (valuesOf s os).length ≤ 1
  flags : ∀ f, timesOf f os ≤ 1
  size : ∀ text ∈ valuesOf .size os, ∃ n, ReadsSize text n
  durations : ∀ s ∈ [Setting.attemptTimeout, .retryInterval, .waitDeadline],
    ∀ text ∈ valuesOf s os, ∃ d, ReadsDuration text d

/-! ## Which occurrences have a meaning -/

theorem exists_tells_iff {reads : String → α → Prop} :
    (∃ x, Tells reads values x) ↔ values.length ≤ 1 ∧ ∀ text ∈ values, ∃ x, reads text x := by
  constructor
  · rintro ⟨x, h⟩
    cases h with
    | nothing => simp
    | one hx => simpa using ⟨_, hx⟩
  · rintro ⟨hlength, hreads⟩
    match values with
    | [] => exact ⟨none, .nothing⟩
    | [text] =>
      obtain ⟨x, hx⟩ := hreads text List.mem_cons_self
      exact ⟨some x, .one hx⟩
    | _ :: _ :: _ => simp at hlength

theorem exists_toNat_iff {times : Nat} : (∃ b : Bool, times = b.toNat) ↔ times ≤ 1 := by
  constructor
  · rintro ⟨b, rfl⟩
    exact Bool.toNat_le b
  · intro h
    rcases Nat.le_one_iff_eq_zero_or_eq_one.mp h with rfl | rfl
    · exact ⟨false, rfl⟩
    · exact ⟨true, rfl⟩

theorem exists_means_iff : (∃ a, Means os a) ↔ Admitted os := by
  constructor
  · rintro ⟨a, h⟩
    have hsize := exists_tells_iff.mp (h.size.imp fun _ => And.left)
    have hattempt := exists_tells_iff.mp (h.attemptTimeout.imp fun _ => And.left)
    have hretry := exists_tells_iff.mp (h.retryInterval.imp fun _ => And.left)
    have hdeadline := exists_tells_iff.mp ⟨_, h.waitDeadline⟩
    have haddr : (valuesOf .addr os).length = 1 := by
      rw [h.addr, List.length_singleton]
    refine ⟨haddr, ?_, ?_, hsize.2, ?_⟩
    · intro s hs
      cases s with
      | addr => exact Nat.le_of_eq haddr
      | size => exact hsize.1
      | nodes => exact absurd rfl hs
      | attemptTimeout => exact hattempt.1
      | retryInterval => exact hretry.1
      | waitDeadline => exact hdeadline.1
    · intro f
      cases f with
      | concurrentWait => exact exists_toNat_iff.mp ⟨_, h.concurrentWait⟩
      | noAnsi => exact exists_toNat_iff.mp ⟨_, h.noAnsi⟩
    · simp only [List.forall_mem_cons]
      exact ⟨hattempt.2, hretry.2, hdeadline.2, by simp⟩
  · intro h
    obtain ⟨addr, haddr⟩ := List.length_eq_one_iff.mp h.addr
    obtain ⟨size, hsize⟩ := exists_tells_iff.mpr ⟨h.settings .size (by decide), h.size⟩
    have hdurations (s) (hs : s ∈ [Setting.attemptTimeout, .retryInterval, .waitDeadline])
        (hne : s ≠ .nodes) : ∃ d, Tells ReadsDuration (valuesOf s os) d :=
      exists_tells_iff.mpr ⟨h.settings s hne, h.durations s hs⟩
    obtain ⟨attempt, hattempt⟩ := hdurations .attemptTimeout (by decide) (by decide)
    obtain ⟨retry, hretry⟩ := hdurations .retryInterval (by decide) (by decide)
    obtain ⟨deadline, hdeadline⟩ := hdurations .waitDeadline (by decide) (by decide)
    obtain ⟨concurrent, hconcurrent⟩ := exists_toNat_iff.mpr (h.flags .concurrentWait)
    obtain ⟨plain, hplain⟩ := exists_toNat_iff.mpr (h.flags .noAnsi)
    exact ⟨⟨addr, _, _, _, _, deadline, concurrent, plain⟩, haddr, ⟨size, hsize, rfl⟩, rfl,
      ⟨attempt, hattempt, rfl⟩, ⟨retry, hretry, rfl⟩, hdeadline, hconcurrent, hplain⟩

/-! ## The order of occurrences -/

theorem valuesOf_perm (hperm : os'.Perm os) : (valuesOf s os').Perm (valuesOf s os) :=
  hperm.filterMap _

theorem timesOf_perm (hperm : os'.Perm os) : timesOf f os' = timesOf f os :=
  hperm.count_eq _

/-- A setting that is given once at most has no order. -/
theorem Tells.of_perm {reads : String → α → Prop} {x : Option α}
    (h : Tells reads (valuesOf s os) x) (hperm : os'.Perm os) : Tells reads (valuesOf s os') x := by
  have hvalues := valuesOf_perm (s := s) hperm
  generalize valuesOf s os = values at h hvalues
  cases h with
  | nothing =>
    rw [hvalues.eq_nil]
    exact .nothing
  | one hx =>
    rw [hvalues.eq_singleton]
    exact .one hx

theorem Means.of_perm (h : Means os a) (hperm : os'.Perm os)
    (hnodes : valuesOf .nodes os' = valuesOf .nodes os) : Means os' a where
  addr := (h.addr ▸ valuesOf_perm hperm).eq_singleton
  size := h.size.imp fun _ hsize => ⟨hsize.1.of_perm hperm, hsize.2⟩
  nodes := hnodes ▸ h.nodes
  attemptTimeout := h.attemptTimeout.imp fun _ hd => ⟨hd.1.of_perm hperm, hd.2⟩
  retryInterval := h.retryInterval.imp fun _ hd => ⟨hd.1.of_perm hperm, hd.2⟩
  waitDeadline := h.waitDeadline.of_perm hperm
  concurrentWait := (timesOf_perm hperm).trans h.concurrentWait
  noAnsi := (timesOf_perm hperm).trans h.noAnsi

end SingleShot.CommandLine
