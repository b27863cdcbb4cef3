import Mathlib
import SingleShot.Proofs.CommandLine.Meaning
import SingleShot.Proofs.CommandLine.Reading

/-!
# Taking up occurrences

Occurrences are taken up from left to right, each on top of what has been given before.
`Given.Extends` says what comes of it, setting by setting.

* `Given.absorbAll_eq_ok_iff`: occurrences are taken up as `Given.Extends` says.
* `Given.arguments_eq_ok_iff`: the standard texts stand for the standard settings of a run.
* `exists_extends_iff_means`: what is taken up in the end is the meaning of the occurrences.
-/

namespace SingleShot.CommandLine

open Success

variable {α : Type} {g g₁ g' : Given} {a : Arguments} {s : Setting} {f : Flag} {o : Occurrence}
  {os : List Occurrence} {text : String} {values : List String}

/-! ## Values after values -/

/-- What the values of a setting make of what was given to it before. -/
def Adds (reads : String → α → Prop) (values : List String) (before after : Option α) : Prop :=
  values = [] ∧ after = before ∨ before = none ∧ Tells reads values after

theorem adds_nil {reads : String → α → Prop} {before after : Option α} :
    Adds reads [] before after ↔ after = before := by
  constructor
  · rintro (⟨-, h⟩ | ⟨rfl, ⟨⟩⟩)
    · exact h
    · rfl
  · intro h
    exact Or.inl ⟨rfl, h⟩

theorem adds_cons {reads : String → α → Prop} {before after : Option α} :
    Adds reads (text :: values) before after ↔
      before = none ∧ ∃ x, reads text x ∧ Adds reads values (some x) after := by
  constructor
  · rintro (⟨h, -⟩ | ⟨rfl, h⟩)
    · cases h
    · cases h with
      | one hx => exact ⟨rfl, _, hx, Or.inl ⟨rfl, rfl⟩⟩
  · rintro ⟨rfl, x, hx, ⟨rfl, rfl⟩ | ⟨h, -⟩⟩
    · exact Or.inr ⟨rfl, .one hx⟩
    · cases h

theorem adds_none {reads : String → α → Prop} {after : Option α} :
    Adds reads values none after ↔ Tells reads values after := by
  constructor
  · rintro (⟨rfl, rfl⟩ | ⟨-, h⟩)
    · exact .nothing
    · exact h
  · intro h
    exact Or.inr ⟨rfl, h⟩

/-- How often a flag is given, if it has been given before or not. -/
def Raises (times : Nat) (before after : Bool) : Prop :=
  after.toNat = before.toNat + times

theorem raises_zero {before after : Bool} : Raises 0 before after ↔ after = before := by
  cases before <;> cases after <;> simp [Raises]

theorem raises_succ {times : Nat} {before after : Bool} :
    Raises (times + 1) before after ↔ before = false ∧ Raises times true after := by
  have hlast := Bool.toNat_le after
  cases before with
  | false => simp [Raises, Nat.add_comm]
  | true =>
    simp only [Raises, Bool.toNat_true, reduceCtorEq, false_and, iff_false]
    omega

namespace Given

/-- What occurrences make of what has been given before them. -/
structure Extends (g : Given) (os : List Occurrence) (g' : Given) : Prop where
  addr : Adds (fun text x => x = text) (valuesOf .addr os) g.addr g'.addr
  size : Adds ReadsSize (valuesOf .size os) g.size g'.size
  nodes : g'.nodes = g.nodes ++ (valuesOf .nodes os).flatMap nodesOf
  attemptTimeout : Adds ReadsDuration (valuesOf .attemptTimeout os) g.attemptTimeout g'.attemptTimeout
  retryInterval : Adds ReadsDuration (valuesOf .retryInterval os) g.retryInterval g'.retryInterval
  waitDeadline : Adds ReadsDuration (valuesOf .waitDeadline os) g.waitDeadline g'.waitDeadline
  concurrentWait : Raises (timesOf .concurrentWait os) g.concurrentWait g'.concurrentWait
  noAnsi : Raises (timesOf .noAnsi os) g.noAnsi g'.noAnsi

theorem readSize_eq_ok_iff {n : Nat} : readSize text = .ok n ↔ ReadsSize text n := by
  rw [readSize, mapError_eq_ok_iff, Text.readNumber_eq_ok_iff (by decide)]
  rfl

theorem readDuration_eq_ok_iff {d : Duration} : readDuration s text = .ok d ↔ ReadsDuration text d := by
  rw [readDuration, mapError_eq_ok_iff]
  rfl

theorem absorb_value_eq_ok_iff :
    g.absorb (.value s text) = .ok g₁ ↔ g.isComplete s = false ∧ g.store s text = .ok g₁ := by
  rw [absorb, settle]
  cases g.isComplete s <;> simp

theorem absorb_concurrentWait_eq_ok_iff :
    g.absorb (.flag .concurrentWait) = .ok g₁ ↔
      g.concurrentWait = false ∧ { g with concurrentWait := true } = g₁ := by
  rw [absorb, raise, hasFlag]
  cases g.concurrentWait <;> simp

theorem absorb_noAnsi_eq_ok_iff :
    g.absorb (.flag .noAnsi) = .ok g₁ ↔ g.noAnsi = false ∧ { g with noAnsi := true } = g₁ := by
  rw [absorb, raise, hasFlag]
  cases g.noAnsi <;> simp

theorem extends_nil : Extends g [] g' ↔ g' = g := by
  constructor
  · intro h
    have haddr := adds_nil.mp h.addr
    have hsize := adds_nil.mp h.size
    have hnodes := h.nodes
    have hattempt := adds_nil.mp h.attemptTimeout
    have hretry := adds_nil.mp h.retryInterval
    have hdeadline := adds_nil.mp h.waitDeadline
    have hwait := raises_zero.mp h.concurrentWait
    have hansi := raises_zero.mp h.noAnsi
    cases g
    cases g'
    simp_all [valuesOf]
  · rintro rfl
    exact ⟨adds_nil.mpr rfl, adds_nil.mpr rfl, by simp [valuesOf], adds_nil.mpr rfl,
      adds_nil.mpr rfl, adds_nil.mpr rfl, raises_zero.mpr rfl, raises_zero.mpr rfl⟩

theorem extends_value :
    Extends g (.value s text :: os) g' ↔
      ∃ g₁, g.absorb (.value s text) = .ok g₁ ∧ Extends g₁ os g' := by
  simp only [absorb_value_eq_ok_iff]
  -- Only the facts about the field of `s` change; the others hold of both sides as they are.
  cases s with
  | addr =>
    simp only [isComplete, store, Option.isSome_eq_false_iff, Option.isNone_iff_eq_none,
      Except.ok.injEq]
    constructor
    · intro h
      obtain ⟨hnone, x, rfl, hadds⟩ := adds_cons.mp h.addr
      exact ⟨_, ⟨hnone, rfl⟩, { h with addr := hadds }⟩
    · rintro ⟨g₁, ⟨hnone, rfl⟩, h⟩
      exact { h with addr := adds_cons.mpr ⟨hnone, text, rfl, h.addr⟩ }
  | size =>
    simp only [isComplete, store, map_eq_ok_iff, readSize_eq_ok_iff, Option.isSome_eq_false_iff,
      Option.isNone_iff_eq_none]
    constructor
    · intro h
      obtain ⟨hnone, n, hn, hadds⟩ := adds_cons.mp h.size
      exact ⟨_, ⟨hnone, n, hn, rfl⟩, { h with size := hadds }⟩
    · rintro ⟨g₁, ⟨hnone, n, hn, rfl⟩, h⟩
      exact { h with size := adds_cons.mpr ⟨hnone, n, hn, h.size⟩ }
  | nodes =>
    have hvalues : valuesOf .nodes (.value .nodes text :: os) = text :: valuesOf .nodes os := rfl
    simp only [isComplete, store, Except.ok.injEq, true_and, exists_eq_left']
    constructor
    · intro h
      refine { h with nodes := ?_ }
      rw [h.nodes, hvalues, List.flatMap_cons, List.append_assoc]
    · intro h
      refine { h with nodes := ?_ }
      rw [h.nodes, hvalues, List.flatMap_cons, List.append_assoc]
  | attemptTimeout =>
    simp only [isComplete, store, map_eq_ok_iff, readDuration_eq_ok_iff, Option.isSome_eq_false_iff,
      Option.isNone_iff_eq_none]
    constructor
    · intro h
      obtain ⟨hnone, d, hd, hadds⟩ := adds_cons.mp h.attemptTimeout
      exact ⟨_, ⟨hnone, d, hd, rfl⟩, { h with attemptTimeout := hadds }⟩
    · rintro ⟨g₁, ⟨hnone, d, hd, rfl⟩, h⟩
      exact { h with attemptTimeout := adds_cons.mpr ⟨hnone, d, hd, h.attemptTimeout⟩ }
  | retryInterval =>
    simp only [isComplete, store, map_eq_ok_iff, readDuration_eq_ok_iff, Option.isSome_eq_false_iff,
      Option.isNone_iff_eq_none]
    constructor
    · intro h
      obtain ⟨hnone, d, hd, hadds⟩ := adds_cons.mp h.retryInterval
      exact ⟨_, ⟨hnone, d, hd, rfl⟩, { h with retryInterval := hadds }⟩
    · rintro ⟨g₁, ⟨hnone, d, hd, rfl⟩, h⟩
      exact { h with retryInterval := adds_cons.mpr ⟨hnone, d, hd, h.retryInterval⟩ }
  | waitDeadline =>
    simp only [isComplete, store, map_eq_ok_iff, readDuration_eq_ok_iff, Option.isSome_eq_false_iff,
      Option.isNone_iff_eq_none]
    constructor
    · intro h
      obtain ⟨hnone, d, hd, hadds⟩ := adds_cons.mp h.waitDeadline
      exact ⟨_, ⟨hnone, d, hd, rfl⟩, { h with waitDeadline := hadds }⟩
    · rintro ⟨g₁, ⟨hnone, d, hd, rfl⟩, h⟩
      exact { h with waitDeadline := adds_cons.mpr ⟨hnone, d, hd, h.waitDeadline⟩ }

theorem timesOf_cons_self : timesOf f (.flag f :: os) = timesOf f os + 1 :=
  List.count_cons_self

theorem extends_flag :
    Extends g (.flag f :: os) g' ↔ ∃ g₁, g.absorb (.flag f) = .ok g₁ ∧ Extends g₁ os g' := by
  cases f with
  | concurrentWait =>
    simp only [absorb_concurrentWait_eq_ok_iff]
    constructor
    · intro h
      obtain ⟨hfalse, hraises⟩ := raises_succ.mp (timesOf_cons_self ▸ h.concurrentWait)
      exact ⟨_, ⟨hfalse, rfl⟩, { h with concurrentWait := hraises }⟩
    · rintro ⟨g₁, ⟨hfalse, rfl⟩, h⟩
      exact { h with
        concurrentWait := timesOf_cons_self ▸ raises_succ.mpr ⟨hfalse, h.concurrentWait⟩ }
  | noAnsi =>
    simp only [absorb_noAnsi_eq_ok_iff]
    constructor
    · intro h
      obtain ⟨hfalse, hraises⟩ := raises_succ.mp (timesOf_cons_self ▸ h.noAnsi)
      exact ⟨_, ⟨hfalse, rfl⟩, { h with noAnsi := hraises }⟩
    · rintro ⟨g₁, ⟨hfalse, rfl⟩, h⟩
      exact { h with noAnsi := timesOf_cons_self ▸ raises_succ.mpr ⟨hfalse, h.noAnsi⟩ }

theorem absorbAll_eq_ok_iff : g.absorbAll os = .ok g' ↔ Extends g os g' := by
  induction os generalizing g with
  | nil =>
    rw [extends_nil, absorbAll, Except.ok.injEq, eq_comm]
  | cons o os ih =>
    rw [absorbAll_cons_eq_ok_iff]
    simp only [ih]
    rcases o with ⟨s, text⟩ | f
    · exact extends_value.symm
    · exact extends_flag.symm

/-! ## Standard values -/

theorem readSize_standardSize : readSize standardSize = .ok Config.defaultSize := by
  rw [readSize, mapError_eq_ok_iff]
  exact Text.readNumber_toString (by decide)

theorem readDuration_standardAttemptTimeout :
    readDuration s standardAttemptTimeout = .ok Policy.standard.attemptTimeout := by
  rw [readDuration, mapError_eq_ok_iff]
  cbv

theorem readDuration_standardRetryInterval :
    readDuration s standardRetryInterval = .ok Policy.standard.retryInterval := by
  rw [readDuration, mapError_eq_ok_iff]
  cbv

theorem orStandard_eq_ok_iff {given : Option α} {read : String → Except ArgumentError α}
    {standard x : α} (hread : read text = .ok standard) :
    orStandard given read text = .ok x ↔ x = given.getD standard := by
  cases given with
  | none => simp [orStandard, hread, eq_comm]
  | some y => simp [orStandard, eq_comm]

/-- The arguments are what has been given, and the standard values for the rest. -/
theorem arguments_eq_ok_iff :
    g.arguments = .ok a ↔
      g.addr = some a.addr ∧ a =
        { addr := a.addr
          size := g.size.getD Config.defaultSize
          nodes := g.nodes
          attemptTimeout := g.attemptTimeout.getD Policy.standard.attemptTimeout
          retryInterval := g.retryInterval.getD Policy.standard.retryInterval
          waitDeadline := g.waitDeadline
          concurrentWait := g.concurrentWait
          noAnsi := g.noAnsi } := by
  simp only [arguments, bind_eq_ok_iff, orStandard_eq_ok_iff readSize_standardSize,
    orStandard_eq_ok_iff readDuration_standardAttemptTimeout,
    orStandard_eq_ok_iff readDuration_standardRetryInterval, exists_eq_left]
  cases g.addr with
  | none => simp
  | some addr =>
    simp only [pure_eq_ok_iff, Option.some.injEq]
    constructor
    · rintro rfl
      exact ⟨rfl, rfl⟩
    · rintro ⟨rfl, h⟩
      exact h

end Given

theorem raises_false {times : Nat} {after : Bool} :
    Raises times false after ↔ times = after.toNat := by
  simp [Raises, eq_comm]

theorem exists_extends_iff_means :
    (∃ g, Given.none.Extends os g ∧ g.arguments = .ok a) ↔ Means os a := by
  simp only [Given.arguments_eq_ok_iff]
  constructor
  · rintro ⟨g, h, haddr, ha⟩
    have htarget := h.addr
    rw [haddr] at htarget
    obtain ⟨text, hvalues, rfl⟩ := tells_some.mp (adds_none.mp htarget)
    rw [ha]
    exact
      { addr := hvalues
        size := ⟨g.size, adds_none.mp h.size, rfl⟩
        nodes := h.nodes
        attemptTimeout := ⟨g.attemptTimeout, adds_none.mp h.attemptTimeout, rfl⟩
        retryInterval := ⟨g.retryInterval, adds_none.mp h.retryInterval, rfl⟩
        waitDeadline := adds_none.mp h.waitDeadline
        concurrentWait := raises_false.mp h.concurrentWait
        noAnsi := raises_false.mp h.noAnsi }
  · intro h
    obtain ⟨size, hsize, hsize'⟩ := h.size
    obtain ⟨attempt, hattempt, hattempt'⟩ := h.attemptTimeout
    obtain ⟨retry, hretry, hretry'⟩ := h.retryInterval
    refine ⟨⟨some a.addr, size, a.nodes, attempt, retry, a.waitDeadline, a.concurrentWait, a.noAnsi⟩,
      ?_, rfl, ?_⟩
    · exact
        { addr := adds_none.mpr (tells_some.mpr ⟨a.addr, h.addr, rfl⟩)
          size := adds_none.mpr hsize
          nodes := h.nodes
          attemptTimeout := adds_none.mpr hattempt
          retryInterval := adds_none.mpr hretry
          waitDeadline := adds_none.mpr h.waitDeadline
          concurrentWait := raises_false.mpr h.concurrentWait
          noAnsi := raises_false.mpr h.noAnsi }
    · rw [← hsize', ← hattempt', ← hretry']

end SingleShot.CommandLine
