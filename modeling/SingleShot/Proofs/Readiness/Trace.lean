import Mathlib.Data.List.Basic
import SingleShot.Proofs.Readiness.Schedule
import SingleShot.Proofs.Readiness.Order

/-!
# Attempts in a trace

Which attempts begin in a trace, which of them are over, and which have been accepted, with what
the trace of a single poll tells of them.

* `Polling.begunIn_eq`: the attempts of a poll are the first ones of its schedule, as many as it
  counts if it finishes.
* `Polling.inFlight_le`: up to no point of its trace has a poll more than one attempt in flight.
* `Polling.eq_of_accepted`: an accept is the last thing that happens in a poll.
* `Polling.inOrder`: what happens in a poll stands in its trace in the order of the moments.
-/

namespace SingleShot.Readiness

/-- The attempt that an event begins. -/
def Event.begun? : Event → Option Attempt
  | .started a => some a
  | _ => none

/-- The attempt that an event ends. -/
def Event.over? : Event → Option Attempt
  | .ended a _ => some a
  | _ => none

/-- The place of the peer whose accept an event is. -/
def Event.accepted? : Event → Option Nat
  | .ended a .accepted => some a.entry
  | _ => none

/-- The attempts that begin in a trace, in order. -/
def begunIn (trace : List (Timed Event)) : List Attempt :=
  trace.filterMap (·.event.begun?)

/-- The attempts that end in a trace, in order. -/
def overIn (trace : List (Timed Event)) : List Attempt :=
  trace.filterMap (·.event.over?)

/-- The places of the peers that accept in a trace, in order. -/
def acceptedIn (trace : List (Timed Event)) : List Nat :=
  trace.filterMap (·.event.accepted?)

/-- The attempts that are in flight after a trace: they have begun in it and have not ended. -/
def inFlight (trace : List (Timed Event)) : List Attempt :=
  (begunIn trace).diff (overIn trace)

/-- The events of a trace stand in the order of their moments. -/
def InOrder (trace : List (Timed Event)) : Prop :=
  trace.Pairwise fun t u => t.moment.le u.moment = true

theorem begunIn_append (before after : List (Timed Event)) :
    begunIn (before ++ after) = begunIn before ++ begunIn after :=
  List.filterMap_append

theorem overIn_append (before after : List (Timed Event)) :
    overIn (before ++ after) = overIn before ++ overIn after :=
  List.filterMap_append

theorem acceptedIn_append (before after : List (Timed Event)) :
    acceptedIn (before ++ after) = acceptedIn before ++ acceptedIn after :=
  List.filterMap_append

theorem mem_begunIn {trace : List (Timed Event)} {a : Attempt} :
    a ∈ begunIn trace ↔ ∃ t ∈ trace, t.event = .started a := by
  rw [begunIn, List.mem_filterMap]
  apply exists_congr
  intro t
  apply and_congr_right
  intro _
  cases t.event <;> simp [Event.begun?]

/-- Where a trace that begins with two events can break off. -/
theorem prefix_pair_cases {before trace : List (Timed Event)} {t u : Timed Event}
    (h : before <+: t :: u :: trace) :
    before = [] ∨ before = [t] ∨ ∃ rest, before = t :: u :: rest ∧ rest <+: trace := by
  rcases List.prefix_cons_iff.mp h with hnil | ⟨tail, rfl, htail⟩
  · exact Or.inl hnil
  · rcases List.prefix_cons_iff.mp htail with rfl | ⟨rest, rfl, hrest⟩
    · exact Or.inr (Or.inl rfl)
    · exact Or.inr (Or.inr ⟨rest, rfl, hrest⟩)

/-- What is in flight after a trace in which all that begins ends is in flight without it. -/
theorem inFlight_append_of_over {before after : List (Timed Event)}
    (h : overIn before = begunIn before) : inFlight (before ++ after) = inFlight after := by
  rw [inFlight, begunIn_append, overIn_append, h, List.diff_append, inFlight]
  congr 1
  induction begunIn before with
  | nil => rfl
  | cons a attempts ih =>
    rw [List.cons_append, List.diff_cons, List.erase_cons_head]
    exact ih

namespace Poll

variable {p : Poll} {start m e : Moment} {fuel number n j d : Nat} {c : Course Event Nat}
  {before trace : List (Timed Event)}

/-! ## Single attempts -/

@[simp] theorem begunIn_begun (p : Poll) (number : Nat) (m : Moment) (trace : List (Timed Event)) :
    begunIn (p.begun number m :: trace) = p.attempt number m :: begunIn trace :=
  rfl

@[simp] theorem begunIn_closed (p : Poll) (number : Nat) (m : Moment) (trace : List (Timed Event)) :
    begunIn (p.closed number m :: trace) = begunIn trace :=
  rfl

@[simp] theorem overIn_begun (p : Poll) (number : Nat) (m : Moment) (trace : List (Timed Event)) :
    overIn (p.begun number m :: trace) = overIn trace :=
  rfl

@[simp] theorem overIn_closed (p : Poll) (number : Nat) (m : Moment) (trace : List (Timed Event)) :
    overIn (p.closed number m :: trace) = p.attempt number m :: overIn trace :=
  rfl

@[simp] theorem acceptedIn_begun (p : Poll) (number : Nat) (m : Moment)
    (trace : List (Timed Event)) : acceptedIn (p.begun number m :: trace) = acceptedIn trace :=
  rfl

theorem acceptedIn_closed_of_accepts (h : p.Accepts number m) (trace : List (Timed Event)) :
    acceptedIn (p.closed number m :: trace) = p.entry :: acceptedIn trace := by
  have h : (p.ending number m).2 = .accepted := h
  simp [acceptedIn, closed, h, Event.accepted?, attempt]

theorem acceptedIn_closed_of_not_accepts (h : ¬ p.Accepts number m) (trace : List (Timed Event)) :
    acceptedIn (p.closed number m :: trace) = acceptedIn trace := by
  cases he : (p.ending number m).2 with
  | accepted => exact absurd he h
  | refused | timedOut => simp [acceptedIn, closed, he, Event.accepted?]

theorem le_closing (p : Poll) (number : Nat) (m : Moment) : m.le (p.closing number m) = true :=
  Answer.le_ending _ _ _

theorem le_next (p : Poll) (number : Nat) (m : Moment) :
    (p.closing number m).le (p.next number m) = true :=
  Moment.le_pause _ _

/-! ## The attempts of a poll -/

/-- The attempt after `k` others, if nothing stops a poll before. -/
def planned (p : Poll) (start : Moment) (k : Nat) : Attempt :=
  p.attempt (k + 1) (p.opening start k)

/-- From one attempt of the schedule on, the attempts of a poll are those of the schedule without
a gap, and a poll that finishes has counted them. -/
theorem Polling.begunIn_eq (hc : Polling p fuel number m c) (hn : number = j + 1)
    (hm : m = p.opening start j) :
    ∃ k ≤ fuel, begunIn c.trace = (List.range' j k).map (p.planned start) ∧
      ∀ n e, c.outcome = .finished n e → n = j + k := by
  induction hc generalizing j with
  | spent hs =>
    refine ⟨0, Nat.le_refl 0, rfl, ?_⟩
    rintro n e rfl
    cases hs
  | idle => exact ⟨0, Nat.le_refl 0, rfl, by simp⟩
  | stopped hs =>
    subst hn hm
    refine ⟨1, by omega, rfl, ?_⟩
    rintro n e rfl
    cases hs
  | accepted =>
    subst hn hm
    refine ⟨1, by omega, rfl, ?_⟩
    intro n e h
    cases h
    rfl
  | paused _ _ hs =>
    subst hn hm
    refine ⟨1, by omega, rfl, ?_⟩
    rintro n e rfl
    cases hs
  | again _ _ _ _ ih =>
    subst hn hm
    obtain ⟨k, hk, htrace, hfin⟩ := ih (j := j + 1) rfl rfl
    refine ⟨k + 1, by omega, ?_, ?_⟩
    · rw [begunIn_begun, begunIn_closed, htrace]
      rfl
    · intro n e h
      have := hfin n e h
      omega

theorem begunIn_run (p : Poll) (start : Moment) :
    ∃ k, begunIn (p.run start).trace = (List.range k).map (p.planned start) ∧
      ∀ n e, (p.run start).outcome = .finished n e → n = k := by
  obtain ⟨k, -, htrace, hfin⟩ := (p.polling_run start).begunIn_eq (j := 0) rfl rfl
  refine ⟨k, htrace.trans (by rw [List.range_eq_range']), ?_⟩
  intro n e h
  rw [hfin n e h, Nat.zero_add]

theorem head?_run (h : start.instant < p.horizon) :
    (p.run start).trace.head? = some (p.begun 1 start) := by
  have hpoll := p.polling_run start
  obtain ⟨fuel, hfuel⟩ : ∃ fuel, p.horizon - start.instant = fuel + 1 :=
    ⟨p.horizon - start.instant - 1, by omega⟩
  rw [hfuel] at hpoll
  generalize p.run start = c at hpoll ⊢
  cases hpoll <;> rfl

/-! ## In flight -/

theorem inFlight_begun_closed (p : Poll) (number : Nat) (m : Moment)
    (trace : List (Timed Event)) :
    inFlight (p.begun number m :: p.closed number m :: trace) = inFlight trace := by
  have hover : overIn [p.begun number m, p.closed number m]
      = begunIn [p.begun number m, p.closed number m] := rfl
  exact inFlight_append_of_over hover

/-- An attempt is in flight from its beginning to its end. -/
theorem inFlight_le_of_prefix (h : before <+: p.begun number m :: p.closed number m :: trace)
    (hrest : ∀ before, before <+: trace → (inFlight before).length ≤ 1) :
    (inFlight before).length ≤ 1 := by
  rcases prefix_pair_cases h with rfl | rfl | ⟨rest, rfl, hrest'⟩
  · exact Nat.zero_le 1
  · exact Nat.le_refl 1
  · rw [inFlight_begun_closed]
    exact hrest rest hrest'

/-- Up to any point of its trace a poll has at most one attempt in flight. -/
theorem Polling.inFlight_le (hc : Polling p fuel number m c) (h : before <+: c.trace) :
    (inFlight before).length ≤ 1 := by
  have hnil : ∀ before : List (Timed Event), before <+: [] → (inFlight before).length ≤ 1 := by
    intro before h
    rw [List.prefix_nil.mp h]
    exact Nat.zero_le 1
  induction hc generalizing before with
  | spent | idle => exact hnil before h
  | @stopped _ number m =>
    have hpair : before <+: [p.begun number m, p.closed number m] :=
      h.trans (List.prefix_append [p.begun number m] [p.closed number m])
    exact inFlight_le_of_prefix hpair hnil
  | accepted | paused => exact inFlight_le_of_prefix h hnil
  | again _ _ _ _ ih => exact inFlight_le_of_prefix h fun before => ih

/-- A poll that finishes has nothing in flight. -/
theorem Polling.overIn_eq (hc : Polling p fuel number m c) (h : c.outcome = .finished n e) :
    overIn c.trace = begunIn c.trace := by
  induction hc with
  | spent hs | stopped hs | paused _ _ hs =>
    cases h
    cases hs
  | idle => cases h
  | accepted => rfl
  | again _ _ _ _ ih => rw [begunIn_begun, begunIn_closed, overIn_begun, overIn_closed, ih h]

/-! ## Accepts -/

/-- A poll has seen an accept exactly if it has finished, and then a single one. -/
theorem Polling.acceptedIn_eq (hc : Polling p fuel number m c) :
    (∃ n e, c.outcome = .finished n e) ∧ acceptedIn c.trace = [p.entry] ∨
      (∀ n e, c.outcome ≠ .finished n e) ∧ acceptedIn c.trace = [] := by
  induction hc with
  | spent hs | stopped hs =>
    refine Or.inr ⟨?_, rfl⟩
    rintro n e rfl
    cases hs
  | idle => exact Or.inr ⟨by simp, rfl⟩
  | accepted _ ha => exact Or.inl ⟨⟨_, _, rfl⟩, acceptedIn_closed_of_accepts ha []⟩
  | paused _ hna hs =>
    refine Or.inr ⟨?_, acceptedIn_closed_of_not_accepts hna []⟩
    rintro n e rfl
    cases hs
  | again _ hna _ _ ih =>
    rw [acceptedIn_begun, acceptedIn_closed_of_not_accepts hna]
    exact ih

theorem acceptedIn_of_finished (h : (p.run m).outcome = .finished n e) :
    acceptedIn (p.run m).trace = [p.entry] := by
  rcases (p.polling_run m).acceptedIn_eq with ⟨-, hacc⟩ | ⟨hnot, -⟩
  · exact hacc
  · exact absurd h (hnot n e)

theorem length_acceptedIn_run_le (p : Poll) (m : Moment) :
    (acceptedIn (p.run m).trace).length ≤ 1 := by
  rcases (p.polling_run m).acceptedIn_eq with ⟨-, hacc⟩ | ⟨-, hacc⟩
  · rw [hacc]
    exact Nat.le_refl 1
  · rw [hacc]
    exact Nat.zero_le 1

/-- An accept is the last thing that happens in a poll. -/
theorem Polling.eq_of_accepted (hc : Polling p fuel number m c) (h : before <+: c.trace)
    (hacc : acceptedIn before ≠ []) : before = c.trace := by
  induction hc generalizing before with
  | spent | idle => exact List.prefix_nil.mp h
  | stopped =>
    rcases List.prefix_cons_iff.mp h with rfl | ⟨rest, rfl, hrest⟩
    · exact absurd rfl hacc
    · rw [List.prefix_nil.mp hrest]
  | accepted | paused =>
    rcases prefix_pair_cases h with rfl | rfl | ⟨rest, rfl, hrest⟩
    · exact absurd rfl hacc
    · exact absurd rfl hacc
    · rw [List.prefix_nil.mp hrest]
  | again _ hna _ _ ih =>
    rcases prefix_pair_cases h with rfl | rfl | ⟨rest, rfl, hrest⟩
    · exact absurd rfl hacc
    · exact absurd rfl hacc
    · rw [acceptedIn_begun, acceptedIn_closed_of_not_accepts hna] at hacc
      rw [ih hrest hacc]

/-! ## When attempts begin and end -/

/-- Under a deadline no attempt begins after it. -/
theorem Polling.begun_by (hc : Polling p fuel number m c) (hd : p.limits.deadline = some d)
    (hm : m.instant ≤ d) {t : Timed Event} (ht : t ∈ c.trace) {a : Attempt}
    (ha : t.event = .started a) : t.moment.instant ≤ d := by
  induction hc with
  | spent | idle => cases ht
  | stopped =>
    rw [List.mem_singleton.mp ht]
    exact hm
  | accepted | paused =>
    rcases List.mem_cons.mp ht with rfl | ht
    · exact hm
    · rw [List.mem_singleton.mp ht] at ha
      cases ha
  | again hw _ hp _ ih =>
    rcases List.mem_cons.mp ht with rfl | ht
    · exact hm
    · rcases List.mem_cons.mp ht with rfl | ht
      · cases ha
      · have hclosing := Limits.instant_le_of_resumed hd hm hw
        exact ih (Limits.instant_le_of_resumed hd hclosing hp) ht

/-- A poll that finishes does so after whatever has happened in it. -/
theorem Polling.le_of_finished (hc : Polling p fuel number m c) (h : c.outcome = .finished n e) :
    m.le e = true ∧ ∀ t ∈ c.trace, t.moment.le e = true := by
  induction hc with
  | spent hs | stopped hs | paused _ _ hs =>
    cases h
    cases hs
  | idle => cases h
  | @accepted _ number m =>
    cases h
    refine ⟨p.le_closing n m, ?_⟩
    intro t ht
    rcases List.mem_cons.mp ht with rfl | ht
    · exact p.le_closing n m
    · rw [List.mem_singleton.mp ht]
      exact Moment.le_refl _
  | @again _ number m c _ _ _ _ ih =>
    obtain ⟨hnext, hrest⟩ := ih h
    have hclosing := Moment.le_trans (p.le_next number m) hnext
    have hm := Moment.le_trans (p.le_closing number m) hclosing
    refine ⟨hm, ?_⟩
    intro t ht
    rcases List.mem_cons.mp ht with rfl | ht
    · exact hm
    · rcases List.mem_cons.mp ht with rfl | ht
      · exact hclosing
      · exact hrest t ht

/-- What happens in a poll stands in the order of the moments, from the first attempt on. -/
theorem Polling.inOrder (hc : Polling p fuel number m c) :
    InOrder c.trace ∧ ∀ t ∈ c.trace, m.le t.moment = true := by
  induction hc with
  | spent | idle => exact ⟨List.Pairwise.nil, by simp⟩
  | @stopped _ number m =>
    refine ⟨List.pairwise_singleton _ _, ?_⟩
    intro t ht
    rw [List.mem_singleton.mp ht]
    exact m.le_refl
  | @accepted _ number m | @paused _ number m =>
    refine ⟨List.pairwise_pair.mpr (p.le_closing number m), ?_⟩
    intro t ht
    rcases List.mem_cons.mp ht with rfl | ht
    · exact m.le_refl
    · rw [List.mem_singleton.mp ht]
      exact p.le_closing number m
  | @again _ number m c _ _ _ _ ih =>
    obtain ⟨hsorted, hle⟩ := ih
    have hrest : ∀ t ∈ c.trace, (p.closing number m).le t.moment = true :=
      fun t ht => Moment.le_trans (p.le_next number m) (hle t ht)
    have hall : ∀ t ∈ p.closed number m :: c.trace, m.le t.moment = true := by
      intro t ht
      rcases List.mem_cons.mp ht with rfl | ht
      · exact p.le_closing number m
      · exact Moment.le_trans (p.le_closing number m) (hrest t ht)
    refine ⟨List.pairwise_cons.mpr ⟨hall, List.pairwise_cons.mpr ⟨hrest, hsorted⟩⟩, ?_⟩
    intro t ht
    rcases List.mem_cons.mp ht with rfl | ht
    · exact m.le_refl
    · exact hall t ht

end Poll

end SingleShot.Readiness
