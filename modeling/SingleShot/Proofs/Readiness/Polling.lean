import SingleShot.Proofs.Readiness.Attempt
import SingleShot.Readiness.Poll

/-!
# The rules of polling

`Poll.attempts` written as rules: an attempt is stopped, accepted, or failed; after a failed one
the pause is stopped, or the next attempt follows. `polling_attempts` says that every poll
follows the rules, so that what holds of a poll is proved rule by rule.

* `Polling.failed`: a poll fails at its deadline, and `Polling.finished_of_accepted` says that
  one that has seen an accept does not fail.
* `Polling.not_pending`: a poll whose deadline lies before the horizon ends.
* `Stops.upTo`: a wait that has stopped a poll stops it under every later horizon.
-/

namespace SingleShot.Readiness

namespace Poll

/-- When an attempt that begins at a moment is over. -/
def closing (p : Poll) (number : Nat) (m : Moment) : Moment :=
  (p.ending number m).1

/-- When the attempt after a failed one begins. -/
def next (p : Poll) (number : Nat) (m : Moment) : Moment :=
  (p.closing number m).pause p.policy.retryInterval.nanos

/-- An attempt that begins at a moment is answered by an accept in time. -/
def Accepts (p : Poll) (number : Nat) (m : Moment) : Prop :=
  (p.ending number m).2 = .accepted

/-- The answer to an attempt. -/
def answer (p : Poll) (number : Nat) (m : Moment) : Answer :=
  p.environment (p.attempt number m)

theorem instant_closing (p : Poll) (number : Nat) (m : Moment) :
    (p.closing number m).instant
      = m.instant + (p.answer number m).length p.policy.attemptTimeout :=
  Answer.instant_ending _ _ _

theorem instant_next (p : Poll) (number : Nat) (m : Moment) :
    (p.next number m).instant
      = (p.closing number m).instant + p.policy.retryInterval.nanos :=
  Moment.instant_pause _ _

theorem ne_closing_of_accepts {p : Poll} {number : Nat} {m : Moment}
    (h : p.Accepts number m) : m ≠ p.closing number m :=
  Answer.ne_ending_of_accepted h

/-- The beginning of an attempt as something that happens. -/
def begun (p : Poll) (number : Nat) (m : Moment) : Timed Event :=
  ⟨m, .started (p.attempt number m)⟩

/-- The end of an attempt as something that happens. -/
def closed (p : Poll) (number : Nat) (m : Moment) : Timed Event :=
  ⟨p.closing number m, .ended (p.attempt number m) (p.ending number m).2⟩

/-! ## The rules -/

/-- A wait within a poll that is not resumed, and how the poll ends with it. -/
inductive Stops (p : Poll) (since next : Moment) : Outcome Nat → Prop
  | expired {m : Moment} :
    p.limits.wait since next = .expired m → Stops p since next (.failed p.expiry m)
  | unseen : p.limits.wait since next = .unseen → Stops p since next .pending

/-- The courses of a poll from an attempt on that begins at a moment, with so many attempts
at most. -/
inductive Polling (p : Poll) : (fuel number : Nat) → Moment → Course Event Nat → Prop
  | spent {number : Nat} {m : Moment} {o : Outcome Nat} :
    p.Stops m (Moment.dawn p.horizon) o → Polling p 0 number m ⟨[], o⟩
  | idle {number : Nat} {m : Moment} :
    p.limits.wait m (Moment.dawn p.horizon) = .resumed → Polling p 0 number m ⟨[], .pending⟩
  | stopped {fuel number : Nat} {m : Moment} {o : Outcome Nat} :
    p.Stops m (p.closing number m) o →
    Polling p (fuel + 1) number m ⟨[p.begun number m], o⟩
  | accepted {fuel number : Nat} {m : Moment} :
    p.limits.wait m (p.closing number m) = .resumed → p.Accepts number m →
    Polling p (fuel + 1) number m
      ⟨[p.begun number m, p.closed number m], .finished number (p.closing number m)⟩
  | paused {fuel number : Nat} {m : Moment} {o : Outcome Nat} :
    p.limits.wait m (p.closing number m) = .resumed → ¬ p.Accepts number m →
    p.Stops (p.closing number m) (p.next number m) o →
    Polling p (fuel + 1) number m ⟨[p.begun number m, p.closed number m], o⟩
  | again {fuel number : Nat} {m : Moment} {c : Course Event Nat} :
    p.limits.wait m (p.closing number m) = .resumed → ¬ p.Accepts number m →
    p.limits.wait (p.closing number m) (p.next number m) = .resumed →
    Polling p fuel (number + 1) (p.next number m) c →
    Polling p (fuel + 1) number m ⟨p.begun number m :: p.closed number m :: c.trace, c.outcome⟩

theorem attempts_of_stops {p : Poll} {fuel number : Nat} {m : Moment} {o : Outcome Nat}
    (h : p.Stops m (p.closing number m) o) :
    p.attempts (fuel + 1) number m = ⟨[p.begun number m], o⟩ := by
  cases h with
  | expired h =>
    have h : p.limits.wait m (p.ending number m).1 = .expired _ := h
    simp [attempts, wait, h, Course.after, Course.fail, begun]
  | unseen h =>
    have h : p.limits.wait m (p.ending number m).1 = .unseen := h
    simp [attempts, wait, h, Course.after, begun]

theorem attempts_of_accepts {p : Poll} {fuel number : Nat} {m : Moment}
    (h : p.limits.wait m (p.closing number m) = .resumed) (ha : p.Accepts number m) :
    p.attempts (fuel + 1) number m =
      ⟨[p.begun number m, p.closed number m], .finished number (p.closing number m)⟩ := by
  have h : p.limits.wait m (p.ending number m).1 = .resumed := h
  have ha : (p.ending number m).2 = .accepted := ha
  simp [attempts, wait, h, ha, Course.after, Course.done, begun, closed, closing]

/-- After a failed attempt a poll pauses and goes on with the next one. -/
theorem attempts_of_not_accepts {p : Poll} {fuel number : Nat} {m : Moment}
    (h : p.limits.wait m (p.closing number m) = .resumed) (ha : ¬ p.Accepts number m) :
    p.attempts (fuel + 1) number m =
      let rest := p.wait (p.closing number m) (p.next number m) (p.attempts fuel (number + 1))
      ⟨p.begun number m :: p.closed number m :: rest.trace, rest.outcome⟩ := by
  have h : p.limits.wait m (p.ending number m).1 = .resumed := h
  unfold attempts
  simp only [wait, Course.after, h]
  cases he : (p.ending number m).2 with
  | accepted => exact absurd he ha
  | refused why => simp [begun, closed, closing, next, he]
  | timedOut after => simp [begun, closed, closing, next, he]

theorem wait_of_stops {p : Poll} {since next : Moment} {o : Outcome Nat}
    (h : p.Stops since next o) (goOn : Moment → Course Event Nat) :
    p.wait since next goOn = ⟨[], o⟩ := by
  cases h with
  | expired h => simp [wait, h, Course.fail]
  | unseen h => simp [wait, h]

theorem wait_of_resumed {p : Poll} {since next : Moment}
    (h : p.limits.wait since next = .resumed) (goOn : Moment → Course Event Nat) :
    p.wait since next goOn = goOn next := by
  simp [wait, h]

/-- A wait within a poll is resumed, or the poll ends with it. -/
theorem resumed_or_stops (p : Poll) (since next : Moment) :
    p.limits.wait since next = .resumed ∨ ∃ o, p.Stops since next o := by
  cases h : p.limits.wait since next with
  | resumed => exact Or.inl rfl
  | expired m => exact Or.inr ⟨_, .expired h⟩
  | unseen => exact Or.inr ⟨_, .unseen h⟩

/-- Every poll follows the rules. -/
theorem polling_attempts (p : Poll) (fuel number : Nat) (m : Moment) :
    Polling p fuel number m (p.attempts fuel number m) := by
  induction fuel generalizing number m with
  | zero =>
    rcases p.resumed_or_stops m (Moment.dawn p.horizon) with h | ⟨o, h⟩
    · rw [attempts, wait_of_resumed h]
      exact .idle h
    · rw [attempts, wait_of_stops h]
      exact .spent h
  | succ fuel ih =>
    rcases p.resumed_or_stops m (p.closing number m) with h | ⟨o, h⟩
    · by_cases ha : p.Accepts number m
      · rw [attempts_of_accepts h ha]
        exact .accepted h ha
      · rw [attempts_of_not_accepts h ha]
        rcases p.resumed_or_stops (p.closing number m) (p.next number m) with hp | ⟨o, hp⟩
        · rw [wait_of_resumed hp]
          exact .again h ha hp (ih (number + 1) (p.next number m))
        · rw [wait_of_stops hp]
          exact .paused h ha hp
    · rw [attempts_of_stops h]
      exact .stopped h

theorem polling_run (p : Poll) (m : Moment) :
    Polling p (p.horizon - m.instant) 1 m (p.run m) :=
  p.polling_attempts _ 1 m

section

variable {p : Poll} {fuel number d : Nat} {m e : Moment} {o : Outcome Nat}
  {c : Course Event Nat}

theorem Stops.failed {since next : Moment} {f : Failure} (h : p.Stops since next (.failed f e))
    (hd : p.limits.deadline = some d) (hs : since.instant ≤ d) :
    f = p.expiry ∧ e.instant = d := by
  cases h with
  | expired h => exact ⟨rfl, Limits.instant_of_expired hd hs h⟩

/-- A poll that fails has reached its deadline. -/
theorem Polling.failed (hc : Polling p fuel number m c) (hd : p.limits.deadline = some d)
    (hm : m.instant ≤ d) {f : Failure} (h : c.outcome = .failed f e) :
    f = p.expiry ∧ e.instant = d := by
  induction hc with
  | spent hs | stopped hs =>
    cases h
    exact hs.failed hd hm
  | idle | accepted => cases h
  | paused hw _ hs =>
    cases h
    exact hs.failed hd (Limits.instant_le_of_resumed hd hm hw)
  | again hw _ hp _ ih =>
    have hcl := Limits.instant_le_of_resumed hd hm hw
    exact ih (Limits.instant_le_of_resumed hd hcl hp) h

/-- Without a deadline no poll fails. -/
theorem Polling.not_failed (hc : Polling p fuel number m c) (hd : p.deadline = none)
    (f : Failure) (e : Moment) : c.outcome ≠ .failed f e := by
  have hl : p.limits.deadline = none := by simp [limits, hd]
  induction hc with
  | spent hs | stopped hs | paused _ _ hs =>
    rintro rfl
    cases hs with
    | expired h => exact Limits.wait_ne_expired hl _ _ _ h
  | idle | accepted => simp
  | again _ _ _ _ ih => exact ih

/-- A poll that has seen an accept is finished with it. -/
theorem Polling.finished_of_accepted (hc : Polling p fuel number m c) {t : Timed Event}
    {a : Attempt} (ht : t ∈ c.trace) (ha : t.event = .ended a .accepted) :
    ∃ n, c.outcome = .finished n t.moment := by
  induction hc with
  | spent | idle => cases ht
  | stopped =>
    rw [List.mem_singleton.mp ht] at ha
    cases ha
  | accepted =>
    rcases List.mem_cons.mp ht with rfl | ht
    · cases ha
    · rw [List.mem_singleton.mp ht]
      exact ⟨_, rfl⟩
  | paused _ hna =>
    rcases List.mem_cons.mp ht with rfl | ht
    · cases ha
    · rw [List.mem_singleton.mp ht, closed] at ha
      exact absurd (Event.ended.inj ha).2 hna
  | again _ hna _ _ ih =>
    rcases List.mem_cons.mp ht with rfl | ht
    · cases ha
    · rcases List.mem_cons.mp ht with rfl | ht
      · rw [closed] at ha
        exact absurd (Event.ended.inj ha).2 hna
      · exact ih ht

/-- A poll that is finished has seen an accept, and it is finished with it. -/
theorem Polling.accepted_of_finished (hc : Polling p fuel number m c) {n : Nat}
    (h : c.outcome = .finished n e) :
    ∃ m', ⟨e, .ended (p.attempt n m') .accepted⟩ ∈ c.trace := by
  induction hc with
  | spent hs | stopped hs | paused _ _ hs =>
    cases h
    cases hs
  | idle => cases h
  | @accepted _ _ m _ ha =>
    cases h
    have ha : (p.ending n m).2 = .accepted := ha
    exact ⟨m, by simp [closed, ha]⟩
  | again _ _ _ _ ih =>
    obtain ⟨m', hm'⟩ := ih h
    exact ⟨m', List.mem_cons_of_mem _ (List.mem_cons_of_mem _ hm')⟩

/-- A poll that is finished under a deadline is finished by then. -/
theorem Polling.finished_by (hc : Polling p fuel number m c) (hd : p.limits.deadline = some d)
    (hm : m.instant ≤ d) {n : Nat} (h : c.outcome = .finished n e) : e.instant ≤ d := by
  induction hc with
  | spent hs | stopped hs | paused _ _ hs =>
    cases h
    cases hs
  | idle => cases h
  | accepted hw =>
    cases h
    exact Limits.instant_le_of_resumed hd hm hw
  | again hw _ hp _ ih =>
    have hcl := Limits.instant_le_of_resumed hd hm hw
    exact ih (Limits.instant_le_of_resumed hd hcl hp) h

theorem Stops.ne_pending {since next : Moment} (h : p.Stops since next o)
    (hd : p.limits.deadline = some d) (hh : d < p.horizon) (hs : since.instant ≤ d) :
    o ≠ .pending := by
  cases h with
  | expired => simp
  | unseen h => exact absurd h (Limits.wait_ne_unseen hd hh hs)

/-- No poll crashes. -/
theorem Polling.not_crashed (hc : Polling p fuel number m c) (e : Moment) :
    c.outcome ≠ .crashed e := by
  induction hc with
  | spent hs | stopped hs | paused _ _ hs => cases hs <;> simp
  | idle | accepted => simp
  | again _ _ _ _ ih => exact ih

theorem run_failed_at (hd : p.limits.deadline = some d) (hm : m.instant ≤ d)
    {f : Failure} (h : (p.run m).outcome = .failed f e) : f = p.expiry ∧ e.instant = d :=
  (p.polling_run m).failed hd hm h

theorem run_finished_by (hd : p.limits.deadline = some d) (hm : m.instant ≤ d)
    {n : Nat} (h : (p.run m).outcome = .finished n e) : e.instant ≤ d :=
  (p.polling_run m).finished_by hd hm h

end

/-! ## Later horizons -/

/-- The same poll, observed up to another horizon. -/
def upTo (p : Poll) (horizon : Nat) : Poll :=
  { p with horizon }

theorem Stops.upTo {p : Poll} {since next : Moment} {o : Outcome Nat} {horizon : Nat}
    (h : p.Stops since next o) (ho : o ≠ .pending) (hh : p.horizon ≤ horizon) :
    (p.upTo horizon).Stops since next o := by
  cases h with
  | expired h =>
    apply Stops.expired
    rw [← h]
    exact Limits.wait_of_horizon_le rfl hh (by simp [h])
  | unseen => exact absurd rfl ho

theorem resumed_upTo {p : Poll} {since next : Moment} {horizon : Nat}
    (h : p.limits.wait since next = .resumed) (hh : p.horizon ≤ horizon) :
    (p.upTo horizon).limits.wait since next = .resumed := by
  rw [← h]
  exact Limits.wait_of_horizon_le rfl hh (by simp [h])

end Poll

end SingleShot.Readiness
