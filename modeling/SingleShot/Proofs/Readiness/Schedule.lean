import SingleShot.Proofs.Readiness.Polling

/-!
# The schedule of a poll

Left alone, a poll begins its first attempt when it starts, and each other attempt a pause after
the one before has ended. The schedule knows neither deadline nor horizon, and a poll under both
is the schedule cut short.

* `run_finished_iff`: a poll finishes exactly with the first attempt of the schedule that is
  accepted, provided that the limits admit the wait for it.
* `mem_run_trace`: whatever happens in a poll stands in the schedule.
* `Alike.run_finished`: polls of one schedule finish alike as far as their limits go.
* `ByNumber.instant_opening`: where the answer depends on the number of the attempt only, another
  start moves the whole schedule.
-/

namespace SingleShot.Readiness.Poll

/-- When the attempt after `k` others begins. -/
def opening (p : Poll) (start : Moment) : (k : Nat) → Moment
  | 0 => start
  | k + 1 => p.next (k + 1) (p.opening start k)

/-- When the attempt after `k` others is over. -/
def reply (p : Poll) (start : Moment) (k : Nat) : Moment :=
  p.closing (k + 1) (p.opening start k)

/-- The first attempt that is accepted comes after `k` others. -/
structure FirstAccepted (p : Poll) (start : Moment) (k : Nat) : Prop where
  accepts : p.Accepts (k + 1) (p.opening start k)
  failed : ∀ j < k, ¬ p.Accepts (j + 1) (p.opening start j)

variable {p q : Poll} {start e : Moment} {n : Nat}

/-! ## The order of the schedule -/

theorem instant_opening_le_reply (p : Poll) (start : Moment) (k : Nat) :
    (p.opening start k).instant ≤ (p.reply start k).instant := by
  rw [reply, instant_closing]
  omega

theorem instant_opening_succ (p : Poll) (start : Moment) (k : Nat) :
    (p.opening start (k + 1)).instant
      = (p.reply start k).instant + p.policy.retryInterval.nanos :=
  instant_next p (k + 1) _

theorem instant_opening_mono (p : Poll) (start : Moment) {j k : Nat} (h : j ≤ k) :
    (p.opening start j).instant ≤ (p.opening start k).instant := by
  induction k with
  | zero =>
    have : j = 0 := by omega
    subst this
    exact Nat.le_refl _
  | succ k ih =>
    by_cases hj : j = k + 1
    · subst hj
      exact Nat.le_refl _
    · have := ih (by omega)
      have := p.instant_opening_le_reply start k
      have := p.instant_opening_succ start k
      omega

/-- Every attempt before has taken at least the pause after it. -/
theorem mul_le_instant_opening (p : Poll) (start : Moment) (k : Nat) :
    start.instant + k * p.policy.retryInterval.nanos ≤ (p.opening start k).instant := by
  induction k with
  | zero => simp [opening]
  | succ k ih =>
    have := p.instant_opening_le_reply start k
    have := p.instant_opening_succ start k
    rw [Nat.add_one_mul]
    omega

/-- No attempt comes first twice. -/
theorem FirstAccepted.unique {j k : Nat} (hj : p.FirstAccepted start j)
    (hk : p.FirstAccepted start k) : j = k := by
  rcases Nat.lt_trichotomy j k with h | h | h
  · exact absurd hj.accepts (hk.failed j h)
  · exact h
  · exact absurd hk.accepts (hj.failed k h)

/-! ## Polls as cut schedules -/

/-- If the wait for an attempt is resumed, so is every wait before it. -/
theorem resumed_before {k : Nat} (ha : p.Accepts (k + 1) (p.opening start k))
    (h : p.limits.wait (p.opening start k) (p.reply start k) = .resumed) {a b : Moment}
    (hab : a.instant ≤ b.instant) (hb : b.instant ≤ (p.opening start k).instant) :
    p.limits.wait a b = .resumed :=
  Limits.resumed_of_within h (ne_closing_of_accepts ha) (p.instant_opening_le_reply start k)
    hab hb

theorem attempts_of_firstAccepted {k : Nat} (hk : p.FirstAccepted start k)
    (h : p.limits.wait (p.opening start k) (p.reply start k) = .resumed) {fuel j : Nat}
    (hj : j ≤ k) (hf : k < j + fuel) :
    (p.attempts fuel (j + 1) (p.opening start j)).outcome
      = .finished (k + 1) (p.reply start k) := by
  induction fuel generalizing j with
  | zero => omega
  | succ fuel ih =>
    by_cases he : j = k
    · subst he
      rw [attempts_of_accepts h hk.accepts]
      rfl
    · have hr := p.instant_opening_le_reply start j
      have hs := p.instant_opening_succ start j
      have hm := p.instant_opening_mono start (show j + 1 ≤ k by omega)
      have hw : p.limits.wait (p.opening start j) (p.reply start j) = .resumed :=
        resumed_before hk.accepts h hr (by omega)
      have hp : p.limits.wait (p.reply start j) (p.opening start (j + 1)) = .resumed :=
        resumed_before hk.accepts h (by omega) hm
      rw [attempts_of_not_accepts hw (hk.failed j (by omega))]
      have hrest := wait_of_resumed hp (p.attempts fuel (j + 1 + 1))
      simp only [reply, opening] at hrest
      simp only [hrest]
      exact ih (by omega) (by omega)

theorem Polling.firstAccepted {fuel number : Nat} {m : Moment} {c : Course Event Nat}
    (hc : Polling p fuel number m c) (h : c.outcome = .finished n e) {j : Nat}
    (hn : number = j + 1) (hm : m = p.opening start j) :
    ∃ k, n = k + 1 ∧ e = p.reply start k ∧ j ≤ k ∧ k < j + fuel ∧
      p.Accepts (k + 1) (p.opening start k) ∧
      (∀ i, j ≤ i → i < k → ¬ p.Accepts (i + 1) (p.opening start i)) ∧
      p.limits.wait (p.opening start k) (p.reply start k) = .resumed := by
  induction hc generalizing j with
  | spent hs | stopped hs | paused _ _ hs =>
    cases h
    cases hs
  | idle => cases h
  | accepted hw ha =>
    cases h
    subst hn hm
    exact ⟨j, rfl, rfl, by omega, by omega, ha, fun i _ _ => by omega, hw⟩
  | again hw ha hp _ ih =>
    subst hn hm
    obtain ⟨k, rfl, rfl, hjk, hkf, hacc, hfirst, hwk⟩ := ih h rfl rfl
    refine ⟨k, rfl, rfl, by omega, by omega, hacc, ?_, hwk⟩
    intro i hi hik
    by_cases he : i = j
    · subst he
      exact ha
    · exact hfirst i (by omega) hik

/-- A poll finishes with the first attempt of its schedule that is accepted, if the limits
admit the wait for it. -/
theorem run_finished_iff :
    (p.run start).outcome = .finished n e ↔
      ∃ k, n = k + 1 ∧ e = p.reply start k ∧ k < p.horizon - start.instant ∧
        p.FirstAccepted start k ∧ p.limits.Admits (p.opening start k) e := by
  constructor
  · intro h
    obtain ⟨k, rfl, rfl, -, hf, ha, hfirst, hw⟩ :=
      (p.polling_run start).firstAccepted h (j := 0) rfl rfl
    refine ⟨k, rfl, rfl, by omega, ⟨ha, fun j hj => hfirst j (by omega) hj⟩, ?_⟩
    exact (Limits.wait_eq_resumed_iff (ne_closing_of_accepts ha)).mp hw
  · rintro ⟨k, rfl, rfl, hf, hk, hadm⟩
    have hw := (Limits.wait_eq_resumed_iff (ne_closing_of_accepts hk.accepts)).mpr hadm
    exact attempts_of_firstAccepted hk hw (j := 0) (by omega) (by omega)

theorem Polling.mem_trace {fuel number : Nat} {m : Moment} {c : Course Event Nat}
    (hc : Polling p fuel number m c) {t : Timed Event} (ht : t ∈ c.trace) {j : Nat}
    (hn : number = j + 1) (hm : m = p.opening start j) :
    ∃ i, t = p.begun (i + 1) (p.opening start i) ∨ t = p.closed (i + 1) (p.opening start i) := by
  induction hc generalizing j with
  | spent | idle => cases ht
  | stopped =>
    subst hn hm
    exact ⟨j, Or.inl (List.mem_singleton.mp ht)⟩
  | accepted | paused =>
    subst hn hm
    rcases List.mem_cons.mp ht with rfl | ht
    · exact ⟨j, Or.inl rfl⟩
    · exact ⟨j, Or.inr (List.mem_singleton.mp ht)⟩
  | again _ _ _ _ ih =>
    subst hn hm
    rcases List.mem_cons.mp ht with rfl | ht
    · exact ⟨j, Or.inl rfl⟩
    · rcases List.mem_cons.mp ht with rfl | ht
      · exact ⟨j, Or.inr rfl⟩
      · exact ih ht (j := j + 1) rfl rfl

/-- Whatever happens in a poll is the beginning or the end of an attempt of its schedule. -/
theorem mem_run_trace {t : Timed Event} (ht : t ∈ (p.run start).trace) :
    ∃ i, t = p.begun (i + 1) (p.opening start i) ∨ t = p.closed (i + 1) (p.opening start i) :=
  (p.polling_run start).mem_trace ht (j := 0) rfl rfl

/-! ## Polls of one schedule -/

/-- Polls that differ only in what stops them. -/
structure Alike (p q : Poll) : Prop where
  environment : q.environment = p.environment
  entry : q.entry = p.entry
  peer : q.peer = p.peer
  attemptTimeout : q.policy.attemptTimeout = p.policy.attemptTimeout
  retryInterval : q.policy.retryInterval = p.policy.retryInterval

theorem alike_upTo (p : Poll) (horizon : Nat) : Alike p (p.upTo horizon) :=
  ⟨rfl, rfl, rfl, rfl, rfl⟩

theorem Alike.ending (h : Alike p q) (number : Nat) (m : Moment) :
    q.ending number m = p.ending number m := by
  simp [Poll.ending, attempt, h.environment, h.entry, h.peer, h.attemptTimeout]

theorem Alike.opening (h : Alike p q) (start : Moment) (k : Nat) :
    q.opening start k = p.opening start k := by
  induction k with
  | zero => rfl
  | succ k ih => simp [Poll.opening, ih, next, closing, h.ending, h.retryInterval]

theorem Alike.reply (h : Alike p q) (start : Moment) (k : Nat) :
    q.reply start k = p.reply start k := by
  simp [Poll.reply, closing, h.opening, h.ending]

theorem Alike.firstAccepted (h : Alike p q) {k : Nat} (hk : p.FirstAccepted start k) :
    q.FirstAccepted start k := by
  refine ⟨?_, ?_⟩
  · simpa [Accepts, h.opening, h.ending] using hk.accepts
  · simpa [Accepts, h.opening, h.ending] using hk.failed

/-- What finishes under one pair of limits finishes under another that admits the same wait. -/
theorem Alike.run_finished (h : Alike p q) (hp : (p.run start).outcome = .finished n e)
    (hh : p.horizon ≤ q.horizon)
    (hadm : ∀ m : Moment, m.instant ≤ e.instant → p.limits.Admits m e → q.limits.Admits m e) :
    (q.run start).outcome = .finished n e := by
  obtain ⟨k, rfl, rfl, hf, hk, ha⟩ := run_finished_iff.mp hp
  have hr := h.reply start k
  have ho := h.opening start k
  refine run_finished_iff.mpr ⟨k, rfl, hr.symm, by omega, h.firstAccepted hk, ?_⟩
  rw [ho]
  exact hadm _ (p.instant_opening_le_reply start k) ha

/-! ## Moving a schedule -/

/-- The answer to an attempt depends on the number of the attempt, and not on when it starts. -/
def ByNumber (p : Poll) : Prop :=
  ∀ number m m', p.answer number m = p.answer number m'

theorem ByNumber.accepts_iff (h : p.ByNumber) (number : Nat) (m m' : Moment) :
    p.Accepts number m ↔ p.Accepts number m' := by
  have ha : p.environment (p.attempt number m) = p.environment (p.attempt number m') :=
    h number m m'
  unfold Accepts Poll.ending
  rw [ha, Answer.ending_snd _ m m']

theorem ByNumber.instant_reply (h : p.ByNumber) (start start' : Moment) (k : Nat)
    (ho : (p.opening start k).instant + start'.instant
      = (p.opening start' k).instant + start.instant) :
    (p.reply start k).instant + start'.instant
      = (p.reply start' k).instant + start.instant := by
  have := h (k + 1) (p.opening start k) (p.opening start' k)
  rw [reply, reply, instant_closing, instant_closing, this]
  omega

/-- Another start moves every attempt by as much. -/
theorem ByNumber.instant_opening (h : p.ByNumber) (start start' : Moment) (k : Nat) :
    (p.opening start k).instant + start'.instant
      = (p.opening start' k).instant + start.instant := by
  induction k with
  | zero => simp [opening, Nat.add_comm]
  | succ k ih =>
    have := h.instant_reply start start' k ih
    rw [instant_opening_succ, instant_opening_succ]
    omega

theorem ByNumber.firstAccepted (h : p.ByNumber) {k : Nat} (hk : p.FirstAccepted start k)
    (start' : Moment) : p.FirstAccepted start' k :=
  ⟨(h.accepts_iff _ _ _).mp hk.accepts, fun j hj ha => hk.failed j hj ((h.accepts_iff _ _ _).mp ha)⟩

end SingleShot.Readiness.Poll
