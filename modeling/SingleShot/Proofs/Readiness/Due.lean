import Mathlib.Order.Nat
import SingleShot.Proofs.Readiness.Deadline
import SingleShot.Proofs.Readiness.Trace

/-!
# Waiting for a single peer

Without a deadline the attempts on a peer are due at instants that its answers alone decide: the
first at the start, and each other one a pause after the one before has ended. A wait for the peer
makes exactly these attempts, up to the first that is accepted, and it returns with the accept.

* `due`: the attempts that are due, whatever a poll makes of them.
* `Poll.planned_eq_due`: what a poll plans is what is due.
* `Poll.settles_finished_iff`, `Poll.pending_iff`: when a poll without a deadline finishes, and
  when it goes on forever.
-/

namespace SingleShot.Readiness

/-- A peer answers with an accept before the timeout of the attempt. -/
def Answer.InTime (answer : Answer) (timeout : Duration) : Prop :=
  ∃ delay, answer = .accepts delay ∧ delay < timeout.nanos

/-- The attempt on a peer that is due after `k` others: the first one is due at an instant, and
every other one a pause after the one before has ended, by its answer or by its timeout. -/
def due (environment : Environment) (policy : Policy) (entry : Nat) (peer : Endpoint)
    (start : Nat) : (k : Nat) → Attempt
  | 0 => ⟨entry, peer, 1, start⟩
  | k + 1 =>
    let last := due environment policy entry peer start k
    ⟨entry, peer, k + 2, last.start + (environment last).length policy.attemptTimeout
      + policy.retryInterval.nanos⟩

/-! ## Answers -/

theorem Answer.ending_accepted_iff {answer : Answer} {m : Moment} {timeout : Duration} :
    (answer.ending m timeout).2 = .accepted ↔ answer.InTime timeout := by
  constructor
  · exact accepts_of_ending
  · rintro ⟨delay, rfl, hdelay⟩
    simp [ending, hdelay]

theorem Answer.length_of_accepts {delay : Nat} {timeout : Duration} (h : delay < timeout.nanos) :
    (Answer.accepts delay).length timeout = delay :=
  if_pos h

/-- Answers that differ at most in why an attempt fails. -/
structure Answer.Alike (timeout : Duration) (answer answer' : Answer) : Prop where
  length : answer'.length timeout = answer.length timeout
  inTime : answer'.InTime timeout ↔ answer.InTime timeout

theorem Answer.Alike.symm {timeout : Duration} {answer answer' : Answer}
    (h : Answer.Alike timeout answer answer') : Answer.Alike timeout answer' answer :=
  ⟨h.length.symm, h.inTime.symm⟩

/-- Answers that are alike are the same if they are accepts in time. -/
theorem Answer.Alike.eq_of_inTime {timeout : Duration} {answer answer' : Answer}
    (h : Answer.Alike timeout answer answer') (hi : answer.InTime timeout) : answer' = answer := by
  obtain ⟨delay', rfl, hdelay'⟩ := h.inTime.mpr hi
  obtain ⟨delay, rfl, hdelay⟩ := hi
  have hlength := h.length
  rw [Answer.length_of_accepts hdelay, Answer.length_of_accepts hdelay'] at hlength
  rw [hlength]

/-- A deadline does not change what is due. -/
theorem due_withDeadline (environment : Environment) (policy : Policy) (deadline : Option Duration)
    (entry : Nat) (peer : Endpoint) (start k : Nat) :
    due environment (withDeadline policy deadline) entry peer start k
      = due environment policy entry peer start k := by
  induction k with
  | zero => rfl
  | succ k ih =>
    rw [due, due, ih]
    rfl

theorem due_of_alike {environment environment' : Environment} {policy : Policy}
    (h : ∀ a, Answer.Alike policy.attemptTimeout (environment a) (environment' a)) (entry : Nat)
    (peer : Endpoint) (start k : Nat) :
    due environment' policy entry peer start k = due environment policy entry peer start k := by
  induction k with
  | zero => rfl
  | succ k ih => rw [due, due, ih, (h _).length]

/-! ## What a poll plans -/

namespace Poll

variable {p : Poll} {start e : Moment} {n k : Nat}

/-- What a poll plans is what is due. -/
theorem planned_eq_due (p : Poll) (start : Moment) (k : Nat) :
    p.planned start k = due p.environment p.policy p.entry p.peer start.instant k := by
  induction k with
  | zero => rfl
  | succ k ih =>
    have hopening : (p.opening start (k + 1)).instant = (p.planned start k).start
        + (p.environment (p.planned start k)).length p.policy.attemptTimeout
        + p.policy.retryInterval.nanos := by
      rw [instant_opening_succ, reply, instant_closing]
      rfl
    rw [planned, attempt, hopening, ih]
    rfl

theorem accepts_opening_iff (p : Poll) (start : Moment) (k : Nat) :
    p.Accepts (k + 1) (p.opening start k) ↔
      (p.environment (p.planned start k)).InTime p.policy.attemptTimeout :=
  Answer.ending_accepted_iff

theorem firstAccepted_iff :
    p.FirstAccepted start k ↔
      IsLeast {j | (p.environment (p.planned start j)).InTime p.policy.attemptTimeout} k := by
  constructor
  · intro h
    refine ⟨(p.accepts_opening_iff start k).mp h.accepts, ?_⟩
    intro j hj
    by_contra hlt
    exact h.failed j (Nat.lt_of_not_le hlt) ((p.accepts_opening_iff start j).mpr hj)
  · rintro ⟨haccepts, hleast⟩
    refine ⟨(p.accepts_opening_iff start k).mpr haccepts, ?_⟩
    intro j hj ha
    exact Nat.not_le_of_lt hj (hleast ((p.accepts_opening_iff start j).mp ha))

theorem instant_reply_of_accepts {delay : Nat}
    (h : p.environment (p.planned start k) = .accepts delay)
    (hdelay : delay < p.policy.attemptTimeout.nanos) :
    (p.reply start k).instant = (p.planned start k).start + delay := by
  have hanswer : p.answer (k + 1) (p.opening start k) = .accepts delay := h
  rw [reply, instant_closing, hanswer, Answer.length_of_accepts hdelay]
  rfl

/-! ## Polls without a deadline -/

theorem planned_upTo (p : Poll) (horizon : Nat) (start : Moment) (k : Nat) :
    (p.upTo horizon).planned start k = p.planned start k := by
  rw [planned_eq_due, planned_eq_due]
  rfl

theorem firstAccepted_upTo (horizon : Nat) :
    (p.upTo horizon).FirstAccepted start k ↔ p.FirstAccepted start k := by
  simp only [firstAccepted_iff, planned_upTo]
  rfl

/-- Without a deadline a poll finishes with the first attempt that is accepted, and as soon as
its reply is seen. -/
theorem run_upTo_finished_iff (hd : p.deadline = none) {horizon : Nat} :
    ((p.upTo horizon).run start).outcome = .finished n e ↔
      ∃ k, n = k + 1 ∧ e = p.reply start k ∧ p.FirstAccepted start k ∧
        k < horizon - start.instant ∧ e.instant < horizon := by
  have hfree : (p.upTo horizon).limits.deadline = none := by simp [limits, upTo, hd]
  rw [run_finished_iff]
  apply exists_congr
  intro k
  rw [(p.alike_upTo horizon).reply, firstAccepted_upTo]
  constructor
  · rintro ⟨hn, he, hk, hfirst, hadmits⟩
    exact ⟨hn, he, hfirst, hk, hadmits.seen⟩
  · rintro ⟨hn, he, hfirst, hk, hseen⟩
    exact ⟨hn, he, hk, hfirst, by simp [hfree], by simp [hfree], hseen⟩

/-- Without a deadline a poll that is observed long enough finishes exactly with the first attempt
that is accepted. -/
theorem settles_finished_iff (hd : p.deadline = none) :
    Settles (fun horizon => (p.upTo horizon).run start) (.finished n e) ↔
      ∃ k, n = k + 1 ∧ e = p.reply start k ∧ p.FirstAccepted start k := by
  constructor
  · rintro ⟨h₀, hfin⟩
    obtain ⟨k, hn, he, hfirst, -⟩ := (run_upTo_finished_iff hd).mp (hfin h₀ (Nat.le_refl h₀))
    exact ⟨k, hn, he, hfirst⟩
  · rintro ⟨k, hn, he, hfirst⟩
    refine ⟨start.instant + k + e.instant + 1, ?_⟩
    intro horizon hh
    exact (run_upTo_finished_iff hd).mpr ⟨k, hn, he, hfirst, by omega, by omega⟩

/-- Without a deadline a poll goes on forever exactly if no attempt is ever accepted. -/
theorem pending_iff (hd : p.deadline = none) :
    (∀ horizon, ((p.upTo horizon).run start).outcome = .pending) ↔
      ∀ k, ¬ (p.environment (p.planned start k)).InTime p.policy.attemptTimeout := by
  classical
  constructor
  · intro hpending k hk
    have hsome : ∃ k, (p.environment (p.planned start k)).InTime p.policy.attemptTimeout :=
      ⟨k, hk⟩
    have hfirst : p.FirstAccepted start (Nat.find hsome) :=
      firstAccepted_iff.mpr (Nat.isLeast_find hsome)
    obtain ⟨h₀, hfin⟩ := (settles_finished_iff hd).mpr ⟨_, rfl, rfl, hfirst⟩
    cases (hpending h₀).symm.trans (hfin h₀ (Nat.le_refl h₀))
  · intro hnone horizon
    have hrun := (p.upTo horizon).polling_run start
    cases ho : ((p.upTo horizon).run start).outcome with
    | finished n e =>
      obtain ⟨k, -, -, hfirst, -⟩ := (run_upTo_finished_iff hd).mp ho
      exact absurd (firstAccepted_iff.mp hfirst).1 (hnone k)
    | failed f e => exact absurd ho (hrun.not_failed hd f e)
    | crashed e => exact absurd ho (hrun.not_crashed e)
    | pending => rfl

theorem Stops.horizon_le {since next : Moment} {o : Outcome Nat} (h : p.Stops since next o)
    (hd : p.limits.deadline = none) : p.horizon ≤ next.instant := by
  by_contra hlt
  have hresumed : p.limits.wait since next = .resumed := by
    by_cases he : since = next
    · rw [he, Limits.wait_self]
    · apply (Limits.wait_eq_resumed_iff he).mpr
      exact ⟨by simp [hd], by simp [hd], Nat.lt_of_not_le hlt⟩
  cases h with
  | expired h => cases hresumed.symm.trans h
  | unseen h => cases hresumed.symm.trans h

/-- Without a deadline every attempt begins that is due before the horizon and before an accept. -/
theorem Polling.mem_begunIn {fuel number j : Nat} {m : Moment} {c : Course Event Nat}
    (hc : Polling p fuel number m c) (hd : p.limits.deadline = none) (hn : number = j + 1)
    (hm : m = p.opening start j) (hk : k < fuel)
    (hfail : ∀ i, j ≤ i → i < j + k → ¬ p.Accepts (i + 1) (p.opening start i))
    (hh : (p.opening start (j + k)).instant < p.horizon) :
    p.planned start (j + k) ∈ begunIn c.trace := by
  induction hc generalizing j k with
  | spent | idle => omega
  | stopped hs =>
    subst hn hm
    cases k with
    | zero => exact List.mem_cons_self
    | succ k =>
      have hreply : p.horizon ≤ (p.reply start j).instant := hs.horizon_le hd
      have := p.instant_opening_succ start j
      have := p.instant_opening_mono start (show j + 1 ≤ j + (k + 1) by omega)
      omega
  | accepted _ ha =>
    subst hn hm
    cases k with
    | zero => exact List.mem_cons_self
    | succ k => exact absurd ha (hfail j (Nat.le_refl j) (by omega))
  | paused _ _ hs =>
    subst hn hm
    cases k with
    | zero => exact List.mem_cons_self
    | succ k =>
      have hnext : p.horizon ≤ (p.opening start (j + 1)).instant := hs.horizon_le hd
      have := p.instant_opening_mono start (show j + 1 ≤ j + (k + 1) by omega)
      omega
  | again _ _ _ _ ih =>
    subst hn hm
    rw [begunIn_begun, begunIn_closed]
    cases k with
    | zero => exact List.mem_cons_self
    | succ k =>
      have hplace : j + 1 + k = j + (k + 1) := by omega
      rw [← hplace] at hh ⊢
      apply List.mem_cons_of_mem
      apply ih rfl rfl (by omega) _ hh
      intro i hi hik
      exact hfail i (by omega) (by omega)

/-- Without a deadline and without an accept every attempt that is due begins at last. -/
theorem exists_mem_begunIn (hd : p.deadline = none)
    (hnone : ∀ k, ¬ (p.environment (p.planned start k)).InTime p.policy.attemptTimeout) (k : Nat) :
    ∃ horizon, p.planned start k ∈ begunIn ((p.upTo horizon).run start).trace := by
  let q := p.upTo (start.instant + k + (p.opening start k).instant + 1)
  have hfail : ∀ i, 0 ≤ i → i < 0 + k → ¬ q.Accepts (i + 1) (q.opening start i) := by
    intro i _ _ ha
    have hi := (q.accepts_opening_iff start i).mp ha
    rw [planned_upTo] at hi
    exact hnone i hi
  have hopening : q.opening start (0 + k) = p.opening start k := by
    rw [Nat.zero_add, (p.alike_upTo _).opening]
  have hmem := (q.polling_run start).mem_begunIn (k := k) (by simp [limits, q, upTo, hd]) rfl rfl
    (by simp only [q, upTo]; omega) hfail (by rw [hopening]; simp only [q, upTo]; omega)
  rw [Nat.zero_add, planned_upTo] at hmem
  exact ⟨_, hmem⟩

end Poll

/-! ## The wait for a peer -/

/-- A wait that is observed long enough returns this value at this instant. -/
def Returns (wait : Nat → Course Event Nat) (n instant : Nat) : Prop :=
  ∃ e, e.instant = instant ∧ Settles wait (.finished n e)

theorem start_of_mem_run {p : Poll} {start : Moment} {t : Timed Event} {a : Attempt}
    (ht : t ∈ (p.run start).trace) (ha : t.event = .started a) : t.moment.instant = a.start := by
  obtain ⟨i, rfl | rfl⟩ := Poll.mem_run_trace ht
  · cases ha
    rfl
  · cases ha

theorem returns_awaitPeer_iff (environment : Environment) (policy : Policy) (start : Moment)
    (peer : Endpoint) {n instant : Nat} :
    Returns (fun horizon => awaitPeer environment (withDeadline policy none) horizon start peer)
        n instant ↔
      ∃ k delay, n = k + 1 ∧
        IsLeast {j | (environment (due environment policy 0 peer start.instant j)).InTime
          policy.attemptTimeout} k ∧
        environment (due environment policy 0 peer start.instant k) = .accepts delay ∧
        instant = (due environment policy 0 peer start.instant k).start + delay := by
  let attempt := due environment policy 0 peer start.instant
  let p : Poll := ⟨environment, withDeadline policy none, none, 0, 0, peer⟩
  have hplanned : ∀ k, p.planned start k = attempt k :=
    fun k => (p.planned_eq_due start k).trans (due_withDeadline _ _ none _ _ _ k)
  have hfirst : ∀ k, p.FirstAccepted start k ↔
      IsLeast {j | (environment (attempt j)).InTime policy.attemptTimeout} k := by
    intro k
    rw [Poll.firstAccepted_iff]
    simp only [hplanned]
    rfl
  have hreply : ∀ k delay, environment (attempt k) = .accepts delay →
      delay < policy.attemptTimeout.nanos →
      (p.reply start k).instant = (attempt k).start + delay := by
    intro k delay hanswer hdelay
    rw [← hplanned] at hanswer ⊢
    exact Poll.instant_reply_of_accepts hanswer hdelay
  have hsettles : ∀ e, Settles (fun horizon => (p.upTo horizon).run start) (.finished n e) ↔
      ∃ k, n = k + 1 ∧ e = p.reply start k ∧ p.FirstAccepted start k :=
    fun e => Poll.settles_finished_iff rfl
  constructor
  · rintro ⟨e, he, hfin⟩
    obtain ⟨k, hn, rfl, hk⟩ := (hsettles e).mp hfin
    have hleast := (hfirst k).mp hk
    obtain ⟨delay, hanswer, hdelay⟩ := hleast.1
    exact ⟨k, delay, hn, hleast, hanswer, he.symm.trans (hreply k delay hanswer hdelay)⟩
  · rintro ⟨k, delay, hn, hleast, hanswer, rfl⟩
    obtain ⟨delay', hanswer', hdelay⟩ := hleast.1
    cases hanswer.symm.trans hanswer'
    refine ⟨p.reply start k, hreply k delay hanswer hdelay, ?_⟩
    exact (hsettles _).mpr ⟨k, hn, rfl, (hfirst k).mpr hleast⟩

theorem Returns.of_alike {environment environment' : Environment} {policy : Policy}
    {start : Moment} {peer : Endpoint} {n instant : Nat}
    (halike : ∀ a, Answer.Alike policy.attemptTimeout (environment a) (environment' a))
    (h : Returns (fun horizon =>
      awaitPeer environment (withDeadline policy none) horizon start peer) n instant) :
    Returns (fun horizon =>
      awaitPeer environment' (withDeadline policy none) horizon start peer) n instant := by
  obtain ⟨k, delay, hn, hleast, hanswer, hinstant⟩ :=
    (returns_awaitPeer_iff environment policy start peer).mp h
  apply (returns_awaitPeer_iff environment' policy start peer).mpr
  refine ⟨k, delay, hn, ?_, ?_, ?_⟩
  · simpa only [due_of_alike halike, (halike _).inTime] using hleast
  · rw [due_of_alike halike, (halike _).eq_of_inTime hleast.1]
    exact hanswer
  · rw [due_of_alike halike]
    exact hinstant

/-- Without a deadline the wait for a peer returns `n` exactly if the attempt that is due after
`n - 1` others is the first one that is accepted in time, and it returns in the instant of the
accept. Its attempts are those that are due, one after the other, and `n` of them if it returns
`n`. It never returns exactly if none of them is accepted in time, and then all of them are made.
Why an attempt fails makes no difference. -/
theorem awaitPeer_makes_attempts_due (environment : Environment) (policy : Policy) (start : Moment)
    (peer : Endpoint) :
    let wait := fun environment horizon =>
      awaitPeer environment (withDeadline policy none) horizon start peer
    let attempt := fun environment => due environment policy 0 peer start.instant
    let Accepted := fun k => (environment (attempt environment k)).InTime policy.attemptTimeout
    (∀ n instant, Returns (wait environment) n instant ↔
      ∃ k delay, n = k + 1 ∧ IsLeast {j | Accepted j} k ∧
        environment (attempt environment k) = .accepts delay ∧
        instant = (attempt environment k).start + delay) ∧
    (∀ horizon, ∃ k,
      begunIn (wait environment horizon).trace = (List.range k).map (attempt environment) ∧
      (∀ n e, (wait environment horizon).outcome = .finished n e → n = k) ∧
      ∀ t ∈ (wait environment horizon).trace, ∀ a, t.event = .started a →
        t.moment.instant = a.start) ∧
    ((∀ horizon, (wait environment horizon).outcome = .pending) ↔ ∀ k, ¬ Accepted k) ∧
    ((∀ k, ¬ Accepted k) → ∀ k, ∃ horizon,
      attempt environment k ∈ begunIn (wait environment horizon).trace) ∧
    ∀ environment', (∀ a, Answer.Alike policy.attemptTimeout (environment a) (environment' a)) →
      attempt environment' = attempt environment ∧
      ∀ n instant,
        Returns (wait environment') n instant ↔ Returns (wait environment) n instant := by
  intro wait attempt Accepted
  let p : Poll := ⟨environment, withDeadline policy none, none, 0, 0, peer⟩
  have hplanned : ∀ k, p.planned start k = attempt environment k :=
    fun k => (p.planned_eq_due start k).trans (due_withDeadline _ _ none _ _ _ k)
  have hpending : (∀ horizon, ((p.upTo horizon).run start).outcome = .pending) ↔ _ :=
    Poll.pending_iff rfl
  have hmem : _ → ∀ k, ∃ horizon, p.planned start k ∈ begunIn ((p.upTo horizon).run start).trace :=
    Poll.exists_mem_begunIn rfl
  simp only [hplanned] at hpending hmem
  refine ⟨fun _ _ => returns_awaitPeer_iff environment policy start peer, ?_, hpending, hmem, ?_⟩
  · intro horizon
    obtain ⟨k, htrace, hfin⟩ := (p.upTo horizon).begunIn_run start
    refine ⟨k, ?_, hfin, fun t ht a ha => start_of_mem_run ht ha⟩
    rw [← funext hplanned, ← funext (p.planned_upTo horizon start)]
    exact htrace
  · intro environment' halike
    refine ⟨funext (due_of_alike halike 0 peer start.instant), ?_⟩
    intro n instant
    exact ⟨Returns.of_alike fun a => (halike a).symm, Returns.of_alike halike⟩

/-- A peer refuses once, does not answer the second attempt, and accepts the third. -/
def acceptsThird : Environment where
  answer a :=
    if a.number = 1 then .refuses 1 .connectionRefused
    else if a.number = 2 then .silent
    else .accepts 2
  clock := .endless

/-- A peer that does not answer the second attempt in time, and otherwise answers as before. -/
def refusesLate : Environment where
  answer a := if a.number = 2 then .refuses 5 .connectionRefused else acceptsThird a
  clock := .endless

theorem alike_refusesLate (a : Attempt) :
    Answer.Alike ⟨3, by decide⟩ (acceptsThird a) (refusesLate a) := by
  by_cases hsecond : a.number = 2
  · have hthird : acceptsThird a = .silent := by simp [acceptsThird, hsecond]
    have hlate : refusesLate a = .refuses 5 .connectionRefused := by simp [refusesLate, hsecond]
    rw [hthird, hlate]
    exact ⟨rfl, by simp [Answer.InTime]⟩
  · have hsame : refusesLate a = acceptsThird a := by simp [refusesLate, hsecond]
    rw [hsame]
    exact ⟨rfl, Iff.rfl⟩

theorem awaitPeer_makes_attempts_due_up_to_third :
    let peer : Endpoint := ⟨"a", "1", by decide, by decide, by decide, by decide⟩
    let wait := fun environment horizon =>
      awaitPeer environment (withDeadline (brief .sequential) none) horizon (Moment.dawn 4) peer
    Returns (wait acceptsThird) 3 14 ∧
      begunIn (wait acceptsThird 20).trace = [⟨0, peer, 1, 4⟩, ⟨0, peer, 2, 7⟩, ⟨0, peer, 3, 12⟩] ∧
      Returns (wait refusesLate) 3 14 := by
  intro peer wait
  obtain ⟨hreturns, hmade, -, -, halike⟩ :=
    awaitPeer_makes_attempts_due acceptsThird (brief .sequential) (Moment.dawn 4) peer
  have hleast : IsLeast {j | (acceptsThird (due acceptsThird (brief .sequential) 0 peer 4 j)).InTime
      (brief .sequential).attemptTimeout} 2 := by
    refine ⟨⟨2, rfl, by decide⟩, ?_⟩
    rintro (_ | _ | j) hj
    · obtain ⟨delay, hdelay, -⟩ := hj
      cases hdelay
    · obtain ⟨delay, hdelay, -⟩ := hj
      cases hdelay
    · exact Nat.le_add_left 2 j
  have hthird : Returns (wait acceptsThird) 3 14 :=
    (hreturns 3 14).mpr ⟨2, 2, rfl, hleast, rfl, rfl⟩
  refine ⟨hthird, ?_, ((halike refusesLate alike_refusesLate).2 3 14).mpr hthird⟩
  obtain ⟨k, htrace, hcount, -⟩ := hmade 20
  have hfin : (wait acceptsThird 20).outcome = .finished 3 (Moment.dawn 14) := by decide +kernel
  obtain rfl : 3 = k := hcount 3 _ hfin
  exact htrace

end SingleShot.Readiness
