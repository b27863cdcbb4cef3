import SingleShot.Proofs.Readiness.Order
import SingleShot.Proofs.Readiness.Schedule

/-!
# Which peer a timeout names

A wait fails only at its deadline, and it names the first peer, in the order of the list, that
has not accepted by then. In turn this is where the list of polls breaks off. Together it is the
first of the failures in the order of the list, in whatever order the polls end.

* `FailsAt`: the poll in a place fails, and those before it have finished.
* `inMode_failed`: polls that fail do so in some place, in the instant of their deadline.
-/

namespace SingleShot.Readiness

/-- Polls under a deadline fail in a place: every poll before has finished, and what has happened
comes from the polls, one after the other from those up to the place only. -/
structure FailsAt (mode : Mode) (polls : List Poll) (d : Nat) (trace : List (Timed Event))
    (f : Failure) (i : Nat) : Prop where
  here : ∃ p s e, polls[i]? = some p ∧ s.instant ≤ d ∧ (p.run s).outcome = .failed f e
  before : ∀ j p, j < i → polls[j]? = some p →
    ∃ s n e, s.instant ≤ d ∧ (p.run s).outcome = .finished n e ∧
      ∀ t ∈ (p.run s).trace, t ∈ trace
  source : ∀ t ∈ trace, ∃ j p s, polls[j]? = some p ∧ t ∈ (p.run s).trace ∧
    (j = i → ∃ e, (p.run s).outcome = .failed f e) ∧ (mode = .sequential → j ≤ i)

variable {polls : List Poll} {d : Nat} {m e : Moment} {f : Failure}

theorem inTurn_failed {attempts : Nat} (hd : ∀ p ∈ polls, p.limits.deadline = some d)
    (hm : m.instant ≤ d) (h : (inTurn attempts polls m).outcome = .failed f e) :
    e.instant = d ∧ ∃ i, FailsAt .sequential polls d (inTurn attempts polls m).trace f i := by
  induction polls generalizing attempts m with
  | nil => cases h
  | cons p polls ih =>
    have hp := hd p List.mem_cons_self
    rcases inTurn_cons_failed_iff.mp h with hf | ⟨k, m', hk, hf⟩
    · refine ⟨(Poll.run_failed_at hp hm hf).2, 0, ⟨p, m, e, rfl, hm, hf⟩, by omega, ?_⟩
      intro t ht
      rw [inTurn_cons, Course.trace_andThen_of_not_finished (by simp [hf])] at ht
      exact ⟨0, p, m, rfl, ht, fun _ => ⟨e, hf⟩, fun _ => Nat.le_refl 0⟩
    · have hm' := Poll.run_finished_by hp hm hk
      obtain ⟨he, i, hi⟩ := ih (fun q hq => hd q (List.mem_cons_of_mem _ hq)) hm' hf
      refine ⟨he, i + 1, hi.here, ?_, ?_⟩
      · intro j q hj hq
        rw [trace_inTurn_cons hk]
        cases j with
        | zero =>
          cases hq
          exact ⟨m, k, m', hm, hk, fun t ht => List.mem_append_left _ ht⟩
        | succ j =>
          obtain ⟨s, n, e', hs, hn, hsub⟩ := hi.before j q (by omega) hq
          exact ⟨s, n, e', hs, hn, fun t ht => List.mem_append_right _ (hsub t ht)⟩
      · intro t ht
        rw [trace_inTurn_cons hk] at ht
        rcases List.mem_append.mp ht with ht | ht
        · exact ⟨0, p, m, rfl, ht, by omega, by omega⟩
        · obtain ⟨j, q, s, hq, hts, hj, hji⟩ := hi.source t ht
          exact ⟨j + 1, q, s, hq, hts, fun hj' => hj (by omega), fun hs => by have := hji hs; omega⟩

/-- When several activities that begin together end, if each ends by the deadline and fails only
in its instant. -/
theorem joined_by {os : List (Outcome Nat)}
    (hfin : ∀ n e, .finished n e ∈ os → e.instant ≤ d)
    (hfail : ∀ f e, .failed f e ∈ os → e.instant = d) (hm : m.instant ≤ d) :
    (∀ n e, joined m os = .finished n e → e.instant ≤ d) ∧
      ∀ f e, joined m os = .failed f e → e.instant = d := by
  induction os with
  | nil =>
    refine ⟨?_, ?_⟩
    · intro n e h
      cases h
      exact hm
    · intro f e h
      cases h
  | cons o os ih =>
    obtain ⟨ihfin, ihfail⟩ := ih (fun n e h => hfin n e (List.mem_cons_of_mem _ h))
      (fun f e h => hfail f e (List.mem_cons_of_mem _ h))
    refine ⟨?_, ?_⟩
    · intro n e h
      obtain ⟨k, m', l, m'', rfl, ho, -, rfl⟩ := joined_cons_finished_iff.mp h
      have := hfin k m' List.mem_cons_self
      have := ihfin l m'' ho
      rw [Moment.instant_later]
      omega
    · intro f e h
      rcases joined_cons_failed_iff.mp h with
        ⟨m', m'', rfl, rfl, ⟨l, ho⟩ | ⟨g, ho⟩⟩ | ⟨k, m', m'', rfl, ho, rfl⟩
      · have := hfail f m' List.mem_cons_self
        have := ihfin l m'' ho
        rw [Moment.instant_later]
        omega
      · have := hfail f m' List.mem_cons_self
        have := ihfail g m'' ho
        rw [Moment.instant_later]
        omega
      · have := hfin k m' List.mem_cons_self
        have := ihfail f m'' ho
        rw [Moment.instant_later]
        omega

theorem together_by (hd : ∀ p ∈ polls, p.limits.deadline = some d) (hm : m.instant ≤ d) :
    (∀ n e, (together polls m).outcome = .finished n e → e.instant ≤ d) ∧
      ∀ f e, (together polls m).outcome = .failed f e → e.instant = d := by
  refine joined_by ?_ ?_ hm
  · intro n e hn
    simp only [List.map_map, List.mem_map, Function.comp_apply] at hn
    obtain ⟨p, hp, hn⟩ := hn
    exact Poll.run_finished_by (hd p hp) hm hn
  · intro g e hg
    simp only [List.map_map, List.mem_map, Function.comp_apply] at hg
    obtain ⟨p, hp, hg⟩ := hg
    exact (Poll.run_failed_at (hd p hp) hm hg).2

/-- The failure of polls that begin together is the first in the order of the list. -/
theorem together_failed_first (h : (together polls m).outcome = .failed f e) :
    ∃ i, ∃ p : Poll, ∃ e', polls[i]? = some p ∧ (p.run m).outcome = .failed f e' ∧
      ∀ (j : Nat) (q : Poll), j < i → polls[j]? = some q →
        ∃ n e'', (q.run m).outcome = .finished n e'' := by
  have h : joined m ((polls.map (·.run m)).map (·.outcome)) = .failed f e := h
  induction polls generalizing e with
  | nil => cases h
  | cons p polls ih =>
    rcases joined_cons_failed_iff.mp h with ⟨m', -, hp, -⟩ | ⟨k, m', m'', hp, ho, -⟩
    · exact ⟨0, p, m', rfl, hp, by omega⟩
    · obtain ⟨i, q, e', hq, hf, hbefore⟩ := ih ho ho
      refine ⟨i + 1, q, e', hq, hf, ?_⟩
      intro j r hj hr
      cases j with
      | zero =>
        cases hr
        exact ⟨k, m', hp⟩
      | succ j => exact hbefore j r (by omega) hr

theorem together_failed (hd : ∀ p ∈ polls, p.limits.deadline = some d) (hm : m.instant ≤ d)
    (h : (together polls m).outcome = .failed f e) :
    e.instant = d ∧ ∃ i, FailsAt .concurrent polls d (together polls m).trace f i := by
  constructor
  · exact (together_by hd hm).2 f e h
  · obtain ⟨i, p, e', hp, hpf, hbefore⟩ := together_failed_first h
    refine ⟨i, ⟨p, m, e', hp, hm, hpf⟩, ?_, ?_⟩
    · intro j q hj hq
      obtain ⟨n, e'', hn⟩ := hbefore j q hj hq
      refine ⟨m, n, e'', hm, hn, ?_⟩
      intro t ht
      exact mem_together.mpr ⟨q, List.mem_of_getElem? hq, ht⟩
    · intro t ht
      obtain ⟨q, hq, ht⟩ := mem_together.mp ht
      obtain ⟨j, hj⟩ := List.mem_iff_getElem?.mp hq
      refine ⟨j, q, m, hj, ht, ?_, by simp⟩
      rintro rfl
      cases hj.symm.trans hp
      exact ⟨e', hpf⟩

theorem inMode_failed {mode : Mode} (hd : ∀ p ∈ polls, p.limits.deadline = some d)
    (hm : m.instant ≤ d) (h : (inMode mode polls m).outcome = .failed f e) :
    e.instant = d ∧ ∃ i, FailsAt mode polls d (inMode mode polls m).trace f i := by
  cases mode with
  | sequential => exact inTurn_failed hd hm h
  | concurrent => exact together_failed hd hm h

theorem inMode_ne_failed {mode : Mode} (hd : ∀ p ∈ polls, p.deadline = none) (m : Moment)
    (f : Failure) (e : Moment) : (inMode mode polls m).outcome ≠ .failed f e := by
  have hrun : ∀ p ∈ polls, ∀ s g e', (p.run s).outcome ≠ .failed g e' :=
    fun p hp s => (p.polling_run s).not_failed (hd p hp)
  cases mode with
  | sequential =>
    suffices ∀ k m, (inTurn k polls m).outcome ≠ .failed f e from this 0 m
    clear hd
    induction polls with
    | nil => simp [inTurn, Course.done]
    | cons p polls ih =>
      intro k m h
      rcases inTurn_cons_failed_iff.mp h with hf | ⟨n, m', -, hf⟩
      · exact hrun p List.mem_cons_self m f e hf
      · exact ih (fun q hq => hrun q (List.mem_cons_of_mem _ hq)) _ m' hf
  | concurrent =>
    intro h
    obtain ⟨i, p, e', hp, hf, -⟩ := together_failed_first h
    exact hrun p (List.mem_of_getElem? hp) m f e' hf

/-! ## The wait -/

/-- The peer in a place has accepted by an instant. -/
def AcceptedBy (trace : List (Timed Event)) (d entry : Nat) : Prop :=
  ∃ t a, t ∈ trace ∧ t.event = .ended a .accepted ∧ a.entry = entry ∧ t.moment.instant ≤ d

theorem entry_of_mem_run {p : Poll} {t : Timed Event} (ht : t ∈ (p.run m).trace) {a : Attempt}
    (ha : t.event.attempt? = some a) : a.entry = p.entry := by
  obtain ⟨b, hb, hentry, -⟩ := attempt?_of_mem_run ht
  cases ha.symm.trans hb
  exact hentry

theorem acceptedBy_of_finished {p : Poll} (hd : p.limits.deadline = some d)
    (hm : m.instant ≤ d) {n : Nat} (h : (p.run m).outcome = .finished n e)
    {trace : List (Timed Event)} (hsub : ∀ t ∈ (p.run m).trace, t ∈ trace) :
    AcceptedBy trace d p.entry := by
  obtain ⟨m', hmem⟩ := (p.polling_run m).accepted_of_finished h
  exact ⟨_, _, hsub _ hmem, rfl, rfl, Poll.run_finished_by hd hm h⟩

theorem FailsAt.before_acceptedBy {mode : Mode} {trace : List (Timed Event)} {i : Nat}
    (h : FailsAt mode polls d trace f i) (hd : ∀ p ∈ polls, p.limits.deadline = some d)
    (hentry : ∀ j (p : Poll), polls[j]? = some p → p.entry = j) :
    ∀ j, j < i → AcceptedBy trace d j := by
  intro j hj
  obtain ⟨p, s, e, hp, -, -⟩ := h.here
  have hlt : j < polls.length := by
    have := (List.getElem?_eq_some_iff.mp hp).1
    omega
  have hq := List.getElem?_eq_getElem hlt
  obtain ⟨s, n, e, hs, hn, hsub⟩ := h.before j _ hj hq
  have hacc := acceptedBy_of_finished (hd _ (List.mem_of_getElem? hq)) hs hn hsub
  rwa [hentry j _ hq] at hacc

theorem FailsAt.not_acceptedBy {mode : Mode} {trace : List (Timed Event)} {i : Nat}
    (h : FailsAt mode polls d trace f i) (hentry : ∀ j (p : Poll), polls[j]? = some p → p.entry = j)
    (d' : Nat) : ¬ AcceptedBy trace d' i := by
  rintro ⟨t, a, ht, hacc, hai, -⟩
  obtain ⟨j, p, s, hp, hts, hji, -⟩ := h.source t ht
  have hentry' := entry_of_mem_run hts (a := a) (by rw [hacc]; rfl)
  obtain ⟨e, he⟩ := hji (by rw [← hentry j p hp, ← hentry', hai])
  obtain ⟨n, hn⟩ := (p.polling_run s).finished_of_accepted hts hacc
  cases he.symm.trans hn

theorem FailsAt.entry_le {trace : List (Timed Event)} {i : Nat}
    (h : FailsAt .sequential polls d trace f i)
    (hentry : ∀ j (p : Poll), polls[j]? = some p → p.entry = j) {t : Timed Event} (ht : t ∈ trace)
    {a : Attempt} (ha : t.event.attempt? = some a) : a.entry ≤ i := by
  obtain ⟨j, p, s, hp, hts, -, hji⟩ := h.source t ht
  rw [entry_of_mem_run hts ha, hentry j p hp]
  exact hji rfl

variable {environment : Environment} {policy : Policy} {horizon : Nat} {start : Moment}
  {addresses : List String}

theorem awaitAll_ne_failed (h : policy.deadline = none ∨
      (Endpoint.resolveAll addresses).resolved = []) (f : Failure) (e : Moment) :
    (awaitAll environment policy horizon start addresses).outcome ≠ .failed f e := by
  intro hf
  by_cases hpeers : (Endpoint.resolveAll addresses).resolved = []
  · rw [awaitAll_of_no_peer hpeers] at hf
    cases hf
  · have hnone := h.resolve_right hpeers
    refine inMode_ne_failed ?_ start f e (awaitAll_failed_iff.mp hf).2
    intro p hp
    rw [deadline_of_mem_waitPolls hp, Deadline.of, hnone]
    rfl

/-- A wait fails with a timeout of one of its peers, in the instant of its deadline. -/
theorem timeout_of_failed {f : Failure} {e : Moment}
    (h : (awaitAll environment policy horizon start addresses).outcome = .failed f e) :
    ∃ allowed, policy.deadline = some allowed ∧ e.instant = start.instant + allowed.nanos ∧
      ∃ peer ∈ (Endpoint.resolveAll addresses).resolved,
        f = .readinessTimeout peer.text allowed := by
  obtain ⟨allowed, hallowed⟩ : ∃ allowed, policy.deadline = some allowed := by
    cases hd : policy.deadline with
    | none => exact absurd h (awaitAll_ne_failed (Or.inl hd) f e)
    | some allowed => exact ⟨allowed, rfl⟩
  have hd : ∀ p ∈ waitPolls environment policy horizon start addresses,
      p.limits.deadline = some (start.instant + allowed.nanos) :=
    fun _ hp => instant_of_mem_waitPolls hallowed hp
  obtain ⟨he, i, hi⟩ := inMode_failed hd (Nat.le_add_right _ _) (awaitAll_failed_iff.mp h).2
  obtain ⟨p, s, e', hp, hs, hpf⟩ := hi.here
  have hmem := List.mem_of_getElem? hp
  have hpeer := List.mem_of_getElem? (entry_of_getElem?_waitPolls hp).2
  refine ⟨allowed, hallowed, he, p.peer, hpeer, ?_⟩
  rw [(Poll.run_failed_at (hd p hmem) hs hpf).1, expiry_of_mem_waitPolls hallowed hmem]

/-- A wait fails with nothing but a timeout, and in the instant of its deadline. The timeout
names the first peer, by its place in the list, that has not accepted by then: every peer before
it has accepted in time. In turn no peer after it has been asked at all. Without a deadline, or
without a peer to wait for, no wait fails. -/
theorem awaitAll_fails_at_first_pending (environment : Environment) (policy : Policy)
    (horizon : Nat) (start : Moment) (addresses : List String) :
    let wait := awaitAll environment policy horizon start addresses
    let peers := (Endpoint.resolveAll addresses).resolved
    (∀ f e, wait.outcome = .failed f e →
      ∃ allowed i peer, policy.deadline = some allowed ∧ peers[i]? = some peer ∧
        f = .readinessTimeout peer.text allowed ∧ e.instant = start.instant + allowed.nanos ∧
        (∀ j, j < i → AcceptedBy wait.trace (start.instant + allowed.nanos) j) ∧
        (∀ d, ¬ AcceptedBy wait.trace d i) ∧
        (policy.mode = .sequential →
          ∀ t ∈ wait.trace, ∀ a, t.event.attempt? = some a → a.entry ≤ i)) ∧
    (policy.deadline = none ∨ peers = [] → ∀ f e, wait.outcome ≠ .failed f e) := by
  intro wait peers
  refine ⟨?_, awaitAll_ne_failed⟩
  intro f e hf
  obtain ⟨allowed, hallowed⟩ : ∃ allowed, policy.deadline = some allowed := by
    cases h : policy.deadline with
    | none => exact absurd hf (awaitAll_ne_failed (Or.inl h) f e)
    | some allowed => exact ⟨allowed, rfl⟩
  have hd : ∀ p ∈ waitPolls environment policy horizon start addresses,
      p.limits.deadline = some (start.instant + allowed.nanos) :=
    fun _ hp => instant_of_mem_waitPolls hallowed hp
  obtain ⟨hbegin, hf⟩ := awaitAll_failed_iff.mp hf
  obtain ⟨he, i, hi⟩ := inMode_failed hd (by omega) hf
  have hentry : ∀ (j : Nat) (p : Poll),
      (waitPolls environment policy horizon start addresses)[j]? = some p → p.entry = j :=
    fun j p hp => (entry_of_getElem?_waitPolls hp).1
  obtain ⟨p, s, e', hp, hs, hpf⟩ := hi.here
  refine ⟨allowed, i, p.peer, hallowed, (entry_of_getElem?_waitPolls hp).2, ?_, he, ?_, ?_, ?_⟩
  · rw [(Poll.run_failed_at (hd p (List.mem_of_getElem? hp)) hs hpf).1]
    exact expiry_of_mem_waitPolls hallowed (List.mem_of_getElem? hp)
  · intro j hj
    obtain ⟨t, a, ht, hacc, hrest⟩ := hi.before_acceptedBy hd hentry j hj
    exact ⟨t, a, (mem_awaitAll hbegin (a := a) (by rw [hacc]; rfl)).mpr ht, hacc, hrest⟩
  · rintro d ⟨t, a, ht, hacc, hrest⟩
    have ht := (mem_awaitAll hbegin (a := a) (by rw [hacc]; rfl)).mp ht
    exact hi.not_acceptedBy hentry d ⟨t, a, ht, hacc, hrest⟩
  · intro hmode t ht a ha
    have ht := (mem_awaitAll hbegin ha).mp ht
    rw [hmode] at hi ht
    exact hi.entry_le hentry ht ha

/-- Every peer accepts at once, except the second, which never answers. -/
def secondSilent : Environment :=
  ⟨fun a => if a.entry = 1 then .silent else .accepts 0, .endless⟩

/-- Attempts of three nanoseconds with pauses of two, for seven nanoseconds. -/
def brief (mode : Mode) : Policy :=
  ⟨⟨3, by decide⟩, ⟨2, by decide⟩, some ⟨7, by decide⟩, mode⟩

theorem awaitAll_fails_at_second :
    let addresses := ["a:1", "x", "b:2", "c:3"]
    let wait := awaitAll secondSilent (brief .concurrent) 20 (Moment.dawn 0) addresses
    wait.outcome = .failed (.readinessTimeout "b:2" ⟨7, by decide⟩) (Moment.dawn 7) ∧
      ∃ i peer, (Endpoint.resolveAll addresses).resolved[i]? = some peer ∧
        peer.text = "b:2" ∧ ∀ j, j < i → AcceptedBy wait.trace 7 j := by
  intro addresses wait
  have hf : wait.outcome = .failed (.readinessTimeout "b:2" ⟨7, by decide⟩) (Moment.dawn 7) := by
    decide +kernel
  obtain ⟨allowed, i, peer, hallowed, hpeer, hname, -, hbefore, -⟩ :=
    (awaitAll_fails_at_first_pending _ _ _ _ _).1 _ _ hf
  cases hallowed
  exact ⟨hf, i, peer, hpeer, (Failure.readinessTimeout.inj hname).1.symm, hbefore⟩

end SingleShot.Readiness
