import SingleShot.Proofs.Course
import SingleShot.Proofs.Readiness.Schedule
import SingleShot.Readiness.Wait

/-!
# Polls in turn and together

What a wait makes of its polls, in either mode.

* `inTurn_cons_finished_iff`, `joined_cons_finished_iff`: several polls finish if each does, one
  after the other or all from the beginning, and their attempts add up.
* `getElem?_pollsOf`: the poll in a place is the poll of the peer in that place.
* `outcome_awaitAll`: a wait ends as its polls do, if they begin; `awaitAll_crashed_iff` says
  that it crashes exactly if they do not.
* `attemptEvents_awaitAll`: the attempts of a wait are those of its polls.
-/

namespace SingleShot.Readiness

variable {environment : Environment} {policy : Policy} {horizon : Nat} {start m e : Moment}
  {addresses : List String}

/-! ## One after the other -/

theorem inTurn_cons (attempts : Nat) (p : Poll) (polls : List Poll) (m : Moment) :
    inTurn attempts (p :: polls) m
      = (p.run m).andThen fun more m => inTurn (attempts + more) polls m :=
  rfl

theorem inTurn_cons_finished_iff {attempts n : Nat} {p : Poll} {polls : List Poll} :
    (inTurn attempts (p :: polls) m).outcome = .finished n e ↔
      ∃ k m', (p.run m).outcome = .finished k m' ∧
        (inTurn (attempts + k) polls m').outcome = .finished n e :=
  Course.andThen_finished_iff

theorem inTurn_cons_failed_iff {attempts : Nat} {f : Failure} {p : Poll} {polls : List Poll} :
    (inTurn attempts (p :: polls) m).outcome = .failed f e ↔
      (p.run m).outcome = .failed f e ∨
        ∃ k m', (p.run m).outcome = .finished k m' ∧
          (inTurn (attempts + k) polls m').outcome = .failed f e :=
  Course.andThen_failed_iff

theorem trace_inTurn_cons {attempts k : Nat} {p : Poll} {polls : List Poll} {m' : Moment}
    (h : (p.run m).outcome = .finished k m') :
    (inTurn attempts (p :: polls) m).trace
      = (p.run m).trace ++ (inTurn (attempts + k) polls m').trace := by
  rw [inTurn_cons, Course.andThen_of_finished h]

/-- Polls that begin with a poll go on with the others if it finishes, and break off with it
else. -/
theorem trace_inTurn_cons_cases (attempts : Nat) (p : Poll) (polls : List Poll) (m : Moment) :
    (∃ k m', (p.run m).outcome = .finished k m' ∧
      (inTurn attempts (p :: polls) m).trace
        = (p.run m).trace ++ (inTurn (attempts + k) polls m').trace) ∨
      (∀ k m', (p.run m).outcome ≠ .finished k m') ∧
        (inTurn attempts (p :: polls) m).trace = (p.run m).trace := by
  by_cases hp : ∃ k m', (p.run m).outcome = .finished k m'
  · obtain ⟨k, m', hp⟩ := hp
    exact Or.inl ⟨k, m', hp, trace_inTurn_cons hp⟩
  · have hp : ∀ k m', (p.run m).outcome ≠ .finished k m' := fun k m' h => hp ⟨k, m', h⟩
    exact Or.inr ⟨hp, Course.trace_andThen_of_not_finished hp⟩

/-! ## All at once -/

/-- Two activities that begin together end when both have ended. -/
theorem joined_cons_finished_iff {o : Outcome Nat} {os : List (Outcome Nat)} {n : Nat} :
    joined m (o :: os) = .finished n e ↔
      ∃ k m' l m'', o = .finished k m' ∧ joined m os = .finished l m'' ∧
        n = k + l ∧ e = m'.later m'' := by
  constructor
  · intro h
    cases ho : joined m os <;> cases o <;> simp only [joined, ho] at h <;> cases h
    exact ⟨_, _, _, _, rfl, rfl, rfl, rfl⟩
  · rintro ⟨k, m', l, m'', rfl, ho, rfl, rfl⟩
    simp only [joined, ho]

/-- They fail with the failure of the first one, if that fails, and else with the other's. -/
theorem joined_cons_failed_iff {o : Outcome Nat} {os : List (Outcome Nat)} {f : Failure} :
    joined m (o :: os) = .failed f e ↔
      (∃ m' m'', o = .failed f m' ∧ e = m'.later m'' ∧
        ((∃ l, joined m os = .finished l m'') ∨ ∃ g, joined m os = .failed g m'')) ∨
      ∃ k m' m'', o = .finished k m' ∧ joined m os = .failed f m'' ∧ e = m'.later m'' := by
  constructor
  · intro h
    cases ho : joined m os <;> cases o <;> simp only [joined, ho] at h <;> cases h
    · exact Or.inl ⟨_, _, rfl, rfl, Or.inl ⟨_, rfl⟩⟩
    · exact Or.inr ⟨_, _, _, rfl, rfl, rfl⟩
    · exact Or.inl ⟨_, _, rfl, rfl, Or.inr ⟨_, rfl⟩⟩
  · rintro (⟨m', m'', rfl, rfl, ⟨l, ho⟩ | ⟨g, ho⟩⟩ | ⟨k, m', m'', rfl, ho, rfl⟩) <;>
      simp only [joined, ho]

theorem joined_not_crashed {os : List (Outcome Nat)} (h : ∀ o ∈ os, ∀ e, o ≠ .crashed e) :
    joined m os ≠ .crashed e := by
  induction os generalizing e with
  | nil => simp [joined]
  | cons o os ih =>
    obtain ⟨ho, hos⟩ := List.forall_mem_cons.mp h
    have hrest := fun e => @ih e hos
    cases hj : joined m os <;> cases o <;> simp_all [joined]

theorem mem_interleaved {traces : List (List (Timed Event))} {t : Timed Event} :
    t ∈ interleaved traces ↔ ∃ trace ∈ traces, t ∈ trace := by
  rw [interleaved, (List.mergeSort_perm _ _).mem_iff, List.mem_flatten]

theorem mem_together {polls : List Poll} {t : Timed Event} :
    t ∈ (together polls m).trace ↔ ∃ p ∈ polls, t ∈ (p.run m).trace := by
  simp only [together, mem_interleaved, List.map_map, List.mem_map, Function.comp_apply]
  constructor
  · rintro ⟨trace, ⟨p, hp, rfl⟩, ht⟩
    exact ⟨p, hp, ht⟩
  · rintro ⟨p, hp, ht⟩
    exact ⟨_, ⟨p, hp, rfl⟩, ht⟩

/-! ## No crash in a poll -/

theorem inTurn_not_crashed {attempts : Nat} {polls : List Poll} :
    (inTurn attempts polls m).outcome ≠ .crashed e := by
  induction polls generalizing attempts m with
  | nil => simp [inTurn, Course.done]
  | cons p polls ih =>
    rw [inTurn_cons, Ne, Course.andThen_crashed_iff]
    rintro (hp | ⟨k, m', -, hrest⟩)
    · exact (p.polling_run m).not_crashed e hp
    · exact ih hrest

/-- Once polls have begun nothing crashes. -/
theorem inMode_not_crashed (mode : Mode) (polls : List Poll) (m e : Moment) :
    (inMode mode polls m).outcome ≠ .crashed e := by
  cases mode with
  | sequential => exact inTurn_not_crashed
  | concurrent =>
    apply joined_not_crashed
    simp only [List.map_map, List.forall_mem_map]
    exact fun p _ e => (p.polling_run m).not_crashed e

/-! ## The polls of a wait -/

theorem getElem?_pollsOf (deadline : Option Deadline) (peers : List Endpoint) (i : Nat) :
    (pollsOf environment policy deadline horizon peers)[i]?
      = peers[i]?.map fun peer => ⟨environment, policy, deadline, horizon, i, peer⟩ := by
  simp only [pollsOf, List.getElem?_map, List.getElem?_zipIdx]
  cases peers[i]? <;> simp

/-- The polls of a wait for addresses. -/
def waitPolls (environment : Environment) (policy : Policy) (horizon : Nat) (start : Moment)
    (addresses : List String) : List Poll :=
  pollsOf environment policy (Deadline.of policy start.instant) horizon
    (Endpoint.resolveAll addresses).resolved

theorem deadline_of_mem_waitPolls {p : Poll}
    (hp : p ∈ waitPolls environment policy horizon start addresses) :
    p.deadline = Deadline.of policy start.instant := by
  obtain ⟨⟨peer, entry⟩, -, rfl⟩ := List.mem_map.mp hp
  rfl

theorem instant_of_mem_waitPolls {p : Poll} {allowed : Duration}
    (hallowed : policy.deadline = some allowed)
    (hp : p ∈ waitPolls environment policy horizon start addresses) :
    p.limits.deadline = some (start.instant + allowed.nanos) := by
  simp [Poll.limits, deadline_of_mem_waitPolls hp, Deadline.of, hallowed]

theorem expiry_of_mem_waitPolls {p : Poll} {allowed : Duration}
    (hallowed : policy.deadline = some allowed)
    (hp : p ∈ waitPolls environment policy horizon start addresses) :
    p.expiry = .readinessTimeout p.peer.text allowed := by
  simp [Poll.expiry, deadline_of_mem_waitPolls hp, Deadline.of, hallowed]

theorem entry_of_getElem?_waitPolls {p : Poll} {i : Nat}
    (hp : (waitPolls environment policy horizon start addresses)[i]? = some p) :
    p.entry = i ∧ (Endpoint.resolveAll addresses).resolved[i]? = some p.peer := by
  rw [waitPolls, getElem?_pollsOf] at hp
  obtain ⟨peer, hpeer, rfl⟩ := Option.map_eq_some_iff.mp hp
  exact ⟨rfl, hpeer⟩

theorem peer_of_mem_waitPolls {p : Poll}
    (hp : p ∈ waitPolls environment policy horizon start addresses) :
    (Endpoint.resolveAll addresses).resolved[p.entry]? = some p.peer := by
  obtain ⟨i, hi⟩ := List.mem_iff_getElem?.mp hp
  obtain ⟨rfl, hpeer⟩ := entry_of_getElem?_waitPolls hi
  exact hpeer

/-- Polls of no peer are over when they begin. -/
theorem inMode_of_no_peer (mode : Mode) (h : (Endpoint.resolveAll addresses).resolved = []) :
    (inMode mode (waitPolls environment policy horizon start addresses) start).outcome
      = .finished 0 start := by
  have hpolls : waitPolls environment policy horizon start addresses = [] := by
    simp [waitPolls, h, pollsOf]
  rw [hpolls]
  cases mode <;> rfl

/-- The polls of a wait begin: there is nobody to wait for, or the clock counts the instant of
the deadline. -/
def PollsBegin (environment : Environment) (policy : Policy) (start : Moment)
    (addresses : List String) : Prop :=
  (Endpoint.resolveAll addresses).resolved = [] ∨
    Deadline.Counted environment.clock (Deadline.of policy start.instant)

/-- Without a deadline there is nothing to count. -/
theorem pollsBegin_of_no_deadline (h : policy.deadline = none) :
    PollsBegin environment policy start addresses := by
  apply Or.inr
  intro d hd
  simp [Deadline.of, h] at hd

theorem PollsBegin.of_deadline_eq {policy' : Policy}
    (h : PollsBegin environment policy start addresses)
    (hdeadline : policy'.deadline = policy.deadline) :
    PollsBegin environment policy' start addresses := by
  rwa [PollsBegin, Deadline.of, hdeadline]

/-- What a wait for peers makes of the outcome of its polls. -/
def reported (peers : List Endpoint) (skipped : List String) : Outcome Nat → Outcome Report
  | .finished n m => .finished ⟨peers, skipped, n⟩ m
  | .failed f m => .failed f m
  | .crashed m => .crashed m
  | .pending => .pending

/-- A wait ends as its polls do. -/
theorem outcome_awaitAll (h : PollsBegin environment policy start addresses) :
    (awaitAll environment policy horizon start addresses).outcome
      = reported (Endpoint.resolveAll addresses).resolved
          ((Endpoint.resolveAll addresses).rejected.map (·.1))
          (inMode policy.mode
            (waitPolls environment policy horizon start addresses) start).outcome := by
  by_cases hpeers : (Endpoint.resolveAll addresses).resolved = []
  · rw [inMode_of_no_peer policy.mode hpeers, hpeers]
    simp [awaitAll, hpeers, Course.done, reported]
  · simp only [awaitAll, Course.outcome_after, if_neg hpeers, if_pos (h.resolve_left hpeers)]
    rw [← waitPolls]
    generalize inMode policy.mode _ start = polls
    rw [Course.andThen]
    cases polls.outcome <;> rfl

/-- A wait whose polls do not begin crashes when it begins. -/
theorem outcome_awaitAll_of_not_begin (h : ¬ PollsBegin environment policy start addresses) :
    (awaitAll environment policy horizon start addresses).outcome = .crashed start := by
  obtain ⟨hpeers, hcounted⟩ := not_or.mp h
  simp [awaitAll, hpeers, hcounted, Course.crash]

theorem awaitAll_of_no_peer (h : (Endpoint.resolveAll addresses).resolved = []) :
    (awaitAll environment policy horizon start addresses).outcome
      = .finished ⟨[], (Endpoint.resolveAll addresses).rejected.map (·.1), 0⟩ start := by
  rw [outcome_awaitAll (Or.inl h), inMode_of_no_peer policy.mode h, h]
  rfl

theorem awaitAll_finished_iff {report : Report} :
    (awaitAll environment policy horizon start addresses).outcome = .finished report e ↔
      PollsBegin environment policy start addresses ∧
      ∃ n, (inMode policy.mode (waitPolls environment policy horizon start addresses) start).outcome
          = .finished n e ∧
        report = ⟨(Endpoint.resolveAll addresses).resolved,
          (Endpoint.resolveAll addresses).rejected.map (·.1), n⟩ := by
  by_cases hbegin : PollsBegin environment policy start addresses
  · rw [outcome_awaitAll hbegin, and_iff_right hbegin]
    cases (inMode policy.mode _ start).outcome with
    | finished n m =>
      constructor
      · intro h
        cases h
        exact ⟨n, rfl, rfl⟩
      · rintro ⟨k, hk, rfl⟩
        cases hk
        rfl
    | failed | crashed | pending => simp [reported]
  · simp [outcome_awaitAll_of_not_begin hbegin, hbegin]

theorem awaitAll_failed_iff {f : Failure} :
    (awaitAll environment policy horizon start addresses).outcome = .failed f e ↔
      PollsBegin environment policy start addresses ∧
      (inMode policy.mode (waitPolls environment policy horizon start addresses) start).outcome
        = .failed f e := by
  by_cases hbegin : PollsBegin environment policy start addresses
  · rw [outcome_awaitAll hbegin, and_iff_right hbegin]
    cases (inMode policy.mode _ start).outcome <;> simp [reported]
  · simp [outcome_awaitAll_of_not_begin hbegin, hbegin]

/-- A wait crashes exactly if its polls do not begin. -/
theorem awaitAll_crashed_iff :
    (awaitAll environment policy horizon start addresses).outcome = .crashed e ↔
      ¬ PollsBegin environment policy start addresses ∧ e = start := by
  by_cases hbegin : PollsBegin environment policy start addresses
  · have hpolls := inMode_not_crashed policy.mode
      (waitPolls environment policy horizon start addresses) start e
    rw [outcome_awaitAll hbegin]
    cases ho : (inMode policy.mode _ start).outcome <;> simp_all [reported]
  · simp [outcome_awaitAll_of_not_begin hbegin, hbegin, eq_comm]

/-! ## The attempts of a wait -/

/-- The attempt that an event is about. -/
def Event.attempt? : Event → Option Attempt
  | .started a | .ended a _ => some a
  | _ => none

/-- What happens to attempts in a trace. -/
def attemptEvents (trace : List (Timed Event)) : List (Timed Event) :=
  trace.filter (·.event.attempt?.isSome)

variable {polls : List Poll} {mode : Mode} {t : Timed Event}

/-- Whatever happens in a poll is about one of its attempts. -/
theorem attempt?_of_mem_run {p : Poll} (ht : t ∈ (p.run m).trace) :
    ∃ a, t.event.attempt? = some a ∧ a.entry = p.entry ∧ a.peer = p.peer := by
  obtain ⟨i, rfl | rfl⟩ := Poll.mem_run_trace ht
  · exact ⟨_, rfl, rfl, rfl⟩
  · exact ⟨_, rfl, rfl, rfl⟩

theorem exists_mem_run_of_mem_inTurn {attempts : Nat}
    (ht : t ∈ (inTurn attempts polls m).trace) : ∃ p ∈ polls, ∃ s, t ∈ (p.run s).trace := by
  induction polls generalizing attempts m with
  | nil => cases ht
  | cons p polls ih =>
    rcases trace_inTurn_cons_cases attempts p polls m with ⟨k, m', -, htrace⟩ | ⟨-, htrace⟩
    · rw [htrace] at ht
      rcases List.mem_append.mp ht with ht | ht
      · exact ⟨p, List.mem_cons_self, m, ht⟩
      · obtain ⟨q, hq, s, hs⟩ := ih ht
        exact ⟨q, List.mem_cons_of_mem p hq, s, hs⟩
    · rw [htrace] at ht
      exact ⟨p, List.mem_cons_self, m, ht⟩

theorem exists_mem_run_of_mem_inMode (ht : t ∈ (inMode mode polls m).trace) :
    ∃ p ∈ polls, ∃ s, t ∈ (p.run s).trace := by
  cases mode with
  | sequential => exact exists_mem_run_of_mem_inTurn ht
  | concurrent =>
    obtain ⟨p, hp, ht⟩ := mem_together.mp ht
    exact ⟨p, hp, m, ht⟩

theorem attemptEvents_append (before after : List (Timed Event)) :
    attemptEvents (before ++ after) = attemptEvents before ++ attemptEvents after :=
  List.filter_append _ _

/-- Nothing happens in polls but what happens to attempts. -/
theorem attemptEvents_inMode (mode : Mode) (polls : List Poll) (m : Moment) :
    attemptEvents (inMode mode polls m).trace = (inMode mode polls m).trace := by
  apply List.filter_eq_self.mpr
  intro t ht
  obtain ⟨p, -, s, hs⟩ := exists_mem_run_of_mem_inMode ht
  obtain ⟨a, ha, -⟩ := attempt?_of_mem_run hs
  rw [ha]
  rfl

theorem attemptEvents_after {α : Type} {c : Course Event α} {events : List Event}
    (hevents : ∀ e ∈ events, e.attempt? = none) :
    attemptEvents (Course.after m events c).trace = attemptEvents c.trace := by
  have hnone : attemptEvents (events.map (Timed.mk m)) = [] := by
    apply List.filter_eq_nil_iff.mpr
    intro t ht
    obtain ⟨e, he, rfl⟩ := List.mem_map.mp ht
    simp [hevents e he]
  rw [Course.after, attemptEvents_append, hnone, List.nil_append]

/-- The attempts of a wait are those of its polls. -/
theorem attemptEvents_awaitAll (h : PollsBegin environment policy start addresses) :
    attemptEvents (awaitAll environment policy horizon start addresses).trace
      = (inMode policy.mode
        (waitPolls environment policy horizon start addresses) start).trace := by
  unfold awaitAll
  rw [attemptEvents_after]
  · by_cases hpeers : (Endpoint.resolveAll addresses).resolved = []
    · simp only [hpeers, if_true, waitPolls, pollsOf]
      cases policy.mode <;>
        simp [inMode, inTurn, together, interleaved, Course.done, attemptEvents]
    · dsimp only
      rw [if_neg hpeers, if_pos (h.resolve_left hpeers),
        attemptEvents_after (by simp [Event.attempt?]), ← waitPolls]
      have hpolls := attemptEvents_inMode policy.mode
        (waitPolls environment policy horizon start addresses) start
      generalize inMode policy.mode _ start = polls at hpolls ⊢
      -- That all peers are online is no attempt.
      by_cases hfin : ∃ n m, polls.outcome = .finished n m
      · obtain ⟨n, m, hfin⟩ := hfin
        rw [Course.andThen_of_finished hfin, attemptEvents_append,
          attemptEvents_after (by simp [Event.attempt?]), hpolls]
        exact List.append_nil _
      · have hfin : ∀ n m, polls.outcome ≠ .finished n m := fun n m h => hfin ⟨n, m, h⟩
        rw [Course.trace_andThen_of_not_finished hfin, hpolls]
  · intro e he
    obtain ⟨x, -, rfl⟩ := List.mem_map.mp he
    rfl

/-- A wait whose polls do not begin makes no attempt. -/
theorem attemptEvents_awaitAll_of_not_begin
    (h : ¬ PollsBegin environment policy start addresses) :
    attemptEvents (awaitAll environment policy horizon start addresses).trace = [] := by
  obtain ⟨hpeers, hcounted⟩ := not_or.mp h
  unfold awaitAll
  rw [attemptEvents_after]
  · dsimp only
    rw [if_neg hpeers, if_neg hcounted, attemptEvents_after (by simp [Event.attempt?])]
    rfl
  · intro e he
    obtain ⟨x, -, rfl⟩ := List.mem_map.mp he
    rfl

theorem mem_awaitAll (h : PollsBegin environment policy start addresses) {a : Attempt}
    (ha : t.event.attempt? = some a) :
    t ∈ (awaitAll environment policy horizon start addresses).trace ↔
      t ∈ (inMode policy.mode
        (waitPolls environment policy horizon start addresses) start).trace := by
  rw [← attemptEvents_awaitAll h, attemptEvents, List.mem_filter, ha]
  exact (and_iff_left rfl).symm

end SingleShot.Readiness
