import Mathlib.Data.List.Forall2
import SingleShot.Proofs.Readiness.Deadline

/-!
# The two orders of a wait

Where the answers depend on the peers and the numbers of the attempts only, it makes no
difference to the report in which order the peers are polled: each poll costs as many attempts
and as much time whenever it begins. The costs add up in turn; together the times do not.

* `Poll.ByNumber.costs_of_run`: a poll that finishes shows what it costs.
* `inTurn_costs`, `together_costs`: several polls that finish show what each of them costs.
* `together_of_inTurn`: what finishes in turn finishes together, within the same limits.
-/

namespace SingleShot.Readiness

/-- What a poll costs: the number of its attempts, and the time from its beginning to its end. -/
structure Cost where
  attempts : Nat
  time : Nat

/-- The attempts of several polls. -/
def attemptsOf (costs : List Cost) : Nat :=
  costs.foldr (fun c n => c.attempts + n) 0

/-- The time of polls, one after the other. -/
def timeInTurn (costs : List Cost) : Nat :=
  costs.foldr (fun c t => c.time + t) 0

/-- The time of polls, all at once. -/
def timeTogether (costs : List Cost) : Nat :=
  costs.foldr (fun c t => max c.time t) 0

@[simp] theorem attemptsOf_cons (c : Cost) (costs : List Cost) :
    attemptsOf (c :: costs) = c.attempts + attemptsOf costs :=
  rfl

@[simp] theorem timeInTurn_cons (c : Cost) (costs : List Cost) :
    timeInTurn (c :: costs) = c.time + timeInTurn costs :=
  rfl

@[simp] theorem timeTogether_cons (c : Cost) (costs : List Cost) :
    timeTogether (c :: costs) = max c.time (timeTogether costs) :=
  rfl

/-! ## What a poll costs -/

namespace Poll

variable {p q : Poll} {c c' : Cost} {s s' e : Moment} {n : Nat}

/-- The schedule of a poll has its first accept at this cost, whenever the poll begins. -/
def Costs (p : Poll) (c : Cost) : Prop :=
  ∃ k, c.attempts = k + 1 ∧
    ∀ s, p.FirstAccepted s k ∧ (p.reply s k).instant = s.instant + c.time

/-- Whenever a poll begins, it finishes at this cost if it is observed long enough. -/
def Takes (p : Poll) (c : Cost) : Prop :=
  ∀ s, ∃ h₀, ∀ h, h₀ ≤ h →
    ∃ e, e.instant = s.instant + c.time ∧ ((p.upTo h).run s).outcome = .finished c.attempts e

theorem Costs.unique (h : p.Costs c) (h' : p.Costs c') : c = c' := by
  obtain ⟨k, hk, hc⟩ := h
  obtain ⟨k', hk', hc'⟩ := h'
  have hfirst := hc (Moment.dawn 0)
  have hfirst' := hc' (Moment.dawn 0)
  have he := hfirst.1.unique hfirst'.1
  subst he
  have htime : c.time = c'.time := by
    have := hfirst.2
    have := hfirst'.2
    omega
  cases c
  cases c'
  simp_all

theorem Alike.costs (h : Alike p q) (hc : p.Costs c) : q.Costs c := by
  obtain ⟨k, hk, hc⟩ := hc
  refine ⟨k, hk, fun s => ⟨h.firstAccepted (hc s).1, ?_⟩⟩
  rw [h.reply]
  exact (hc s).2

/-- A poll that finishes shows what it costs. -/
theorem ByNumber.costs_of_run (h : p.ByNumber) (hr : (p.run s).outcome = .finished n e) :
    ∃ c, p.Costs c ∧ n = c.attempts ∧ e.instant = s.instant + c.time := by
  obtain ⟨k, rfl, rfl, -, hk, -⟩ := run_finished_iff.mp hr
  have hbegin := p.instant_opening_mono s (Nat.zero_le k)
  have hend := p.instant_opening_le_reply s k
  refine ⟨⟨k + 1, (p.reply s k).instant - s.instant⟩, ⟨k, rfl, ?_⟩, rfl, ?_⟩
  · intro s'
    refine ⟨h.firstAccepted hk s', ?_⟩
    have := h.instant_reply s s' k (h.instant_opening s s' k)
    simp only [opening] at *
    omega
  · simp only [opening] at *
    omega

/-- Without a deadline a poll finishes if it has a cost and the horizon lies behind it. -/
theorem Costs.run (hc : p.Costs c) (hd : p.deadline = none)
    (hh : s.instant + c.time + c.attempts < p.horizon) :
    ∃ e, e.instant = s.instant + c.time ∧ (p.run s).outcome = .finished c.attempts e := by
  obtain ⟨k, hk, hc⟩ := hc
  obtain ⟨hfirst, hreply⟩ := hc s
  refine ⟨p.reply s k, hreply, run_finished_iff.mpr ⟨k, hk, rfl, by omega, hfirst, ?_⟩⟩
  refine ⟨?_, ?_, ?_⟩
  · simp [limits, hd]
  · simp [limits, hd]
  · show (p.reply s k).instant < p.horizon
    omega

theorem Costs.takes (hc : p.Costs c) (hd : p.deadline = none) : p.Takes c := by
  intro s
  refine ⟨s.instant + c.time + c.attempts + 1, fun h hh => ?_⟩
  apply ((p.alike_upTo h).costs hc).run hd
  show s.instant + c.time + c.attempts < h
  omega

/-- A poll that begins earlier finishes within the same limits, and as much earlier. -/
theorem ByNumber.run_earlier (h : p.ByNumber) (hr : (p.run s).outcome = .finished n e)
    (hs : s'.instant ≤ s.instant) : ∃ e', (p.run s').outcome = .finished n e' := by
  obtain ⟨k, rfl, rfl, hf, hk, ha⟩ := run_finished_iff.mp hr
  have hopening := h.instant_opening s s' k
  have hreply := h.instant_reply s s' k hopening
  refine ⟨p.reply s' k, run_finished_iff.mpr
    ⟨k, rfl, rfl, by omega, h.firstAccepted hk s', ?_, ?_, ?_⟩⟩
  · intro d hd
    have := ha.begins d hd
    omega
  · intro d hd
    have := ha.ends d hd
    omega
  · have := ha.seen
    omega

end Poll

/-! ## What several polls cost -/

variable {polls : List Poll} {costs costs' : List Cost} {m s e : Moment} {attempts n : Nat}

theorem costs_unique (h : List.Forall₂ Poll.Costs polls costs)
    (h' : List.Forall₂ Poll.Costs polls costs') : costs = costs' := by
  induction h generalizing costs' with
  | nil =>
    cases h'
    rfl
  | cons hc _ ih =>
    cases h' with
    | cons hc' hrest => rw [hc.unique hc', ih hrest]

theorem inTurn_costs (hall : ∀ p ∈ polls, p.ByNumber)
    (h : (inTurn attempts polls m).outcome = .finished n e) :
    ∃ costs, List.Forall₂ Poll.Costs polls costs ∧ n = attempts + attemptsOf costs ∧
      e.instant = m.instant + timeInTurn costs := by
  induction polls generalizing attempts m with
  | nil =>
    cases h
    exact ⟨[], .nil, rfl, rfl⟩
  | cons p polls ih =>
    obtain ⟨k, m', hp, hrest⟩ := inTurn_cons_finished_iff.mp h
    obtain ⟨c, hc, rfl, hm'⟩ := (hall p List.mem_cons_self).costs_of_run hp
    obtain ⟨costs, hcosts, hn, he⟩ := ih (fun q hq => hall q (List.mem_cons_of_mem _ hq)) hrest
    refine ⟨c :: costs, .cons hc hcosts, ?_, ?_⟩
    · rw [attemptsOf_cons]
      omega
    · rw [timeInTurn_cons]
      omega

theorem together_costs (hall : ∀ p ∈ polls, p.ByNumber)
    (h : (together polls m).outcome = .finished n e) :
    ∃ costs, List.Forall₂ Poll.Costs polls costs ∧ n = attemptsOf costs ∧
      e.instant = m.instant + timeTogether costs := by
  simp only [together] at h
  induction polls generalizing n e with
  | nil =>
    cases h
    exact ⟨[], .nil, rfl, rfl⟩
  | cons p polls ih =>
    obtain ⟨k, m', l, m'', hp, hrest, rfl, rfl⟩ := joined_cons_finished_iff.mp h
    obtain ⟨c, hc, rfl, hm'⟩ := (hall p List.mem_cons_self).costs_of_run hp
    obtain ⟨costs, hcosts, rfl, hm''⟩ := ih (fun q hq => hall q (List.mem_cons_of_mem _ hq)) hrest
    refine ⟨c :: costs, .cons hc hcosts, rfl, ?_⟩
    rw [Moment.instant_later, hm', hm'', timeTogether_cons]
    omega

theorem inTurn_of_costs (h : List.Forall₂ Poll.Costs polls costs)
    (hd : ∀ p ∈ polls, p.deadline = none)
    (hh : ∀ p ∈ polls, m.instant + timeInTurn costs + attemptsOf costs < p.horizon) :
    ∃ e, (inTurn attempts polls m).outcome = .finished (attempts + attemptsOf costs) e := by
  induction h generalizing attempts m with
  | nil => exact ⟨m, rfl⟩
  | @cons p c polls costs hc _ ih =>
    rw [timeInTurn_cons, attemptsOf_cons] at hh
    rw [attemptsOf_cons, ← Nat.add_assoc]
    have hhp := hh p List.mem_cons_self
    obtain ⟨m', hm', hp⟩ := hc.run (hd p List.mem_cons_self) (s := m) (by omega)
    have hrest : ∀ q ∈ polls, m'.instant + timeInTurn costs + attemptsOf costs < q.horizon := by
      intro q hq
      have := hh q (List.mem_cons_of_mem _ hq)
      omega
    obtain ⟨e, he⟩ := ih (fun q hq => hd q (List.mem_cons_of_mem _ hq)) hrest
    exact ⟨e, inTurn_cons_finished_iff.mpr ⟨c.attempts, m', hp, he⟩⟩

/-- What finishes in turn finishes together, with as many attempts. -/
theorem together_of_inTurn (hall : ∀ p ∈ polls, p.ByNumber) (hs : s.instant ≤ m.instant)
    (h : (inTurn attempts polls m).outcome = .finished n e) :
    ∃ k e', n = attempts + k ∧ (together polls s).outcome = .finished k e' := by
  simp only [together]
  induction polls generalizing attempts m with
  | nil =>
    cases h
    exact ⟨0, s, rfl, rfl⟩
  | cons p polls ih =>
    obtain ⟨k, m', hp, hrest⟩ := inTurn_cons_finished_iff.mp h
    have hm' := Poll.run_le hp
    obtain ⟨e', he'⟩ := (hall p List.mem_cons_self).run_earlier hp hs
    obtain ⟨l, e'', rfl, he''⟩ := ih (fun q hq => hall q (List.mem_cons_of_mem _ hq))
      (by omega) hrest
    refine ⟨k + l, e'.later e'', by omega, ?_⟩
    exact joined_cons_finished_iff.mpr ⟨k, e', l, e'', he', he'', rfl, rfl⟩

/-! ## The wait -/

/-- The same policy with another mode. -/
def withMode (policy : Policy) (mode : Mode) : Policy :=
  { policy with mode }

variable {environment : Environment} {policy policy' : Policy} {horizon horizon' : Nat}
  {start : Moment} {addresses : List String}

/-- What the polls of a wait cost depends neither on the mode nor on what stops them. -/
theorem costs_waitPolls
    (h : List.Forall₂ Poll.Costs (waitPolls environment policy horizon start addresses) costs)
    (htimeout : policy'.attemptTimeout = policy.attemptTimeout)
    (hinterval : policy'.retryInterval = policy.retryInterval) :
    List.Forall₂ Poll.Costs (waitPolls environment policy' horizon' start addresses) costs := by
  simp only [waitPolls, pollsOf, List.forall₂_map_left_iff] at h ⊢
  apply h.imp
  intro peer c hc
  refine Poll.Alike.costs ?_ hc
  exact ⟨rfl, rfl, rfl, htimeout, hinterval⟩

theorem takes_of_costs (hdeadline : policy.deadline = none)
    (h : List.Forall₂ Poll.Costs (waitPolls environment policy horizon start addresses) costs) :
    List.Forall₂ Poll.Takes (waitPolls environment policy horizon start addresses) costs := by
  simp only [waitPolls, pollsOf, List.forall₂_map_left_iff] at h ⊢
  apply h.imp
  intro peer c hc
  exact hc.takes (by simp [Deadline.of, hdeadline])

/-- Without a deadline polls that have costs finish in turn before a horizon behind them all. -/
theorem awaitAll_of_costs (hmode : policy.mode = .sequential) (hdeadline : policy.deadline = none)
    (h : ∀ horizon,
      List.Forall₂ Poll.Costs (waitPolls environment policy horizon start addresses) costs) :
    ∃ horizon e, (awaitAll environment policy horizon start addresses).outcome = .finished
      ⟨(Endpoint.resolveAll addresses).resolved, (Endpoint.resolveAll addresses).rejected.map (·.1),
        attemptsOf costs⟩ e := by
  let bound := start.instant + timeInTurn costs + attemptsOf costs
  have hpolls : ∀ p ∈ waitPolls environment policy (bound + 1) start addresses,
      p.deadline = none ∧ bound < p.horizon := by
    intro p hp
    obtain ⟨⟨peer, entry⟩, -, rfl⟩ := List.mem_map.mp hp
    exact ⟨by simp [Deadline.of, hdeadline], Nat.lt_succ_self bound⟩
  obtain ⟨e, he⟩ : ∃ e, (inTurn 0 (waitPolls environment policy (bound + 1) start addresses)
      start).outcome = .finished (0 + attemptsOf costs) e :=
    inTurn_of_costs (h (bound + 1)) (fun p hp => (hpolls p hp).1) fun p hp => (hpolls p hp).2
  rw [Nat.zero_add] at he
  refine ⟨bound + 1, e, awaitAll_finished_iff.mpr
    ⟨pollsBegin_of_no_deadline hdeadline, attemptsOf costs, ?_, rfl⟩⟩
  rw [hmode]
  exact he

theorem byNumber_of_mem_waitPolls {p : Poll}
    (henv : ∀ a b : Attempt, a.entry = b.entry → a.peer = b.peer → a.number = b.number →
      environment a = environment b)
    (hp : p ∈ waitPolls environment policy horizon start addresses) : p.ByNumber := by
  obtain ⟨⟨peer, entry⟩, -, rfl⟩ := List.mem_map.mp hp
  intro number m m'
  exact henv _ _ rfl rfl rfl

/-- What a wait finishes in turn it finishes together, under the same deadline. -/
theorem awaitAll_together_of_inTurn
    (henv : ∀ a b : Attempt, a.entry = b.entry → a.peer = b.peer → a.number = b.number →
      environment a = environment b) {report : Report}
    (h : (awaitAll environment policy horizon start addresses).outcome = .finished report e)
    (hmode : policy.mode = .sequential) (hmode' : policy'.mode = .concurrent)
    (hdeadline : policy'.deadline = policy.deadline)
    (htimeout : policy'.attemptTimeout = policy.attemptTimeout)
    (hinterval : policy'.retryInterval = policy.retryInterval) :
    ∃ e', (awaitAll environment policy' horizon start addresses).outcome
      = .finished report e' := by
  obtain ⟨hbegin, n, hn, rfl⟩ := awaitAll_finished_iff.mp h
  rw [hmode] at hn
  obtain ⟨k, e', hk, hfin⟩ :=
    together_of_inTurn (fun p hp => byNumber_of_mem_waitPolls henv hp) (Nat.le_refl _) hn
  obtain rfl : n = k := by omega
  refine ⟨e', awaitAll_finished_iff.mpr ⟨hbegin.of_deadline_eq hdeadline, n, ?_, rfl⟩⟩
  rw [hmode']
  refine together_finished_of_forall₂ ?_ (Nat.le_refl e'.instant) hfin
  refine waitPolls_finishesAs ?_ htimeout hinterval
  intro m m' _ _ ha
  simpa [waitLimits, Deadline.of, hdeadline] using ha

/-- Where the answers depend on the entry and the number of the attempt only, the modes agree.
Without a deadline a wait ends in one mode if it ends in the other, with the same report; it
takes the time of all polls in turn, and the time of the longest poll together. With a deadline
that leaves time for the polls in turn, the polls together finish with the same report. -/
theorem awaitAll_modes_agree {environment : Environment}
    (henv : ∀ a b : Attempt, a.entry = b.entry → a.peer = b.peer → a.number = b.number →
      environment a = environment b)
    (policy : Policy) (start : Moment) (addresses : List String) :
    let wait := fun mode deadline horizon =>
      awaitAll environment (withDeadline (withMode policy mode) deadline) horizon start addresses
    let polls := waitPolls environment (withDeadline policy none) 0 start addresses
    (∀ report, (∃ horizon e, (wait .sequential none horizon).outcome = .finished report e) ↔
      ∃ horizon e, (wait .concurrent none horizon).outcome = .finished report e) ∧
    (∀ horizon report e horizon' report' e',
      (wait .sequential none horizon).outcome = .finished report e →
      (wait .concurrent none horizon').outcome = .finished report' e' →
      report' = report ∧ ∃ costs, List.Forall₂ Poll.Takes polls costs ∧
        report.attempts = attemptsOf costs ∧
        e.instant = start.instant + timeInTurn costs ∧
        e'.instant = start.instant + timeTogether costs) ∧
    (∀ allowed horizon report e,
      (wait .sequential (some allowed) horizon).outcome = .finished report e →
      ∃ e', (wait .concurrent (some allowed) horizon).outcome = .finished report e') := by
  intro wait polls
  have hall : ∀ policy horizon, ∀ p ∈ waitPolls environment policy horizon start addresses,
      p.ByNumber := fun _ _ _ hp => byNumber_of_mem_waitPolls henv hp
  have htogether : ∀ deadline horizon report e,
      (wait .sequential deadline horizon).outcome = .finished report e →
      ∃ e', (wait .concurrent deadline horizon).outcome = .finished report e' :=
    fun _ _ _ _ h => awaitAll_together_of_inTurn henv h rfl rfl rfl rfl rfl
  refine ⟨?_, ?_, fun allowed => htogether (some allowed)⟩
  · intro report
    constructor
    · rintro ⟨horizon, e, h⟩
      obtain ⟨e', h'⟩ := htogether none horizon report e h
      exact ⟨horizon, e', h'⟩
    · rintro ⟨horizon, e, h⟩
      obtain ⟨-, n, hn, rfl⟩ := awaitAll_finished_iff.mp h
      obtain ⟨costs, hcosts, rfl, -⟩ := together_costs (hall _ _) hn
      exact awaitAll_of_costs rfl rfl fun horizon => costs_waitPolls hcosts rfl rfl
  · intro horizon report e horizon' report' e' h h'
    obtain ⟨-, n, hn, rfl⟩ := awaitAll_finished_iff.mp h
    obtain ⟨-, n', hn', rfl⟩ := awaitAll_finished_iff.mp h'
    obtain ⟨costs, hcosts, hattempts, he⟩ := inTurn_costs (hall _ _) hn
    obtain ⟨costs', hcosts', rfl, he'⟩ := together_costs (hall _ _) hn'
    have hcosts : List.Forall₂ Poll.Costs polls costs := costs_waitPolls hcosts rfl rfl
    have hcosts' : List.Forall₂ Poll.Costs polls costs' := costs_waitPolls hcosts' rfl rfl
    have hsame : costs = costs' := costs_unique hcosts hcosts'
    subst hsame
    rw [Nat.zero_add] at hattempts
    subst hattempts
    exact ⟨rfl, costs, takes_of_costs rfl hcosts, rfl, he, he'⟩

/-- Every peer refuses as many attempts as there are peers before it. -/
def refusesByEntry : Environment :=
  ⟨fun a => if a.number ≤ a.entry then .refuses 1 .connectionRefused else .accepts 2, .endless⟩

theorem awaitAll_modes_agree_after_refusal :
    let wait := fun mode deadline horizon =>
      awaitAll refusesByEntry (withDeadline (withMode (brief .sequential) mode) deadline) horizon
        (Moment.dawn 0) ["a:1", "x", "b:2"]
    let report := ⟨(Endpoint.resolveAll ["a:1", "b:2"]).resolved, ["x"], 3⟩
    (wait .sequential none 20).outcome = .finished report (Moment.dawn 7) ∧
      (wait .concurrent none 20).outcome = .finished report (Moment.dawn 5) ∧
      (∃ costs, attemptsOf costs = 3 ∧ timeInTurn costs = 7 ∧ timeTogether costs = 5) ∧
      ∃ e, (wait .concurrent (some ⟨7, by decide⟩) 20).outcome = .finished report e := by
  intro wait report
  have henv : ∀ a b : Attempt, a.entry = b.entry → a.peer = b.peer → a.number = b.number →
      refusesByEntry a = refusesByEntry b := by
    intro a b hentry _ hnumber
    simp only [refusesByEntry, hentry, hnumber]
  have hturn : (wait .sequential none 20).outcome = .finished report (Moment.dawn 7) := by
    decide +kernel
  have htogether : (wait .concurrent none 20).outcome = .finished report (Moment.dawn 5) := by
    decide +kernel
  have hbrief : (wait .sequential (some ⟨7, by decide⟩) 20).outcome
      = .finished report (Moment.dawn 7) := by
    decide +kernel
  obtain ⟨-, hcosts, hdeadline⟩ := awaitAll_modes_agree henv (brief .sequential) (Moment.dawn 0)
    ["a:1", "x", "b:2"]
  obtain ⟨-, costs, -, hn, he, he'⟩ := hcosts _ _ _ _ _ _ hturn htogether
  refine ⟨hturn, htogether, ⟨costs, hn.symm, ?_, ?_⟩, hdeadline _ _ _ _ hbrief⟩
  · exact (he.trans (Nat.zero_add _)).symm
  · exact (he'.trans (Nat.zero_add _)).symm

end SingleShot.Readiness
