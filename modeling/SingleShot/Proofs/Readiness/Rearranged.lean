import Mathlib.Data.List.Perm.Basic
import Mathlib.Data.Option.NAry
import SingleShot.Proofs.Endpoint.Resolution
import SingleShot.Proofs.Readiness.Modes
import SingleShot.Proofs.Readiness.Trace

/-!
# The order of the addresses

Together, the order of the addresses decides only which of several failures is told. If the answer
to an attempt does not depend on the place of the peer, every peer is waited for as if it were
alone, and what is made of the outcomes does not depend on their order.

* `Poll.outcome_run_congr`: polls whose attempts end alike end alike.
* `ending?_joined`: activities that begin together end as a fold over their ends says.
* `ending?_together_of_perm`: the order of polls makes no difference to when they end, and with
  how many attempts.
-/

namespace SingleShot.Readiness

open Endpoint (rejected resolveAll)

/-- The answer to an attempt depends on the peer and on the start of the attempt alone. -/
def ByPeerAndStart (environment : Environment) : Prop :=
  ∀ a b : Attempt, a.peer = b.peer → a.start = b.start → environment a = environment b

/-! ## Polls that are answered alike -/

namespace Poll

variable {p q : Poll}

/-- Polls whose attempts end alike end alike, if they are under the same limits. -/
theorem outcome_attempts_congr (hending : ∀ number m, q.ending number m = p.ending number m)
    (hlimits : q.limits = p.limits) (hexpiry : q.expiry = p.expiry)
    (hinterval : q.policy.retryInterval = p.policy.retryInterval) (fuel number : Nat)
    (m : Moment) :
    (q.attempts fuel number m).outcome = (p.attempts fuel number m).outcome := by
  have hwait : ∀ since next (f g : Moment → Course Event Nat),
      (∀ m, (f m).outcome = (g m).outcome) →
      (q.wait since next f).outcome = (p.wait since next g).outcome := by
    intro since next f g h
    unfold wait
    rw [hlimits, hexpiry]
    cases p.limits.wait since next with
    | resumed => exact h next
    | expired | unseen => rfl
  induction fuel generalizing number m with
  | zero =>
    have hhorizon : q.horizon = p.horizon := congrArg Limits.horizon hlimits
    rw [attempts, attempts, hhorizon]
    exact hwait _ _ _ _ fun _ => rfl
  | succ fuel ih =>
    simp only [attempts, Course.outcome_after, hending, hinterval]
    apply hwait
    intro m
    rw [Course.outcome_after, Course.outcome_after]
    cases (p.ending number _).2 with
    | accepted => rfl
    | refused | timedOut => exact hwait _ _ _ _ (ih (number + 1))

theorem outcome_run_congr (hending : ∀ number m, q.ending number m = p.ending number m)
    (hlimits : q.limits = p.limits) (hexpiry : q.expiry = p.expiry)
    (hinterval : q.policy.retryInterval = p.policy.retryInterval) (m : Moment) :
    (q.run m).outcome = (p.run m).outcome := by
  have hhorizon : q.horizon = p.horizon := congrArg Limits.horizon hlimits
  rw [run, run, hhorizon]
  exact outcome_attempts_congr hending hlimits hexpiry hinterval _ 1 m

/-- No poll fails before it begins. -/
theorem Polling.le_of_failed {fuel number : Nat} {m e : Moment} {c : Course Event Nat}
    (hc : Polling p fuel number m c) {f : Failure} (h : c.outcome = .failed f e) :
    m.le e = true := by
  have hstops : ∀ {since next : Moment}, p.Stops since next (.failed f e) →
      since.le e = true := by
    intro since next hs
    cases hs with
    | expired h => exact Limits.le_of_expired h
  induction hc with
  | idle | accepted => cases h
  | spent hs | stopped hs =>
    cases h
    exact hstops hs
  | @paused _ number m _ _ _ hs =>
    cases h
    exact Moment.le_trans (p.le_closing number m) (hstops hs)
  | @again _ number m _ _ _ _ _ ih =>
    have hclosing := Moment.le_trans (p.le_next number m) (ih h)
    exact Moment.le_trans (p.le_closing number m) hclosing

end Poll

/-! ## How activities end -/

/-- When an activity ends that does not crash, and with which value if it does not fail. -/
def ending? : Outcome Nat → Option (Moment × Option Nat)
  | .finished n m => some (m, some n)
  | .failed _ m => some (m, none)
  | .crashed _ => none
  | .pending => none

/-- The end of two activities that begin together. -/
def bothEnd : Option (Moment × Option Nat) → Option (Moment × Option Nat) →
    Option (Moment × Option Nat) :=
  Option.map₂ fun a b => (a.1.later b.1, Option.map₂ (· + ·) a.2 b.2)

theorem bothEnd_left_comm (a b c : Option (Moment × Option Nat)) :
    bothEnd a (bothEnd b c) = bothEnd b (bothEnd a c) := by
  apply Option.map₂_left_comm
  intro a b c
  rw [Prod.mk.injEq]
  exact ⟨Moment.later_left_comm a.1 b.1 c.1, Option.map₂_left_comm Nat.add_left_comm⟩

theorem ending?_joined (m : Moment) (os : List (Outcome Nat)) :
    ending? (joined m os) = (os.map ending?).foldr bothEnd (some (m, some 0)) := by
  induction os with
  | nil => rfl
  | cons o os ih =>
    rw [List.map_cons, List.foldr_cons, ← ih]
    cases o <;> cases ho : joined m os <;> simp only [joined, ho] <;> rfl

/-- The order of activities makes no difference to how they end, but for the failure. -/
theorem ending?_joined_of_perm {os os' : List (Outcome Nat)} (h : os.Perm os') :
    ending? (joined m os) = ending? (joined m os') := by
  have : LeftCommutative bothEnd := ⟨bothEnd_left_comm⟩
  rw [ending?_joined, ending?_joined]
  exact (h.map ending?).foldr_eq _

/-- A single poll ends in the same way in either mode. -/
theorem outcome_inMode_singleton (mode : Mode) (p : Poll) (m : Moment) :
    (inMode mode [p] m).outcome = (p.run m).outcome := by
  have hpoll := p.polling_run m
  cases mode with
  | sequential =>
    show (inTurn 0 [p] m).outcome = _
    rw [inTurn_cons, Course.andThen]
    cases (p.run m).outcome with
    | finished n e => simp only [inTurn, Course.done, Nat.zero_add]
    | failed | crashed | pending => rfl
  | concurrent =>
    show joined m [(p.run m).outcome] = _
    cases ho : (p.run m).outcome with
    | finished n e =>
      have he := Moment.later_of_le (hpoll.le_of_finished ho).1
      simp only [joined, he, Nat.add_zero]
    | failed f e =>
      have he := Moment.later_of_le (hpoll.le_of_failed ho)
      simp only [joined, he]
    | crashed e => rfl
    | pending => rfl

/-! ## The wait -/

variable {environment : Environment} {policy : Policy} {horizon : Nat} {start : Moment}
  {addresses addresses' : List String}

/-- The poll of a peer that is waited for alone. -/
def pollAlone (environment : Environment) (policy : Policy) (horizon : Nat) (start : Moment)
    (peer : Endpoint) : Poll :=
  ⟨environment, policy, Deadline.of policy start.instant, horizon, 0, peer⟩

/-- A peer that answers in its place as in the first one is polled as if it were waited for
alone. -/
theorem outcome_run_placed (mode : Mode) {entry : Nat} {peer : Endpoint}
    (h : ∀ number instant,
      environment ⟨entry, peer, number, instant⟩ = environment ⟨0, peer, number, instant⟩) :
    (Poll.run ⟨environment, withMode policy mode, Deadline.of (withMode policy mode) start.instant,
        horizon, entry, peer⟩ start).outcome
      = ((pollAlone environment policy horizon start peer).run start).outcome := by
  let p := pollAlone environment policy horizon start peer
  let q : Poll := ⟨environment, withMode policy mode,
    Deadline.of (withMode policy mode) start.instant, horizon, entry, peer⟩
  have hending : ∀ number m, q.ending number m = p.ending number m := by
    intro number m
    have hanswer : environment (q.attempt number m) = environment (p.attempt number m) :=
      h number m.instant
    rw [Poll.ending, Poll.ending]
    exact congrArg (fun answer => Answer.ending answer m policy.attemptTimeout) hanswer
  exact Poll.outcome_run_congr hending rfl rfl rfl start

theorem outcomes_waitPolls (hby : ByPeerAndStart environment) (mode : Mode) :
    (waitPolls environment (withMode policy mode) horizon start addresses).map
        (fun p => (p.run start).outcome)
      = (resolveAll addresses).resolved.map
        fun peer => ((pollAlone environment policy horizon start peer).run start).outcome := by
  apply List.ext_getElem?
  intro i
  rw [List.getElem?_map, waitPolls, getElem?_pollsOf, List.getElem?_map, Option.map_map]
  congr 1
  funext peer
  exact outcome_run_placed mode fun number instant => hby _ _ rfl rfl

/-- Together, the order of the addresses makes no difference to when the polls of a wait end, and
with how many attempts. -/
theorem ending?_together_of_perm (hby : ByPeerAndStart environment)
    (h : addresses.Perm addresses') :
    let polls := waitPolls environment (withMode policy .concurrent) horizon start
    ending? (together (polls addresses) start).outcome
      = ending? (together (polls addresses') start).outcome := by
  intro polls
  have houtcomes : ((polls addresses).map fun p => (p.run start).outcome).Perm
      ((polls addresses').map fun p => (p.run start).outcome) := by
    rw [outcomes_waitPolls hby, outcomes_waitPolls hby]
    exact (h.filterMap Endpoint.resolve?).map _
  simp only [together, List.map_map, Function.comp_def]
  exact ending?_joined_of_perm houtcomes

/-- Waits for the same addresses in two orders end alike: with the same attempts and the peers and
the addresses left out in the order of each, or at one moment with timeouts of one length, or with
a crash at one moment, or not at all. -/
inductive EndAlike (addresses addresses' : List String) : Outcome Report → Outcome Report → Prop
  | finished (n : Nat) (e : Moment) :
    EndAlike addresses addresses'
      (.finished ⟨addresses.filterMap Endpoint.resolve?, rejected addresses, n⟩ e)
      (.finished ⟨addresses'.filterMap Endpoint.resolve?, rejected addresses', n⟩ e)
  | failed {peer peer' : Endpoint} (allowed : Duration) (e : Moment) :
    peer ∈ addresses.filterMap Endpoint.resolve? →
    peer' ∈ addresses'.filterMap Endpoint.resolve? →
    EndAlike addresses addresses' (.failed (.readinessTimeout peer.text allowed) e)
      (.failed (.readinessTimeout peer'.text allowed) e)
  | crashed (e : Moment) : EndAlike addresses addresses' (.crashed e) (.crashed e)
  | pending : EndAlike addresses addresses' .pending .pending

theorem EndAlike.of_ending? {o o' : Outcome Nat} (hends : ending? o = ending? o')
    (hcrashed : ∀ e, o ≠ .crashed e) (hcrashed' : ∀ e, o' ≠ .crashed e)
    (hfailed : ∀ f e, o = .failed f e → ∃ allowed, policy.deadline = some allowed ∧
      ∃ peer ∈ addresses.filterMap Endpoint.resolve?, f = .readinessTimeout peer.text allowed)
    (hfailed' : ∀ f e, o' = .failed f e → ∃ allowed, policy.deadline = some allowed ∧
      ∃ peer ∈ addresses'.filterMap Endpoint.resolve?, f = .readinessTimeout peer.text allowed) :
    EndAlike addresses addresses'
      (reported (addresses.filterMap Endpoint.resolve?) (rejected addresses) o)
      (reported (addresses'.filterMap Endpoint.resolve?) (rejected addresses') o') := by
  cases o with
  | finished n e =>
    cases o' with
    | finished n' e' =>
      cases hends
      exact .finished n e
    | failed | crashed | pending => cases hends
  | failed f e =>
    cases o' with
    | failed f' e' =>
      cases hends
      obtain ⟨allowed, hallowed, peer, hpeer, rfl⟩ := hfailed f e rfl
      obtain ⟨_, hallowed', peer', hpeer', rfl⟩ := hfailed' f' e rfl
      cases hallowed.symm.trans hallowed'
      exact .failed allowed e hpeer hpeer'
    | finished | crashed | pending => cases hends
  | crashed e => exact absurd rfl (hcrashed e)
  | pending =>
    cases o' with
    | pending => exact .pending
    | crashed e => exact absurd rfl (hcrashed' e)
    | finished | failed => cases hends

/-- Whether there is a peer to wait for does not depend on the order of the addresses. -/
theorem PollsBegin.of_perm (hbegin : PollsBegin environment policy start addresses)
    (h : addresses.Perm addresses') : PollsBegin environment policy start addresses' := by
  rcases hbegin with hnone | hcounted
  · rw [Endpoint.resolved_eq_filterMap] at hnone
    have hperm := h.filterMap Endpoint.resolve?
    rw [hnone] at hperm
    apply Or.inl
    rw [Endpoint.resolved_eq_filterMap]
    exact hperm.symm.eq_nil
  · exact Or.inr hcounted

theorem timeout_of_inMode_failed (hbegin : PollsBegin environment policy start addresses)
    {f : Failure} {e : Moment}
    (h : (inMode policy.mode (waitPolls environment policy horizon start addresses) start).outcome
      = .failed f e) :
    ∃ allowed, policy.deadline = some allowed ∧
      ∃ peer ∈ addresses.filterMap Endpoint.resolve?, f = .readinessTimeout peer.text allowed := by
  obtain ⟨allowed, hallowed, -, peer, hpeer, hf⟩ :=
    timeout_of_failed (awaitAll_failed_iff.mpr ⟨hbegin, h⟩)
  exact ⟨allowed, hallowed, peer, Endpoint.resolved_eq_filterMap addresses ▸ hpeer, hf⟩

theorem endAlike_of_perm (hby : ByPeerAndStart environment) (h : addresses.Perm addresses') :
    let wait := awaitAll environment (withMode policy .concurrent) horizon start
    EndAlike addresses addresses' (wait addresses).outcome (wait addresses').outcome := by
  intro wait
  by_cases hbegin : PollsBegin environment (withMode policy .concurrent) start addresses
  · have hbegin' := hbegin.of_perm h
    simp only [wait, outcome_awaitAll hbegin, outcome_awaitAll hbegin',
      Endpoint.resolved_eq_filterMap, Endpoint.rejected_inputs]
    exact EndAlike.of_ending? (ending?_together_of_perm hby h) (inMode_not_crashed _ _ _)
      (inMode_not_crashed _ _ _) (fun _ _ => timeout_of_inMode_failed hbegin)
      (fun _ _ => timeout_of_inMode_failed hbegin')
  · have hbegin' := mt (fun hbegins => PollsBegin.of_perm hbegins h.symm) hbegin
    simp only [wait, outcome_awaitAll_of_not_begin hbegin, outcome_awaitAll_of_not_begin hbegin']
    exact .crashed start

/-- The wait for a single address is the wait for its peer, in either mode. -/
theorem outcome_awaitAll_singleton (environment : Environment) (policy : Policy) (horizon : Nat)
    (start : Moment) (mode : Mode) {address : String} {peer : Endpoint}
    (h : Endpoint.resolve address = .ok peer) :
    (awaitAll environment (withMode policy mode) horizon start [address]).outcome
      = reported [peer] [] (awaitPeer environment policy horizon start peer).outcome := by
  have hread : Endpoint.resolve? address = some peer := by
    rw [Endpoint.resolve?, h]
    rfl
  have hresolved : (resolveAll [address]).resolved = [peer] := by
    rw [Endpoint.resolved_eq_filterMap, List.filterMap_cons, hread]
    rfl
  have hrejected : rejected [address] = [] := by
    simp [rejected, Endpoint.isRejected, hread]
  have hbegins : PollsBegin environment (withMode policy mode) start [address] ↔
      Deadline.Counted environment.clock (Deadline.of policy start.instant) := by
    simp [PollsBegin, hresolved, withMode, Deadline.of]
  by_cases hcounted : Deadline.Counted environment.clock (Deadline.of policy start.instant)
  · have hpolls : waitPolls environment (withMode policy mode) horizon start [address]
        = [pollAlone environment (withMode policy mode) horizon start peer] := by
      rw [waitPolls, hresolved]
      rfl
    have hrun : ((pollAlone environment (withMode policy mode) horizon start peer).run
        start).outcome = ((pollAlone environment policy horizon start peer).run start).outcome :=
      outcome_run_placed mode fun _ _ => rfl
    rw [outcome_awaitAll (hbegins.mpr hcounted), hpolls, Endpoint.rejected_inputs, hresolved,
      hrejected, outcome_inMode_singleton, hrun, awaitPeer, if_pos hcounted, pollAlone]
  · rw [outcome_awaitAll_of_not_begin (mt hbegins.mp hcounted), awaitPeer, if_neg hcounted]
    rfl

/-- Together, the order of the addresses makes no difference to a wait, if the answers do not depend
on it: for the same addresses in two orders it finishes with the same attempts at the same moment,
with the peers and the addresses left out in the order of each, or it fails for both, and only the
peer that is named may be another one, or it crashes for both. The wait for a single address is the wait for its peer, in
either mode. -/
theorem awaitAll_ignores_order (policy : Policy) (horizon : Nat) (start : Moment) :
    let wait := fun environment mode addresses =>
      awaitAll environment (withMode policy mode) horizon start addresses
    (∀ environment addresses addresses', ByPeerAndStart environment → addresses.Perm addresses' →
      EndAlike addresses addresses' (wait environment .concurrent addresses).outcome
        (wait environment .concurrent addresses').outcome ∧
      (addresses.filterMap Endpoint.resolve?).Perm (addresses'.filterMap Endpoint.resolve?) ∧
      (rejected addresses).Perm (rejected addresses')) ∧
    ∀ environment mode address peer, Endpoint.resolve address = .ok peer →
      (wait environment mode [address]).outcome
        = reported [peer] [] (awaitPeer environment policy horizon start peer).outcome := by
  intro wait
  refine ⟨?_, ?_⟩
  · intro environment addresses addresses' hby h
    exact ⟨endAlike_of_perm hby h, h.filterMap _, h.filter _⟩
  · intro environment mode address peer h
    exact outcome_awaitAll_singleton environment policy horizon start mode h

theorem EndAlike.of_finished {o o' : Outcome Report} (h : EndAlike addresses addresses' o o')
    {report : Report} {e : Moment} (ho : o = .finished report e) :
    o' = .finished ⟨addresses'.filterMap Endpoint.resolve?, rejected addresses', report.attempts⟩
      e := by
  cases h with
  | finished n e =>
    cases ho
    rfl
  | failed | crashed | pending => cases ho

/-- A peer cannot be reached for two nanoseconds; the others accept. -/
def opensAtTwo : Environment where
  answer a := if a.peer.text = "b:2" ∧ a.start < 2 then .fails .connectionRefused else .accepts 1
  clock := .endless

theorem byPeerAndStart_opensAtTwo : ByPeerAndStart opensAtTwo := by
  intro a b hpeer hstart
  simp only [opensAtTwo, hpeer, hstart]

theorem awaitAll_ignores_order_of_four :
    let addresses := ["a:1", "x", "b:2", "a:1"]
    let addresses' := ["b:2", "a:1", "x", "a:1"]
    let wait := fun mode addresses =>
      awaitAll opensAtTwo (brief mode) 20 (Moment.dawn 0) addresses
    let second : Endpoint := ⟨"b", "2", by decide, by decide, by decide, by decide⟩
    (wait .concurrent addresses).outcome
        = .finished ⟨addresses.filterMap Endpoint.resolve?, ["x"], 4⟩ (Moment.dawn 3) ∧
      (wait .concurrent addresses').outcome
        = .finished ⟨addresses'.filterMap Endpoint.resolve?, ["x"], 4⟩ (Moment.dawn 3) ∧
      (wait .sequential ["b:2"]).outcome = .finished ⟨[second], [], 2⟩ (Moment.dawn 3) := by
  intro addresses addresses' wait second
  obtain ⟨horder, hsingle⟩ := awaitAll_ignores_order (brief .concurrent) 20 (Moment.dawn 0)
  have hperm : addresses.Perm addresses' := by decide
  have hfirst : (wait .concurrent addresses).outcome
      = .finished ⟨addresses.filterMap Endpoint.resolve?, ["x"], 4⟩ (Moment.dawn 3) := by
    decide +kernel
  have hread : Endpoint.resolve "b:2" = .ok second := by decide +kernel
  have hpeer : (awaitPeer opensAtTwo (brief .concurrent) 20 (Moment.dawn 0) second).outcome
      = .finished 2 (Moment.dawn 3) := by decide +kernel
  refine ⟨hfirst, ?_, ?_⟩
  · exact (horder opensAtTwo addresses addresses' byPeerAndStart_opensAtTwo hperm).1.of_finished
      hfirst
  · exact (hsingle opensAtTwo .sequential "b:2" second hread).trans
      (congrArg (reported [second] []) hpeer)

end SingleShot.Readiness
