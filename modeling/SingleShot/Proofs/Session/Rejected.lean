import SingleShot.Proofs.Readiness.Skipped
import SingleShot.Proofs.Session

/-!
# Addresses that cannot be resolved

Addresses among the peers that cannot be resolved are inert: a session tells that it leaves them
out, and apart from this it is the same with them and without them, wherever they stand.

* `withoutRejected`: what happens in a session, apart from what it tells about such addresses.
* `withoutRejected_run`: this and the outcome depend on the addresses that can be resolved only.
-/

namespace SingleShot.Session

open Endpoint (rejected resolvable)
open Readiness (awaitAll leavingOut tellsSkipped)

/-- What a submission does in a session. -/
def Event.submission? : Event → Option Submission.Event
  | .submission event => some event
  | _ => none

/-- What submissions do among events, in order. -/
def submissionsIn (events : List Event) : List Submission.Event :=
  events.filterMap Event.submission?

/-- Whether an event is about addresses that cannot be resolved. -/
def Event.isAboutRejected : Event → Bool
  | .readiness (.skipped _ _) | .leftOut _ => true
  | _ => false

/-- A trace without what it tells about addresses that cannot be resolved. -/
def withoutRejected (trace : List (Timed Event)) : List (Timed Event) :=
  trace.filter fun t => !t.event.isAboutRejected

variable {environment : Readiness.Environment} {transport : Submission.Transport}
  {horizon : Nat} {start m : Moment} {config : Config} {peers peers' : List String}

theorem withoutRejected_append (before after : List (Timed Event)) :
    withoutRejected (before ++ after) = withoutRejected before ++ withoutRejected after :=
  List.filter_append _ _

/-- The wait as a part of the session. -/
def asReadiness (t : Timed Readiness.Event) : Timed Event :=
  ⟨t.moment, .readiness t.event⟩

theorem withoutRejected_tellsSkipped (start : Moment) (addresses : List String) :
    withoutRejected ((tellsSkipped start addresses).map asReadiness) = [] := by
  apply List.filter_eq_nil_iff.mpr
  intro t ht
  obtain ⟨s, hs, rfl⟩ := List.mem_map.mp ht
  obtain ⟨x, -, rfl⟩ := List.mem_map.mp hs
  simp [asReadiness, Event.isAboutRejected]

/-- What follows the wait depends on the addresses left out only in what it tells about them. -/
theorem withoutRejected_submit (transport : Submission.Transport) (config : Config)
    (report : Readiness.Report) (m : Moment) :
    withoutRejected (submit transport config report m).trace
        = withoutRejected
          ((Submission.submitOne transport m config.target config.size).mapEvents
            Event.submission).trace := by
  have htold : withoutRejected
      ((if report.skipped = [] then [] else [Event.leftOut report.skipped]).map (Timed.mk m)) = [] := by
    split <;> rfl
  simp only [submit, Course.after]
  rw [withoutRejected_append, htold, List.nil_append]

/-- What goes on from the same outcome in the same way is the same, apart from what it tells. -/
theorem withoutRejected_andThen {c c' : Course Event Readiness.Report} {skipped : List String}
    {next next' : Readiness.Report → Moment → Course Event Unit}
    (hsame : c'.outcome = leavingOut skipped c.outcome)
    (htrace : withoutRejected c'.trace = withoutRejected c.trace)
    (hnext : ∀ report m, (next' { report with skipped } m).outcome = (next report m).outcome ∧
      withoutRejected (next' { report with skipped } m).trace
        = withoutRejected (next report m).trace) :
    (c'.andThen next').outcome = (c.andThen next).outcome ∧
      withoutRejected (c'.andThen next').trace = withoutRejected (c.andThen next).trace := by
  unfold Course.andThen
  rw [hsame]
  cases c.outcome with
  | finished report m =>
    obtain ⟨hout, hrest⟩ := hnext report m
    refine ⟨hout, ?_⟩
    simp only [leavingOut]
    rw [withoutRejected_append, withoutRejected_append, htrace, hrest]
  | failed | crashed | pending => exact ⟨rfl, htrace⟩

/-- A session is the same whatever addresses stand among its peers that cannot be resolved. -/
theorem withoutRejected_run (environment : Readiness.Environment)
    (transport : Submission.Transport) (horizon : Nat) (start : Moment) (config : Config)
    (h : resolvable peers' = resolvable peers) :
    let session := fun peers => run environment transport horizon start { config with peers }
    (session peers').outcome = (session peers).outcome ∧
      withoutRejected (session peers').trace = withoutRejected (session peers).trace := by
  intro session
  cases hvalid : config.validate with
  | error why =>
    have hrefused : ∀ peers, session peers = .fail why start := fun _ => run_of_refused hvalid
    rw [hrefused, hrefused]
    exact ⟨rfl, rfl⟩
  | ok endpoint =>
    let wait := fun peers => awaitAll environment config.policy horizon start peers
    have hsession : ∀ peers, session peers = .after start [.targeted endpoint, .sized config.size]
        (((wait peers).mapEvents .readiness).andThen
          (submit transport { config with peers })) := by
      intro peers
      have hvalid : Config.validate { config with peers } = .ok endpoint := hvalid
      simp only [session, run, hvalid, wait]
    obtain ⟨hout, rest, htrace, htrace'⟩ := Readiness.awaitAll_of_resolved_eq environment
      config.policy horizon start (Endpoint.resolved_eq_of_resolvable h)
    have hsame : ((wait peers').mapEvents Event.readiness).outcome
        = leavingOut (rejected peers') ((wait peers).mapEvents Event.readiness).outcome := hout
    have hwait : withoutRejected ((wait peers').mapEvents .readiness).trace
        = withoutRejected ((wait peers).mapEvents .readiness).trace := by
      show withoutRejected ((wait peers').trace.map asReadiness)
        = withoutRejected ((wait peers).trace.map asReadiness)
      rw [htrace, htrace', List.map_append, List.map_append, withoutRejected_append,
        withoutRejected_append, withoutRejected_tellsSkipped, withoutRejected_tellsSkipped]
    have hsubmit : ∀ (report : Readiness.Report) (m : Moment),
        let before := submit transport { config with peers } report m
        let after := submit transport { config with peers := peers' }
          { report with skipped := rejected peers' } m
        after.outcome = before.outcome ∧
          withoutRejected after.trace = withoutRejected before.trace := by
      intro report m
      refine ⟨rfl, ?_⟩
      rw [withoutRejected_submit, withoutRejected_submit]
    obtain ⟨hout, hgoesOn⟩ := withoutRejected_andThen hsame hwait hsubmit
    rw [hsession, hsession, Course.outcome_after, Course.outcome_after]
    refine ⟨hout, ?_⟩
    simp only [Course.after]
    rw [withoutRejected_append, withoutRejected_append, hgoesOn]

/-- What is seen of a session through something that tells nothing about such addresses. -/
theorem filterMap_events_eq {α : Type} {c c' : Course Event Unit} {f : Event → Option α}
    (hf : ∀ e, e.isAboutRejected = true → f e = none)
    (h : withoutRejected c'.trace = withoutRejected c.trace) :
    c'.events.filterMap f = c.events.filterMap f := by
  have hkept : ∀ c : Course Event Unit,
      c.events.filterMap f = (withoutRejected c.trace).filterMap fun t => f t.event := by
    intro c
    rw [withoutRejected, List.filterMap_filter, Course.events, List.filterMap_map]
    congr 1
    funext t
    cases ht : t.event.isAboutRejected with
    | false => simp
    | true => simp [hf t.event ht]
  rw [hkept, hkept, h]

theorem attempt?_of_isAboutRejected :
    ∀ e : Event, e.isAboutRejected = true → e.attempt? = none
  | .readiness (.skipped _ _), _ => rfl
  | .leftOut _, _ => rfl

theorem submission?_of_isAboutRejected :
    ∀ e : Event, e.isAboutRejected = true → e.submission? = none
  | .readiness (.skipped _ _), _ => rfl
  | .leftOut _, _ => rfl

/-- Addresses that cannot be resolved are inert, wherever they are put in or taken out: neither
the outcome of a session depends on them, nor its attempts, nor what is done with the transport,
nor when any of it happens. A wait reports them as left out, and is the same otherwise. If it
finishes, it reports every address once, in the order of the list, and every peer has taken at
least one attempt. -/
theorem run_ignores_rejected (environment : Readiness.Environment)
    (transport : Submission.Transport) (horizon : Nat) (start : Moment) (config : Config) :
    let session := fun peers => run environment transport horizon start { config with peers }
    let wait := fun peers => awaitAll environment config.policy horizon start peers
    (∀ peers peers', resolvable peers' = resolvable peers →
      (session peers').outcome = (session peers).outcome ∧
      attemptsIn (session peers').events = attemptsIn (session peers).events ∧
      submissionsIn (session peers').events = submissionsIn (session peers).events ∧
      withoutRejected (session peers').trace = withoutRejected (session peers).trace ∧
      (wait peers').outcome = leavingOut (rejected peers') (wait peers).outcome) ∧
    (∀ peers report m, (wait peers).outcome = .finished report m →
      report.ready = peers.filterMap Endpoint.resolve? ∧
      report.skipped = rejected peers ∧
      report.ready.length + report.skipped.length = peers.length ∧
      report.ready.length ≤ report.attempts ∧
      (report.attempts = 0 ↔ report.ready = [])) := by
  intro session wait
  refine ⟨?_, fun _ _ _ h => Readiness.report_of_finished h⟩
  intro peers peers' h
  obtain ⟨hout, htrace⟩ := withoutRejected_run environment transport horizon start config h
  refine ⟨hout, ?_, ?_, htrace, ?_⟩
  · exact filterMap_events_eq attempt?_of_isAboutRejected htrace
  · exact filterMap_events_eq submission?_of_isAboutRejected htrace
  · exact (Readiness.awaitAll_of_resolved_eq _ _ _ _ (Endpoint.resolved_eq_of_resolvable h)).1

theorem run_ignores_rejected_around_peer :
    let session := fun peers => run acceptsAfterOne sendRefused 20 (Moment.dawn 0)
      ⟨"a:1", 9, peers, Readiness.brief .concurrent⟩
    let wait := fun peers => awaitAll acceptsAfterOne (Readiness.brief .concurrent) 20
      (Moment.dawn 0) peers
    let report := ⟨(Endpoint.resolveAll ["b:2"]).resolved, ["x", "/ip4/c"], 1⟩
    resolvable ["x", "b:2", "/ip4/c"] = resolvable ["b:2"] ∧
      (session ["x", "b:2", "/ip4/c"]).outcome
        = .failed (.stream ⟨.cancelled, "", [], []⟩) (Moment.dawn 1) ∧
      attemptsIn (session ["x", "b:2", "/ip4/c"]).events = attemptsIn (session ["b:2"]).events ∧
      (wait ["x", "b:2", "/ip4/c"]).outcome = .finished report (Moment.dawn 1) ∧
      report.ready.length + report.skipped.length = 3 := by
  intro session wait report
  obtain ⟨hinert, hreport⟩ := run_ignores_rejected acceptsAfterOne sendRefused 20
    (Moment.dawn 0) ⟨"a:1", 9, [], Readiness.brief .concurrent⟩
  have hsame : resolvable ["x", "b:2", "/ip4/c"] = resolvable ["b:2"] := by decide +kernel
  obtain ⟨hout, hattempts, -⟩ := hinert _ _ hsame
  have hsession : (session ["b:2"]).outcome
      = .failed (.stream ⟨.cancelled, "", [], []⟩) (Moment.dawn 1) := by
    decide +kernel
  have hwait : (wait ["x", "b:2", "/ip4/c"]).outcome = .finished report (Moment.dawn 1) := by
    decide +kernel
  obtain ⟨-, -, hlength, -⟩ := hreport _ _ _ hwait
  exact ⟨hsame, hout.trans hsession, hattempts, hwait, hlength⟩

end SingleShot.Session
