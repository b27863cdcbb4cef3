import SingleShot.Proofs.Readiness.Timeout
import SingleShot.Proofs.Submission
import SingleShot.Session

/-!
# The stages of a session

A session checks its settings, waits for its peers, and submits its transaction, in this order,
and each stage only if the one before has succeeded.

* `events_run`: with valid settings, what happens is the wait and then the submission.
* `run_finished_iff`, `run_failed_iff`: a session finishes if every stage does, and fails with
  the failure of the first stage that does not.
* `calls_run`: which calls a session makes, and that they come after its attempts.
-/

namespace SingleShot

/-- Settings are valid if the size has room for a header and the target can be resolved. -/
theorem Config.of_validate {config : Config} {endpoint : Endpoint}
    (h : config.validate = .ok endpoint) :
    checkSize config.size = .ok () ∧ resolveTarget config.target = .ok endpoint := by
  unfold validate at h
  by_cases htarget : config.target = ""
  · simp [htarget, bind, Except.bind, throw, throwThe, MonadExceptOf.throw] at h
  · cases hsize : checkSize config.size with
    | error why => simp [htarget, hsize, bind, Except.bind] at h
    | ok u =>
      refine ⟨rfl, ?_⟩
      simpa [htarget, hsize, bind, Except.bind, pure, Except.pure] using h

namespace Session

open Submission (Call Reply plan made verdict)

/-- The call that an event reports, with the reply to it. -/
def Event.call? : Event → Option (Call × Reply)
  | .submission event => event.call?
  | _ => none

/-- The connection attempt that an event is about. -/
def Event.attempt? : Event → Option Readiness.Attempt
  | .readiness event => event.attempt?
  | _ => none

/-- The calls among events, in order. -/
def callsIn (events : List Event) : List (Call × Reply) :=
  events.filterMap Event.call?

/-- The connection attempts among events, in order. -/
def attemptsIn (events : List Event) : List Readiness.Attempt :=
  events.filterMap Event.attempt?

theorem callsIn_append (before after : List Event) :
    callsIn (before ++ after) = callsIn before ++ callsIn after :=
  List.filterMap_append

theorem attemptsIn_append (before after : List Event) :
    attemptsIn (before ++ after) = attemptsIn before ++ attemptsIn after :=
  List.filterMap_append

@[simp] theorem callsIn_readiness (events : List Readiness.Event) :
    callsIn (events.map .readiness) = [] := by
  simp [callsIn, Function.comp_def, Event.call?]

@[simp] theorem callsIn_submission (events : List Submission.Event) :
    callsIn (events.map .submission) = Submission.callsIn events := by
  simp [callsIn, Submission.callsIn, Function.comp_def, Event.call?]

@[simp] theorem attemptsIn_readiness (events : List Readiness.Event) :
    attemptsIn (events.map .readiness) = events.filterMap (·.attempt?) := by
  simp [attemptsIn, Function.comp_def, Event.attempt?]

@[simp] theorem attemptsIn_submission (events : List Submission.Event) :
    attemptsIn (events.map .submission) = [] := by
  simp [attemptsIn, Function.comp_def, Event.attempt?]

variable {environment : Readiness.Environment} {transport : Submission.Transport}
  {horizon : Nat} {start m : Moment} {config : Config} {endpoint : Endpoint} {payload : Payload}
  {report : Readiness.Report}

/-- What follows the wait makes no attempts, and makes the planned calls. -/
theorem submit_follows (transport : Submission.Transport) (report : Readiness.Report)
    (m : Moment) (hvalid : config.validate = .ok endpoint)
    (hpayload : Payload.benchmark config.size Submission.singleCounter = .ok payload) :
    attemptsIn (submit transport config report m).events = [] ∧
      callsIn (submit transport config report m).events
        = made (plan transport endpoint payload) ∧
      (submit transport config report m).outcome
        = verdict m (plan transport endpoint payload) := by
  obtain ⟨hsize, htarget⟩ := Config.of_validate hvalid
  have hfollows := Submission.submitOne_follows transport m hsize htarget hpayload
  have htold : attemptsIn (if report.skipped = [] then [] else [.leftOut report.skipped]) = [] ∧
      callsIn (if report.skipped = [] then [] else [.leftOut report.skipped]) = [] := by
    split <;> exact ⟨rfl, rfl⟩
  refine ⟨?_, ?_, ?_⟩
  · rw [submit, Course.events_after, attemptsIn_append, htold.1, Course.events_mapEvents,
      attemptsIn_submission, List.nil_append]
  · rw [submit, Course.events_after, callsIn_append, htold.2, Course.events_mapEvents,
      callsIn_submission, hfollows.makes, List.nil_append]
  · rw [submit, Course.outcome_after, Course.outcome_mapEvents, hfollows.ends]

/-- What happens in a session up to the end of its wait. -/
def untilReady (endpoint : Endpoint) (config : Config)
    (wait : Course Readiness.Event Readiness.Report) : List Event :=
  [.targeted endpoint, .sized config.size] ++ wait.events.map .readiness

theorem attemptsIn_untilReady (endpoint : Endpoint) (config : Config)
    (wait : Course Readiness.Event Readiness.Report) :
    attemptsIn (untilReady endpoint config wait) = wait.events.filterMap (·.attempt?) := by
  rw [untilReady, attemptsIn_append, attemptsIn_readiness]
  rfl

theorem callsIn_untilReady (endpoint : Endpoint) (config : Config)
    (wait : Course Readiness.Event Readiness.Report) :
    callsIn (untilReady endpoint config wait) = [] := by
  rw [untilReady, callsIn_append, callsIn_readiness]
  rfl

/-- A session whose settings are valid waits, and submits only if the wait has finished. -/
theorem events_run (environment : Readiness.Environment) (transport : Submission.Transport)
    (horizon : Nat) (start : Moment) (hvalid : config.validate = .ok endpoint) :
    let session := run environment transport horizon start config
    let wait := Readiness.awaitAll environment config.policy horizon start config.peers
    (∀ report m, wait.outcome = .finished report m →
      session.events = untilReady endpoint config wait
        ++ (submit transport config report m).events) ∧
    ((∀ report m, wait.outcome ≠ .finished report m) →
      session.events = untilReady endpoint config wait) := by
  intro session wait
  have hsession : session = .after start [.targeted endpoint, .sized config.size]
      ((wait.mapEvents .readiness).andThen (submit transport config)) := by
    simp only [session, run, hvalid, wait]
  have htrace : (wait.mapEvents Event.readiness).events = wait.events.map .readiness :=
    Course.events_mapEvents _ _
  rw [hsession, Course.events_after, untilReady, ← htrace]
  constructor
  · intro report m hwait
    have hwait : (wait.mapEvents Event.readiness).outcome = .finished report m := hwait
    rw [Course.events_andThen_of_finished hwait, List.append_assoc]
  · intro hwait
    have hwait : ∀ report m, (wait.mapEvents Event.readiness).outcome ≠ .finished report m := hwait
    rw [Course.events_andThen_of_not_finished hwait]

theorem run_of_refused {why : Failure} (h : config.validate = .error why) :
    run environment transport horizon start config = .fail why start := by
  rw [run, h]

/-- How a session ends whose settings are valid. -/
theorem outcome_run (hvalid : config.validate = .ok endpoint)
    (hpayload : Payload.benchmark config.size Submission.singleCounter = .ok payload) :
    (run environment transport horizon start config).outcome =
      match (Readiness.awaitAll environment config.policy horizon start config.peers).outcome with
      | .finished _ m => verdict m (plan transport endpoint payload)
      | .failed why m => .failed why m
      | .crashed m => .crashed m
      | .pending => .pending := by
  simp only [run, hvalid, Course.outcome_after, Course.andThen, Course.outcome_mapEvents]
  cases (Readiness.awaitAll environment config.policy horizon start config.peers).outcome with
  | finished report m => exact (submit_follows transport report m hvalid hpayload).2.2
  | failed | crashed | pending => rfl

/-- A session finishes if the settings are valid, the wait finishes, and every call passes. -/
theorem run_finished_iff :
    (run environment transport horizon start config).outcome = .finished () m ↔
      ∃ endpoint payload report, config.validate = .ok endpoint ∧
        Payload.benchmark config.size Submission.singleCounter = .ok payload ∧
        (Readiness.awaitAll environment config.policy horizon start config.peers).outcome
          = .finished report m ∧
        ∀ c ∈ plan transport endpoint payload, c.2 = .passed := by
  cases hvalid : config.validate with
  | error why => simp [run_of_refused hvalid, Course.fail]
  | ok endpoint =>
    obtain ⟨payload, hpayload⟩ :=
      exists_benchmark (Config.of_validate hvalid).1 Submission.singleCounter
    rw [outcome_run hvalid hpayload]
    constructor
    · intro h
      split at h
      · rename_i report m' hwait
        obtain ⟨rfl, hpassed⟩ := Submission.verdict_finished_iff.mp h
        exact ⟨endpoint, payload, report, rfl, hpayload, hwait, hpassed⟩
      · cases h
      · cases h
      · cases h
    · rintro ⟨_, _, report, hendpoint, hpayload', hwait, hpassed⟩
      cases hendpoint
      cases hpayload.symm.trans hpayload'
      rw [hwait]
      exact Submission.verdict_finished_iff.mpr ⟨rfl, hpassed⟩

/-- A session fails with the failure of its first stage that fails, as it is. -/
theorem run_failed_iff {why : Failure} :
    (run environment transport horizon start config).outcome = .failed why m ↔
      config.validate = .error why ∧ m = start ∨
      ∃ endpoint, config.validate = .ok endpoint ∧
        let wait := Readiness.awaitAll environment config.policy horizon start config.peers
        (wait.outcome = .failed why m ∨
          ∃ payload report before call after,
            Payload.benchmark config.size Submission.singleCounter = .ok payload ∧
            wait.outcome = .finished report m ∧
            plan transport endpoint payload = before ++ (call, .failed why) :: after ∧
            ∀ c ∈ before, c.2 = .passed) := by
  cases hvalid : config.validate with
  | error why' =>
    rw [run_of_refused hvalid]
    constructor
    · intro h
      cases h
      exact Or.inl ⟨rfl, rfl⟩
    · rintro (⟨h, rfl⟩ | ⟨_, h, -⟩)
      · cases h
        rfl
      · cases h
  | ok endpoint =>
    obtain ⟨payload, hpayload⟩ :=
      exists_benchmark (Config.of_validate hvalid).1 Submission.singleCounter
    rw [outcome_run hvalid hpayload]
    constructor
    · intro h
      refine Or.inr ⟨endpoint, rfl, ?_⟩
      split at h
      · rename_i report m' hwait
        obtain ⟨rfl, before, call, after, hplan, hbefore⟩ := Submission.verdict_failed_iff.mp h
        exact Or.inr ⟨payload, report, before, call, after, hpayload, hwait, hplan, hbefore⟩
      · rename_i hwait
        cases h
        exact Or.inl hwait
      · cases h
      · cases h
    · rintro (⟨h, -⟩ | ⟨_, hendpoint, hwait | ⟨_, report, before, call, after, hpayload', hwait,
        hplan, hbefore⟩⟩)
      · cases h
      · rw [hwait]
      · cases hendpoint
        cases hpayload.symm.trans hpayload'
        rw [hwait]
        exact Submission.verdict_failed_iff.mpr ⟨rfl, before, call, after, hplan, hbefore⟩

/-- A session crashes only in its wait. -/
theorem run_crashed_iff :
    (run environment transport horizon start config).outcome = .crashed m ↔
      (∃ endpoint, config.validate = .ok endpoint) ∧
        (Readiness.awaitAll environment config.policy horizon start config.peers).outcome
          = .crashed m := by
  cases hvalid : config.validate with
  | error why => simp [run_of_refused hvalid, Course.fail]
  | ok endpoint =>
    obtain ⟨payload, hpayload⟩ :=
      exists_benchmark (Config.of_validate hvalid).1 Submission.singleCounter
    rw [outcome_run hvalid hpayload, and_iff_right ⟨endpoint, rfl⟩]
    cases (Readiness.awaitAll environment config.policy horizon start config.peers).outcome with
    | finished report m' => simp [Submission.verdict_ne_crashed]
    | failed | crashed | pending => simp

/-- The calls of a session follow its attempts, and there are none unless the wait finishes. -/
theorem calls_run (environment : Readiness.Environment) (transport : Submission.Transport)
    (horizon : Nat) (start : Moment) (hvalid : config.validate = .ok endpoint)
    (hpayload : Payload.benchmark config.size Submission.singleCounter = .ok payload) :
    let session := run environment transport horizon start config
    let wait := Readiness.awaitAll environment config.policy horizon start config.peers
    ((∃ report m, wait.outcome = .finished report m) ∧
        callsIn session.events = made (plan transport endpoint payload) ∨
      (∀ report m, wait.outcome ≠ .finished report m) ∧ callsIn session.events = []) ∧
    ∃ before after, session.events = before ++ after ∧
      attemptsIn before = wait.events.filterMap (·.attempt?) ∧ callsIn before = [] ∧
      attemptsIn after = [] := by
  intro session wait
  obtain ⟨hfin, hnot⟩ := events_run environment transport horizon start hvalid
  have hattempts := attemptsIn_untilReady endpoint config wait
  have hnone := callsIn_untilReady endpoint config wait
  -- What follows the wait is the submission, or nothing.
  by_cases hwait : ∃ report m, wait.outcome = .finished report m
  · obtain ⟨report, m, hfinished⟩ := hwait
    obtain ⟨hrest, hcalls, -⟩ := submit_follows transport report m hvalid hpayload
    have hevents := hfin report m hfinished
    refine ⟨Or.inl ⟨⟨report, m, hfinished⟩, ?_⟩, _, _, hevents, hattempts, hnone, hrest⟩
    rw [hevents, callsIn_append, hnone, hcalls, List.nil_append]
  · have hwait : ∀ report m, wait.outcome ≠ .finished report m :=
      fun report m h => hwait ⟨report, m, h⟩
    have hevents := hnot hwait
    refine ⟨Or.inr ⟨hwait, by rw [hevents, hnone]⟩, _, [], ?_, hattempts, hnone, rfl⟩
    rw [hevents, List.append_nil]

/-- A session goes through its stages in order, and no further than the first that fails. If the
settings are not valid, nothing happens at all. If they are, the attempts on peers come first and
are those of the wait; calls come after them, only if the wait has finished, each at most once,
and they are the first calls of the plan for the resolved target and a payload of the wanted
size, up to one that does not pass. The session finishes if every stage succeeds, and else fails
with the failure of the first stage that does not. -/
theorem run_in_stages (environment : Readiness.Environment) (transport : Submission.Transport)
    (horizon : Nat) (start : Moment) (config : Config) :
    let session := run environment transport horizon start config
    let wait := Readiness.awaitAll environment config.policy horizon start config.peers
    (∀ why, config.validate = .error why →
      session.events = [] ∧ session.outcome = .failed why start) ∧
    (∀ endpoint, config.validate = .ok endpoint →
      ∃ payload, Payload.benchmark config.size Submission.singleCounter = .ok payload ∧
        payload.size = config.size ∧ payload.counter = 0 ∧
        callsIn session.events <+: plan transport endpoint payload ∧
        ((callsIn session.events).map (·.1)).Nodup ∧
        ((∃ report m, wait.outcome = .finished report m) ∧
            callsIn session.events = made (plan transport endpoint payload) ∨
          (∀ report m, wait.outcome ≠ .finished report m) ∧ callsIn session.events = []) ∧
        ∃ before after, session.events = before ++ after ∧
          attemptsIn before = wait.events.filterMap (·.attempt?) ∧ callsIn before = [] ∧
          attemptsIn after = []) ∧
    (∀ m, session.outcome = .finished () m ↔
      ∃ endpoint payload report, config.validate = .ok endpoint ∧
        Payload.benchmark config.size Submission.singleCounter = .ok payload ∧
        wait.outcome = .finished report m ∧
        ∀ c ∈ plan transport endpoint payload, c.2 = .passed) ∧
    (∀ why m, session.outcome = .failed why m ↔
      config.validate = .error why ∧ m = start ∨
      ∃ endpoint, config.validate = .ok endpoint ∧
        (wait.outcome = .failed why m ∨
          ∃ payload report before call after,
            Payload.benchmark config.size Submission.singleCounter = .ok payload ∧
            wait.outcome = .finished report m ∧
            plan transport endpoint payload = before ++ (call, .failed why) :: after ∧
            ∀ c ∈ before, c.2 = .passed)) := by
  intro session wait
  refine ⟨?_, ?_, fun _ => run_finished_iff, fun _ _ => run_failed_iff⟩
  · intro why h
    have hrun : session = .fail why start := run_of_refused h
    rw [hrun]
    exact ⟨rfl, rfl⟩
  · intro endpoint hvalid
    obtain ⟨payload, hpayload⟩ :=
      exists_benchmark (Config.of_validate hvalid).1 Submission.singleCounter
    obtain ⟨hcalls, horder⟩ := calls_run environment transport horizon start hvalid hpayload
    have hfirst : callsIn session.events <+: plan transport endpoint payload := by
      rcases hcalls with ⟨-, hmade⟩ | ⟨-, hnone⟩
      · rw [hmade]
        exact Submission.made_prefix _
      · rw [hnone]
        exact List.nil_prefix
    exact ⟨payload, hpayload, Payload.size_of_benchmark hpayload,
      Payload.counter_of_benchmark hpayload, hfirst,
      (Submission.nodup_plan transport endpoint payload).sublist (hfirst.sublist.map _),
      hcalls, horder⟩

/-- A transport that carries everything up to the transaction, which it refuses. -/
def sendRefused : Submission.Transport where
  connect _ := .passed
  openStream _ := .passed
  send _ _ := .failed (.stream ⟨.cancelled, "", [], []⟩)
  close _ _ := .passed

/-- Every peer accepts a nanosecond after it is asked. -/
def acceptsAfterOne : Readiness.Environment :=
  ⟨fun _ => .accepts 1, .endless⟩

theorem run_in_stages_up_to_send :
    let config : Config := ⟨"a:1", 9, ["b:2"], Readiness.brief .concurrent⟩
    let session := run acceptsAfterOne sendRefused 20 (Moment.dawn 0) config
    session.outcome = .failed (.stream ⟨.cancelled, "", [], []⟩) (Moment.dawn 1) ∧
      ∃ endpoint payload, endpoint.text = "a:1" ∧ payload.size = 9 ∧ payload.counter = 0 ∧
        callsIn session.events = made (plan sendRefused endpoint payload) := by
  intro config session
  let endpoint : Endpoint := ⟨"a", "1", by decide, by decide, by decide, by decide⟩
  have hvalid : config.validate = .ok endpoint := by
    have hsome : config.validate.toOption = some endpoint := by decide +kernel
    cases h : config.validate with
    | error why => simp [h, Except.toOption] at hsome
    | ok e => rw [h] at hsome; exact congrArg Except.ok (Option.some.inj hsome)
  obtain ⟨-, hstages, -, hfailed⟩ := run_in_stages acceptsAfterOne sendRefused 20
    (Moment.dawn 0) config
  obtain ⟨payload, hpayload, hsize, hcounter, -, -, hcalls, -⟩ := hstages endpoint hvalid
  have hwait : (Readiness.awaitAll acceptsAfterOne config.policy 20 (Moment.dawn 0)
      config.peers).outcome = .finished ⟨(Endpoint.resolveAll ["b:2"]).resolved, [], 1⟩
        (Moment.dawn 1) := by
    decide +kernel
  refine ⟨?_, endpoint, payload, by decide, hsize, hcounter, ?_⟩
  · refine (hfailed _ _).mpr (Or.inr ⟨endpoint, hvalid, Or.inr ⟨payload, _,
      [(.connect endpoint, .passed), (.openStream, .passed)], .send payload,
      [(.close endpoint [payload], .passed)], hpayload, hwait, rfl, ?_⟩⟩)
    simp
  · rcases hcalls with ⟨-, hmade⟩ | ⟨hne, -⟩
    · exact hmade
    · exact absurd hwait (hne _ _)

end Session

end SingleShot
