import SingleShot.Proofs.Endpoint.Notation
import SingleShot.Proofs.Session
import SingleShot.Proofs.Success

/-!
# Checks that are made twice

The size and the target are checked with the settings, before anybody is waited for, and again
before the first call. Apart from a target that is not given at all, the two checks pass alike and
refuse alike. So a wait never ends in a fault of the settings.

* `Config.validate_eq_check`: the settings pass exactly the checks of their submission.
* `Submission.check_eq_error_iff`, `Submission.callsIn_of_check`: what a submission does that is
  refused, or not.
* `validate_of_run_failed`: a session that fails by its settings fails at once.
-/

namespace SingleShot

open Success

namespace Failure

variable {why : Failure}

/-- Whether the settings are to blame. -/
def isOfSettings : Failure → Bool
  | invalidConfiguration _ | invalidAddress _ => true
  | connection _ _ | stream _ | readinessTimeout _ _ => false

/-- Whether a channel or a stream is to blame. -/
def isOfTransport : Failure → Bool
  | connection _ _ | stream _ => true
  | invalidConfiguration _ | invalidAddress _ | readinessTimeout _ _ => false

theorem isOfSettings_of_isOfTransport (h : why.isOfTransport = true) :
    why.isOfSettings = false := by
  cases why with
  | connection | stream => rfl
  | invalidConfiguration | invalidAddress | readinessTimeout => cases h

end Failure

namespace Submission

variable {transport : Transport} {m : Moment} {target : String} {size : Nat} {endpoint : Endpoint}
  {why : Failure}

/-- A transport whose calls fail by their channel or their stream only. -/
structure Transport.FailsInTransit (transport : Transport) : Prop where
  connect : ∀ endpoint why, transport.connect endpoint = .failed why → why.isOfTransport = true
  openStream : ∀ endpoint why, transport.openStream endpoint = .failed why →
    why.isOfTransport = true
  send : ∀ endpoint payload why, transport.send endpoint payload = .failed why →
    why.isOfTransport = true
  close : ∀ endpoint sent why, transport.close endpoint sent = .failed why →
    why.isOfTransport = true

theorem Transport.FailsInTransit.of_mem_plan (h : transport.FailsInTransit) {payload : Payload}
    {call : Call} (hcall : (call, .failed why) ∈ plan transport endpoint payload) :
    why.isOfTransport = true := by
  simp only [plan, List.mem_cons, Prod.mk.injEq, List.not_mem_nil, or_false] at hcall
  rcases hcall with ⟨-, hreply⟩ | ⟨-, hreply⟩ | ⟨-, hreply⟩ | ⟨-, hreply⟩
  · exact h.connect endpoint why hreply.symm
  · exact h.openStream endpoint why hreply.symm
  · exact h.send endpoint payload why hreply.symm
  · exact h.close endpoint [payload] why hreply.symm

/-! ## The checks of a submission -/

/-- What is checked before the first call: the size, and then the target. -/
def check (target : String) (size : Nat) : Except Failure Endpoint := do
  checkSize size
  Config.resolveTarget target

theorem check_eq_ok_iff :
    check target size = .ok endpoint ↔
      checkSize size = .ok () ∧ Config.resolveTarget target = .ok endpoint := by
  rw [check, bind_eq_ok_iff]
  constructor
  · rintro ⟨_, hsize, htarget⟩
    exact ⟨hsize, htarget⟩
  · rintro ⟨hsize, htarget⟩
    exact ⟨(), hsize, htarget⟩

theorem submitOne_of_refused (h : check target size = .error why) :
    submitOne transport m target size = .fail why m := by
  unfold check at h
  unfold submitOne
  cases hsize : checkSize size with
  | error why' =>
    rw [hsize] at h
    cases h
    rfl
  | ok =>
    rw [hsize] at h
    have htarget : Config.resolveTarget target = .error why := h
    rw [htarget]

theorem callsIn_of_check (transport : Transport) (m : Moment)
    (h : check target size = .ok endpoint) :
    ∃ calls, callsIn (submitOne transport m target size).events
      = (.connect endpoint, transport.connect endpoint) :: calls := by
  obtain ⟨hsize, htarget⟩ := check_eq_ok_iff.mp h
  obtain ⟨payload, hpayload⟩ := exists_benchmark hsize singleCounter
  rw [(submitOne_follows transport m hsize htarget hpayload).makes]
  exact ⟨_, rfl⟩

/-- A submission that fails without a call is one that is refused. -/
theorem check_eq_error_iff (transport : Transport) (m : Moment) :
    check target size = .error why ↔
      (∃ e, (submitOne transport m target size).outcome = .failed why e) ∧
        callsIn (submitOne transport m target size).events = [] := by
  constructor
  · intro h
    rw [submitOne_of_refused h]
    exact ⟨⟨m, rfl⟩, rfl⟩
  · rintro ⟨⟨e, hfailed⟩, hnone⟩
    cases h : check target size with
    | error why' =>
      rw [submitOne_of_refused h] at hfailed
      cases hfailed
      rfl
    | ok endpoint =>
      obtain ⟨calls, hcalls⟩ := callsIn_of_check transport m h
      rw [hcalls] at hnone
      cases hnone

theorem isOfSettings_of_check (h : check target size = .error why) : why.isOfSettings = true := by
  unfold check checkSize at h
  split at h
  · cases h
    rfl
  · obtain ⟨error, rfl, -⟩ := Endpoint.resolveTarget_eq_error_iff.mp h
    rfl

theorem exists_check_no_target (size : Nat) : ∃ why, check "" size = .error why := by
  cases h : check "" size with
  | error why => exact ⟨why, rfl⟩
  | ok endpoint =>
    have hrefused : Config.resolveTarget "" = .error (.invalidAddress ⟨"", .unknownNotation⟩) :=
      Endpoint.resolveTarget_eq_error_iff.mpr ⟨_, rfl, rfl⟩
    rw [(check_eq_ok_iff.mp h).2] at hrefused
    cases hrefused

end Submission

namespace Config

variable {config : Config}

theorem validate_of_no_target (h : config.target = "") :
    config.validate = .error (.invalidConfiguration .missingTarget) := by
  rw [validate, if_pos h]
  rfl

/-- A target that is given is checked as its submission checks it. -/
theorem validate_eq_check (h : config.target ≠ "") :
    config.validate = Submission.check config.target config.size := by
  rw [validate, if_neg h]
  rfl

end Config

namespace Session

open Submission (submitOne)

variable {environment : Readiness.Environment} {transport : Submission.Transport}
  {horizon : Nat} {start m : Moment} {config : Config} {why : Failure}

/-- A session fails by its settings before it waits, if the transport has no part in it. -/
theorem validate_of_run_failed (htransport : transport.FailsInTransit)
    (hwhy : why.isOfSettings = true)
    (h : (run environment transport horizon start config).outcome = .failed why m) :
    config.validate = .error why := by
  -- A wait fails by its deadline only, and a call by the transport only.
  rcases run_failed_iff.mp h with ⟨hrefused, -⟩ | ⟨endpoint, -, hwait | hcall⟩
  · exact hrefused
  · obtain ⟨allowed, -, -, peer, -, rfl⟩ := Readiness.timeout_of_failed hwait
    cases hwhy
  · obtain ⟨payload, report, before, call, after, -, -, hplan, -⟩ := hcall
    have hmem : (call, .failed why) ∈ Submission.plan transport endpoint payload := by
      rw [hplan]
      exact List.mem_append_right _ List.mem_cons_self
    have hnot := Failure.isOfSettings_of_isOfTransport (htransport.of_mem_plan hmem)
    rw [hwhy] at hnot
    cases hnot

/-- What is wrong with the settings is told before anybody is waited for. With a target, the
settings are refused exactly if the submission is, with the same failure and before any call; and
if they are not, the first call connects to the endpoint that they were resolved to. So if the
transport fails by its channels and streams only, a session that fails by its settings has made
neither an attempt nor a call. Without a target both are refused. -/
theorem validate_agrees_with_submitOne (environment : Readiness.Environment)
    (transport : Submission.Transport) (horizon : Nat) (start m : Moment) (config : Config) :
    let session := run environment transport horizon start config
    let course := submitOne transport m config.target config.size
    (config.target ≠ "" →
      (∀ why, config.validate = .error why ↔
        (∃ e, course.outcome = .failed why e) ∧ Submission.callsIn course.events = []) ∧
      (∀ endpoint, config.validate = .ok endpoint →
        ∃ calls, Submission.callsIn course.events
          = (.connect endpoint, transport.connect endpoint) :: calls)) ∧
    (transport.FailsInTransit → ∀ why e, session.outcome = .failed why e →
      why.isOfSettings = true → attemptsIn session.events = [] ∧ callsIn session.events = []) ∧
    (config.target = "" →
      session.outcome = .failed (.invalidConfiguration .missingTarget) start ∧
      (∃ why, why.isOfSettings = true ∧ course.outcome = .failed why m) ∧
      Submission.callsIn course.events = []) := by
  intro session course
  refine ⟨?_, ?_, ?_⟩
  · intro htarget
    rw [Config.validate_eq_check htarget]
    refine ⟨fun why => Submission.check_eq_error_iff transport m, ?_⟩
    intro endpoint hvalid
    exact Submission.callsIn_of_check transport m hvalid
  · intro htransport why e hfailed hwhy
    have hrun : session = .fail why start :=
      run_of_refused (validate_of_run_failed htransport hwhy hfailed)
    rw [hrun]
    exact ⟨rfl, rfl⟩
  · intro htarget
    have hrun : session = .fail (.invalidConfiguration .missingTarget) start :=
      run_of_refused (Config.validate_of_no_target htarget)
    obtain ⟨why, hcheck⟩ := Submission.exists_check_no_target config.size
    rw [← htarget] at hcheck
    have hcourse : course = .fail why m := Submission.submitOne_of_refused hcheck
    rw [hrun, hcourse]
    exact ⟨rfl, ⟨why, Submission.isOfSettings_of_check hcheck, rfl⟩, rfl⟩

theorem validate_agrees_with_submitOne_on_name :
    let config : Config := ⟨"name", 9, ["b:2"], Readiness.brief .concurrent⟩
    let session := run acceptsAfterOne sendRefused 20 (Moment.dawn 0) config
    let course := submitOne sendRefused (Moment.dawn 1) config.target config.size
    let why : Failure := .invalidAddress ⟨"name", .unknownNotation⟩
    config.validate = .error why ∧
      ((∃ e, course.outcome = .failed why e) ∧ Submission.callsIn course.events = []) ∧
      attemptsIn session.events = [] ∧ callsIn session.events = [] := by
  intro config session course why
  obtain ⟨hagree, hearly, -⟩ := validate_agrees_with_submitOne acceptsAfterOne sendRefused 20
    (Moment.dawn 0) (Moment.dawn 1) config
  have hname : Endpoint.resolve "name" = .error ⟨"name", .unknownNotation⟩ :=
    Endpoint.resolve_eq_error_iff.mpr (.unknownNotation (by decide) (by decide))
  have hvalid : config.validate = .error why := by
    rw [Config.validate_eq_check (by decide)]
    exact Endpoint.resolveTarget_eq_error_iff.mpr ⟨_, rfl, hname⟩
  have hsession : session.outcome = .failed why (Moment.dawn 0) := by
    rw [show session = .fail why (Moment.dawn 0) from run_of_refused hvalid]
    rfl
  have htransport : sendRefused.FailsInTransit := by
    refine ⟨?_, ?_, ?_, ?_⟩
    · intro endpoint why h
      cases h
    · intro endpoint why h
      cases h
    · intro endpoint payload why h
      cases h
      rfl
    · intro endpoint sent why h
      cases h
  refine ⟨hvalid, ((hagree (by decide)).1 why).mp hvalid, ?_⟩
  exact hearly htransport why (Moment.dawn 0) hsession rfl

end Session

end SingleShot
