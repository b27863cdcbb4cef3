import SingleShot.Program
import SingleShot.Proofs.CommandLine.Diagnostic
import SingleShot.Proofs.CommandLine.Grammar
import SingleShot.Proofs.Node
import SingleShot.Proofs.Readiness.Accepted
import SingleShot.Proofs.Session
import SingleShot.Proofs.Wire.RoundTrip

/-!
# What a run of the program comes to

The program as a whole, over channels to nodes: when it succeeds, what nodes have received then,
and what is said if it fails.

* `exists_session_finished_iff`: the session of a command line finishes, if it is observed long
  enough, exactly if its settings are valid, its peers accept in time, and the node acknowledges.
* `callsIn_session`: it makes no call if one of the first two does not hold.
* `session_crashed_iff`: it crashes exactly if its settings are valid and the clock does not count
  the instant of its deadline.
* `Sends`, `run_sends_once`: all of it, as seen from outside of the program.
-/

namespace SingleShot.Program

open CommandLine (Arguments Shows Stop)
open Session (callsIn)
open Submission (plan)

variable {world : World} {words : List String} {logSetting : Option String} {a : Arguments}
  {endpoint : Endpoint} {why : Failure} {m : Moment}

/-! ## The session of a command line -/

/-- The same world, observed up to another horizon. -/
def World.upTo (world : World) (horizon : Nat) : World :=
  { world with horizon }

/-- The peers that the arguments name accept in time. -/
def PeersAccept (world : World) (a : Arguments) : Prop :=
  Readiness.PeersAccept world.environment a.config.policy (Moment.dawn 0) a.config.peers

/-- There is no peer to wait for, or the clock counts the instant until which the arguments let
the program wait. -/
def PollsBegin (world : World) (a : Arguments) : Prop :=
  Readiness.PollsBegin world.environment a.config.policy (Moment.dawn 0) a.config.peers

theorem of_session_finished (h : (session world a).outcome = .finished () m) :
    ∃ endpoint, a.config.validate = .ok endpoint ∧ PeersAccept world a ∧
      Node.Acknowledges world.sites endpoint := by
  obtain ⟨endpoint, payload, report, hvalid, -, hwait, hpassed⟩ := Session.run_finished_iff.mp h
  exact ⟨endpoint, hvalid, Readiness.exists_awaitAll_finished_iff.mp ⟨_, _, _, hwait⟩,
    Node.plan_passed_iff.mp hpassed⟩

/-- A session that has finished is the same under every later horizon. -/
theorem session_finished_of_horizon_le {horizon later : Nat} (hh : horizon ≤ later)
    (h : (session (world.upTo horizon) a).outcome = .finished () m) :
    (session (world.upTo later) a).outcome = .finished () m := by
  obtain ⟨endpoint, payload, report, hvalid, hpayload, hwait, hpassed⟩ :=
    Session.run_finished_iff.mp h
  exact Session.run_finished_iff.mpr ⟨endpoint, payload, report, hvalid, hpayload,
    Readiness.awaitAll_finished_of_horizon_le hh hwait, hpassed⟩

theorem exists_session_finished_iff :
    (∃ horizon m, (session (world.upTo horizon) a).outcome = .finished () m) ↔
      ∃ endpoint, a.config.validate = .ok endpoint ∧ PeersAccept world a ∧
        Node.Acknowledges world.sites endpoint := by
  constructor
  · rintro ⟨horizon, m, h⟩
    obtain ⟨endpoint, hvalid, haccept, hacknowledges⟩ := of_session_finished h
    exact ⟨endpoint, hvalid, haccept, hacknowledges⟩
  · rintro ⟨endpoint, hvalid, haccept, hacknowledges⟩
    obtain ⟨payload, hpayload⟩ :=
      exists_benchmark (Config.of_validate hvalid).1 Submission.singleCounter
    obtain ⟨horizon, report, m, hwait⟩ := Readiness.exists_awaitAll_finished_iff.mpr haccept
    exact ⟨horizon, m, Session.run_finished_iff.mpr ⟨endpoint, payload, report, hvalid, hpayload,
      hwait, Node.plan_passed_iff.mpr hacknowledges⟩⟩

theorem session_crashed_iff :
    (∃ m, (session world a).outcome = .crashed m) ↔
      (∃ endpoint, a.config.validate = .ok endpoint) ∧ ¬ PollsBegin world a := by
  simp only [session, Session.run_crashed_iff, Readiness.awaitAll_crashed_iff, exists_and_left,
    exists_eq, and_true]
  exact Iff.rfl

theorem callsIn_session_of_refused (h : a.config.validate = .error why) :
    callsIn (session world a).events = [] := by
  rw [session, Session.run_of_refused h]
  rfl

/-- Without valid settings or without the peers a session makes no call. -/
theorem callsIn_session
    (h : (∃ why, a.config.validate = .error why) ∨ ¬ PeersAccept world a) :
    callsIn (session world a).events = [] := by
  cases hvalid : a.config.validate with
  | error why => exact callsIn_session_of_refused hvalid
  | ok endpoint =>
    have hnot : ¬ PeersAccept world a := h.resolve_left (by simp [hvalid])
    obtain ⟨payload, hpayload⟩ :=
      exists_benchmark (Config.of_validate hvalid).1 Submission.singleCounter
    obtain ⟨⟨⟨report, m, hwait⟩, -⟩ | ⟨-, hnone⟩, -⟩ := Session.calls_run world.environment
      (Node.transport world.sites) world.horizon (Moment.dawn 0) hvalid hpayload
    · exact absurd (Readiness.exists_awaitAll_finished_iff.mp ⟨_, _, _, hwait⟩) hnot
    · exact hnone

/-- The calls of a session are the first ones of a plan for one payload. -/
theorem exists_callsIn_session_prefix (world : World) (a : Arguments) :
    callsIn (session world a).events = [] ∨ ∃ endpoint payload,
      callsIn (session world a).events <+: plan (Node.transport world.sites) endpoint payload := by
  cases hvalid : a.config.validate with
  | error why => exact Or.inl (callsIn_session_of_refused hvalid)
  | ok endpoint =>
    obtain ⟨payload, hpayload⟩ :=
      exists_benchmark (Config.of_validate hvalid).1 Submission.singleCounter
    obtain ⟨⟨-, hmade⟩ | ⟨-, hnone⟩, -⟩ := Session.calls_run world.environment
      (Node.transport world.sites) world.horizon (Moment.dawn 0) hvalid hpayload
    · exact Or.inr ⟨endpoint, payload, hmade ▸ Submission.made_prefix _⟩
    · exact Or.inl hnone

/-- A session that finishes has made all calls of its plan, for a payload of zeros. -/
theorem callsIn_session_of_finished (h : (session world a).outcome = .finished () m)
    (hvalid : a.config.validate = .ok endpoint) :
    ∃ payload, payload.bytes = List.replicate a.size 0 ∧
      callsIn (session world a).events = plan (Node.transport world.sites) endpoint payload := by
  obtain ⟨_, payload, report, hendpoint, hpayload, hwait, hpassed⟩ :=
    Session.run_finished_iff.mp h
  cases hvalid.symm.trans hendpoint
  have hall := Submission.made_append hpassed []
  rw [List.append_nil, Submission.made, List.append_nil] at hall
  refine ⟨payload, Payload.bytes_of_benchmark_zero hpayload, ?_⟩
  obtain ⟨⟨-, hmade⟩ | ⟨hnot, -⟩, -⟩ := Session.calls_run world.environment
    (Node.transport world.sites) world.horizon (Moment.dawn 0) hvalid hpayload
  · exact hmade.trans hall
  · exact absurd hwait (hnot report m)

/-! ## The program -/

theorem run_of_read (h : Arguments.read words = .ok a) :
    run world words logSetting = runArguments world (Log.Filter.ofSetting logSetting) a := by
  rw [run, h]

theorem run_of_stop {stop : Stop} (h : Arguments.read words = .error stop) :
    run world words logSetting = stopped stop := by
  rw [run, h]

theorem exit_runArguments (world : World) (filter : Log.Filter) (a : Arguments) :
    (runArguments world filter a).exit = (conclusion a.addr (session world a).outcome).1 :=
  rfl

theorem diagnostics_runArguments (filter : Log.Filter)
    (h : (session world a).outcome = .failed why m) :
    (runArguments world filter a).diagnostics = CommandLine.failureLines a.addr why := by
  simp only [runArguments, h, conclusion]

theorem exit_eq_zero_iff {filter : Log.Filter} :
    (runArguments world filter a).exit = some 0 ↔
      ∃ m, (session world a).outcome = .finished () m := by
  rw [exit_runArguments]
  cases (session world a).outcome <;> simp [conclusion, crashCode]

theorem exit_eq_crashCode_iff {filter : Log.Filter} :
    (runArguments world filter a).exit = some crashCode ↔
      ∃ m, (session world a).outcome = .crashed m := by
  rw [exit_runArguments]
  cases (session world a).outcome <;> simp [conclusion, crashCode]

/-- Arguments that were read let the program end in three ways. -/
theorem exit_cases {filter : Log.Filter} {code : Nat}
    (h : (runArguments world filter a).exit = some code) :
    code = 0 ∨ (code = 1 ∧ ∃ why m, (session world a).outcome = .failed why m) ∨
      code = crashCode := by
  rw [exit_runArguments] at h
  cases ho : (session world a).outcome with
  | finished u m =>
    rw [ho] at h
    exact Or.inl (Option.some.inj h).symm
  | failed why m =>
    rw [ho] at h
    exact Or.inr (Or.inl ⟨(Option.some.inj h).symm, why, m, rfl⟩)
  | crashed m =>
    rw [ho] at h
    exact Or.inr (Or.inr (Option.some.inj h).symm)
  | pending =>
    rw [ho] at h
    cases h

/-- What nodes receive in a run comes from the calls in it. -/
theorem deliveries_eq (r : Result) :
    r.deliveries world = Node.receivedIn world.sites (callsIn r.events) := by
  rw [Result.deliveries, Node.receivedIn, callsIn, List.filterMap_filterMap]
  congr 1
  funext event
  cases event with
  | submission event => cases event <;> rfl
  | targeted | sized | readiness | leftOut => rfl

/-- A session that finishes has brought one message to the node, and that holds the zeros. -/
theorem exists_deliveries_of_finished (hread : Arguments.read words = .ok a)
    (h : (session world a).outcome = .finished () m) (hvalid : a.config.validate = .ok endpoint)
    (hacknowledges : Node.Acknowledges world.sites endpoint) (filter : Log.Filter) :
    ∃ message,
      (runArguments world filter a).deliveries world = [⟨endpoint, Node.callPath, [message]⟩] ∧
        Wire.Kind.submission.decode message = .ok (List.replicate a.config.size 0) := by
  obtain ⟨payload, hbytes, hcalls⟩ := callsIn_session_of_finished h hvalid
  have hcalls : callsIn (runArguments world filter a).events = _ := hcalls
  have hlength : payload.bytes.length < wordBound := by
    rw [hbytes, List.length_replicate]
    exact Arguments.size_lt_of_read hread
  refine ⟨Wire.encode payload.bytes, ?_, ?_⟩
  · rw [deliveries_eq, hcalls, Node.receivedIn_plan_of_acknowledges hacknowledges]
  · rw [Wire.decode_encode hlength, hbytes]
    rfl

theorem exit_ne_zero {filter : Log.Filter}
    (h : (∃ why, a.config.validate = .error why) ∨ ¬ PeersAccept world a) :
    (runArguments world filter a).exit ≠ some 0 := by
  rw [Ne, exit_eq_zero_iff]
  rintro ⟨m, hfinished⟩
  obtain ⟨endpoint, hvalid, haccept, -⟩ := of_session_finished hfinished
  rcases h with ⟨why, hrefused⟩ | hnot
  · cases hvalid.symm.trans hrefused
  · exact hnot haccept

theorem deliveries_of_no_call {r : Result} (h : callsIn r.events = []) :
    r.deliveries world = [] := by
  rw [deliveries_eq, h]
  rfl

/-- Observed long enough, a run ends with this exit code. -/
def ExitsWith (world : World) (words : List String) (logSetting : Option String) (code : Nat) :
    Prop :=
  ∃ h₀, ∀ h, h₀ ≤ h → (run (world.upTo h) words logSetting).exit = some code

theorem exitsWith_zero_iff (hread : Arguments.read words = .ok a) :
    ExitsWith world words logSetting 0 ↔
      ∃ horizon m, (session (world.upTo horizon) a).outcome = .finished () m := by
  simp only [ExitsWith, run_of_read hread, exit_eq_zero_iff]
  constructor
  · rintro ⟨h₀, hfin⟩
    exact ⟨h₀, hfin h₀ (Nat.le_refl h₀)⟩
  · rintro ⟨horizon, m, h⟩
    exact ⟨horizon, fun later hh => ⟨m, session_finished_of_horizon_le hh h⟩⟩

/-! ## The whole of it -/

/-- What is to be known of a run that is no answer to a request. -/
structure Sends (world : World) (words : List String) (logSetting : Option String) : Prop where
  /-- It succeeds exactly if the words are read, the settings that they make are valid, the peers
  accept in time, and the node acknowledges. -/
  succeeds : ExitsWith world words logSetting 0 ↔
    ∃ a endpoint, Arguments.read words = .ok a ∧ a.config.validate = .ok endpoint ∧
      PeersAccept world a ∧ Node.Acknowledges world.sites endpoint
  /-- When it has succeeded all of this holds, and the node has received one message, with a
  payload of as many zeros as wanted. -/
  delivers : (run world words logSetting).exit = some 0 →
    ∃ a endpoint message, Arguments.read words = .ok a ∧ a.config.validate = .ok endpoint ∧
      PeersAccept world a ∧ Node.Acknowledges world.sites endpoint ∧
      (run world words logSetting).deliveries world = [⟨endpoint, Node.callPath, [message]⟩] ∧
      Wire.Kind.submission.decode message = .ok (List.replicate a.config.size 0)
  /-- What fails before the submission makes no call, and no node receives anything. -/
  withholds : (∃ stop, Arguments.read words = .error stop) ∨
      (∃ a, Arguments.read words = .ok a ∧
        ((∃ why, a.config.validate = .error why) ∨ ¬ PeersAccept world a)) →
    callsIn (run world words logSetting).events = [] ∧
      (run world words logSetting).deliveries world = [] ∧
      (run world words logSetting).exit ≠ some 0
  /-- However a run ends, and whether it does, nodes receive one message at most. -/
  once : (Node.messagesOf ((run world words logSetting).deliveries world)).length ≤ 1
  /-- A run that fails after its words are read says so by the target as it was given and the
  failure of its session, unless it crashes. -/
  blames : ∀ a code, Arguments.read words = .ok a →
    (run world words logSetting).exit = some code → code ≠ 0 → code ≠ crashCode →
    code = 1 ∧ ∃ why m label shown others, (session world a).outcome = .failed why m ∧
      (label = "    " ∨ label = "    0: ") ∧
      (run world words logSetting).diagnostics =
        [s!"Error: Cannot send transaction to {a.addr}", "", "Caused by:"] ++ shown ++ others ∧
      Shows label why.message shown
  /-- It crashes exactly if the words are read, the settings are valid, and there are peers to
  wait for until an instant that the clock does not count. -/
  crashes : (run world words logSetting).exit = some crashCode ↔
    ∃ a endpoint, Arguments.read words = .ok a ∧ a.config.validate = .ok endpoint ∧
      ¬ PollsBegin world a

theorem sends_of_read (h : Arguments.read words = .ok a) (logSetting : Option String) :
    Sends world words logSetting where
  succeeds := by
    rw [exitsWith_zero_iff h, exists_session_finished_iff]
    constructor
    · rintro ⟨endpoint, hsettings⟩
      exact ⟨a, endpoint, h, hsettings⟩
    · rintro ⟨_, endpoint, h', hsettings⟩
      cases h.symm.trans h'
      exact ⟨endpoint, hsettings⟩
  delivers := by
    rw [run_of_read h, exit_eq_zero_iff]
    rintro ⟨m, hfinished⟩
    obtain ⟨endpoint, hvalid, haccept, hacknowledges⟩ := of_session_finished hfinished
    obtain ⟨message, hdelivered⟩ :=
      exists_deliveries_of_finished h hfinished hvalid hacknowledges _
    exact ⟨a, endpoint, message, h, hvalid, haccept, hacknowledges, hdelivered⟩
  withholds := by
    rintro (⟨stop, hstop⟩ | ⟨_, h', hfails⟩)
    · cases h.symm.trans hstop
    · cases h.symm.trans h'
      have hnone : callsIn (runArguments world (Log.Filter.ofSetting logSetting) a).events = [] :=
        callsIn_session hfails
      rw [run_of_read h]
      exact ⟨hnone, deliveries_of_no_call hnone, exit_ne_zero hfails⟩
  once := by
    rw [run_of_read h, deliveries_eq]
    rcases exists_callsIn_session_prefix world a with hnone | ⟨endpoint, payload, hprefix⟩
    · have hnone : callsIn (runArguments world (Log.Filter.ofSetting logSetting) a).events = [] :=
        hnone
      rw [hnone]
      exact Nat.zero_le _
    · exact Node.length_messages_le_one hprefix
  blames := by
    intro a' code h' hexit hzero hcrash
    cases h.symm.trans h'
    rw [run_of_read h] at hexit ⊢
    obtain ⟨hcode, why, m, hfailed⟩ :=
      ((exit_cases hexit).resolve_left hzero).resolve_right hcrash
    obtain ⟨label, shown, others, hlabel, hlines, hshown⟩ :=
      CommandLine.failureLines_shows a.addr why
    rw [diagnostics_runArguments _ hfailed]
    exact ⟨hcode, why, m, label, shown, others, hfailed, hlabel, hlines, hshown⟩
  crashes := by
    rw [run_of_read h, exit_eq_crashCode_iff, session_crashed_iff]
    constructor
    · rintro ⟨⟨endpoint, hvalid⟩, hnot⟩
      exact ⟨a, endpoint, h, hvalid, hnot⟩
    · rintro ⟨_, endpoint, h', hvalid, hnot⟩
      cases h.symm.trans h'
      exact ⟨⟨endpoint, hvalid⟩, hnot⟩

/-- The exit code of a command line that is refused. -/
theorem exit_of_refused {e : CommandLine.ArgumentError}
    (h : Arguments.read words = .error (.failed e)) :
    (run world words logSetting).exit = some 2 := by
  rw [run_of_stop h]
  rfl

theorem sends_of_refused {e : CommandLine.ArgumentError}
    (h : Arguments.read words = .error (.failed e)) (logSetting : Option String) :
    Sends world words logSetting where
  succeeds := by
    constructor
    · rintro ⟨h₀, hexit⟩
      cases (exit_of_refused h).symm.trans (hexit h₀ (Nat.le_refl h₀))
    · rintro ⟨a, -, ha, -⟩
      cases h.symm.trans ha
  delivers := by
    intro hexit
    cases (exit_of_refused h).symm.trans hexit
  withholds := by
    rw [run_of_stop h]
    intro _
    exact ⟨rfl, rfl, nofun⟩
  once := by
    rw [run_of_stop h]
    exact Nat.zero_le _
  blames := by
    intro a code ha
    cases h.symm.trans ha
  crashes := by
    constructor
    · intro hexit
      cases (exit_of_refused h).symm.trans hexit
    · rintro ⟨a, -, ha, -⟩
      cases h.symm.trans ha

/-- A run sends one transaction of zeros to its node, or it sends none and says why. -/
theorem run_sends_once (world : World) (words : List String) (logSetting : Option String)
    (h : ∀ request, Arguments.read words ≠ .error (.requested request)) :
    Sends world words logSetting := by
  cases hread : Arguments.read words with
  | ok a => exact sends_of_read hread logSetting
  | error stop =>
    cases stop with
    | requested request => exact absurd hread (h request)
    | failed e => exact sends_of_refused hread logSetting

/-- Every peer accepts after a nanosecond, and every node answers without a field. The clock
counts twenty seconds. -/
def willing : World where
  environment := ⟨fun _ => .accepts 1, ⟨some 20000000000⟩⟩
  sites _ := .node (.responds [] [])
  horizon := 20

theorem run_sends_once_to_willing :
    (run willing ["--addr=a:1", "--nodes=b:2"] none).exit = some 0 ∧
      ExitsWith willing ["--addr=a:1", "--nodes=b:2"] none 0 ∧
      (∃ endpoint message, endpoint.text = "a:1" ∧
        (run willing ["--addr=a:1", "--nodes=b:2"] none).deliveries willing
          = [⟨endpoint, Node.callPath, [message]⟩] ∧
        Wire.Kind.submission.decode message = .ok (List.replicate 100 0)) ∧
      (run willing ["--addr=a:1", "--nodes=b:2", "--wait-deadline=21s"] none).exit
        = some crashCode := by
  let a : Arguments :=
    { addr := "a:1"
      size := 100
      nodes := ["b:2"]
      attemptTimeout := Policy.standard.attemptTimeout
      retryInterval := Policy.standard.retryInterval
      waitDeadline := none
      concurrentWait := false
      noAnsi := false }
  let patient : Arguments := { a with waitDeadline := some ⟨21000000000, by decide⟩ }
  let endpoint : Endpoint := ⟨"a", "1", by decide, by decide, by decide, by decide⟩
  have hread : Arguments.read ["--addr=a:1", "--nodes=b:2"] = .ok a := by
    cbv
  have hpatient : Arguments.read ["--addr=a:1", "--nodes=b:2", "--wait-deadline=21s"]
      = .ok patient := by
    cbv
  have hvalid : a.config.validate = .ok endpoint :=
    Success.eq_ok_of_toOption (by decide +kernel)
  have hwait : (Readiness.awaitAll willing.environment a.config.policy willing.horizon
      (Moment.dawn 0) a.config.peers).outcome
        = .finished ⟨(Endpoint.resolveAll ["b:2"]).resolved, [], 1⟩ (Moment.dawn 1) := by
    decide +kernel
  have hacknowledges : Node.Acknowledges willing.sites endpoint :=
    ⟨[], [], [], rfl, Wire.readFields_eq_ok_iff.mpr (.done [])⟩
  have hexit : (run willing ["--addr=a:1", "--nodes=b:2"] none).exit = some 0 := by
    obtain ⟨payload, hpayload⟩ :=
      exists_benchmark (Config.of_validate hvalid).1 Submission.singleCounter
    rw [run_of_read hread, exit_eq_zero_iff]
    exact ⟨_, Session.run_finished_iff.mpr ⟨endpoint, payload, _, hvalid, hpayload, hwait,
      Node.plan_passed_iff.mpr hacknowledges⟩⟩
  obtain ⟨hsucceeds, hdelivers, -⟩ := run_sends_once willing ["--addr=a:1", "--nodes=b:2"] none
    (by simp [hread])
  obtain ⟨-, -, -, -, -, hcrashes⟩ := run_sends_once willing
    ["--addr=a:1", "--nodes=b:2", "--wait-deadline=21s"] none (by simp [hpatient])
  obtain ⟨a', e, message, hread', hvalid', haccept, -, hdelivered, hdecode⟩ := hdelivers hexit
  cases hread.symm.trans hread'
  cases hvalid.symm.trans hvalid'
  refine ⟨hexit, hsucceeds.mpr ⟨a, endpoint, hread, hvalid, haccept, hacknowledges⟩,
    ⟨endpoint, message, by decide, hdelivered, hdecode⟩, ?_⟩
  refine hcrashes.mpr ⟨patient, endpoint, hpatient, hvalid, ?_⟩
  rw [PollsBegin, Readiness.PollsBegin, not_or]
  exact ⟨by decide +kernel, by decide⟩

end SingleShot.Program
