import SingleShot.Proofs.Endpoint.Notation
import SingleShot.Proofs.Submission

/-!
# Ways out of a submission

A submission goes through its stages in order: it checks the size, resolves the target, connects,
opens a stream, sends the transaction and closes the stream. The first stage that does not pass
decides how it ends and which calls it has made, and on every way out it gives up what it holds.

* `made_append`, `verdict_append`: calls that pass decide nothing about those after them.
* `Releases.calling`: what one call more changes about what is given up.
* `submitOne_releases`: a submission gives up the stream that it has opened and the channel that
  it has connected, each once, and the channel last of all.
* `leaves_of_checks`, `submitOne_leaves_at_first_failure`: every way out of a submission.
-/

namespace SingleShot.Submission

variable {before rest : List (Call × Reply)} {m : Moment} {held : List Event}
  {transport : Transport} {endpoint : Endpoint} {payload : Payload}

/-! ## Calls that pass -/

theorem made_append (h : ∀ c ∈ before, c.2 = .passed) (rest : List (Call × Reply)) :
    made (before ++ rest) = before ++ made rest := by
  induction before with
  | nil => rfl
  | cons c before ih =>
    obtain ⟨call, reply⟩ := c
    have hreply : reply = .passed := h _ List.mem_cons_self
    have hbefore := ih fun c hc => h c (List.mem_cons_of_mem _ hc)
    rw [List.cons_append, made, if_pos hreply, hbefore, List.cons_append]

theorem verdict_append (h : ∀ c ∈ before, c.2 = .passed) (rest : List (Call × Reply)) :
    verdict m (before ++ rest) = verdict m rest := by
  induction before with
  | nil => rfl
  | cons c before ih =>
    obtain ⟨call, reply⟩ := c
    have hreply : reply = .passed := h _ List.mem_cons_self
    subst hreply
    exact ih fun c hc => h c (List.mem_cons_of_mem _ hc)

/-- The transaction is sent if a stream is open, and nothing else is ever sent. -/
theorem send_mem_made_iff {p : Payload} {reply : Reply} :
    (.send p, reply) ∈ made (plan transport endpoint payload) ↔
      (transport.connect endpoint = .passed ∧ transport.openStream endpoint = .passed) ∧
        p = payload ∧ reply = transport.send endpoint payload := by
  by_cases hconnect : transport.connect endpoint = .passed
  · by_cases hopen : transport.openStream endpoint = .passed
    · by_cases hsend : transport.send endpoint payload = .passed
      · simp [plan, made, hconnect, hopen, hsend]
      · simp [plan, made, hconnect, hopen, hsend]
    · simp [plan, made, hconnect, hopen]
  · simp [plan, made, hconnect]

/-- The stream is closed if the transaction has been sent over it. -/
theorem close_mem_made_iff {e : Endpoint} {sent : List Payload} {reply : Reply} :
    (.close e sent, reply) ∈ made (plan transport endpoint payload) ↔
      (.send payload, .passed) ∈ made (plan transport endpoint payload) ∧
        e = endpoint ∧ sent = [payload] ∧ reply = transport.close endpoint [payload] := by
  rw [send_mem_made_iff]
  by_cases hconnect : transport.connect endpoint = .passed
  · by_cases hopen : transport.openStream endpoint = .passed
    · by_cases hsend : transport.send endpoint payload = .passed
      · simp [plan, made, hconnect, hopen, hsend, and_assoc]
      · simp [plan, made, hconnect, hopen, hsend, Ne.symm hsend]
    · simp [plan, made, hconnect, hopen]
  · simp [plan, made, hconnect]

/-! ## What is given up -/

/-- Whether a stream or a channel is given up. -/
def Event.isRelease : Event → Bool
  | .streamReleased | .channelReleased => true
  | _ => false

/-- What is given up among events, in order. -/
def releasesIn (events : List Event) : List Event :=
  events.filter Event.isRelease

theorem releasesIn_append (events events' : List Event) :
    releasesIn (events ++ events') = releasesIn events ++ releasesIn events' :=
  List.filter_append events events'

/-- A course gives up what is held when it ends, and nothing happens after the last of it. A
course that never ends gives up nothing. -/
structure Releases (c : Course Event Unit) (held : List Event) : Prop where
  ended : c.outcome ≠ .pending → releasesIn c.events = held
  last : c.outcome ≠ .pending → ∀ e, held.getLast? = some e → c.events.getLast? = some e
  never : c.outcome = .pending → releasesIn c.events = []

/-- One call more, made before the others. If it does not pass, what is held at it is given up
instead of what would be held after it. -/
theorem Releases.calling {next : Course Event Unit} {later : List Event}
    (h : Releases next later) (call : Call) (reply : Reply) (held : List Event)
    (hheld : releasesIn held = held) : Releases (calling m call reply held next) (if reply = .passed then later else held) := by
  have hcall : ∀ events, releasesIn (.call call reply :: events) = releasesIn events :=
    fun _ => rfl
  have hlast : ∀ (events : List Event) e, events.getLast? = some e →
      (.call call reply :: events).getLast? = some e := by
    intro events e he
    rw [List.getLast?_cons, he]
    rfl
  cases reply with
  | passed =>
    have hevents : (Submission.calling m call .passed held next).events
        = .call call .passed :: next.events := Course.events_after m _ next
    rw [if_pos rfl]
    refine ⟨?_, ?_, ?_⟩
    · intro hends
      rw [hevents, hcall]
      exact h.ended hends
    · intro hends e he
      rw [hevents]
      exact hlast _ e (h.last hends e he)
    · intro hends
      rw [hevents, hcall]
      exact h.never hends
  | failed why =>
    have hevents : (Submission.calling m call (.failed why) held next).events
        = .call call (.failed why) :: held := by
      simp [Submission.calling]
    rw [if_neg (by simp)]
    refine ⟨?_, ?_, ?_⟩
    · intro _
      rw [hevents, hcall, hheld]
    · intro _ e he
      rw [hevents]
      exact hlast _ e he
    · intro hends
      cases hends
  | absent =>
    rw [if_neg (by simp)]
    refine ⟨?_, ?_, fun _ => rfl⟩
    · intro hends
      exact absurd rfl hends
    · intro hends
      exact absurd rfl hends

theorem Releases.after {c : Course Event Unit} (h : Releases c held) (events : List Event)
    (hevents : releasesIn events = []) : Releases (.after m events c) held := by
  have happend : releasesIn (Course.after m events c).events = releasesIn c.events := by
    rw [Course.events_after, releasesIn_append, hevents, List.nil_append]
  refine ⟨?_, ?_, ?_⟩
  · intro hends
    rw [happend]
    exact h.ended hends
  · intro hends e he
    rw [Course.events_after, List.getLast?_append, h.last hends e he]
    rfl
  · intro hends
    rw [happend]
    exact h.never hends

/-- What a submission holds when it ends: the channel if it has connected, and the stream on it
if it has opened one. -/
def heldAtEnd (transport : Transport) (endpoint : Endpoint) : List Event :=
  if transport.connect endpoint = .passed then
    if transport.openStream endpoint = .passed then [.streamReleased, .channelReleased]
    else [.channelReleased]
  else []

theorem submitOne_releases {target : String} {size : Nat} (hsize : checkSize size = .ok ())
    (htarget : Config.resolveTarget target = .ok endpoint)
    (hpayload : Payload.benchmark size singleCounter = .ok payload) :
    Releases (submitOne transport m target size) (heldAtEnd transport endpoint) := by
  have hdone : Releases (.after m [.streamReleased, .acknowledged payload.size endpoint,
      .channelReleased] (.done () m)) [.streamReleased, .channelReleased] := by
    refine ⟨fun _ => rfl, fun _ e he => he, ?_⟩
    intro hends
    cases hends
  -- From the moment the stream is open, every way out gives up both.
  have hclose := hdone.calling (m := m) (.close endpoint [payload])
    (transport.close endpoint [payload]) [.streamReleased, .channelReleased] rfl
  rw [ite_self] at hclose
  have hsend := hclose.calling (m := m) (.send payload) (transport.send endpoint payload)
    [.streamReleased, .channelReleased] rfl
  rw [ite_self] at hsend
  have hdeliver : Releases (deliver transport m endpoint payload) _ :=
    hsend.after [.sending payload.size singleCounter endpoint] rfl
  have hopen := hdeliver.calling (m := m) .openStream (transport.openStream endpoint)
    [.channelReleased] rfl
  have hconnect := hopen.calling (m := m) (.connect endpoint) (transport.connect endpoint) [] rfl
  simp only [submitOne, hsize, htarget, hpayload]
  exact hconnect

/-! ## The ways out -/

/-- How a submission that has passed its checks goes on and ends. -/
structure Leaves (transport : Transport) (m : Moment) (endpoint : Endpoint) (payload : Payload)
    (course : Course Event Unit) : Prop where
  /-- If every call passes, all are made. -/
  complete : (∀ c ∈ plan transport endpoint payload, c.2 = .passed) →
    callsIn course.events = plan transport endpoint payload
  /-- The first call that does not pass is the last that is made, and its failure is the
  failure of the submission. -/
  stops : ∀ before call reply after,
    plan transport endpoint payload = before ++ (call, reply) :: after →
    (∀ c ∈ before, c.2 = .passed) → reply ≠ .passed →
      callsIn course.events = before ++ [(call, reply)] ∧
        (∀ why, reply = .failed why → course.outcome = .failed why m) ∧
        (reply = .absent → course.outcome = .pending)
  succeeds : ∀ m', course.outcome = .finished () m' ↔
    m' = m ∧ ∀ c ∈ plan transport endpoint payload, c.2 = .passed
  /-- Nothing is tried twice. -/
  once : ((callsIn course.events).map (·.1)).Nodup
  sends : ∀ p reply, (.send p, reply) ∈ callsIn course.events ↔
    (transport.connect endpoint = .passed ∧ transport.openStream endpoint = .passed) ∧
      p = payload ∧ reply = transport.send endpoint payload
  closes : ∀ e sent reply, (.close e sent, reply) ∈ callsIn course.events ↔
    (.send payload, .passed) ∈ callsIn course.events ∧
      e = endpoint ∧ sent = [payload] ∧ reply = transport.close endpoint [payload]
  /-- What is held is given up once, and the channel last of all. -/
  releases : course.outcome ≠ .pending →
    releasesIn course.events = heldAtEnd transport endpoint ∧
      (transport.connect endpoint = .passed → course.events.getLast? = some .channelReleased)
  keeps : course.outcome = .pending → releasesIn course.events = []

theorem getLast?_heldAtEnd (h : transport.connect endpoint = .passed) :
    (heldAtEnd transport endpoint).getLast? = some .channelReleased := by
  rw [heldAtEnd, if_pos h]
  split <;> rfl

theorem leaves_of_checks {target : String} {size : Nat} (hsize : checkSize size = .ok ())
    (htarget : Config.resolveTarget target = .ok endpoint)
    (hpayload : Payload.benchmark size singleCounter = .ok payload) :
    Leaves transport m endpoint payload (submitOne transport m target size) := by
  obtain ⟨hmakes, hends⟩ := submitOne_follows transport m hsize htarget hpayload
  have hreleases : Releases (submitOne transport m target size) (heldAtEnd transport endpoint) :=
    submitOne_releases hsize htarget hpayload
  have hfirst := made_prefix (plan transport endpoint payload)
  constructor
  case complete =>
    intro hpassed
    have hmade := made_append hpassed []
    rw [List.append_nil] at hmade
    rw [hmakes, hmade]
    exact List.append_nil _
  case stops =>
    intro before call reply after hplan hbefore hreply
    rw [hmakes, hends, hplan, made_append hbefore, verdict_append hbefore, made, if_neg hreply]
    refine ⟨rfl, ?_, ?_⟩
    · rintro why rfl
      rfl
    · rintro rfl
      rfl
  case succeeds =>
    intro m'
    rw [hends]
    exact verdict_finished_iff
  case once =>
    rw [hmakes]
    exact (nodup_plan transport endpoint payload).sublist (hfirst.sublist.map _)
  case sends =>
    intro p reply
    rw [hmakes]
    exact send_mem_made_iff
  case closes =>
    intro e sent reply
    rw [hmakes]
    exact close_mem_made_iff
  case releases =>
    intro hended
    refine ⟨hreleases.ended hended, ?_⟩
    intro hconnect
    exact hreleases.last hended _ (getLast?_heldAtEnd hconnect)
  case keeps => exact hreleases.never

/-- A submission leaves at its first stage that does not pass. A size without room for the
header ends it before anything else is looked at, and a target that cannot be resolved ends it
before any call. Past these checks the payload can always be built, and holds nothing but zeros,
as the tag and the counter are zero; the calls are made in order up to the first that does not
pass, whose failure ends the submission as it is, whatever it says; and a channel that has been
connected is given up once, at the very end. -/
theorem submitOne_leaves_at_first_failure (transport : Transport) (m : Moment) (target : String)
    (size : Nat) :
    let course := submitOne transport m target size
    (size < 9 → course = .fail (.invalidConfiguration (.sizeTooSmall size)) m) ∧
    (∀ error, 9 ≤ size → Endpoint.resolve target = .error error →
      course = .fail (.invalidAddress error) m) ∧
    (∀ endpoint, 9 ≤ size → Endpoint.resolve target = .ok endpoint →
      ∃ payload, Payload.benchmark size singleCounter = .ok payload ∧
        payload.bytes = List.replicate size 0 ∧ payload.counter = 0 ∧
        Leaves transport m endpoint payload course) := by
  intro course
  have hroom : 9 ≤ size → checkSize size = .ok () := by
    intro h
    rw [checkSize, minPayloadSize, if_neg (Nat.not_lt.mpr h)]
  refine ⟨?_, ?_, ?_⟩
  · intro h
    have hsize : checkSize size = .error (.invalidConfiguration (.sizeTooSmall size)) := by
      rw [checkSize, minPayloadSize, if_pos h]
    simp only [course, submitOne, hsize]
  · intro error h herror
    have htarget : Config.resolveTarget target = .error (.invalidAddress error) := by
      rw [Config.resolveTarget, herror]
      rfl
    simp only [course, submitOne, hroom h, htarget]
  · intro endpoint h hendpoint
    have htarget : Config.resolveTarget target = .ok endpoint := by
      rw [Config.resolveTarget, hendpoint]
      rfl
    obtain ⟨payload, hpayload⟩ := exists_benchmark (hroom h) singleCounter
    exact ⟨payload, hpayload, Payload.bytes_of_benchmark_zero hpayload,
      Payload.counter_of_benchmark hpayload, leaves_of_checks (hroom h) htarget hpayload⟩

/-- A transport whose node takes the transaction and ends the call as if all were well, but
without an acknowledgement. -/
def unacknowledged : Transport where
  connect _ := .passed
  openStream _ := .passed
  send _ _ := .passed
  close _ _ := .failed (.stream ⟨.ok, "", [], []⟩)

theorem submitOne_leaves_unacknowledged :
    let course := submitOne unacknowledged (Moment.dawn 0) "a:1" 9
    course.outcome = .failed (.stream ⟨.ok, "", [], []⟩) (Moment.dawn 0) ∧
      releasesIn course.events = [.streamReleased, .channelReleased] ∧
      course.events.getLast? = some .channelReleased := by
  intro course
  obtain ⟨endpoint, htext⟩ : ∃ e : Endpoint, e.text.toList = "a:1".toList :=
    Endpoint.exists_text_iff.mpr (by decide)
  have hendpoint : Endpoint.resolve "a:1" = .ok endpoint :=
    Endpoint.resolve_eq_ok_iff.mpr
      (.hostPort (by decide) (by decide) (by decide) (by decide) htext)
  obtain ⟨-, -, hcalls⟩ := submitOne_leaves_at_first_failure unacknowledged (Moment.dawn 0) "a:1" 9
  obtain ⟨payload, -, -, -, hleaves⟩ := hcalls endpoint (by decide) hendpoint
  have hstops := hleaves.stops [(.connect endpoint, .passed), (.openStream, .passed),
    (.send payload, .passed)] (.close endpoint [payload]) (.failed (.stream ⟨.ok, "", [], []⟩)) [] rfl
    (by simp) (by simp)
  have hfailed : course.outcome = .failed (.stream ⟨.ok, "", [], []⟩) (Moment.dawn 0) :=
    hstops.2.1 _ rfl
  have hended : course.outcome ≠ .pending := by
    rw [hfailed]
    simp
  obtain ⟨hreleased, hlast⟩ := hleaves.releases hended
  exact ⟨hfailed, hreleased, hlast rfl⟩

end SingleShot.Submission
