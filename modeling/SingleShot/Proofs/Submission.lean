import SingleShot.Proofs.Payload
import SingleShot.Submission

/-!
# The calls of a submission

A submission that gets past its checks has four calls before it. It makes them in order, up to
the first one that does not pass, and ends as that one does.

* `Follows.calling`: one call more, made before the others.
* `submitOne_follows`: a submission follows the plan of its four calls.
-/

namespace SingleShot.Submission

/-- The call that an event reports, with the reply to it. -/
def Event.call? : Event → Option (Call × Reply)
  | .call c reply => some (c, reply)
  | _ => none

/-- The calls among events, in order. -/
def callsIn (events : List Event) : List (Call × Reply) :=
  events.filterMap Event.call?

/-- Every call of a submission that nothing stops, with the reply to it. -/
def plan (transport : Transport) (endpoint : Endpoint) (payload : Payload) :
    List (Call × Reply) :=
  [(.connect endpoint, transport.connect endpoint),
    (.openStream, transport.openStream endpoint),
    (.send payload, transport.send endpoint payload),
    (.close endpoint [payload], transport.close endpoint [payload])]

theorem nodup_plan (transport : Transport) (endpoint : Endpoint) (payload : Payload) :
    ((plan transport endpoint payload).map (·.1)).Nodup := by
  simp [plan]

/-- The calls that are made: no more after the first that does not pass. -/
def made : List (Call × Reply) → List (Call × Reply)
  | [] => []
  | (call, reply) :: calls => (call, reply) :: if reply = .passed then made calls else []

/-- How calls end, made in order. -/
def verdict (m : Moment) : List (Call × Reply) → Outcome Unit
  | [] => .finished () m
  | (_, .passed) :: calls => verdict m calls
  | (_, .failed why) :: _ => .failed why m
  | (_, .absent) :: _ => .pending

variable {calls : List (Call × Reply)} {m e : Moment} {why : Failure}

theorem made_prefix (calls : List (Call × Reply)) : made calls <+: calls := by
  induction calls with
  | nil => exact List.prefix_rfl
  | cons c calls ih =>
    obtain ⟨call, reply⟩ := c
    unfold made
    split
    · exact List.cons_prefix_cons.mpr ⟨rfl, ih⟩
    · exact List.cons_prefix_cons.mpr ⟨rfl, List.nil_prefix⟩

theorem verdict_finished_iff :
    verdict m calls = .finished () e ↔ e = m ∧ ∀ c ∈ calls, c.2 = .passed := by
  induction calls with
  | nil => simp [verdict, eq_comm]
  | cons c calls ih =>
    obtain ⟨call, reply⟩ := c
    cases reply with
    | passed => simp [verdict, ih]
    | failed why => simp [verdict]
    | absent => simp [verdict]

theorem verdict_ne_crashed : verdict m calls ≠ .crashed e := by
  induction calls with
  | nil => simp [verdict]
  | cons c calls ih =>
    obtain ⟨call, reply⟩ := c
    cases reply with
    | passed => exact ih
    | failed why => simp [verdict]
    | absent => simp [verdict]

theorem verdict_failed_iff :
    verdict m calls = .failed why e ↔ e = m ∧ ∃ before call after,
      calls = before ++ (call, .failed why) :: after ∧ ∀ c ∈ before, c.2 = .passed := by
  induction calls with
  | nil => simp [verdict]
  | cons c calls ih =>
    obtain ⟨call, reply⟩ := c
    constructor
    · intro h
      cases reply with
      | passed =>
        obtain ⟨rfl, before, call', after, rfl, hbefore⟩ := ih.mp h
        refine ⟨rfl, (call, .passed) :: before, call', after, rfl, ?_⟩
        simpa using hbefore
      | failed why' =>
        cases h
        exact ⟨rfl, [], call, calls, rfl, by simp⟩
      | absent => cases h
    · rintro ⟨rfl, before, call', after, hcalls, hbefore⟩
      cases before with
      | nil =>
        cases hcalls
        rfl
      | cons c before =>
        obtain ⟨rfl, hrest⟩ := List.cons.inj hcalls
        have hreply : reply = .passed := hbefore _ List.mem_cons_self
        subst hreply
        exact ih.mpr ⟨rfl, before, call', after, hrest,
          fun c hc => hbefore c (List.mem_cons_of_mem _ hc)⟩

/-- A course makes calls in order until one does not pass, and ends as they do. -/
structure Follows (c : Course Event Unit) (m : Moment) (calls : List (Call × Reply)) : Prop where
  makes : callsIn c.events = made calls
  ends : c.outcome = verdict m calls

/-- One call more, made before the others. -/
theorem Follows.calling {next : Course Event Unit} (h : Follows next m calls) (call : Call)
    (reply : Reply) (held : List Event) (hheld : callsIn held = []) :
    Follows (calling m call reply held next) m ((call, reply) :: calls) := by
  have hcall : ∀ events, callsIn (.call call reply :: events) = (call, reply) :: callsIn events :=
    fun _ => rfl
  cases reply with
  | passed =>
    refine ⟨?_, h.ends⟩
    simp [Submission.calling, made, hcall, h.makes]
  | failed why =>
    refine ⟨?_, rfl⟩
    simp [Submission.calling, made, hcall, hheld]
  | absent =>
    refine ⟨?_, rfl⟩
    rw [made, if_neg (by simp)]
    rfl

/-- Events that report no call change nothing. -/
theorem Follows.after {c : Course Event Unit} (h : Follows c m calls) (m' : Moment)
    (events : List Event) (hevents : callsIn events = []) :
    Follows (.after m' events c) m calls := by
  refine ⟨?_, h.ends⟩
  have hsplit : callsIn (events ++ c.events) = callsIn events ++ callsIn c.events :=
    List.filterMap_append
  rw [Course.events_after, hsplit, hevents, h.makes, List.nil_append]

/-- A submission follows the plan of its four calls, once its checks are passed. -/
theorem submitOne_follows (transport : Transport) (m : Moment) {target : String} {size : Nat}
    {endpoint : Endpoint} {payload : Payload} (hsize : checkSize size = .ok ())
    (htarget : Config.resolveTarget target = .ok endpoint)
    (hpayload : Payload.benchmark size singleCounter = .ok payload) :
    Follows (submitOne transport m target size) m (plan transport endpoint payload) := by
  have hdone : Follows (.after m [.streamReleased, .acknowledged payload.size endpoint,
      .channelReleased] (.done () m)) m [] := ⟨rfl, rfl⟩
  have hclose := hdone.calling (.close endpoint [payload]) (transport.close endpoint [payload])
    [.streamReleased, .channelReleased] rfl
  have hsend := hclose.calling (.send payload) (transport.send endpoint payload)
    [.streamReleased, .channelReleased] rfl
  have hdeliver : Follows (deliver transport m endpoint payload) m _ :=
    hsend.after m [.sending payload.size singleCounter endpoint] rfl
  have hopen := hdeliver.calling .openStream (transport.openStream endpoint)
    [.channelReleased] rfl
  have hconnect := hopen.calling (.connect endpoint) (transport.connect endpoint) [] rfl
  simp only [submitOne, hsize, htarget, hpayload]
  exact hconnect

end SingleShot.Submission
