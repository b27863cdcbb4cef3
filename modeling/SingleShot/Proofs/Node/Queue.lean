import SingleShot.Proofs.Node
import SingleShot.Proofs.Wire.Acceptance
import SingleShot.Proofs.Wire.RoundTrip

/-!
# Streams as queues

What is sent into a stream waits in its queue and goes out when the stream is closed, in order and
as it is. A stream that is given up takes its queue with it.

* `Queues.send`, `Queues.sends`: what sending one payload keeps, and what sending many does.
* `used_close`, `used_drop`: what then comes of closing the stream, and of giving it up.
* `close_eq_failed_iff`: how the call of a closed stream fails.
* `Transmits`, `close_transmits_sent`: all of it.
-/

namespace SingleShot.Node.Stream

open Submission (Call Reply)

variable {sites : Sites} {endpoint : Endpoint} {payload : Payload} {sent more : List Payload}
  {u : Use} {acts : List Act} {s : Stream} {why : Failure}

/-! ## Sending -/

/-- Payloads have been sent into a stream and wait there: all were taken, and no node has received
anything. -/
structure Queues (endpoint : Endpoint) (sent : List Payload) (u : Use) : Prop where
  stream : u.stream = some ⟨endpoint, sent⟩
  replies : u.replies = List.replicate sent.length .passed
  deliveries : u.deliveries = []

theorem queues_start (endpoint : Endpoint) : Queues endpoint [] (.start (.start endpoint)) :=
  ⟨rfl, rfl, rfl⟩

/-- One payload more waits behind the others. -/
theorem Queues.send (h : Queues endpoint sent u) (sites : Sites) (payload : Payload) :
    Queues endpoint (sent ++ [payload]) (u.act sites (.send payload)) := by
  obtain ⟨stream, replies, deliveries⟩ := u
  obtain ⟨rfl, rfl, rfl⟩ := h
  refine ⟨rfl, ?_, rfl⟩
  rw [List.length_append, List.length_singleton, List.replicate_succ']
  rfl

theorem Queues.sends (h : Queues endpoint sent u) (sites : Sites) (more : List Payload) :
    Queues endpoint (sent ++ more) (u.run sites (more.map .send)) := by
  induction more generalizing sent u with
  | nil =>
    rw [List.append_nil]
    exact h
  | cons payload more ih =>
    have hmore := ih (h.send sites payload)
    rwa [List.append_assoc, List.singleton_append] at hmore

/-! ## What comes after -/

/-- What comes of payloads that are sent into a new stream, and of what is done with it then. -/
def used (sites : Sites) (endpoint : Endpoint) (sent : List Payload) (acts : List Act) : Use :=
  (Use.start (.start endpoint)).run sites (sent.map .send ++ acts)

theorem run_of_used_up (h : u.stream = none) (acts : List Act) : u.run sites acts = u := by
  have hact (a : Act) : u.act sites a = u := by
    rw [Use.act, h]
  induction acts with
  | nil => rfl
  | cons a acts ih => rw [Use.run_cons, hact a, ih]

/-- The use of a stream into which payloads have been sent. -/
theorem used_eq (sites : Sites) (endpoint : Endpoint) (sent : List Payload) (acts : List Act) :
    used sites endpoint sent acts
      = Use.run sites ⟨some ⟨endpoint, sent⟩, List.replicate sent.length .passed, []⟩ acts := by
  obtain ⟨hstream, hreplies, hdeliveries⟩ := (queues_start endpoint).sends sites sent
  rw [List.nil_append] at hstream hreplies
  rw [used, Use.run_append, ← hstream, ← hreplies, ← hdeliveries]

/-- Closing the stream makes its call, whatever is tried thereafter. -/
theorem used_close (sites : Sites) (endpoint : Endpoint) (sent : List Payload) (acts : List Act) :
    used sites endpoint sent (.close :: acts)
      = ⟨none, List.replicate sent.length .passed ++ [(close sites ⟨endpoint, sent⟩).2],
          (close sites ⟨endpoint, sent⟩).1.toList⟩ := by
  rw [used_eq, Use.run_cons]
  exact run_of_used_up rfl acts

/-- Giving the stream up makes no call, whatever is tried thereafter. -/
theorem used_drop (sites : Sites) (endpoint : Endpoint) (sent : List Payload) (acts : List Act) :
    used sites endpoint sent (.drop :: acts)
      = ⟨none, List.replicate sent.length .passed, []⟩ := by
  rw [used_eq, Use.run_cons]
  exact run_of_used_up rfl acts

/-! ## How calls end -/

/-- The status with which the call of a stream fails: the node's own, or one that the client makes
up for a call that has no answer, an answer that is no acknowledgement, or no connection. -/
inductive CallFails : Site → Status → Prop
  | refused {status : Status} (h : status.code ≠ .ok) : CallFails (.node (.fails status)) status
  | unanswered {status : Status} (h : status.code = .ok) :
      CallFails (.node (.fails status)) ⟨.internal, "Missing response message.", [], []⟩
  | unreadable {message : List UInt8} {headers : Metadata} {e : Wire.DecodeError}
      (h : Wire.Kind.acknowledgement.decode message = .error e) :
      CallFails (.node (.responds message headers)) ⟨.internal, e.message, [], headers⟩
  | revoked {message payload : List UInt8} {headers : Metadata} {status : Status}
      (failing : status.code ≠ .ok) (h : Wire.Kind.acknowledgement.decode message = .ok payload) :
      CallFails (.node (.revokes message headers status failing)) status
  | unreadableRevoked {message : List UInt8} {headers : Metadata} {status : Status}
      {e : Wire.DecodeError} (failing : status.code ≠ .ok)
      (h : Wire.Kind.acknowledgement.decode message = .error e) :
      CallFails (.node (.revokes message headers status failing))
        ⟨.internal, e.message, [], headers⟩
  | unready (error : String) :
      CallFails (.unready error) ⟨.unavailable, s!"Service was not ready: {error}", [], []⟩
  | lost (why : ChannelFault) :
      CallFails (.refusing why) ⟨.unavailable, "tcp connect error", [], []⟩

/-- How the call of a stream ends, if it does: it is acknowledged, whatever unknown fields the
answer carries, or it fails with its status. -/
inductive CallEnds : Site → Reply → Prop
  | acknowledged {message payload : List UInt8} {headers : Metadata}
      (h : Wire.Kind.acknowledgement.decode message = .ok payload) :
      CallEnds (.node (.responds message headers)) .passed
  | failed {site : Site} {status : Status} (h : CallFails site status) :
      CallEnds site (.failed (.stream status))
  | silent : CallEnds (.node .silent) .absent
  | unreachable : CallEnds .unreachable .absent

theorem callEnds_replyTo (behaviour : Behaviour) :
    CallEnds (.node behaviour) (replyTo behaviour) := by
  cases behaviour with
  | responds message headers =>
    rw [replyTo, reading]
    split
    · rename_i payload hdecode
      exact .acknowledged hdecode
    · rename_i e hdecode
      exact .failed (.unreadable hdecode)
  | revokes message headers status failing =>
    rw [replyTo, reading]
    split
    · rename_i payload hdecode
      exact .failed (.revoked failing hdecode)
    · rename_i e hdecode
      exact .failed (.unreadableRevoked failing hdecode)
  | fails status =>
    rw [replyTo]
    split
    · rename_i hcode
      exact .failed (.unanswered hcode)
    · rename_i hcode
      exact .failed (.refused hcode)
  | silent => exact .silent

/-- Closing a stream tells how its call ends. -/
theorem close_eq_iff {reply : Reply} :
    (close sites s).2 = reply ↔ CallEnds (sites s.endpoint) reply := by
  rw [close]
  generalize sites s.endpoint = site
  constructor
  · rintro rfl
    cases site with
    | refusing refusal => exact .failed (.lost refusal)
    | unreachable => exact .unreachable
    | unready error => exact .failed (.unready error)
    | node behaviour => exact callEnds_replyTo behaviour
  · intro h
    cases h with
    | acknowledged hdecode => simp [replyTo, reading, hdecode]
    | failed hfails =>
      cases hfails with
      | refused hcode => simp [replyTo, hcode]
      | unanswered hcode => simp [replyTo, hcode, internal]
      | unreadable hdecode => simp [replyTo, reading, hdecode, internal]
      | revoked failing hdecode => simp [replyTo, reading, hdecode]
      | unreadableRevoked failing hdecode => simp [replyTo, reading, hdecode, internal]
      | unready error => rfl
      | lost refusal => rfl
    | silent => rfl
    | unreachable => rfl

theorem close_eq_passed_iff :
    (close sites s).2 = .passed ↔ ∃ message headers payload,
      sites s.endpoint = .node (.responds message headers) ∧
        Wire.Kind.acknowledgement.decode message = .ok payload := by
  rw [close_eq_iff]
  generalize sites s.endpoint = site
  constructor
  · intro h
    cases h with
    | acknowledged hdecode => exact ⟨_, _, _, rfl, hdecode⟩
  · rintro ⟨message, headers, payload, rfl, hdecode⟩
    exact .acknowledged hdecode

theorem close_eq_failed_iff :
    (close sites s).2 = .failed why ↔
      ∃ status, CallFails (sites s.endpoint) status ∧ why = .stream status := by
  rw [close_eq_iff]
  generalize sites s.endpoint = site
  constructor
  · intro h
    cases h with
    | failed hfails => exact ⟨_, hfails, rfl⟩
  · rintro ⟨status, hfails, rfl⟩
    exact .failed hfails

/-- A call that has neither been acknowledged nor failed lasts forever. -/
theorem close_eq_absent_iff :
    (close sites s).2 = .absent ↔
      sites s.endpoint = .unreachable ∨ sites s.endpoint = .node .silent := by
  rw [close_eq_iff]
  generalize sites s.endpoint = site
  constructor
  · intro h
    cases h with
    | silent => exact Or.inr rfl
    | unreachable => exact Or.inl rfl
  · rintro (rfl | rfl)
    · exact .unreachable
    · exact .silent

/-! ## The whole of it -/

/-- A stream is opened only where there is a node. -/
theorem exists_node_of_opened (hconnect : connect sites endpoint = .passed)
    (hopen : openStream sites endpoint = .passed) :
    ∃ behaviour, sites endpoint = .node behaviour := by
  unfold connect at hconnect
  unfold openStream at hopen
  split at hconnect
  · cases hconnect
  · cases hconnect
  · rename_i error hsite
    rw [hsite] at hopen
    cases hopen
  · rename_i behaviour hsite
    exact ⟨behaviour, hsite⟩

theorem decode_messages (hsizes : ∀ p ∈ sent, p.size < wordBound) :
    (sent.map fun p => Wire.encode p.bytes).map Wire.Kind.submission.decode
      = sent.map fun p => .ok p.bytes := by
  rw [List.map_map]
  apply List.map_congr_left
  intro p hp
  exact Wire.decode_encode (hsizes p hp)

/-- What is to be known of payloads that are sent into a stream. -/
structure Transmits (sites : Sites) (endpoint : Endpoint) (sent : List Payload) : Prop where
  /-- All are taken and wait in their order, and no node receives anything. -/
  sends : Queues endpoint sent (used sites endpoint sent [])
  /-- If the stream is given up, no node ever receives anything. -/
  drops : ∀ acts, (used sites endpoint sent (.drop :: acts)).deliveries = []
  /-- Where a stream can be opened there is a node. -/
  opens : connect sites endpoint = .passed → openStream sites endpoint = .passed →
    ∃ behaviour, sites endpoint = .node behaviour
  /-- If the stream is closed, the node receives one call, whose messages hold the payloads. -/
  delivers : ∀ behaviour acts, sites endpoint = .node behaviour →
    ∃ messages, (used sites endpoint sent (.close :: acts)).deliveries
        = [⟨endpoint, callPath, messages⟩] ∧
      messages.map Wire.Kind.submission.decode = sent.map fun p => .ok p.bytes
  /-- The reply to that is how the call ends. -/
  replies : ∃ reply,
    (∀ acts, (used sites endpoint sent (.close :: acts)).replies
      = List.replicate sent.length .passed ++ [reply]) ∧
    (reply = .passed ↔ ∃ message headers payload,
      sites endpoint = .node (.responds message headers) ∧
        Wire.Kind.acknowledgement.decode message = .ok payload) ∧
    (∀ message headers fields, sites endpoint = .node (.responds message headers) →
      Wire.Spells 0 fields message → reply = .passed) ∧
    (∀ why, reply = .failed why ↔
      ∃ status, CallFails (sites endpoint) status ∧ why = .stream status) ∧
    (reply = .absent ↔ sites endpoint = .unreachable ∨ sites endpoint = .node .silent)
  /-- A submission over channels to nodes uses streams in this way. -/
  carries : ∀ acts,
    (used sites endpoint sent (.close :: acts)).replies
      = sent.map ((transport sites).send endpoint) ++ [(transport sites).close endpoint sent] ∧
    (used sites endpoint sent (.close :: acts)).deliveries
      = (sent.map Call.send ++ [Call.close endpoint sent]).filterMap (received sites)

/-- A stream is a faithful queue, whatever is found at its endpoint and whatever is sent into it,
as long as the payloads are short enough to have a length. Everything is taken, and nothing goes out
before the stream is closed; then it goes out once, in order and unaltered. -/
theorem close_transmits_sent (sites : Sites) (endpoint : Endpoint) (sent : List Payload)
    (hsizes : ∀ p ∈ sent, p.size < wordBound) : Transmits sites endpoint sent where
  sends := by
    rw [used, List.append_nil]
    exact (queues_start endpoint).sends sites sent
  drops acts := by
    rw [used_drop]
  opens := exists_node_of_opened
  delivers := by
    intro behaviour acts hsite
    refine ⟨sent.map fun p => Wire.encode p.bytes, ?_, decode_messages hsizes⟩
    rw [used_close, close, hsite]
    rfl
  replies := by
    refine ⟨(close sites ⟨endpoint, sent⟩).2, ?_, close_eq_passed_iff, ?_,
      fun _ => close_eq_failed_iff, close_eq_absent_iff⟩
    · intro acts
      rw [used_close]
    · intro message headers fields hsite hspells
      obtain ⟨payload, hdecode⟩ := Wire.exists_decode_iff_spells.mpr ⟨fields, hspells⟩
      exact close_eq_passed_iff.mpr ⟨message, headers, payload, hsite, hdecode⟩
  carries := by
    intro acts
    have hclose : (transport sites).close endpoint sent = (close sites ⟨endpoint, sent⟩).2 := by
      rw [← streamWith_eq]
      rfl
    have hreceived : received sites (.close endpoint sent) = (close sites ⟨endpoint, sent⟩).1 := by
      rw [← streamWith_eq]
      rfl
    have hsends : (sent.map Call.send).filterMap (received sites) = [] := by
      rw [List.filterMap_map]
      exact List.filterMap_eq_nil_iff.mpr fun _ _ => rfl
    have hpassed : sent.map ((transport sites).send endpoint)
        = List.replicate sent.length .passed :=
      List.map_const'
    rw [used_close, hclose, hpassed, List.filterMap_append, hsends, List.nil_append]
    refine ⟨rfl, ?_⟩
    rw [List.filterMap_cons, hreceived]
    cases (close sites ⟨endpoint, sent⟩).1 <;> rfl

/-- Two payloads of different sizes for a node whose answer carries a field that nobody knows. -/
theorem close_transmits_sent_of_two :
    let endpoint : Endpoint := ⟨"a", "1", by decide, by decide, by decide, by decide⟩
    let small : Payload := ⟨[0, 1, 0, 0, 0, 0, 0, 0, 0], by decide⟩
    let large : Payload := ⟨[0, 2, 0, 0, 0, 0, 0, 0, 0, 0], by decide⟩
    let sites : Sites := fun _ => .node (.responds [0x10, 0x05] [])
    (used sites endpoint [small, large] [.close]).replies = [.passed, .passed, .passed] ∧
      ∃ messages, (used sites endpoint [small, large] [.close]).deliveries
          = [⟨endpoint, callPath, messages⟩] ∧
        messages.map Wire.Kind.submission.decode = [.ok small.bytes, .ok large.bytes] := by
  intro endpoint small large sites
  have hsizes : ∀ p ∈ [small, large], p.size < wordBound := by decide
  obtain ⟨-, -, -, hdelivers, ⟨reply, hreplies, -, hspelled, -⟩, -⟩ :=
    close_transmits_sent sites endpoint [small, large] hsizes
  have hkey : Wire.Key.Writes [0x10] ⟨2, .varint⟩ :=
    ⟨Wire.Varint.writes_byte (by decide), by decide, by decide⟩
  have hvalue : Wire.Lays .varint [0x05] [0x05] :=
    .varint (Wire.Varint.writes_byte (by decide))
  have hspells : Wire.Spells 0 [⟨⟨2, .varint⟩, [0x05]⟩] [0x10, 0x05] :=
    .value (by decide) hkey hvalue .nil
  rw [hspelled _ _ _ rfl hspells] at hreplies
  exact ⟨hreplies [], hdelivers _ [] rfl⟩

end SingleShot.Node.Stream
