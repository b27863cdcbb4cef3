import SingleShot.Node.Stream
import SingleShot.Proofs.Submission.Exits

/-!
# What nodes acknowledge and receive

Over channels to nodes the calls of a submission pass if the node answers its call with an
acknowledgement, and only closing the stream brings anything to the node.

* `plan_passed_iff`: the calls that a submission plans all pass if the node acknowledges.
* `receivedIn_plan_of_acknowledges`: the node has then received one call with one message.
* `length_messages_le_one`: no part of the plan brings it more than that.
-/

namespace SingleShot.Node

open Submission (Call Reply plan)

variable {sites : Sites} {endpoint : Endpoint} {payload : Payload} {behaviour : Behaviour}
  {sent : List Payload} {calls : List (Call × Reply)}

/-! ## Calls that pass -/

/-- There is a node at an endpoint, and its answer is an acknowledgement. -/
def Acknowledges (sites : Sites) (endpoint : Endpoint) : Prop :=
  ∃ message headers payload, sites endpoint = .node (.responds message headers) ∧
    Wire.Kind.acknowledgement.decode message = .ok payload

theorem replyTo_eq_passed_iff :
    Stream.replyTo behaviour = .passed ↔ ∃ message headers payload,
      behaviour = .responds message headers ∧
        Wire.Kind.acknowledgement.decode message = .ok payload := by
  cases behaviour with
  | responds message headers =>
    simp only [Stream.replyTo, Stream.reading, Behaviour.responds.injEq]
    cases hdecode : Wire.Kind.acknowledgement.decode message with
    | error e => simp [hdecode]
    | ok payload => simp [hdecode]
  | revokes message headers status failing =>
    simp only [Stream.replyTo, Stream.reading]
    split <;> simp
  | fails status =>
    simp only [Stream.replyTo]
    split <;> simp
  | silent => simp [Stream.replyTo]

/-- The stream into which payloads have been sent. -/
def streamWith (endpoint : Endpoint) (sent : List Payload) : Stream :=
  sent.foldl Stream.send (Stream.start endpoint)

theorem streamWith_eq (endpoint : Endpoint) (sent : List Payload) :
    streamWith endpoint sent = ⟨endpoint, sent⟩ := by
  have hqueue : (streamWith endpoint sent).queue = sent := by
    rw [streamWith, Stream.queue_foldl_send, Stream.start, List.nil_append]
  have hendpoint : (streamWith endpoint sent).endpoint = endpoint :=
    Stream.endpoint_foldl_send sent (Stream.start endpoint)
  calc
    streamWith endpoint sent
      = ⟨(streamWith endpoint sent).endpoint, (streamWith endpoint sent).queue⟩ := rfl
    _ = ⟨endpoint, sent⟩ := by rw [hendpoint, hqueue]

theorem close_eq_passed_iff :
    (transport sites).close endpoint sent = .passed ↔
      ∃ behaviour, sites endpoint = .node behaviour ∧ Stream.replyTo behaviour = .passed := by
  have hclose : (transport sites).close endpoint sent
      = ((streamWith endpoint sent).close sites).2 := rfl
  rw [hclose, streamWith_eq, Stream.close]
  cases sites endpoint with
  | refusing why => simp
  | unreachable => simp
  | unready error => simp
  | node behaviour => simp

/-- All calls pass if the node acknowledges. -/
theorem plan_passed_iff :
    (∀ c ∈ plan (transport sites) endpoint payload, c.2 = .passed) ↔
      Acknowledges sites endpoint := by
  simp only [plan, List.forall_mem_cons, List.not_mem_nil, false_implies, implies_true, and_true,
    close_eq_passed_iff]
  constructor
  · rintro ⟨-, -, -, behaviour, hsite, hreply⟩
    obtain ⟨message, headers, payload, rfl, hdecode⟩ := replyTo_eq_passed_iff.mp hreply
    exact ⟨message, headers, payload, hsite, hdecode⟩
  · rintro ⟨message, headers, payload', hsite, hdecode⟩
    refine ⟨?_, ?_, rfl, _, hsite,
      replyTo_eq_passed_iff.mpr ⟨message, headers, payload', rfl, hdecode⟩⟩
    · simp [transport, connect, hsite]
    · simp [transport, openStream, hsite]

/-! ## What is received -/

/-- The calls that nodes receive through those of a client. -/
def receivedIn (sites : Sites) (calls : List (Call × Reply)) : List Delivery :=
  calls.filterMap fun c => received sites c.1

/-- The messages of calls, in order. -/
def messagesOf (deliveries : List Delivery) : List (List UInt8) :=
  deliveries.flatMap (·.messages)

theorem received_close (sites : Sites) (endpoint : Endpoint) (sent : List Payload) :
    received sites (.close endpoint sent) =
      match sites endpoint with
      | .node _ => some ⟨endpoint, callPath, sent.map fun p => Wire.encode p.bytes⟩
      | _ => none := by
  have hreceived : received sites (.close endpoint sent)
      = ((streamWith endpoint sent).close sites).1 := rfl
  rw [hreceived, streamWith_eq, Stream.close]
  cases sites endpoint <;> rfl

/-- Only closing the stream brings anything to a node. -/
theorem receivedIn_plan :
    receivedIn sites (plan (transport sites) endpoint payload)
      = (received sites (.close endpoint [payload])).toList := by
  simp only [receivedIn, plan, List.filterMap_cons, List.filterMap_nil, received]
  cases (Stream.close sites _).1 <;> rfl

theorem receivedIn_plan_of_acknowledges (h : Acknowledges sites endpoint) :
    receivedIn sites (plan (transport sites) endpoint payload)
      = [⟨endpoint, callPath, [Wire.encode payload.bytes]⟩] := by
  obtain ⟨message, headers, -, hsite, -⟩ := h
  rw [receivedIn_plan, received_close, hsite]
  rfl

/-- No part of the plan brings more than one message to a node. -/
theorem length_messages_le_one (h : calls <+: plan (transport sites) endpoint payload) :
    (messagesOf (receivedIn sites calls)).length ≤ 1 := by
  obtain ⟨rest, hrest⟩ := h
  have hall : (messagesOf (receivedIn sites (calls ++ rest))).length ≤ 1 := by
    rw [hrest, receivedIn_plan, received_close]
    cases sites endpoint <;> simp [messagesOf]
  rw [receivedIn, List.filterMap_append, messagesOf, List.flatMap_append,
    List.length_append] at hall
  exact Nat.le_trans (Nat.le_add_right _ _) hall

end SingleShot.Node
