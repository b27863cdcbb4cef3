import SingleShot.Proofs.Readiness.Due

/-!
# Peers that accept in time

Whether a peer accepts in time is for its answers to say, to the attempts that are due from an
instant on. Peers that are waited for one after the other are asked each from the accept of the
one before it; peers that are waited for all at once are asked from the start.

* `AcceptsAt`, `AcceptInTurn`, `AcceptTogether`: peers that accept, whatever polls make of them.
* `Poll.peerAccepts_of_finished`, `Poll.finished_of_peerAccepts`: a poll that is observed long
  enough finishes exactly if its peer accepts.
* `exists_finished_inMode_iff`: the same of several polls, in either mode.
* `exists_awaitAll_finished_iff`: and of a wait.
-/

namespace SingleShot.Readiness

section

variable (environment : Environment) (policy : Policy) (deadline : Option Nat)

/-- A peer that is asked from an instant on accepts at an instant: the first attempt that is due
and accepted before its timeout starts before the deadline, and is accepted by then. -/
def AcceptsAt (entry : Nat) (peer : Endpoint) (start instant : Nat) : Prop :=
  let attempt := due environment policy entry peer start
  ∃ k delay, IsLeast {j | (environment (attempt j)).InTime policy.attemptTimeout} k ∧
    environment (attempt k) = .accepts delay ∧ instant = (attempt k).start + delay ∧
    ∀ d, deadline = some d → (attempt k).start < d ∧ instant ≤ d

/-- Peers in their places accept one after the other. -/
def AcceptInTurn : (peers : List (Endpoint × Nat)) → (start : Nat) → Prop
  | [], _ => True
  | (peer, entry) :: peers, start =>
    ∃ instant, AcceptsAt environment policy deadline entry peer start instant ∧
      AcceptInTurn peers instant

/-- Peers in their places accept, each asked from the start. -/
def AcceptTogether (peers : List (Endpoint × Nat)) (start : Nat) : Prop :=
  ∀ peer ∈ peers, ∃ instant,
    AcceptsAt environment policy deadline peer.2 peer.1 start instant

/-- Peers in their places accept in the order of a mode. -/
def AcceptInMode : (mode : Mode) → (peers : List (Endpoint × Nat)) → (start : Nat) → Prop
  | .sequential => AcceptInTurn environment policy deadline
  | .concurrent => AcceptTogether environment policy deadline

end

/-- The peers in a list of addresses accept in time: the clock counts the instant of the deadline,
if there are peers to wait for, and each of them accepts by then. -/
def PeersAccept (environment : Environment) (policy : Policy) (start : Moment)
    (addresses : List String) : Prop :=
  PollsBegin environment policy start addresses ∧
    AcceptInMode environment policy ((Deadline.of policy start.instant).map (·.instant))
      policy.mode (Endpoint.resolveAll addresses).resolved.zipIdx start.instant

variable {environment : Environment} {policy : Policy} {m e start : Moment} {n attempts : Nat}
  {polls : List Poll} {addresses : List String}

/-! ## A single poll -/

namespace Poll

variable {p : Poll} {horizon instant : Nat}

/-- The peer of a poll accepts. -/
def PeerAccepts (p : Poll) (start instant : Nat) : Prop :=
  AcceptsAt p.environment p.policy p.limits.deadline p.entry p.peer start instant

/-- The peer of a poll that finishes accepts. -/
theorem peerAccepts_of_finished (h : ((p.upTo horizon).run m).outcome = .finished n e) :
    p.PeerAccepts m.instant e.instant := by
  obtain ⟨k, -, rfl, -, hfirst, hadmits⟩ := run_finished_iff.mp h
  rw [(p.alike_upTo horizon).reply, (p.alike_upTo horizon).opening] at hadmits
  have hleast := firstAccepted_iff.mp ((firstAccepted_upTo horizon).mp hfirst)
  obtain ⟨delay, hanswer, hdelay⟩ := hleast.1
  have hreply : (p.reply m k).instant = (p.planned m k).start + delay :=
    instant_reply_of_accepts hanswer hdelay
  rw [(p.alike_upTo horizon).reply]
  simp only [planned_eq_due] at hleast hanswer hreply
  refine ⟨k, delay, hleast, hanswer, hreply, ?_⟩
  intro d hd
  rw [← planned_eq_due]
  exact ⟨hadmits.begins d hd, hadmits.ends d hd⟩

/-- A poll whose peer accepts finishes, if it is observed long enough. -/
theorem finished_of_peerAccepts (h : p.PeerAccepts m.instant instant) :
    ∃ horizon n e, e.instant = instant ∧
      ((p.upTo horizon).run m).outcome = .finished n e := by
  obtain ⟨k, delay, hleast, hanswer, rfl, hdeadline⟩ := h
  simp only [← planned_eq_due] at hleast hanswer hdeadline
  obtain ⟨_, hanswer', hdelay⟩ := hleast.1
  cases hanswer.symm.trans hanswer'
  have hreply : (p.reply m k).instant = (p.planned m k).start + delay :=
    instant_reply_of_accepts hanswer hdelay
  let horizon := m.instant + k + (p.reply m k).instant + 1
  have hk : k < horizon - m.instant := by omega
  have hadmits : (p.upTo horizon).limits.Admits (p.opening m k) (p.reply m k) := by
    refine ⟨fun d hd => (hdeadline d hd).1, fun d hd => ?_, ?_⟩
    · rw [hreply]
      exact (hdeadline d hd).2
    · show (p.reply m k).instant < horizon
      omega
  refine ⟨horizon, k + 1, p.reply m k, ?_, ?_⟩
  · rw [hreply, planned_eq_due]
  · refine run_finished_iff.mpr ⟨k, rfl, ?_, hk, ?_, ?_⟩
    · rw [(p.alike_upTo horizon).reply]
    · exact (firstAccepted_upTo horizon).mpr (firstAccepted_iff.mpr hleast)
    · rwa [(p.alike_upTo horizon).opening]

end Poll

/-! ## Several polls -/

/-- The poll of a peer in its place, without an end of its observation. -/
def pollOf (environment : Environment) (policy : Policy) (deadline : Option Deadline)
    (peer : Endpoint × Nat) : Poll :=
  ⟨environment, policy, deadline, 0, peer.2, peer.1⟩

variable {deadline : Option Deadline} {peers : List (Endpoint × Nat)}

/-- Polls in turn that are observed long enough finish exactly if their peers accept in turn. -/
theorem exists_finished_inTurn_iff :
    (∃ horizon n e, (inTurn attempts
        ((peers.map (pollOf environment policy deadline)).map (·.upTo horizon)) m).outcome
          = .finished n e) ↔
      AcceptInTurn environment policy (deadline.map (·.instant)) peers m.instant := by
  induction peers generalizing attempts m with
  | nil => exact iff_of_true ⟨0, attempts, m, rfl⟩ trivial
  | cons peer peers ih =>
    let p := pollOf environment policy deadline peer
    constructor
    · rintro ⟨horizon, n, e, h⟩
      obtain ⟨k, m', hp, hrest⟩ := inTurn_cons_finished_iff.mp h
      have hpeer : p.PeerAccepts m.instant m'.instant := Poll.peerAccepts_of_finished hp
      exact ⟨m'.instant, hpeer, ih.mp ⟨horizon, n, e, hrest⟩⟩
    · rintro ⟨_, hpeer, hpeers⟩
      have hpeer : p.PeerAccepts m.instant _ := hpeer
      obtain ⟨before, k, m', rfl, hp⟩ := Poll.finished_of_peerAccepts hpeer
      obtain ⟨after, n, e, hrest⟩ := (@ih m' (attempts + k)).mpr hpeers
      refine ⟨max before after, n, e, inTurn_cons_finished_iff.mpr ⟨k, m', ?_, ?_⟩⟩
      · exact p.finishesAs_upTo (Nat.le_max_left before after) m k m' (Nat.le_refl _) hp
      · exact inTurn_finished_of_forall₂ (forall₂_upTo _ (Nat.le_max_right before after))
          (Nat.le_refl _) hrest

/-- Polls together that are observed long enough finish exactly if the peer of each accepts. -/
theorem exists_finished_together_iff :
    (∃ horizon n e, (together
        ((peers.map (pollOf environment policy deadline)).map (·.upTo horizon)) m).outcome
          = .finished n e) ↔
      AcceptTogether environment policy (deadline.map (·.instant)) peers m.instant := by
  unfold AcceptTogether
  induction peers with
  | nil => exact iff_of_true ⟨0, 0, m, rfl⟩ (by simp)
  | cons peer peers ih =>
    let p := pollOf environment policy deadline peer
    rw [List.forall_mem_cons, ← ih]
    constructor
    · rintro ⟨horizon, n, e, h⟩
      obtain ⟨k, m', l, m'', hp, hrest, -⟩ := joined_cons_finished_iff.mp h
      have hpeer : p.PeerAccepts m.instant m'.instant := Poll.peerAccepts_of_finished hp
      exact ⟨⟨m'.instant, hpeer⟩, horizon, l, m'', hrest⟩
    · rintro ⟨⟨_, hpeer⟩, after, l, m'', hrest⟩
      have hpeer : p.PeerAccepts m.instant _ := hpeer
      obtain ⟨before, k, m', rfl, hp⟩ := Poll.finished_of_peerAccepts hpeer
      refine ⟨max before after, k + l, m'.later m'', joined_cons_finished_iff.mpr
        ⟨k, m', l, m'', ?_, ?_, rfl, rfl⟩⟩
      · exact p.finishesAs_upTo (Nat.le_max_left before after) m k m' (Nat.le_refl _) hp
      · exact together_finished_of_forall₂ (forall₂_upTo _ (Nat.le_max_right before after))
          (Nat.le_refl _) hrest

theorem exists_finished_inMode_iff (mode : Mode) :
    (∃ horizon n e, (inMode mode
        ((peers.map (pollOf environment policy deadline)).map (·.upTo horizon)) m).outcome
          = .finished n e) ↔
      AcceptInMode environment policy (deadline.map (·.instant)) mode peers m.instant := by
  cases mode with
  | sequential => exact exists_finished_inTurn_iff
  | concurrent => exact exists_finished_together_iff

/-! ## The wait -/

/-- A wait that is observed long enough finishes exactly if its peers accept in time. -/
theorem exists_awaitAll_finished_iff :
    (∃ horizon report e,
        (awaitAll environment policy horizon start addresses).outcome = .finished report e) ↔
      PeersAccept environment policy start addresses := by
  have hpolls : ∀ horizon, waitPolls environment policy horizon start addresses
      = ((Endpoint.resolveAll addresses).resolved.zipIdx.map
          (pollOf environment policy (Deadline.of policy start.instant))).map (·.upTo horizon) :=
    waitPolls_upTo
  rw [PeersAccept, ← exists_finished_inMode_iff policy.mode]
  simp only [← hpolls]
  constructor
  · rintro ⟨horizon, report, e, h⟩
    obtain ⟨hbegin, n, hn, -⟩ := awaitAll_finished_iff.mp h
    exact ⟨hbegin, horizon, n, e, hn⟩
  · rintro ⟨hbegin, horizon, n, e, hn⟩
    exact ⟨horizon, _, e, awaitAll_finished_iff.mpr ⟨hbegin, n, hn, rfl⟩⟩

end SingleShot.Readiness
