import Mathlib.Algebra.Order.Floor.Div
import Mathlib.Order.Lattice.Nat
import SingleShot.Proofs.Readiness.Count

/-!
# How soon a wait notices its peers

Peers that open at some instant are noticed soon: a peer is asked again at the latest a timeout
and a pause after it was asked in vain. In turn the delays do not add up, because a peer that
has opened while others were waited for accepts at once.

* `Poll.Opens.schedule`: which attempt of a poll is accepted first, and when.
* `Noticed`: every peer has opened, and the last of them not long ago. `Noticed.inTurn` and
  `Noticed.together` say that it holds of several polls if it holds of each.
-/

namespace SingleShot

/-- The longest time from one attempt on a peer to the next. -/
def Policy.cycle (policy : Policy) : Nat :=
  policy.attemptTimeout.nanos + policy.retryInterval.nanos

namespace Readiness

/-- The peer in a place opens at an instant: under a timeout, every attempt that starts before
fails, and every attempt that starts then or later is accepted at once. -/
structure OpensAt (environment : Environment) (timeout : Duration) (entry instant : Nat) :
    Prop where
  fails : ∀ (a : Attempt) (m : Moment), a.entry = entry → a.start < instant →
    ((environment a).ending m timeout).2 ≠ .accepted
  accepts : ∀ (a : Attempt) (m : Moment), a.entry = entry → instant ≤ a.start →
    (environment a).ending m timeout = (m.reply 0, .accepted)

namespace Poll

/-- The peer of a poll opens at an instant. -/
def Opens (p : Poll) (instant : Nat) : Prop :=
  OpensAt p.environment p.policy.attemptTimeout p.entry instant

variable {p : Poll} {t : Nat} {s m : Moment}

theorem Opens.accepts_iff (h : p.Opens t) (number : Nat) (m : Moment) :
    p.Accepts number m ↔ t ≤ m.instant := by
  constructor
  · intro ha
    by_contra hlt
    exact h.fails (p.attempt number m) m rfl (by simpa [attempt] using hlt) ha
  · intro hle
    have hending := h.accepts (p.attempt number m) m rfl hle
    exact congrArg Prod.snd hending

theorem Opens.instant_closing (h : p.Opens t) (number : Nat) (hle : t ≤ m.instant) :
    (p.closing number m).instant = m.instant := by
  have hending : p.ending number m = (m.reply 0, .accepted) :=
    h.accepts (p.attempt number m) m rfl hle
  rw [closing, hending, Moment.instant_reply, Nat.add_zero]

theorem instant_closing_le (p : Poll) (number : Nat) (m : Moment) :
    (p.closing number m).instant ≤ m.instant + p.policy.attemptTimeout.nanos := by
  rw [p.instant_closing]
  exact Nat.add_le_add_left (Answer.length_le _ _) _

/-- The attempt that is accepted first comes after `k` others. It starts when the poll does, or
within a cycle after the peer has opened, and the others are a pause apart at least. -/
structure Prompt (p : Poll) (t : Nat) (s : Moment) (k : Nat) : Prop where
  first : p.FirstAccepted s k
  atOnce : (p.reply s k).instant = (p.opening s k).instant
  opened : t ≤ (p.opening s k).instant
  soon : k = 0 ∨ s.instant < t ∧ (p.opening s k).instant < t + p.policy.cycle
  few : k * p.policy.retryInterval.nanos < (t - s.instant) + p.policy.retryInterval.nanos

/-- A peer that opens is asked in a cycle. -/
theorem Opens.prompt (h : p.Opens t) (hpause : 0 < p.policy.retryInterval.nanos) (s : Moment) :
    ∃ k, p.Prompt t s k := by
  classical
  have hopened : ∃ k, t ≤ (p.opening s k).instant := by
    refine ⟨t, ?_⟩
    have hlate := p.mul_le_instant_opening s t
    have hmul : t ≤ t * p.policy.retryInterval.nanos := Nat.le_mul_of_pos_right t hpause
    omega
  obtain ⟨k, hk, hbefore⟩ : ∃ k, t ≤ (p.opening s k).instant ∧
      ∀ j < k, (p.opening s j).instant < t :=
    ⟨Nat.find hopened, Nat.find_spec hopened,
      fun j hj => Nat.lt_of_not_le (Nat.find_min hopened hj)⟩
  have hfirst : p.FirstAccepted s k := by
    refine ⟨(h.accepts_iff _ _).mpr hk, ?_⟩
    intro j hj ha
    exact Nat.not_le_of_lt (hbefore j hj) ((h.accepts_iff _ _).mp ha)
  suffices hs : (k = 0 ∨ s.instant < t ∧ (p.opening s k).instant < t + p.policy.cycle) ∧
      k * p.policy.retryInterval.nanos < (t - s.instant) + p.policy.retryInterval.nanos from
    ⟨k, hfirst, h.instant_closing _ hk, hk, hs.1, hs.2⟩
  cases k with
  | zero =>
    rw [Nat.zero_mul]
    exact ⟨Or.inl rfl, by omega⟩
  | succ j =>
    -- The last attempt that fails starts before the peer opens.
    have hlast := hbefore j (Nat.lt_succ_self j)
    have hmul := p.mul_le_instant_opening s j
    have hclosing : (p.reply s j).instant
        ≤ (p.opening s j).instant + p.policy.attemptTimeout.nanos := p.instant_closing_le _ _
    have hnext := p.instant_opening_succ s j
    have hsoon : (p.opening s (j + 1)).instant < t + p.policy.cycle := by
      rw [Policy.cycle]
      omega
    refine ⟨Or.inr ⟨by omega, hsoon⟩, ?_⟩
    rw [Nat.succ_mul]
    omega

/-- Left alone, a poll whose peer opens finishes with the attempt that is accepted first. -/
theorem Prompt.run {k : Nat} (h : p.Prompt t s k) (hpause : 0 < p.policy.retryInterval.nanos)
    (hd : p.deadline = none) (hh : (p.opening s k).instant < p.horizon) :
    (p.run s).outcome = .finished (k + 1) (p.reply s k) := by
  have hlate := p.mul_le_instant_opening s k
  have hmul : k ≤ k * p.policy.retryInterval.nanos := Nat.le_mul_of_pos_right k hpause
  refine run_finished_iff.mpr ⟨k, rfl, rfl, by omega, h.first, ?_, ?_, ?_⟩
  · simp [limits, hd]
  · simp [limits, hd]
  · rw [h.atOnce]
    exact hh

end Poll

/-! ## Several polls -/

/-- All of several peers have opened by an instant, which is the one from which they are waited
for, or lies less than a cycle behind the opening of one of them. -/
structure Noticed (cycle : Nat) (times : List Nat) (start instant : Nat) : Prop where
  le : start ≤ instant
  opened : ∀ t ∈ times, t ≤ instant
  soon : instant = start ∨ ∃ t ∈ times, start < t ∧ instant < t + cycle

theorem Noticed.nil (cycle start : Nat) : Noticed cycle [] start start :=
  ⟨Nat.le_refl start, by simp, Or.inl rfl⟩

/-- A peer that is waited for after others delays the wait only if it opens after them. -/
theorem Noticed.inTurn {cycle t start middle instant : Nat} {times : List Nat}
    (hhead : Noticed cycle [t] start middle) (hrest : Noticed cycle times middle instant) :
    Noticed cycle (t :: times) start instant := by
  refine ⟨Nat.le_trans hhead.le hrest.le, ?_, ?_⟩
  · intro t' ht'
    rcases List.mem_cons.mp ht' with rfl | ht'
    · exact Nat.le_trans (hhead.opened t' List.mem_cons_self) hrest.le
    · exact hrest.opened t' ht'
  · rcases hrest.soon with rfl | ⟨t', ht', hlt, hsoon⟩
    · rcases hhead.soon with rfl | ⟨t', ht', hlt, hsoon⟩
      · exact Or.inl rfl
      · exact Or.inr ⟨t', by simp_all, hlt, hsoon⟩
    · exact Or.inr ⟨t', List.mem_cons_of_mem t ht', Nat.lt_of_le_of_lt hhead.le hlt, hsoon⟩

/-- Peers that are waited for together are noticed when the last of them is. -/
theorem Noticed.together {cycle t start instant instant' : Nat} {times : List Nat}
    (hhead : Noticed cycle [t] start instant) (hrest : Noticed cycle times start instant') :
    Noticed cycle (t :: times) start (max instant instant') := by
  refine ⟨Nat.le_trans hhead.le (Nat.le_max_left _ _), ?_, ?_⟩
  · intro t' ht'
    rcases List.mem_cons.mp ht' with rfl | ht'
    · exact Nat.le_trans (hhead.opened t' List.mem_cons_self) (Nat.le_max_left _ _)
    · exact Nat.le_trans (hrest.opened t' ht') (Nat.le_max_right _ _)
  · rcases Nat.le_total instant' instant with hle | hle
    · rw [Nat.max_eq_left hle]
      rcases hhead.soon with rfl | ⟨t', ht', hsoon⟩
      · exact Or.inl rfl
      · exact Or.inr ⟨t', by simp_all, hsoon⟩
    · rw [Nat.max_eq_right hle]
      rcases hrest.soon with rfl | ⟨t', ht', hsoon⟩
      · exact Or.inl rfl
      · exact Or.inr ⟨t', List.mem_cons_of_mem t ht', hsoon⟩

/-- A poll of a policy that nothing stops up to an instant. -/
structure Free (policy : Policy) (bound : Nat) (p : Poll) : Prop where
  policy : p.policy = policy
  deadline : p.deadline = none
  horizon : bound < p.horizon

variable {policy : Policy} {bound t : Nat} {times : List Nat} {polls : List Poll} {m : Moment}

theorem Free.run {p : Poll} (hf : Free policy bound p) (hpause : 0 < policy.retryInterval.nanos)
    (h : p.Opens t) (hm : m.instant ≤ bound) (ht : t + policy.cycle ≤ bound) :
    ∃ n e, (p.run m).outcome = .finished n e ∧ e.instant ≤ bound ∧
      Noticed policy.cycle [t] m.instant e.instant := by
  obtain ⟨rfl, hd, hh⟩ := hf
  obtain ⟨k, hk⟩ := h.prompt hpause m
  have hby : (p.opening m k).instant ≤ bound := by
    rcases hk.soon with rfl | ⟨-, hsoon⟩
    · exact hm
    · omega
  refine ⟨k + 1, p.reply m k, hk.run hpause hd (Nat.lt_of_le_of_lt hby hh), ?_⟩
  rw [hk.atOnce]
  refine ⟨hby, p.instant_opening_mono m (Nat.zero_le k), ?_, ?_⟩
  · intro t' ht'
    rw [List.mem_singleton.mp ht']
    exact hk.opened
  · rcases hk.soon with rfl | hsoon
    · exact Or.inl rfl
    · exact Or.inr ⟨t, List.mem_singleton_self t, hsoon⟩

variable {environment : Environment} {horizon : Nat} {start : Moment} {addresses : List String}

/-- The times at which the peers of a wait open, if they are counted from its beginning. -/
def openings (start : Moment) (addresses : List String) (opening : Nat → Nat) : List Nat :=
  (Endpoint.resolveAll addresses).resolved.zipIdx.map fun (_, entry) =>
    start.instant + opening entry

variable {opening : Nat → Nat}

theorem mem_openings :
    t ∈ openings start addresses opening ↔
      ∃ entry < (Endpoint.resolveAll addresses).resolved.length,
        start.instant + opening entry = t := by
  constructor
  · intro ht
    obtain ⟨⟨peer, entry⟩, hmem, rfl⟩ := List.mem_map.mp ht
    exact ⟨entry, by simpa using (List.mem_zipIdx hmem).2.1, rfl⟩
  · rintro ⟨entry, hentry, rfl⟩
    let peers := (Endpoint.resolveAll addresses).resolved
    have hmem : (peers[entry], entry) ∈ peers.zipIdx :=
      List.mem_zipIdx_iff_getElem?.mpr (List.getElem?_eq_getElem hentry)
    exact List.mem_map.mpr ⟨_, hmem, rfl⟩

/-- What it means for a wait that its peers are noticed. -/
theorem Noticed.last {cycle instant : Nat}
    (h : Noticed cycle (openings start addresses opening) start.instant instant) :
    let last := (Finset.range (Endpoint.resolveAll addresses).resolved.length).sup opening
    start.instant + last ≤ instant ∧
      (0 < last → instant < start.instant + last + cycle) ∧
      (last = 0 → instant = start.instant) := by
  intro last
  have hopened : start.instant + last ≤ instant := by
    have hby : last ≤ instant - start.instant := by
      apply Finset.sup_le
      intro entry hentry
      have := h.opened _ (mem_openings.mpr ⟨entry, Finset.mem_range.mp hentry, rfl⟩)
      omega
    have hle := h.le
    omega
  refine ⟨hopened, ?_⟩
  rcases h.soon with rfl | ⟨t, ht, hlt, hsoon⟩
  · exact ⟨by omega, fun _ => rfl⟩
  · obtain ⟨entry, hentry, rfl⟩ := mem_openings.mp ht
    have hlast : opening entry ≤ last := Finset.le_sup (Finset.mem_range.mpr hentry)
    exact ⟨by omega, by omega⟩

/-- The attempts before the first that is accepted are a pause apart. -/
theorem Poll.Prompt.le_ceilDiv {p : Poll} {s : Moment} {k time : Nat} (h : p.Prompt t s k)
    (hpause : 0 < p.policy.retryInterval.nanos) (htime : t - s.instant ≤ time) :
    k ≤ time ⌈/⌉ p.policy.retryInterval.nanos := by
  have hfew := h.few
  cases k with
  | zero => exact Nat.zero_le _
  | succ j =>
    rw [Nat.succ_mul] at hfew
    apply Nat.lt_of_not_le
    intro hle
    have := (ceilDiv_le_iff_le_mul hpause).mp hle
    rw [Nat.mul_comm] at this
    omega

theorem Poll.Opens.attemptsOn_le {p : Poll} {s : Moment} {time : Nat} (h : p.Opens t)
    (hpause : 0 < p.policy.retryInterval.nanos) (htime : t - s.instant ≤ time) (entry : Nat) :
    attemptsOn entry (p.run s).trace ≤ 1 + time ⌈/⌉ p.policy.retryInterval.nanos := by
  obtain ⟨k, hk⟩ := h.prompt hpause s
  have hceil := hk.le_ceilDiv hpause htime
  have hcount := Poll.attemptsOn_run_le hk.first entry
  omega

end Readiness

end SingleShot
