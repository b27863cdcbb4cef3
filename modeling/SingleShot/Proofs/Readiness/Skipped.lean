import SingleShot.Proofs.Endpoint.Resolution
import SingleShot.Proofs.Readiness.Schedule
import SingleShot.Proofs.Readiness.Order

/-!
# Addresses that are left out of a wait

A wait tells which addresses it leaves out, and reports them; nothing else of it depends on
them. Every peer that it does not leave out costs at least one attempt.

* `awaitAll_of_resolved_eq`: two waits for the same peers differ only in what they leave out.
* `length_le_of_inMode`: polls that finish have made at least one attempt each.
* `report_of_finished`: what a wait that finishes reports.
-/

namespace SingleShot.Readiness

open Endpoint (rejected resolveAll)

variable {environment : Environment} {policy : Policy} {horizon n : Nat} {start m e : Moment}
  {addresses addresses' : List String}

/-! ## The same wait with other addresses left out -/

/-- The same outcome with other addresses left out. -/
def leavingOut (skipped : List String) : Outcome Report → Outcome Report
  | .finished report m => .finished { report with skipped } m
  | .failed f m => .failed f m
  | .crashed m => .crashed m
  | .pending => .pending

/-- What a wait tells about the addresses that it leaves out. -/
def tellsSkipped (start : Moment) (addresses : List String) : List (Timed Event) :=
  (resolveAll addresses).rejected.map fun (input, error) => ⟨start, .skipped input error⟩

theorem awaitAll_of_resolved_eq (environment : Environment) (policy : Policy) (horizon : Nat)
    (start : Moment)
    (h : (resolveAll addresses').resolved = (resolveAll addresses).resolved) :
    (awaitAll environment policy horizon start addresses').outcome
        = leavingOut (rejected addresses')
          (awaitAll environment policy horizon start addresses).outcome ∧
      ∃ rest,
        (awaitAll environment policy horizon start addresses).trace
          = tellsSkipped start addresses ++ rest ∧
        (awaitAll environment policy horizon start addresses').trace
          = tellsSkipped start addresses' ++ rest := by
  simp only [awaitAll, h, Endpoint.rejected_inputs, Course.after, tellsSkipped, List.map_map,
    Function.comp_def]
  by_cases hpeers : (resolveAll addresses).resolved = []
  · rw [if_pos hpeers, if_pos hpeers]
    exact ⟨rfl, [], rfl, rfl⟩
  · rw [if_neg hpeers, if_neg hpeers]
    by_cases hcounted : Deadline.Counted environment.clock (Deadline.of policy start.instant)
    · rw [if_pos hcounted, if_pos hcounted]
      generalize inMode policy.mode _ start = polls
      -- Whether the polls finish is not for the addresses left out to say.
      unfold Course.andThen
      cases polls.outcome with
      | finished | failed | crashed | pending => exact ⟨rfl, _, rfl, rfl⟩
    · rw [if_neg hcounted, if_neg hcounted]
      exact ⟨rfl, _, rfl, rfl⟩

/-! ## Attempts and peers -/

theorem Poll.one_le_of_run {p : Poll} (h : (p.run m).outcome = .finished n e) : 1 ≤ n := by
  obtain ⟨k, rfl, -⟩ := run_finished_iff.mp h
  exact Nat.le_add_left 1 k

theorem length_le_of_inTurn {polls : List Poll} {attempts : Nat}
    (h : (inTurn attempts polls m).outcome = .finished n e) : attempts + polls.length ≤ n := by
  induction polls generalizing attempts m with
  | nil =>
    cases h
    exact Nat.le_refl _
  | cons p polls ih =>
    obtain ⟨k, m', hp, hrest⟩ := inTurn_cons_finished_iff.mp h
    have hone := Poll.one_le_of_run hp
    have hothers := ih hrest
    rw [List.length_cons]
    omega

theorem length_le_of_together {polls : List Poll}
    (h : (together polls m).outcome = .finished n e) : polls.length ≤ n := by
  simp only [together] at h
  induction polls generalizing n e with
  | nil => exact Nat.zero_le n
  | cons p polls ih =>
    obtain ⟨k, m', l, m'', hp, hrest, rfl, -⟩ := joined_cons_finished_iff.mp h
    have hone := Poll.one_le_of_run hp
    have hothers := ih hrest
    rw [List.length_cons]
    omega

/-- Polls that finish have made at least one attempt each. -/
theorem length_le_of_inMode {mode : Mode} {polls : List Poll}
    (h : (inMode mode polls m).outcome = .finished n e) : polls.length ≤ n := by
  cases mode with
  | sequential =>
    have hlength : 0 + polls.length ≤ n := length_le_of_inTurn h
    omega
  | concurrent => exact length_le_of_together h

theorem length_waitPolls :
    (waitPolls environment policy horizon start addresses).length
      = (resolveAll addresses).resolved.length := by
  simp [waitPolls, pollsOf]

/-- A wait that finishes reports every address once, as a peer or as left out, and there are
attempts exactly if there are peers. -/
theorem report_of_finished {report : Report}
    (h : (awaitAll environment policy horizon start addresses).outcome = .finished report e) :
    report.ready = addresses.filterMap Endpoint.resolve? ∧
      report.skipped = rejected addresses ∧
      report.ready.length + report.skipped.length = addresses.length ∧
      report.ready.length ≤ report.attempts ∧
      (report.attempts = 0 ↔ report.ready = []) := by
  obtain ⟨-, n, hn, rfl⟩ := awaitAll_finished_iff.mp h
  have hlength := length_le_of_inMode hn
  rw [length_waitPolls] at hlength
  refine ⟨rfl, Endpoint.rejected_inputs addresses, ?_, hlength, ?_⟩
  · rw [List.length_map]
    exact Endpoint.length_resolveAll addresses
  · constructor
    · rintro rfl
      exact List.length_eq_zero_iff.mp (Nat.le_zero.mp hlength)
    · intro hpeers
      rw [inMode_of_no_peer policy.mode hpeers] at hn
      cases hn
      rfl

end SingleShot.Readiness
