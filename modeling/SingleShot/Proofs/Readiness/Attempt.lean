import SingleShot.Proofs.Waiting
import SingleShot.Readiness.Attempt

/-!
# How long attempts take

An attempt takes as long as its answer says, and at most its timeout. Neither how long it takes
nor how it ends depends on when it starts (`Answer.instant_ending`, `Answer.ending_snd`).
-/

namespace SingleShot.Readiness

/-- How long an attempt takes under a timeout. -/
def Answer.length (answer : Answer) (timeout : Duration) : Nat :=
  match answer with
  | .accepts delay | .refuses delay _ => if delay < timeout.nanos then delay else timeout.nanos
  | .fails _ => 0
  | .silent => timeout.nanos

theorem Answer.instant_ending (answer : Answer) (start : Moment) (timeout : Duration) :
    (answer.ending start timeout).1.instant = start.instant + answer.length timeout := by
  unfold ending length
  cases answer with
  | accepts delay =>
    dsimp only
    split
    · exact Moment.instant_reply start delay
    · exact Moment.instant_pause start _
  | refuses delay why =>
    dsimp only
    split
    · exact Moment.instant_reply start delay
    · exact Moment.instant_pause start _
  | fails why => rfl
  | silent => exact Moment.instant_pause start _

/-- No attempt takes longer than its timeout. -/
theorem Answer.length_le (answer : Answer) (timeout : Duration) :
    answer.length timeout ≤ timeout.nanos := by
  unfold length
  cases answer with
  | accepts delay | refuses delay why =>
    dsimp only
    split <;> omega
  | fails why => exact Nat.zero_le _
  | silent => exact Nat.le_refl _

/-- How an attempt ends does not depend on when it starts. -/
theorem Answer.ending_snd (answer : Answer) (start start' : Moment) (timeout : Duration) :
    (answer.ending start timeout).2 = (answer.ending start' timeout).2 := by
  unfold ending
  cases answer with
  | accepts delay => dsimp only; split <;> rfl
  | refuses delay why => dsimp only; split <;> rfl
  | fails why => rfl
  | silent => rfl

/-- An attempt is accepted only by an accept within its timeout. -/
theorem Answer.accepts_of_ending {answer : Answer} {start : Moment} {timeout : Duration}
    (h : (answer.ending start timeout).2 = .accepted) :
    ∃ delay, answer = .accepts delay ∧ delay < timeout.nanos := by
  unfold ending at h
  cases answer with
  | accepts delay =>
    dsimp only at h
    split at h
    · rename_i hdelay
      exact ⟨delay, rfl, hdelay⟩
    · cases h
  | refuses delay why =>
    dsimp only at h
    split at h <;> cases h
  | fails why => cases h
  | silent => cases h

/-- An accept is waited for. -/
theorem Answer.ne_ending_of_accepted {answer : Answer} {start : Moment} {timeout : Duration}
    (h : (answer.ending start timeout).2 = .accepted) :
    start ≠ (answer.ending start timeout).1 := by
  unfold ending at h ⊢
  cases answer with
  | accepts delay =>
    dsimp only at h ⊢
    split
    · exact Moment.ne_reply start delay
    · rename_i hd
      rw [if_neg hd] at h
      cases h
  | refuses delay why =>
    dsimp only at h
    split at h <;> cases h
  | fails why => cases h
  | silent => cases h

end SingleShot.Readiness
