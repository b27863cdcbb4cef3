import SingleShot.Clock

/-!
# Waiting under limits

What `Limits.wait` lets pass, and what the deadline and the horizon stop.

* `Limits.wait_eq_resumed_iff`: waiting is resumed exactly if it begins before the deadline,
  ends no later than the deadline, and ends before the horizon.
* `Limits.resumed_of_within`: whatever lies before a wait that is resumed is resumed as well.
* `Limits.wait_of_horizon_le`: a later horizon changes nothing that has been seen.
-/

namespace SingleShot

namespace Moment

theorem instant_le {a b : Moment} (h : a.le b = true) : a.instant ≤ b.instant := by
  simp only [le, Bool.or_eq_true, Bool.and_eq_true, decide_eq_true_eq] at h
  omega

theorem le_antisymm {a b : Moment} (hab : a.le b = true) (hba : b.le a = true) : a = b := by
  obtain ⟨i, r⟩ := a
  obtain ⟨j, s⟩ := b
  simp only [le, Bool.or_eq_true, Bool.and_eq_true, decide_eq_true_eq] at hab hba
  rw [mk.injEq]
  omega

/-- The later of two moments is the first one that neither of them comes after. -/
theorem later_le_iff {a b c : Moment} :
    (a.later b).le c = true ↔ a.le c = true ∧ b.le c = true := by
  unfold later
  split
  · rename_i hab
    exact ⟨fun hbc => ⟨le_trans hab hbc, hbc⟩, fun h => h.2⟩
  · rename_i hab
    have hba : b.le a = true := by
      have := le_total a b
      simp_all
    exact ⟨fun hac => ⟨hac, le_trans hba hac⟩, fun h => h.1⟩

theorem eq_of_forall_le_iff {a b : Moment} (h : ∀ c, a.le c = true ↔ b.le c = true) : a = b :=
  le_antisymm ((h b).mpr b.le_refl) ((h a).mp a.le_refl)

theorem later_left_comm (a b c : Moment) : a.later (b.later c) = b.later (a.later c) := by
  apply eq_of_forall_le_iff
  intro x
  simp only [later_le_iff]
  exact and_left_comm

theorem later_of_le {a b : Moment} (h : b.le a = true) : a.later b = a := by
  apply eq_of_forall_le_iff
  intro x
  rw [later_le_iff]
  exact ⟨fun hx => hx.1, fun hx => ⟨hx, le_trans h hx⟩⟩

theorem ne_reply (m : Moment) (delay : Nat) : m ≠ m.reply delay := by
  intro h
  unfold reply at h
  split at h
  · have := congrArg Moment.round h
    dsimp only at this
    omega
  · have := congrArg Moment.instant h
    dsimp only [dawn] at this
    omega

theorem instant_pause (m : Moment) (length : Nat) :
    (m.pause length).instant = m.instant + length := by
  unfold pause
  split
  · omega
  · rfl

theorem instant_reply (m : Moment) (delay : Nat) :
    (m.reply delay).instant = m.instant + delay := by
  unfold reply
  split
  · simp_all
  · rfl

theorem instant_later (a b : Moment) : (a.later b).instant = max a.instant b.instant := by
  unfold later
  split
  · rename_i h
    have := instant_le h
    omega
  · rename_i h
    have hba : b.le a = true := by
      have := le_total a b
      simp_all
    have := instant_le hba
    omega

end Moment

namespace Limits

variable {limits : Limits} {since next m : Moment}

/-- Waiting from one moment until another stays within the limits: it begins before the
deadline, ends no later than it, and is seen to end. -/
structure Admits (limits : Limits) (since next : Moment) : Prop where
  begins : ∀ deadline, limits.deadline = some deadline → since.instant < deadline
  ends : ∀ deadline, limits.deadline = some deadline → next.instant ≤ deadline
  seen : next.instant < limits.horizon

theorem wait_self (limits : Limits) (m : Moment) : limits.wait m m = .resumed := by
  simp [wait]

/-- Either the deadline lets a wait pass, or it stops it: at once if it is past, and in its
own instant otherwise. Both are seen only before the horizon. -/
theorem wait_cases (limits : Limits) (h : since ≠ next) :
    ((∀ d, limits.deadline = some d → since.instant < d ∧ next.instant ≤ d) ∧
      limits.wait since next = if next.instant < limits.horizon then .resumed else .unseen) ∨
    ∃ d m, limits.deadline = some d ∧
      (d ≤ since.instant ∧ m = since ∨
        since.instant < d ∧ d < next.instant ∧ m = Moment.dawn d) ∧
      limits.wait since next = if m.instant < limits.horizon then .expired m else .unseen := by
  obtain ⟨deadline, horizon⟩ := limits
  unfold wait
  rw [if_neg h]
  cases deadline with
  | none => exact Or.inl ⟨by simp, rfl⟩
  | some d =>
    simp only [Option.bind_some]
    by_cases hs : d ≤ since.instant
    · rw [if_pos hs]
      exact Or.inr ⟨d, since, rfl, Or.inl ⟨hs, rfl⟩, rfl⟩
    · rw [if_neg hs]
      by_cases hn : d < next.instant
      · rw [if_pos hn]
        exact Or.inr ⟨d, Moment.dawn d, rfl, Or.inr ⟨by omega, hn, rfl⟩, rfl⟩
      · rw [if_neg hn]
        refine Or.inl ⟨?_, rfl⟩
        intro d' hd'
        cases hd'
        omega

theorem wait_eq_resumed_iff (h : since ≠ next) :
    limits.wait since next = .resumed ↔ limits.Admits since next := by
  rcases limits.wait_cases h with ⟨hpass, hw⟩ | ⟨d, m, hd, hm, hw⟩
  · rw [hw]
    constructor
    · intro hr
      split at hr
      · exact ⟨fun d hd => (hpass d hd).1, fun d hd => (hpass d hd).2, by assumption⟩
      · cases hr
    · intro ha
      exact if_pos ha.seen
  · rw [hw]
    constructor
    · intro hr
      split at hr <;> cases hr
    · intro ha
      have := ha.begins d hd
      have := ha.ends d hd
      omega

/-- What lies before a real wait that is resumed is itself resumed. -/
theorem resumed_of_within {a b : Moment} (h : limits.wait since next = .resumed)
    (hne : since ≠ next) (hle : since.instant ≤ next.instant) (hab : a.instant ≤ b.instant)
    (hb : b.instant ≤ since.instant) : limits.wait a b = .resumed := by
  by_cases he : a = b
  · exact he ▸ wait_self limits a
  · have hw := (wait_eq_resumed_iff hne).mp h
    refine (wait_eq_resumed_iff he).mpr ⟨?_, ?_, ?_⟩
    · intro d hd
      have := hw.begins d hd
      omega
    · intro d hd
      have := hw.begins d hd
      omega
    · have := hw.seen
      omega

/-- A wait that begins by the deadline expires in the instant of the deadline. -/
theorem instant_of_expired {d : Nat} (hd : limits.deadline = some d) (hs : since.instant ≤ d)
    (h : limits.wait since next = .expired m) : m.instant = d := by
  by_cases he : since = next
  · rw [he, wait_self] at h
    cases h
  · rcases limits.wait_cases he with ⟨-, hw⟩ | ⟨d', m', hd', hm, hw⟩
    · rw [hw] at h
      split at h <;> cases h
    · rw [hw] at h
      cases hd.symm.trans hd'
      split at h
      · cases h
        rcases hm with ⟨_, rfl⟩ | ⟨-, -, rfl⟩
        · omega
        · rfl
      · cases h

/-- Nothing expires before it is waited for. -/
theorem le_of_expired (h : limits.wait since next = .expired m) : since.le m = true := by
  by_cases he : since = next
  · rw [he, wait_self] at h
    cases h
  · rcases limits.wait_cases he with ⟨-, hw⟩ | ⟨d, m', -, hm, hw⟩
    · rw [hw] at h
      split at h <;> cases h
    · rw [hw] at h
      split at h
      · cases h
        rcases hm with ⟨-, rfl⟩ | ⟨hlt, -, rfl⟩
        · exact Moment.le_refl _
        · simp [Moment.le, Moment.dawn, hlt]
      · cases h

/-- With the deadline before the horizon nothing that begins by the deadline goes unseen. -/
theorem wait_ne_unseen {d : Nat} (hd : limits.deadline = some d) (hh : d < limits.horizon)
    (hs : since.instant ≤ d) : limits.wait since next ≠ .unseen := by
  intro h
  by_cases he : since = next
  · rw [he, wait_self] at h
    cases h
  · rcases limits.wait_cases he with ⟨hpass, hw⟩ | ⟨d', m, hd', hm, hw⟩
    · have := (hpass d hd).2
      rw [hw, if_pos (by omega)] at h
      cases h
    · cases hd.symm.trans hd'
      have hi : m.instant = d := by
        rcases hm with ⟨_, rfl⟩ | ⟨-, -, rfl⟩
        · omega
        · rfl
      rw [hw, if_pos (by omega)] at h
      cases h

/-- What is resumed by the deadline ends by the deadline. -/
theorem instant_le_of_resumed {d : Nat} (hd : limits.deadline = some d)
    (hs : since.instant ≤ d) (h : limits.wait since next = .resumed) : next.instant ≤ d := by
  by_cases he : since = next
  · exact he ▸ hs
  · exact ((wait_eq_resumed_iff he).mp h).ends d hd

/-- A later horizon changes nothing that has been seen. -/
theorem wait_of_horizon_le {limits' : Limits} (hd : limits'.deadline = limits.deadline)
    (hh : limits.horizon ≤ limits'.horizon) (h : limits.wait since next ≠ .unseen) :
    limits'.wait since next = limits.wait since next := by
  obtain ⟨deadline, horizon⟩ := limits
  obtain ⟨_, horizon'⟩ := limits'
  cases hd
  dsimp only at hh
  unfold wait at h ⊢
  by_cases he : since = next
  · rw [if_pos he, if_pos he]
  · rw [if_neg he] at h
    rw [if_neg he, if_neg he]
    generalize deadline.bind _ = stop at h ⊢
    cases stop with
    | none =>
      dsimp only at h ⊢
      split at h
      · rw [if_pos (by omega), if_pos (by assumption)]
      · exact absurd rfl h
    | some moment =>
      dsimp only at h ⊢
      split at h
      · rw [if_pos (by omega), if_pos (by assumption)]
      · exact absurd rfl h

end Limits

end SingleShot
