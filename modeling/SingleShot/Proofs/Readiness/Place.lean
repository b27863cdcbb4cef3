import Mathlib.Data.List.Nodup
import SingleShot.Proofs.Readiness.Deadline
import SingleShot.Proofs.Readiness.Trace

/-!
# What happens to one peer

In whatever order several peers are polled, what happens to one of them is a single poll of it:
in turn it may never come to that, and together the events of all are mixed. So what every poll
keeps is kept for every peer of a wait.

* `onEntry`: what happens to the peer in a place.
* `onEntry_inMode`, `onEntry_awaitAll`: it is one of the polls, or nothing.
-/

namespace SingleShot.Readiness

/-- What happens to the peer in a place. -/
def onEntry (entry : Nat) (trace : List (Timed Event)) : List (Timed Event) :=
  trace.filter fun t => t.event.attempt?.any (·.entry = entry)

/-- One of several polls begins at a moment, no earlier than they all do, and no later than their
deadline. -/
structure Begins (polls : List Poll) (m : Moment) (p : Poll) (s : Moment) : Prop where
  mem : p ∈ polls
  after : m.instant ≤ s.instant
  byDeadline : ∀ d, (∀ q ∈ polls, q.limits.deadline = some d) → m.instant ≤ d → s.instant ≤ d

variable {entry : Nat} {t : Timed Event} {a : Attempt} {trace : List (Timed Event)}

theorem onEntry_append (entry : Nat) (before after : List (Timed Event)) :
    onEntry entry (before ++ after) = onEntry entry before ++ onEntry entry after :=
  List.filter_append _ _

theorem mem_onEntry (ht : t ∈ trace) (ha : t.event.attempt? = some a) :
    t ∈ onEntry a.entry trace :=
  List.mem_filter.mpr ⟨ht, by simp [ha]⟩

theorem onEntry_attemptEvents (entry : Nat) (trace : List (Timed Event)) :
    onEntry entry (attemptEvents trace) = onEntry entry trace := by
  rw [onEntry, attemptEvents, List.filter_filter, onEntry]
  apply List.filter_congr
  intro t _
  cases t.event.attempt? <;> simp

/-! ## Several polls -/

section

variable {p : Poll} {polls : List Poll} {mode : Mode} {m : Moment}

theorem onEntry_run (h : p.entry = entry) (m : Moment) :
    onEntry entry (p.run m).trace = (p.run m).trace := by
  apply List.filter_eq_self.mpr
  intro t ht
  obtain ⟨a, ha, hentry, -⟩ := attempt?_of_mem_run ht
  simp [ha, hentry, h]

/-- To a peer nothing happens in the polls of others. -/
theorem onEntry_eq_nil (hsource : ∀ t ∈ trace, ∃ p ∈ polls, ∃ s, t ∈ (p.run s).trace)
    (h : entry ∉ polls.map (·.entry)) : onEntry entry trace = [] := by
  apply List.filter_eq_nil_iff.mpr
  intro t ht
  obtain ⟨p, hp, s, hs⟩ := hsource t ht
  obtain ⟨a, ha, hentry, -⟩ := attempt?_of_mem_run hs
  have hne : p.entry ≠ entry := by
    rintro rfl
    exact h (List.mem_map_of_mem hp)
  simpa [ha, hentry] using hne

theorem onEntry_run_of_ne (h : p.entry ≠ entry) (m : Moment) :
    onEntry entry (p.run m).trace = [] := by
  apply @onEntry_eq_nil _ _ [p]
  · intro t ht
    exact ⟨p, List.mem_singleton_self p, m, ht⟩
  · simpa using h.symm

theorem Begins.cons {m' s : Moment} {k : Nat} (h : Begins polls m' p s) {q : Poll}
    (hfin : (q.run m).outcome = .finished k m') : Begins (q :: polls) m p s where
  mem := List.mem_cons_of_mem q h.mem
  after := Nat.le_trans (Poll.run_le hfin) h.after
  byDeadline := by
    intro d hd hm
    have hm' := Poll.run_finished_by (hd q List.mem_cons_self) hm hfin
    exact h.byDeadline d (fun r hr => hd r (List.mem_cons_of_mem q hr)) hm'

theorem begins_of_mem (h : p ∈ polls) : Begins polls m p m :=
  ⟨h, Nat.le_refl _, fun _ _ hm => hm⟩

/-- In turn, what happens to one peer is its poll, or nothing. -/
theorem onEntry_inTurn {attempts : Nat} (hentries : (polls.map (·.entry)).Nodup)
    (entry : Nat) :
    onEntry entry (inTurn attempts polls m).trace = [] ∨
      ∃ p s, p.entry = entry ∧ Begins polls m p s ∧
        onEntry entry (inTurn attempts polls m).trace = (p.run s).trace := by
  induction polls generalizing attempts m with
  | nil => exact Or.inl rfl
  | cons p polls ih =>
    rw [List.map_cons, List.nodup_cons] at hentries
    rcases trace_inTurn_cons_cases attempts p polls m with ⟨k, m', hfin, htrace⟩ | ⟨-, htrace⟩
    · rw [htrace, onEntry_append]
      by_cases hp : p.entry = entry
      · have hothers : onEntry entry (inTurn (attempts + k) polls m').trace = [] :=
          onEntry_eq_nil (fun t => exists_mem_run_of_mem_inTurn) (hp ▸ hentries.1)
        rw [hothers, List.append_nil, onEntry_run hp]
        exact Or.inr ⟨p, m, hp, begins_of_mem List.mem_cons_self, rfl⟩
      · rw [onEntry_run_of_ne hp, List.nil_append]
        rcases @ih m' (attempts + k) hentries.2 with hnone | ⟨q, s, hentry, hbegins, hrun⟩
        · exact Or.inl hnone
        · exact Or.inr ⟨q, s, hentry, hbegins.cons hfin, hrun⟩
    · rw [htrace]
      by_cases hp : p.entry = entry
      · rw [onEntry_run hp]
        exact Or.inr ⟨p, m, hp, begins_of_mem List.mem_cons_self, rfl⟩
      · exact Or.inl (onEntry_run_of_ne hp m)

theorem onEntry_flatten (hentries : (polls.map (·.entry)).Nodup) (hp : p ∈ polls) :
    onEntry p.entry (polls.map fun q => (q.run m).trace).flatten = (p.run m).trace := by
  induction polls with
  | nil => cases hp
  | cons q polls ih =>
    rw [List.map_cons, List.nodup_cons] at hentries
    rw [List.map_cons, List.flatten_cons, onEntry_append]
    rcases List.mem_cons.mp hp with rfl | hp
    · have hothers : onEntry p.entry (polls.map fun q => (q.run m).trace).flatten = [] := by
        apply onEntry_eq_nil _ hentries.1
        intro t ht
        obtain ⟨trace, htrace, ht⟩ := List.mem_flatten.mp ht
        obtain ⟨q, hq, rfl⟩ := List.mem_map.mp htrace
        exact ⟨q, hq, m, ht⟩
      rw [onEntry_run rfl, hothers, List.append_nil]
    · have hne : q.entry ≠ p.entry := by
        intro he
        exact hentries.1 (he ▸ List.mem_map_of_mem hp)
      rw [onEntry_run_of_ne hne, List.nil_append]
      exact ih hentries.2 hp

/-- Together, what happens to one peer is its poll from the beginning, although the events of all
of them are mixed. -/
theorem onEntry_together (hentries : (polls.map (·.entry)).Nodup) (hp : p ∈ polls) :
    onEntry p.entry (together polls m).trace = (p.run m).trace := by
  let all := (polls.map fun q => (q.run m).trace).flatten
  have hmixed : (together polls m).trace = all.mergeSort fun a b => a.moment.le b.moment := by
    simp [together, interleaved, all, Function.comp_def]
  -- The sort is stable, so what is in order already is found in it as it was.
  have hkept : ((p.run m).trace).Sublist (together polls m).trace := by
    rw [hmixed]
    apply List.sublist_mergeSort
    · intro a b c hab hbc
      exact Moment.le_trans hab hbc
    · intro a b
      exact Moment.le_total a.moment b.moment
    · exact (p.polling_run m).inOrder.1
    · exact List.sublist_flatten_of_mem (List.mem_map_of_mem hp)
  have hsub : ((p.run m).trace).Sublist (onEntry p.entry (together polls m).trace) := by
    rw [← onEntry_run rfl m]
    exact hkept.filter _
  apply (hsub.eq_of_length ?_).symm
  have hperm : (onEntry p.entry (together polls m).trace).Perm (onEntry p.entry all) := by
    rw [hmixed]
    exact (List.mergeSort_perm all _).filter _
  rw [hperm.length_eq, onEntry_flatten hentries hp]

/-- What happens to one peer in several polls is one of the polls, or nothing. -/
theorem onEntry_inMode (hentries : (polls.map (·.entry)).Nodup) (entry : Nat) :
    onEntry entry (inMode mode polls m).trace = [] ∨
      ∃ p s, p.entry = entry ∧ Begins polls m p s ∧
        onEntry entry (inMode mode polls m).trace = (p.run s).trace := by
  cases mode with
  | sequential => exact onEntry_inTurn hentries entry
  | concurrent =>
    by_cases hmem : entry ∈ polls.map (·.entry)
    · obtain ⟨p, hp, rfl⟩ := List.mem_map.mp hmem
      exact Or.inr ⟨p, m, rfl, begins_of_mem hp, onEntry_together hentries hp⟩
    · exact Or.inl (onEntry_eq_nil (fun t => exists_mem_run_of_mem_inMode) hmem)

end

/-! ## The wait -/

variable {environment : Environment} {policy : Policy} {horizon : Nat} {start : Moment}
  {addresses : List String}

theorem entries_waitPolls :
    (waitPolls environment policy horizon start addresses).map (·.entry)
      = List.range' 0 (waitPolls environment policy horizon start addresses).length := by
  simp [waitPolls, pollsOf, Function.comp_def]

theorem nodup_entries_waitPolls :
    ((waitPolls environment policy horizon start addresses).map (·.entry)).Nodup := by
  rw [entries_waitPolls]
  exact List.nodup_range'

/-- What happens to one peer in a wait is its poll, or nothing. -/
theorem onEntry_awaitAll (entry : Nat) :
    let wait := awaitAll environment policy horizon start addresses
    onEntry entry wait.trace = [] ∨
      ∃ p s, p.entry = entry ∧
        Begins (waitPolls environment policy horizon start addresses) start p s ∧
        onEntry entry wait.trace = (p.run s).trace := by
  intro wait
  rw [← onEntry_attemptEvents]
  by_cases hbegin : PollsBegin environment policy start addresses
  · rw [attemptEvents_awaitAll hbegin]
    exact onEntry_inMode nodup_entries_waitPolls entry
  · rw [attemptEvents_awaitAll_of_not_begin hbegin]
    exact Or.inl rfl

end SingleShot.Readiness
