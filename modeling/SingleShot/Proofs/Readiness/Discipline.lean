import Mathlib.Algebra.GroupWithZero.Nat
import SingleShot.Proofs.Readiness.Modes
import SingleShot.Proofs.Readiness.Place

/-!
# The discipline of a wait

In either mode a peer has one attempt in flight at most, and it is left alone once it has accepted.
In turn a peer is asked only when the one before it has accepted; together all are asked at the
start. All of this holds up to any point of a wait.

* `KeepsTurns`, `keepsTurns_inTurn`: the discipline of polls in turn.
* `Disciplined`, `disciplined_awaitAll`: the discipline of a wait in either mode.
* `length_begunIn_inMode`: what polls count is what has begun in them.
-/

namespace SingleShot.Readiness

/-- Peers are asked in turn: up to any point of a trace an attempt on a peer that is not the first
begins only after the peer before it has accepted, and at most one attempt is in flight; the peers
come in their order. -/
structure KeepsTurns (trace : List (Timed Event)) : Prop where
  turn : ∀ before t a i, before ++ [t] <+: trace → t.event = .started a → a.entry = i + 1 →
    i ∈ acceptedIn before
  single : ∀ before, before <+: trace → (inFlight before).length ≤ 1
  ordered : ((begunIn trace).map (·.entry)).Pairwise (· ≤ ·)

/-- Peers are asked as they should be, in turn or together: up to any point of a trace no peer has
more than one attempt in flight, and none is asked again after it has accepted. Every attempt is
on a peer in its place and begins by the deadline, and a peer that accepts does so once. The
events stand in the order of their moments. -/
structure Disciplined (policy : Policy) (start : Moment) (peers : List Endpoint)
    (trace : List (Timed Event)) : Prop where
  placed : ∀ a ∈ begunIn trace, peers[a.entry]? = some a.peer
  singleEach : ∀ before i, before <+: trace → (inFlight (onEntry i before)).length ≤ 1
  notAgain : ∀ before t a, before ++ [t] <+: trace → t.event = .started a →
    a.entry ∉ acceptedIn before
  byDeadline : ∀ allowed, policy.deadline = some allowed → ∀ t ∈ trace, ∀ a,
    t.event = .started a → t.moment.instant ≤ start.instant + allowed.nanos
  acceptsOnce : ∀ i ∈ acceptedIn trace, (acceptedIn trace).count i = 1
  inOrder : InOrder (attemptEvents trace)

variable {entry : Nat} {t : Timed Event} {a : Attempt} {before trace : List (Timed Event)}

/-! ## Parts of a trace -/

/-- What is read off the events about attempts alone is read off them in any part of a trace that
keeps them. -/
theorem filterMap_filter_of_keeps {α : Type} {f : Event → Option α} {keep : Timed Event → Bool}
    (h : ∀ t ∈ trace, (f t.event).isSome → keep t = true) :
    (trace.filter keep).filterMap (fun t => f t.event) = trace.filterMap (fun t => f t.event) := by
  rw [List.filterMap_filter]
  apply List.filterMap_congr
  intro t ht
  cases hf : f t.event with
  | none => simp
  | some x => simp [h t ht (by simp [hf])]

theorem isSome_attempt?_of_begun? {e : Event} (h : e.begun?.isSome) : e.attempt?.isSome := by
  cases e <;> first | rfl | cases h

theorem isSome_attempt?_of_over? {e : Event} (h : e.over?.isSome) : e.attempt?.isSome := by
  cases e <;> first | rfl | cases h

theorem isSome_attempt?_of_accepted? {e : Event} (h : e.accepted?.isSome) :
    e.attempt?.isSome := by
  cases e <;> first | rfl | cases h

theorem begunIn_attemptEvents (trace : List (Timed Event)) :
    begunIn (attemptEvents trace) = begunIn trace :=
  filterMap_filter_of_keeps fun _ _ => isSome_attempt?_of_begun?

theorem overIn_attemptEvents (trace : List (Timed Event)) :
    overIn (attemptEvents trace) = overIn trace :=
  filterMap_filter_of_keeps fun _ _ => isSome_attempt?_of_over?

theorem acceptedIn_attemptEvents (trace : List (Timed Event)) :
    acceptedIn (attemptEvents trace) = acceptedIn trace :=
  filterMap_filter_of_keeps fun _ _ => isSome_attempt?_of_accepted?

theorem inFlight_attemptEvents (trace : List (Timed Event)) :
    inFlight (attemptEvents trace) = inFlight trace := by
  rw [inFlight, begunIn_attemptEvents, overIn_attemptEvents, inFlight]

theorem attemptEvents_concat (h : before ++ [t] <+: trace) (ha : t.event.attempt? = some a) :
    attemptEvents before ++ [t] <+: attemptEvents trace := by
  have hcut := h.filter (·.event.attempt?.isSome)
  rwa [List.filter_append, List.filter_cons_of_pos (by simp [ha])] at hcut

theorem onEntry_concat (h : before ++ [t] <+: trace) (ha : t.event.attempt? = some a) :
    onEntry a.entry before ++ [t] <+: onEntry a.entry trace := by
  have hcut := h.filter fun t => t.event.attempt?.any (·.entry = a.entry)
  rwa [List.filter_append, List.filter_cons_of_pos (by simp [ha])] at hcut

theorem acceptedIn_onEntry (entry : Nat) (trace : List (Timed Event)) :
    acceptedIn (onEntry entry trace) = (acceptedIn trace).filter (· = entry) := by
  rw [acceptedIn, onEntry, List.filterMap_filter, acceptedIn, List.filter_filterMap]
  apply List.filterMap_congr
  intro t _
  cases t.event with
  | ended a ending =>
    cases ending with
    | accepted =>
      by_cases h : a.entry = entry <;>
        simp [Event.accepted?, Event.attempt?, h, Option.filter_some]
    | refused | timedOut => simp [Event.accepted?]
  | _ => simp [Event.accepted?]

theorem mem_acceptedIn_onEntry : entry ∈ acceptedIn (onEntry entry trace) ↔
    entry ∈ acceptedIn trace := by
  simp [acceptedIn_onEntry]

theorem count_acceptedIn_onEntry (entry : Nat) (trace : List (Timed Event)) :
    (acceptedIn (onEntry entry trace)).count entry = (acceptedIn trace).count entry := by
  rw [acceptedIn_onEntry]
  exact List.count_filter (by simp)

/-- Where a trace that goes on with another one can break off. -/
theorem prefix_append_cases {after : List (Timed Event)} (h : trace <+: before ++ after) :
    trace <+: before ∨ ∃ rest, trace = before ++ rest ∧ rest <+: after := by
  rcases List.prefix_or_prefix_of_prefix h (List.prefix_append before after) with
    hle | ⟨rest, rfl⟩
  · exact Or.inl hle
  · exact Or.inr ⟨rest, rfl, (List.prefix_append_right_inj before).mp h⟩

theorem concat_prefix_append_cases {first after : List (Timed Event)}
    (h : before ++ [t] <+: first ++ after) :
    before ++ [t] <+: first ∨ ∃ rest, before = first ++ rest ∧ rest ++ [t] <+: after := by
  rcases prefix_append_cases h with hle | ⟨rest, heq, hrest⟩
  · exact Or.inl hle
  · rcases List.eq_nil_or_concat rest with rfl | ⟨rest, u, rfl⟩
    · rw [List.append_nil] at heq
      exact Or.inl (heq ▸ List.prefix_refl _)
    · rw [List.concat_eq_append, ← List.append_assoc] at heq
      obtain ⟨rfl, hsame⟩ := List.append_inj' heq rfl
      cases hsame
      rw [List.concat_eq_append] at hrest
      exact Or.inr ⟨rest, rfl, hrest⟩

/-! ## The order of events -/

section

variable {p : Poll} {polls : List Poll} {mode : Mode} {m e : Moment} {n : Nat}

theorem inOrder_inTurn {attempts : Nat} :
    InOrder (inTurn attempts polls m).trace ∧
      ∀ t ∈ (inTurn attempts polls m).trace, m.le t.moment = true := by
  induction polls generalizing attempts m with
  | nil => exact ⟨List.Pairwise.nil, nofun⟩
  | cons p polls ih =>
    obtain ⟨hhead, hfrom⟩ := (p.polling_run m).inOrder
    rcases trace_inTurn_cons_cases attempts p polls m with ⟨k, m', hfin, htrace⟩ | ⟨-, htrace⟩
    · obtain ⟨hm', hby⟩ := (p.polling_run m).le_of_finished hfin
      obtain ⟨hrest, hfrom'⟩ := @ih m' (attempts + k)
      rw [htrace]
      refine ⟨List.pairwise_append.mpr ⟨hhead, hrest, ?_⟩, ?_⟩
      · intro t ht u hu
        exact Moment.le_trans (hby t ht) (hfrom' u hu)
      · intro t ht
        rcases List.mem_append.mp ht with ht | ht
        · exact hfrom t ht
        · exact Moment.le_trans hm' (hfrom' t ht)
    · rw [htrace]
      exact ⟨hhead, hfrom⟩

theorem inOrder_inMode (mode : Mode) (polls : List Poll) (m : Moment) :
    InOrder (inMode mode polls m).trace := by
  cases mode with
  | sequential => exact inOrder_inTurn.1
  | concurrent =>
    apply List.pairwise_mergeSort
    · intro a b c hab hbc
      exact Moment.le_trans hab hbc
    · intro a b
      exact Moment.le_total a.moment b.moment

/-! ## In turn -/

/-- In turn a peer after the first is asked only once the peer before it has accepted. -/
theorem turn_inTurn {k attempts : Nat} (hentries : polls.map (·.entry) = List.range' k polls.length)
    (h : before ++ [t] <+: (inTurn attempts polls m).trace) (ha : t.event = .started a) :
    a.entry = k ∨ ∃ i, a.entry = i + 1 ∧ i ∈ acceptedIn before := by
  induction polls generalizing k attempts m before with
  | nil => simpa using List.prefix_nil.mp h
  | cons p polls ih =>
    rw [List.map_cons, List.length_cons, List.range'_succ] at hentries
    obtain ⟨hp, hrest⟩ := List.cons.inj hentries
    have hfirst (hhead : before ++ [t] <+: (p.run m).trace) : a.entry = k := by
      have ht : t ∈ (p.run m).trace := hhead.subset (by simp)
      rw [entry_of_mem_run ht (by rw [ha]; rfl), hp]
    rcases trace_inTurn_cons_cases attempts p polls m with ⟨n, m', hfin, htrace⟩ | ⟨-, htrace⟩
    · rw [htrace] at h
      rcases concat_prefix_append_cases h with hhead | ⟨rest, rfl, htail⟩
      · exact Or.inl (hfirst hhead)
      · rw [acceptedIn_append, Poll.acceptedIn_of_finished hfin, hp]
        rcases ih hrest htail with hnext | ⟨i, hi, hmem⟩
        · exact Or.inr ⟨k, hnext, by simp⟩
        · exact Or.inr ⟨i, hi, List.mem_append_right _ hmem⟩
    · rw [htrace] at h
      exact Or.inl (hfirst h)

theorem single_inTurn {attempts : Nat} (h : before <+: (inTurn attempts polls m).trace) :
    (inFlight before).length ≤ 1 := by
  induction polls generalizing attempts m before with
  | nil =>
    rw [List.prefix_nil.mp h]
    exact Nat.zero_le 1
  | cons p polls ih =>
    have hpoll := p.polling_run m
    rcases trace_inTurn_cons_cases attempts p polls m with ⟨n, m', hfin, htrace⟩ | ⟨-, htrace⟩
    · rw [htrace] at h
      rcases prefix_append_cases h with hhead | ⟨rest, rfl, htail⟩
      · exact hpoll.inFlight_le hhead
      · rw [inFlight_append_of_over (hpoll.overIn_eq hfin)]
        exact ih htail
    · rw [htrace] at h
      exact hpoll.inFlight_le h

theorem entry_of_mem_begunIn_run {p : Poll} (ha : a ∈ begunIn (p.run m).trace) :
    a.entry = p.entry := by
  obtain ⟨t, ht, hstarted⟩ := mem_begunIn.mp ha
  exact entry_of_mem_run ht (by rw [hstarted]; rfl)

theorem ordered_inTurn {k attempts : Nat}
    (hentries : polls.map (·.entry) = List.range' k polls.length) :
    ((begunIn (inTurn attempts polls m).trace).map (·.entry)).Pairwise (· ≤ ·) ∧
      ∀ a ∈ begunIn (inTurn attempts polls m).trace, k ≤ a.entry := by
  induction polls generalizing k attempts m with
  | nil => exact ⟨List.Pairwise.nil, nofun⟩
  | cons p polls ih =>
    rw [List.map_cons, List.length_cons, List.range'_succ] at hentries
    obtain ⟨rfl, hrest⟩ := List.cons.inj hentries
    have hsame : ∀ i ∈ (begunIn (p.run m).trace).map (·.entry), i = p.entry := by
      intro i hi
      obtain ⟨a, ha, rfl⟩ := List.mem_map.mp hi
      exact entry_of_mem_begunIn_run ha
    have hhead : ((begunIn (p.run m).trace).map (·.entry)).Pairwise (· ≤ ·) := by
      apply List.pairwise_of_forall_mem_list
      intro i hi j hj
      exact Nat.le_of_eq ((hsame i hi).trans (hsame j hj).symm)
    have hfrom : ∀ a ∈ begunIn (p.run m).trace, p.entry ≤ a.entry :=
      fun a ha => Nat.le_of_eq (entry_of_mem_begunIn_run ha).symm
    rcases trace_inTurn_cons_cases attempts p polls m with ⟨n, m', hfin, htrace⟩ | ⟨-, htrace⟩
    · obtain ⟨hordered, hlater⟩ := @ih m' (p.entry + 1) (attempts + n) hrest
      rw [htrace, begunIn_append, List.map_append]
      refine ⟨List.pairwise_append.mpr ⟨hhead, hordered, ?_⟩, ?_⟩
      · intro i hi j hj
        obtain ⟨a, ha, rfl⟩ := List.mem_map.mp hj
        rw [hsame i hi]
        exact Nat.le_of_succ_le (hlater a ha)
      · intro a ha
        rcases List.mem_append.mp ha with ha | ha
        · exact hfrom a ha
        · exact Nat.le_of_succ_le (hlater a ha)
    · rw [htrace]
      exact ⟨hhead, hfrom⟩

theorem keepsTurns_inTurn (hentries : polls.map (·.entry) = List.range' 0 polls.length) :
    KeepsTurns (inMode .sequential polls m).trace where
  turn := by
    intro before t a i h ha hi
    rcases turn_inTurn hentries h ha with hfirst | ⟨j, hj, hmem⟩
    · omega
    · obtain rfl : i = j := by omega
      exact hmem
  single _ h := single_inTurn h
  ordered := (ordered_inTurn hentries).1

/-! ## The count of attempts -/

theorem length_begunIn_run (h : (p.run m).outcome = .finished n e) :
    (begunIn (p.run m).trace).length = n := by
  obtain ⟨k, htrace, hcount⟩ := p.begunIn_run m
  rw [htrace, List.length_map, List.length_range, hcount n e h]

theorem length_begunIn_inTurn {attempts : Nat}
    (h : (inTurn attempts polls m).outcome = .finished n e) :
    attempts + (begunIn (inTurn attempts polls m).trace).length = n := by
  induction polls generalizing attempts m with
  | nil =>
    cases h
    rfl
  | cons p polls ih =>
    obtain ⟨k, m', hp, hrest⟩ := inTurn_cons_finished_iff.mp h
    rw [trace_inTurn_cons hp, begunIn_append, List.length_append, length_begunIn_run hp,
      ← Nat.add_assoc]
    exact ih hrest

theorem length_begunIn_together (polls : List Poll) (m : Moment) :
    (begunIn (together polls m).trace).length
      = (polls.map fun p => (begunIn (p.run m).trace).length).sum := by
  have hperm : (begunIn (together polls m).trace).Perm
      (begunIn (polls.map fun p => (p.run m).trace).flatten) := by
    simp only [together, interleaved, List.map_map, Function.comp_def]
    exact (List.mergeSort_perm _ _).filterMap _
  rw [hperm.length_eq]
  clear hperm
  induction polls with
  | nil => rfl
  | cons p polls ih =>
    rw [List.map_cons, List.flatten_cons, begunIn_append, List.length_append, List.map_cons,
      List.sum_cons, ih]

/-- Polls that finish have counted the attempts of all of them. -/
theorem length_begunIn_inMode (h : (inMode mode polls m).outcome = .finished n e) :
    (begunIn (inMode mode polls m).trace).length = n := by
  cases mode with
  | sequential =>
    have hcount : 0 + (begunIn (inTurn 0 polls m).trace).length = n := length_begunIn_inTurn h
    exact (Nat.zero_add _).symm.trans hcount
  | concurrent =>
    have h : joined m ((polls.map (·.run m)).map (·.outcome)) = .finished n e := h
    show (begunIn (together polls m).trace).length = n
    rw [length_begunIn_together]
    induction polls generalizing n e with
    | nil =>
      cases h
      rfl
    | cons p polls ih =>
      obtain ⟨k, m', l, m'', hp, hrest, rfl, -⟩ := joined_cons_finished_iff.mp h
      rw [List.map_cons, List.sum_cons, length_begunIn_run hp, ih hrest hrest]

end

/-! ## The wait -/

theorem KeepsTurns.nil : KeepsTurns [] where
  turn := by
    intro before t a i hcut _ _
    simpa using List.prefix_nil.mp hcut
  single := by
    intro before hcut
    rw [List.prefix_nil.mp hcut]
    exact Nat.zero_le 1
  ordered := List.Pairwise.nil

theorem KeepsTurns.of_attemptEvents (h : KeepsTurns (attemptEvents trace)) : KeepsTurns trace where
  turn := by
    intro before t a i hcut ha hi
    have hmem := h.turn _ t a i (attemptEvents_concat hcut (by rw [ha]; rfl)) ha hi
    rwa [acceptedIn_attemptEvents] at hmem
  single := by
    intro before hcut
    rw [← inFlight_attemptEvents]
    exact h.single _ (hcut.filter _)
  ordered := by
    rw [← begunIn_attemptEvents]
    exact h.ordered

variable {environment : Environment} {policy : Policy} {horizon : Nat} {start : Moment}
  {addresses : List String}

/-- The poll of a peer on whom something happens in a wait. -/
theorem exists_poll_of_mem_awaitAll
    (ht : t ∈ (awaitAll environment policy horizon start addresses).trace)
    (ha : t.event.attempt? = some a) :
    ∃ p s, Begins (waitPolls environment policy horizon start addresses) start p s ∧
      t ∈ (p.run s).trace := by
  have hmem := mem_onEntry ht ha
  rcases onEntry_awaitAll a.entry with hnone | ⟨p, s, -, hbegins, hrun⟩
  · rw [hnone] at hmem
    cases hmem
  · rw [hrun] at hmem
    exact ⟨p, s, hbegins, hmem⟩

theorem disciplined_awaitAll :
    Disciplined policy start (Endpoint.resolveAll addresses).resolved
      (awaitAll environment policy horizon start addresses).trace where
  placed := by
    intro a ha
    obtain ⟨t, ht, hstarted⟩ := mem_begunIn.mp ha
    have hattempt : t.event.attempt? = some a := by rw [hstarted]; rfl
    obtain ⟨p, s, hbegins, hrun⟩ := exists_poll_of_mem_awaitAll ht hattempt
    obtain ⟨b, hb, hentry, hpeer⟩ := attempt?_of_mem_run hrun
    cases hattempt.symm.trans hb
    rw [hentry, hpeer]
    exact peer_of_mem_waitPolls hbegins.mem
  singleEach := by
    intro before i h
    have hpart := h.filter fun t => t.event.attempt?.any (·.entry = i)
    rcases onEntry_awaitAll i with hnone | ⟨p, s, -, -, hrun⟩
    · have hnil : onEntry i before = [] := List.prefix_nil.mp (hnone ▸ hpart)
      rw [hnil]
      exact Nat.zero_le 1
    · exact (p.polling_run s).inFlight_le (hrun ▸ hpart)
  notAgain := by
    intro before t a h ha hmem
    have hpart := onEntry_concat h (by rw [ha]; rfl)
    have hacc : acceptedIn (onEntry a.entry before) ≠ [] :=
      List.ne_nil_of_mem (mem_acceptedIn_onEntry.mpr hmem)
    rcases onEntry_awaitAll a.entry with hnone | ⟨p, s, -, -, hrun⟩
    · rw [hnone] at hpart
      simpa using List.prefix_nil.mp hpart
    · rw [hrun] at hpart
      have hwhole := (p.polling_run s).eq_of_accepted ((List.prefix_append _ _).trans hpart) hacc
      have hlength := hpart.length_le
      rw [hwhole, List.length_append, List.length_singleton] at hlength
      omega
  byDeadline := by
    intro allowed hallowed t ht a ha
    obtain ⟨p, s, hbegins, hrun⟩ := exists_poll_of_mem_awaitAll ht (by rw [ha]; rfl)
    have hd : ∀ q ∈ waitPolls environment policy horizon start addresses,
        q.limits.deadline = some (start.instant + allowed.nanos) :=
      fun _ hq => instant_of_mem_waitPolls hallowed hq
    have hs := hbegins.byDeadline _ hd (Nat.le_add_right _ _)
    exact (p.polling_run s).begun_by (hd p hbegins.mem) hs hrun ha
  acceptsOnce := by
    intro i hi
    have hpos := List.count_pos_iff.mpr hi
    rw [← count_acceptedIn_onEntry] at hpos ⊢
    rcases onEntry_awaitAll i with hnone | ⟨p, s, -, -, hrun⟩
    · rw [hnone] at hpos
      cases hpos
    · rw [hrun] at hpos ⊢
      have hcount : (acceptedIn (p.run s).trace).count i ≤ (acceptedIn (p.run s).trace).length :=
        List.count_le_length
      exact Nat.le_antisymm (Nat.le_trans hcount (p.length_acceptedIn_run_le s)) hpos
  inOrder := by
    by_cases hbegin : PollsBegin environment policy start addresses
    · rw [attemptEvents_awaitAll hbegin]
      exact inOrder_inMode _ _ _
    · rw [attemptEvents_awaitAll_of_not_begin hbegin]
      exact List.Pairwise.nil

/-- Together every peer is asked at the start, before anything else happens to it. -/
theorem head?_onEntry_awaitAll (hbegin : PollsBegin environment policy start addresses)
    (hmode : policy.mode = .concurrent) (hh : start.instant < horizon)
    {i : Nat} {peer : Endpoint} (hpeer : (Endpoint.resolveAll addresses).resolved[i]? = some peer) :
    (onEntry i (awaitAll environment policy horizon start addresses).trace).head?
      = some ⟨start, .started ⟨i, peer, 1, start.instant⟩⟩ := by
  let p : Poll := ⟨environment, policy, Deadline.of policy start.instant, horizon, i, peer⟩
  have hp : p ∈ waitPolls environment policy horizon start addresses := by
    apply List.mem_of_getElem?
    rw [waitPolls, getElem?_pollsOf, hpeer]
    rfl
  rw [← onEntry_attemptEvents, attemptEvents_awaitAll hbegin, hmode]
  have hrun := @onEntry_together p _ start nodup_entries_waitPolls hp
  exact (congrArg List.head? hrun).trans (Poll.head?_run hh)

/-- A wait keeps its discipline up to any point, in turn and together, with a deadline or without
one, and the attempts that it reports are those that have begun in it. -/
theorem awaitAll_keeps_discipline (environment : Environment) (policy : Policy) (horizon : Nat)
    (start : Moment) (addresses : List String) :
    let wait := awaitAll environment policy horizon start addresses
    let peers := (Endpoint.resolveAll addresses).resolved
    Disciplined policy start peers wait.trace ∧
    (policy.mode = .sequential → KeepsTurns wait.trace) ∧
    (policy.mode = .concurrent → start.instant < horizon → wait.outcome ≠ .crashed start →
      ∀ i peer, peers[i]? = some peer →
        (onEntry i wait.trace).head? = some ⟨start, .started ⟨i, peer, 1, start.instant⟩⟩) ∧
    ∀ report e, wait.outcome = .finished report e →
      report.attempts = (begunIn wait.trace).length := by
  intro wait peers
  refine ⟨disciplined_awaitAll, ?_, ?_, ?_⟩
  · intro hmode
    apply KeepsTurns.of_attemptEvents
    by_cases hbegin : PollsBegin environment policy start addresses
    · rw [attemptEvents_awaitAll hbegin, hmode]
      exact keepsTurns_inTurn entries_waitPolls
    · rw [attemptEvents_awaitAll_of_not_begin hbegin]
      exact KeepsTurns.nil
  · intro hmode hh hcrashed i peer hpeer
    have hbegin : PollsBegin environment policy start addresses :=
      Classical.not_not.mp (mt outcome_awaitAll_of_not_begin hcrashed)
    exact head?_onEntry_awaitAll hbegin hmode hh hpeer
  · intro report e h
    obtain ⟨hbegin, n, hn, rfl⟩ := awaitAll_finished_iff.mp h
    rw [← begunIn_attemptEvents, attemptEvents_awaitAll hbegin]
    exact (length_begunIn_inMode hn).symm

theorem awaitAll_keeps_discipline_after_refusal :
    let wait := fun mode =>
      awaitAll refusesByEntry (brief mode) 20 (Moment.dawn 0) ["a:1", "x", "b:2"]
    let second : Endpoint := ⟨"b", "2", by decide, by decide, by decide, by decide⟩
    KeepsTurns (wait .sequential).trace ∧ (begunIn (wait .sequential).trace).length = 3 ∧
      (∀ t ∈ (wait .sequential).trace, ∀ a, t.event = .started a → t.moment.instant ≤ 7) ∧
      (onEntry 1 (wait .concurrent).trace).head?
        = some ⟨Moment.dawn 0, .started ⟨1, second, 1, 0⟩⟩ := by
  intro wait second
  obtain ⟨hdisciplined, hturns, -, hcount⟩ := awaitAll_keeps_discipline refusesByEntry
    (brief .sequential) 20 (Moment.dawn 0) ["a:1", "x", "b:2"]
  obtain ⟨-, -, htogether, -⟩ := awaitAll_keeps_discipline refusesByEntry
    (brief .concurrent) 20 (Moment.dawn 0) ["a:1", "x", "b:2"]
  have hfin : (wait .sequential).outcome
      = .finished ⟨(Endpoint.resolveAll ["a:1", "b:2"]).resolved, ["x"], 3⟩ (Moment.dawn 7) := by
    decide +kernel
  have hsecond : (Endpoint.resolveAll ["a:1", "x", "b:2"]).resolved[1]? = some second := by
    decide +kernel
  have hgoes : (wait .concurrent).outcome ≠ .crashed (Moment.dawn 0) := by decide +kernel
  refine ⟨hturns rfl, (hcount _ _ hfin).symm, ?_,
    htogether rfl (by decide) hgoes 1 second hsecond⟩
  exact hdisciplined.byDeadline ⟨7, by decide⟩ rfl

end SingleShot.Readiness
