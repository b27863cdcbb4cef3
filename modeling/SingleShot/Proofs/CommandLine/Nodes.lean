import SingleShot.Proofs.CommandLine.RoundTrip

/-!
# Lists of nodes

A value of the nodes lists names between commas, with blanks around them and empty places where
nothing is meant. All values of a command line list the same peers as one value does that joins
them with commas.

* `holdNames_iff`: the peers among pieces are the names that the pieces hold.
* `lists_iff`: the peers of a value are the names that it lists.
* `nodesOf_join`: values that are joined with commas are divided as each of them is.
* `read_lists_peers`: the peers of a command line, and what else is read as the same peers.
-/

namespace SingleShot.CommandLine

open Arguments (peersOf)
open Given (nodesOf)

variable {piece : List Char} {pieces : List (List Char)} {text : String}
  {names values : List String} {os os' : List Occurrence} {a : Arguments}

/-! ## Pieces and names -/

/-- Pieces that hold names, one each or none. Around a name there may be blanks, and a piece
without a name is blank. -/
inductive HoldNames : List (List Char) → List String → Prop
  | done : HoldNames [] []
  | blank {piece : List Char} (hpiece : Text.IsBlanks piece) {pieces : List (List Char)}
      {names : List String} (rest : HoldNames pieces names) : HoldNames (piece :: pieces) names
  | name {name : String} (hname : IsNodeName name) {before after : List Char}
      (hbefore : Text.IsBlanks before) (hafter : Text.IsBlanks after) {pieces : List (List Char)}
      {names : List String} (rest : HoldNames pieces names) :
      HoldNames ((before ++ name.toList ++ after) :: pieces) (name :: names)

theorem HoldNames.isNodeName (h : HoldNames pieces names) : ∀ name ∈ names, IsNodeName name := by
  induction h with
  | done => simp
  | blank _ _ ih => exact ih
  | name hname _ _ _ ih => exact List.forall_mem_cons.mpr ⟨hname, ih⟩

theorem HoldNames.comma_notMem (h : HoldNames pieces names) : ∀ piece ∈ pieces, ',' ∉ piece := by
  induction h with
  | done => simp
  | blank hpiece _ ih =>
    exact List.forall_mem_cons.mpr ⟨Text.comma_notMem_of_isBlanks hpiece, ih⟩
  | name hname hbefore hafter _ ih =>
    refine List.forall_mem_cons.mpr ⟨?_, ih⟩
    simp only [List.mem_append, not_or]
    exact ⟨⟨Text.comma_notMem_of_isBlanks hbefore, hname.no_comma⟩,
      Text.comma_notMem_of_isBlanks hafter⟩

/-- Names hold themselves. -/
theorem holdNames_self (h : ∀ name ∈ names, IsNodeName name) :
    HoldNames (names.map String.toList) names := by
  induction names with
  | nil => exact .done
  | cons name names ih =>
    obtain ⟨hname, hnames⟩ := List.forall_mem_cons.mp h
    have hheld := HoldNames.name hname Text.isBlanks_nil Text.isBlanks_nil (ih hnames)
    rwa [List.nil_append, List.append_nil] at hheld

/-! ## Peers -/

theorem peersOf_cons (piece : List Char) (nodes : List String) :
    peersOf (String.ofList piece :: nodes) =
      if Text.trimmed piece = [] then peersOf nodes
      else String.ofList (Text.trimmed piece) :: peersOf nodes := by
  have hempty : String.ofList (Text.trimmed piece) = "" ↔ Text.trimmed piece = [] := by
    rw [← String.toList_inj, String.toList_ofList]
    rfl
  rw [peersOf, List.map_cons, String.toList_ofList, List.filter_cons, peersOf]
  simp only [ne_eq, decide_not, Bool.not_eq_true', decide_eq_false_iff_not, hempty, ite_not]

theorem isNodeName_trimmed (hcomma : ',' ∉ piece) (hne : Text.trimmed piece ≠ []) :
    IsNodeName (String.ofList (Text.trimmed piece)) := by
  obtain ⟨before, after, hpiece, -, -⟩ := Text.exists_blanks_around piece
  refine ⟨?_, ?_, ?_, ?_⟩
  · intro h
    apply hne
    rw [← String.toList_ofList (l := Text.trimmed piece), h]
    rfl
  · rw [String.toList_ofList]
    intro hmem
    apply hcomma
    rw [hpiece]
    exact List.mem_append_left _ (List.mem_append_right _ hmem)
  · rw [String.toList_ofList]
    exact Text.head?_trimmed piece
  · rw [String.toList_ofList]
    exact Text.getLast?_trimmed piece

theorem HoldNames.peersOf (h : HoldNames pieces names) :
    peersOf (pieces.map String.ofList) = names := by
  induction h with
  | done => rfl
  | blank hpiece _ ih =>
    rw [List.map_cons, peersOf_cons, hpiece.trimmed, if_pos rfl]
    exact ih
  | @name name hname before after hbefore hafter pieces names _ ih =>
    have hne : name.toList ≠ [] := fun hnil => hname.ne_empty (String.toList_eq_nil_iff.mp hnil)
    rw [List.map_cons, peersOf_cons, Text.trimmed_append hbefore hafter,
      Text.trimmed_eq_self hname.head hname.last, if_neg hne, String.ofList_toList, ih]

theorem holdNames_peersOf (h : ∀ piece ∈ pieces, ',' ∉ piece) :
    HoldNames pieces (peersOf (pieces.map String.ofList)) := by
  induction pieces with
  | nil => exact .done
  | cons piece pieces ih =>
    obtain ⟨hpiece, hpieces⟩ := List.forall_mem_cons.mp h
    have hrest := ih hpieces
    obtain ⟨before, after, hparts, hbefore, hafter⟩ := Text.exists_blanks_around piece
    rw [List.map_cons, peersOf_cons]
    by_cases hempty : Text.trimmed piece = []
    · have hblanks : Text.IsBlanks piece := by
        rw [hparts, hempty, List.append_nil]
        intro c hc
        exact (List.mem_append.mp hc).elim (hbefore c) (hafter c)
      rw [if_pos hempty]
      exact .blank hblanks hrest
    · have hheld := HoldNames.name (isNodeName_trimmed hpiece hempty) hbefore hafter hrest
      rw [String.toList_ofList, ← hparts] at hheld
      rw [if_neg hempty]
      exact hheld

/-- The peers among pieces are the names that they hold. -/
theorem holdNames_iff (h : ∀ piece ∈ pieces, ',' ∉ piece) :
    HoldNames pieces names ↔ peersOf (pieces.map String.ofList) = names := by
  constructor
  · exact HoldNames.peersOf
  · rintro rfl
    exact holdNames_peersOf h

/-- A text lists names if it is made of pieces, with commas between them, that hold the names. -/
def Lists (text : String) (names : List String) : Prop :=
  ∃ pieces, pieces ≠ [] ∧ text.toList = [','].intercalate pieces ∧ HoldNames pieces names

/-- The peers of a value are the names that it lists. -/
theorem lists_iff : Lists text names ↔ peersOf (nodesOf text) = names := by
  constructor
  · rintro ⟨pieces, hne, htext, hholds⟩
    rw [nodesOf, htext, List.splitOn_intercalate _ hholds.comma_notMem hne]
    exact hholds.peersOf
  · intro h
    refine ⟨text.toList.splitOn ',', List.splitOn_ne_nil _ _,
      (List.intercalate_splitOn ',').symm, ?_⟩
    exact (holdNames_iff fun _ => Text.separator_notMem_piece).mpr h

theorem Lists.isNodeName (h : Lists text names) : ∀ name ∈ names, IsNodeName name := by
  obtain ⟨pieces, -, -, hholds⟩ := h
  exact hholds.isNodeName

/-- Names with commas between them list themselves. -/
theorem lists_intercalate (h : ∀ name ∈ names, IsNodeName name) :
    Lists (",".intercalate names) names := by
  by_cases hnone : names = []
  · -- The empty text is one blank piece: no text is divided into none.
    subst hnone
    exact ⟨[[]], List.cons_ne_nil _ _, rfl, .blank Text.isBlanks_nil .done⟩
  · refine ⟨names.map String.toList, ?_, String.toList_intercalate, holdNames_self h⟩
    simpa using hnone

/-! ## Several values -/

theorem splitOn_intercalate_flatMap {lists : List (List Char)} (h : lists ≠ []) :
    ([','].intercalate lists).splitOn ',' = lists.flatMap (List.splitOn ',') := by
  induction lists with
  | nil => exact absurd rfl h
  | cons list lists ih =>
    cases lists with
    | nil => rw [List.intercalate_singleton, List.flatMap_singleton]
    | cons next lists =>
      rw [List.intercalate_cons_cons, List.append_assoc, List.singleton_append,
        List.splitOn_append_cons_self, ih (List.cons_ne_nil _ _)]
      exact List.flatMap_cons.symm

/-- Values that are joined with commas are divided as each of them is. -/
theorem nodesOf_join (h : values ≠ []) :
    nodesOf (",".intercalate values) = values.flatMap nodesOf := by
  have htexts : values.map String.toList ≠ [] := by simpa using h
  have hcomma : ",".toList = [','] := rfl
  rw [nodesOf, String.toList_intercalate, hcomma, splitOn_intercalate_flatMap htexts,
    List.flatMap_map, List.map_flatMap]
  rfl

/-- Values list together what they list when they are joined. -/
theorem lists_join (values : List String) :
    Lists (",".intercalate values) (peersOf (values.flatMap nodesOf)) := by
  apply lists_iff.mpr
  by_cases hnone : values = []
  · subst hnone
    rfl
  · rw [nodesOf_join hnone]

/-! ## Command lines -/

/-- Occurrences that differ in the nodes only. -/
structure SameButNodes (os os' : List Occurrence) : Prop where
  settings : ∀ s, s ≠ .nodes → valuesOf s os' = valuesOf s os
  flags : ∀ f, timesOf f os' = timesOf f os

theorem Means.of_sameButNodes (h : Means os a) (hsame : SameButNodes os os') :
    Means os' { a with nodes := (valuesOf .nodes os').flatMap nodesOf } where
  addr := (hsame.settings .addr (by decide)).trans h.addr
  size := hsame.settings .size (by decide) ▸ h.size
  nodes := rfl
  attemptTimeout := hsame.settings .attemptTimeout (by decide) ▸ h.attemptTimeout
  retryInterval := hsame.settings .retryInterval (by decide) ▸ h.retryInterval
  waitDeadline := hsame.settings .waitDeadline (by decide) ▸ h.waitDeadline
  concurrentWait := (hsame.flags .concurrentWait).trans h.concurrentWait
  noAnsi := (hsame.flags .noAnsi).trans h.noAnsi

theorem Means.peers (h : Means os a) :
    a.config.peers = peersOf ((valuesOf .nodes os).flatMap nodesOf) := by
  rw [Arguments.config, h.nodes]

/-- The nodes of a command line may be given in one value or in several, with blanks and with empty
places: the peers of the run are those of one value that joins them all with commas, and these are
the names that it lists. With commas between them the peers list themselves. Whatever is given for
the nodes, the command line is still read; and as long as the same names are listed, be it in one
value, without the blanks or among others, it makes no difference to the settings of the run. -/
theorem read_lists_peers (os : List Occurrence) (words : List String) (a : Arguments)
    (hos : Spells os words) (ha : Arguments.read words = .ok a) :
    a.config.peers = peersOf (nodesOf (",".intercalate (valuesOf .nodes os))) ∧
      Lists (",".intercalate (valuesOf .nodes os)) a.config.peers ∧
      (∀ name ∈ a.config.peers, IsNodeName name) ∧
      Lists (",".intercalate a.config.peers) a.config.peers ∧
      ∀ os' words', Spells os' words' → SameButNodes os os' →
        ∃ a', Arguments.read words' = .ok a' ∧
          (Lists (",".intercalate (valuesOf .nodes os')) a.config.peers →
            a'.config = a.config) := by
  have hmeans : Means os a := (Arguments.read_eq_ok_iff_means hos).mp ha
  have hlists : Lists (",".intercalate (valuesOf .nodes os)) a.config.peers := by
    rw [hmeans.peers]
    exact lists_join _
  refine ⟨(lists_iff.mp hlists).symm, hlists, hlists.isNodeName,
    lists_intercalate hlists.isNodeName, ?_⟩
  intro os' words' hos' hsame
  have hmeans' := hmeans.of_sameButNodes hsame
  refine ⟨_, (Arguments.read_eq_ok_iff_means hos').mpr hmeans', ?_⟩
  intro hlisted
  have hpeers : peersOf ((valuesOf .nodes os').flatMap nodesOf) = a.config.peers :=
    (lists_iff.mp (lists_join _)).symm.trans (lists_iff.mp hlisted)
  show Config.mk a.addr a.size (peersOf ((valuesOf .nodes os').flatMap nodesOf)) _ = a.config
  rw [hpeers]
  rfl

theorem read_lists_peers_of_two_values :
    ∃ a a', Arguments.read ["--nodes", " b:2,,\u3000", "--addr=x:1", "--nodes=c d"] = .ok a ∧
      a.config.peers = ["b:2", "c d"] ∧
      Arguments.read ["--addr=x:1", "--nodes=,b:2 ,\tc d"] = .ok a' ∧ a'.config = a.config := by
  have hread : Arguments.read ["--nodes", " b:2,,\u3000", "--addr=x:1", "--nodes=c d"]
      = .ok ⟨"x:1", 100, [" b:2", "", "\u3000", "c d"], Policy.standard.attemptTimeout,
          Policy.standard.retryInterval, none, false, false⟩ := by
    cbv
  have hos : Spells [.value .nodes " b:2,,\u3000", .value .addr "x:1", .value .nodes "c d"]
      ["--nodes", " b:2,,\u3000", "--addr=x:1", "--nodes=c d"] :=
    .double .nodes (by decide)
      (.single (.value .addr "x:1") (.single (.value .nodes "c d") .done))
  have hos' : Spells [.value .addr "x:1", .value .nodes ",b:2 ,\tc d"]
      ["--addr=x:1", "--nodes=,b:2 ,\tc d"] :=
    .single (.value .addr "x:1") (.single (.value .nodes ",b:2 ,\tc d") .done)
  have hsame : SameButNodes
      [.value .nodes " b:2,,\u3000", .value .addr "x:1", .value .nodes "c d"]
      [.value .addr "x:1", .value .nodes ",b:2 ,\tc d"] := by
    refine ⟨?_, ?_⟩
    · intro s hs
      cases s with
      | nodes => exact absurd rfl hs
      | addr | size | attemptTimeout | retryInterval | waitDeadline => rfl
    · intro f
      cases f with
      | concurrentWait | noAnsi => rfl
  obtain ⟨hpeers, -, -, -, hother⟩ := read_lists_peers _ _ _ hos hread
  obtain ⟨a', hread', hconfig⟩ := hother _ _ hos' hsame
  refine ⟨_, a', hread, by cbv, hread', hconfig ?_⟩
  exact lists_iff.mpr (by cbv)

end SingleShot.CommandLine
