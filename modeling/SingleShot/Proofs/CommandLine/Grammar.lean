import SingleShot.Proofs.CommandLine.Absorbing

/-!
# The grammar of the command line

`Arguments.read_accepts_grammar` says which words are read, and that the result is what their
occurrences mean: it does not depend on their order, except for the nodes, nor on how the
values are attached.
-/

namespace SingleShot.CommandLine.Arguments

open Success

variable {a : Arguments} {os os' : List Occurrence} {words words' : List String}

theorem read_eq_ok_iff_reaches :
    read words = .ok a ↔ ∃ g, Reading.start.Reaches words g ∧ g.arguments = .ok a := by
  simp only [read, Reading.finish, bind_eq_ok_iff, mapError_eq_ok_iff, Reading.Reaches]
  constructor
  · rintro ⟨r, hr, g, hg, ha⟩
    exact ⟨g, ⟨r, hr, hg⟩, ha⟩
  · rintro ⟨g, ⟨r, hr, hg⟩, ha⟩
    exact ⟨r, hr, g, hg, ha⟩

/-- The words of occurrences are read as what the occurrences mean. -/
theorem read_eq_ok_iff_means (h : Spells os words) : read words = .ok a ↔ Means os a := by
  have hreaches (g : Given) : Reading.start.Reaches words g ↔ Given.none.Extends os g := by
    rw [h.reaches_iff, Reading.start, Reading.exists_settled_none, Given.absorbAll_eq_ok_iff]
  simp only [read_eq_ok_iff_reaches, hreaches, exists_extends_iff_means]

theorem exists_spells_of_read (h : read words = .ok a) : ∃ os, Spells os words := by
  obtain ⟨g, hreaches, -⟩ := read_eq_ok_iff_reaches.mp h
  exact (Reading.spells_of_reaches hreaches).resolve_right
    (Reading.not_awaits_of_pending_eq_none rfl)

/-- A size that is read is a word. -/
theorem size_lt_of_read (h : read words = .ok a) : a.size < wordBound := by
  obtain ⟨os, hos⟩ := exists_spells_of_read h
  obtain ⟨n, htells, hsize⟩ := ((read_eq_ok_iff_means hos).mp h).size
  rw [hsize]
  generalize valuesOf .size os = values at htells
  cases htells with
  | nothing => decide
  | one hreads => exact hreads.2

/-- Words are read if and only if they spell occurrences that may be given together. The result
is what the occurrences mean, and any other words whose occurrences differ in the order only have
the same result, if the nodes are in the same order. -/
theorem read_accepts_grammar (words : List String) :
    ((∃ a, read words = .ok a) ↔ ∃ os, Spells os words ∧ Admitted os) ∧
      ∀ a os, read words = .ok a → Spells os words →
        Means os a ∧
          ∀ os' words', Spells os' words' → os'.Perm os →
            valuesOf .nodes os' = valuesOf .nodes os → read words' = .ok a := by
  refine ⟨⟨?_, ?_⟩, ?_⟩
  · rintro ⟨a, ha⟩
    obtain ⟨os, hos⟩ := exists_spells_of_read ha
    exact ⟨os, hos, exists_means_iff.mp ⟨a, (read_eq_ok_iff_means hos).mp ha⟩⟩
  · rintro ⟨os, hos, hadmitted⟩
    obtain ⟨a, hmeans⟩ := exists_means_iff.mpr hadmitted
    exact ⟨a, (read_eq_ok_iff_means hos).mpr hmeans⟩
  · intro a os ha hos
    have hmeans := (read_eq_ok_iff_means hos).mp ha
    refine ⟨hmeans, ?_⟩
    intro os' words' hos' hperm hnodes
    exact (read_eq_ok_iff_means hos').mpr (hmeans.of_perm hperm hnodes)

theorem read_accepts_grammar_reordered :
    let a : Arguments :=
      { addr := "a:1"
        size := 9
        nodes := ["b:2", "c:3", ""]
        attemptTimeout := Policy.standard.attemptTimeout
        retryInterval := Policy.standard.retryInterval
        waitDeadline := none
        concurrentWait := false
        noAnsi := true }
    read ["--addr", "a:1", "--size=+9", "--nodes", "b:2,c:3", "--nodes=", "--no-ansi"] = .ok a ∧
      read ["--no-ansi", "--nodes=b:2,c:3", "--size", "+9", "--nodes", "", "--addr=a:1", "--"]
        = .ok a := by
  have hread : read ["--addr", "a:1", "--size=+9", "--nodes", "b:2,c:3", "--nodes=", "--no-ansi"]
      = .ok ⟨"a:1", 9, ["b:2", "c:3", ""], Policy.standard.attemptTimeout,
          Policy.standard.retryInterval, none, false, true⟩ := by
    cbv
  refine ⟨hread, ?_⟩
  have hos : Spells
      [.value .addr "a:1", .value .size "+9", .value .nodes "b:2,c:3", .value .nodes "",
        .flag .noAnsi]
      ["--addr", "a:1", "--size=+9", "--nodes", "b:2,c:3", "--nodes=", "--no-ansi"] :=
    .double .addr (by decide) (.single (.value .size "+9") (.double .nodes (by decide)
      (.single (.value .nodes "") (.single (.flag .noAnsi) .done))))
  have hos' : Spells
      [.flag .noAnsi, .value .nodes "b:2,c:3", .value .size "+9", .value .nodes "",
        .value .addr "a:1"]
      ["--no-ansi", "--nodes=b:2,c:3", "--size", "+9", "--nodes", "", "--addr=a:1", "--"] :=
    .single (.flag .noAnsi) (.single (.value .nodes "b:2,c:3") (.double .size (by decide)
      (.double .nodes (by decide) (.single (.value .addr "a:1") .separator))))
  exact ((read_accepts_grammar _).2 _ _ hread hos).2 _ _ hos' (by decide) (by decide)

end SingleShot.CommandLine.Arguments
