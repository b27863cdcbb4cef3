import SingleShot.CommandLine.Diagnostic

/-!
# What diagnostics show

A failed run is told by the target as it was given, and then by the message of the failure behind a
label. `failureLines_shows` says so for targets and messages of any number of lines.
-/

namespace SingleShot.CommandLine

/-- As many blanks as a label is wide. -/
def indentation (label : String) : String :=
  String.ofList (List.replicate label.length ' ')

/-- Lines that show a text: the first stands behind a label, the others are indented. -/
def Shows (label text : String) (lines : List String) : Prop :=
  ∃ first others, text = "\n".intercalate (first :: others) ∧
    lines = (label ++ first) :: others.map (indentation label ++ ·)

theorem shows_labelled (label text : String) : Shows label text (labelled label text) := by
  have hjoined : "\n".intercalate ((text.toList.splitOn '\n').map String.ofList) = text := by
    apply String.toList_injective
    have hback : ((text.toList.splitOn '\n').map String.ofList).map String.toList
        = text.toList.splitOn '\n' := by simp [Function.comp_def]
    rw [String.toList_intercalate, hback]
    exact List.intercalate_splitOn '\n'
  cases hpieces : (text.toList.splitOn '\n').map String.ofList with
  | nil => exact absurd (List.map_eq_nil_iff.mp hpieces) (List.splitOn_ne_nil _ _)
  | cons first others =>
    rw [hpieces] at hjoined
    refine ⟨first, others, hjoined.symm, ?_⟩
    rw [labelled, hpieces]
    rfl

/-- The first cause is shown first. It is numbered if there are several. -/
theorem causeLines_shows (cause : String) (causes : List String) :
    ∃ label shown others, (label = "    " ∨ label = "    0: ") ∧
      causeLines (cause :: causes) = shown ++ others ∧ Shows label cause shown := by
  cases causes with
  | nil => exact ⟨"    ", _, [], Or.inl rfl, (List.append_nil _).symm, shows_labelled _ _⟩
  | cons next causes =>
    have hlines : ∃ others, causeLines (cause :: next :: causes)
        = labelled "    0: " cause ++ others := ⟨_, List.flatMap_cons⟩
    obtain ⟨others, hlines⟩ := hlines
    exact ⟨"    0: ", _, others, Or.inr rfl, hlines, shows_labelled _ _⟩

/-- The message of a failure is shown behind the target. -/
theorem failureLines_shows (target : String) (f : Failure) :
    ∃ label shown others, (label = "    " ∨ label = "    0: ") ∧
      failureLines target f
        = [s!"Error: Cannot send transaction to {target}", "", "Caused by:"] ++ shown ++ others ∧
      Shows label f.message shown := by
  obtain ⟨label, shown, others, hlabel, hlines, hshown⟩ := causeLines_shows f.message f.causes
  refine ⟨label, shown, others, hlabel, ?_, hshown⟩
  rw [failureLines, hlines, List.append_assoc]

end SingleShot.CommandLine
