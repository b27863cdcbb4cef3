/-!
# Pieces between separators

Facts about the stretches of a list between the occurrences of a separator, as
`List.splitOn` cuts them. `separator_notMem_piece` says that no piece holds the separator.
-/

namespace SingleShot.Text

/-- A piece cut at a separator does not hold the separator. -/
theorem separator_notMem_piece {α : Type} [BEq α] [LawfulBEq α] {separator : α}
    {s piece : List α} (h : piece ∈ s.splitOn separator) : separator ∉ piece := by
  unfold List.splitOn at h
  induction s generalizing piece with
  | nil => simp_all [List.splitOnP_nil]
  | cons c s ih =>
    rw [List.splitOnP_cons_eq_if_modifyHead] at h
    split at h
    · rcases List.mem_cons.1 h with rfl | h
      · exact List.not_mem_nil
      · exact ih h
    · rename_i hc
      cases hs : s.splitOnP (· == separator) with
      | nil => simp [hs] at h
      | cons first others =>
        have tail : ∀ q ∈ first :: others, separator ∉ q := fun q hq => ih (by rw [hs]; exact hq)
        rw [hs, List.modifyHead_cons, List.mem_cons] at h
        rcases h with rfl | h
        · have : separator ≠ c := fun e => hc (by simp [e])
          simp [this, tail first]
        · exact tail piece (List.mem_cons_of_mem _ h)

end SingleShot.Text
