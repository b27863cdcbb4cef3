import SingleShot.Text.Pieces

/-!
# Lists cut at a separator

* `splitOn_eq_cons_iff`: the first piece is what stands before the first separator.
* `splitOn_eq_pair_iff`: which lists are cut into two given pieces.
* `length_splitOn`: there is one piece more than there are separators.
* `isPrefixOf?_eq_some_iff`: what is left when something is taken away from the front.
-/

namespace SingleShot.Text

variable {α : Type} [BEq α] [LawfulBEq α] {separator : α} {s first : List α}

theorem splitOn_eq_cons_iff {others : List (List α)} :
    s.splitOn separator = first :: others ↔
      separator ∉ first ∧ (s = first ∧ others = [] ∨
        ∃ rest, s = first ++ separator :: rest ∧ others = rest.splitOn separator) := by
  constructor
  · intro h
    by_cases hs : separator ∈ s
    · obtain ⟨before, rest, rfl, hbefore⟩ := List.eq_append_cons_of_mem hs
      rw [List.splitOn_append_cons_self_of_not_mem hbefore] at h
      cases h
      exact ⟨hbefore, Or.inr ⟨rest, rfl, rfl⟩⟩
    · rw [List.splitOn_eq_singleton hs] at h
      cases h
      exact ⟨hs, Or.inl ⟨rfl, rfl⟩⟩
  · rintro ⟨hfirst, ⟨rfl, rfl⟩ | ⟨rest, rfl, rfl⟩⟩
    · exact List.splitOn_eq_singleton hfirst
    · exact List.splitOn_append_cons_self_of_not_mem hfirst rest

theorem splitOn_eq_pair_iff {second : List α} :
    s.splitOn separator = [first, second] ↔
      separator ∉ first ∧ separator ∉ second ∧ s = first ++ separator :: second := by
  rw [splitOn_eq_cons_iff]
  constructor
  · rintro ⟨hfirst, ⟨-, h⟩ | ⟨rest, rfl, h⟩⟩
    · cases h
    · obtain ⟨hsecond, ⟨rfl, -⟩ | ⟨_, -, h⟩⟩ := splitOn_eq_cons_iff.mp h.symm
      · exact ⟨hfirst, hsecond, rfl⟩
      · exact absurd h.symm (List.splitOn_ne_nil _ _)
  · rintro ⟨hfirst, hsecond, rfl⟩
    exact ⟨hfirst, Or.inr ⟨second, rfl, (List.splitOn_eq_singleton hsecond).symm⟩⟩

/-- What ends, or goes on with a separator, is the first piece up to there. -/
theorem exists_splitOn_eq_cons {more : List α} (hfirst : separator ∉ first)
    (hmore : more = [] ∨ ∃ rest, more = separator :: rest) :
    ∃ others, (first ++ more).splitOn separator = first :: others := by
  rcases hmore with rfl | ⟨rest, rfl⟩
  · rw [List.append_nil]
    exact ⟨[], List.splitOn_eq_singleton hfirst⟩
  · exact ⟨_, List.splitOn_append_cons_self_of_not_mem hfirst rest⟩

omit [LawfulBEq α] in
theorem length_splitOn (separator : α) (s : List α) :
    (s.splitOn separator).length = s.count separator + 1 := by
  induction s with
  | nil => rfl
  | cons c s ih =>
    rw [List.splitOn_cons_eq_if_modifyHead, List.count_cons]
    split
    · rw [List.length_cons, ih]
    · rw [List.length_modifyHead, ih, Nat.add_zero]

theorem isPrefixOf?_eq_some_iff {front rest : List α} :
    front.isPrefixOf? s = some rest ↔ s = front ++ rest := by
  induction front generalizing s with
  | nil =>
    show some s = some rest ↔ s = rest
    exact Option.some_inj
  | cons c front ih =>
    cases s with
    | nil =>
      show none = some rest ↔ [] = c :: (front ++ rest)
      simp
    | cons d s =>
      show (if c == d then front.isPrefixOf? s else none) = some rest ↔
        d :: s = c :: (front ++ rest)
      by_cases hcd : c = d
      · rw [if_pos (beq_iff_eq.mpr hcd), ih, hcd]
        simp
      · rw [if_neg (by simpa using hcd)]
        simp [Ne.symm hcd]

end SingleShot.Text
