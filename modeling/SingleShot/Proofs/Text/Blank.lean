import Mathlib.Data.List.DropRight
import SingleShot.Text.Blank

/-!
# Texts without blanks at their ends

* `trimmed_append`: blanks around a text do not matter to what trimming leaves of it.
* `exists_blanks_around`: a text is what trimming leaves of it, with blanks around.
* `head?_trimmed`, `getLast?_trimmed`: what is left has no blank at its ends.
-/

namespace SingleShot.Text

variable {s before after : List Char}

/-- A text of blanks only, or an empty one. -/
def IsBlanks (s : List Char) : Prop :=
  ∀ c ∈ s, isBlank c = true

theorem dropWhile_isBlank_of_head? {s : List Char} (h : ∀ c ∈ s.head?, isBlank c = false) :
    s.dropWhile isBlank = s := by
  cases s with
  | nil => rfl
  | cons c s => rw [List.dropWhile_cons_of_neg (by simp [h c rfl])]

theorem trimmed_eq_self {s : List Char} (hhead : ∀ c ∈ s.head?, isBlank c = false)
    (hlast : ∀ c ∈ s.getLast?, isBlank c = false) : trimmed s = s := by
  rw [trimmed, dropWhile_isBlank_of_head? hhead,
    dropWhile_isBlank_of_head? (by rwa [List.head?_reverse]), List.reverse_reverse]

theorem isBlanks_nil : IsBlanks [] := by
  simp [IsBlanks]

theorem IsBlanks.dropWhile (h : IsBlanks s) : s.dropWhile isBlank = [] :=
  List.dropWhile_eq_nil_iff.mpr h

theorem IsBlanks.reverse (h : IsBlanks s) : IsBlanks s.reverse := by
  intro c hc
  exact h c (List.mem_reverse.mp hc)

theorem IsBlanks.trimmed (h : IsBlanks s) : trimmed s = [] := by
  rw [Text.trimmed, h.dropWhile]
  rfl

/-- Blanks around a text do not matter. -/
theorem trimmed_append (hbefore : IsBlanks before) (hafter : IsBlanks after) :
    trimmed (before ++ s ++ after) = trimmed s := by
  rw [trimmed, trimmed, List.append_assoc, List.dropWhile_append_of_pos hbefore,
    List.dropWhile_append]
  split
  · rename_i hnil
    rw [List.isEmpty_iff.mp hnil, hafter.dropWhile]
  · rw [List.reverse_append, List.dropWhile_append_of_pos hafter.reverse]

theorem trimmed_prefix (s : List Char) : trimmed s <+: s.dropWhile isBlank :=
  List.rdropWhile_prefix isBlank _

/-- A text is what trimming leaves of it, with blanks around. -/
theorem exists_blanks_around (s : List Char) :
    ∃ before after, s = before ++ trimmed s ++ after ∧ IsBlanks before ∧ IsBlanks after := by
  refine ⟨s.takeWhile isBlank, (s.dropWhile isBlank).rtakeWhile isBlank, ?_, ?_, ?_⟩
  · have hend : trimmed s ++ (s.dropWhile isBlank).rtakeWhile isBlank = s.dropWhile isBlank :=
      List.rdropWhile_append_rtakeWhile
    rw [List.append_assoc, hend, List.takeWhile_append_dropWhile]
  · intro c hc
    exact List.mem_takeWhile_imp hc
  · intro c hc
    exact List.mem_rtakeWhile_imp hc

theorem head?_dropWhile_isBlank (s : List Char) :
    ∀ c ∈ (s.dropWhile isBlank).head?, isBlank c = false := by
  intro c hc
  have hstop := List.head?_dropWhile_not isBlank s
  rw [Option.mem_def.mp hc] at hstop
  exact hstop

theorem head?_trimmed (s : List Char) : ∀ c ∈ (trimmed s).head?, isBlank c = false := by
  intro c hc
  obtain ⟨rest, hrest⟩ := trimmed_prefix s
  apply head?_dropWhile_isBlank s
  rw [← hrest, List.head?_append, hc]
  rfl

theorem getLast?_trimmed (s : List Char) : ∀ c ∈ (trimmed s).getLast?, isBlank c = false := by
  intro c hc
  rw [trimmed, List.getLast?_reverse] at hc
  exact head?_dropWhile_isBlank _ c hc

theorem comma_notMem_of_isBlanks (h : IsBlanks s) : ',' ∉ s := by
  intro hmem
  exact absurd (h _ hmem) (by decide)

end SingleShot.Text
