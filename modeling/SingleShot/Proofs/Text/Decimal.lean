import SingleShot.Text.Decimal

/-!
# What writes a number

A number is written by its decimal digits, with any number of zeros and perhaps a plus sign in
front. `readNumber_eq_ok_iff` says that exactly these texts are read, as far as the number stays
below the bound; `readNumber_toString` that this includes the usual written form.
-/

namespace SingleShot.Text

/-- Characters write a number: a row of digits, with or without a plus sign. -/
def WritesNumber (s : List Char) (n : Nat) : Prop :=
  ∃ sign digits, s = sign ++ digits ∧ (sign = [] ∨ sign = ['+']) ∧ digits ≠ [] ∧
    (∀ c ∈ digits, c.isDigit = true) ∧ n = Nat.ofDigitChars 10 digits 0

variable {bound value n : Nat} {s : List Char}

theorem le_ofDigitChars (s : List Char) (value : Nat) : value ≤ Nat.ofDigitChars 10 s value := by
  induction s generalizing value with
  | nil => exact Nat.le_refl value
  | cons c s ih =>
    rw [Nat.ofDigitChars_cons]
    have := ih (10 * value + (c.toNat - '0'.toNat))
    omega

/-- What has been read stays below the bound if the whole number does. -/
theorem readDigits_eq_ok_iff (hvalue : value < bound) :
    readDigits bound value s = .ok n ↔
      (∀ c ∈ s, c.isDigit = true) ∧ n = Nat.ofDigitChars 10 s value ∧ n < bound := by
  induction s generalizing value with
  | nil =>
    rw [readDigits]
    constructor
    · intro h
      cases h
      exact ⟨by simp, rfl, hvalue⟩
    · rintro ⟨-, rfl, -⟩
      rfl
  | cons c s ih =>
    rw [readDigits, Nat.ofDigitChars_cons]
    by_cases hc : c.isDigit = true
    · rw [if_pos hc]
      dsimp only
      by_cases hlt : 10 * value + (c.toNat - '0'.toNat) < bound
      · rw [if_pos hlt, ih hlt]
        simp [hc]
      · -- A number that has reached the bound stays there, whatever digits follow.
        rw [if_neg hlt]
        constructor
        · intro h
          cases h
        · rintro ⟨-, rfl, hn⟩
          exact absurd (Nat.lt_of_le_of_lt (le_ofDigitChars s _) hn) hlt
    · rw [if_neg hc]
      constructor
      · intro h
        cases h
      · rintro ⟨hall, -⟩
        exact absurd (hall c List.mem_cons_self) hc

theorem not_isDigit_plus : ¬ ('+').isDigit = true := by
  decide

theorem readNumber_eq_ok_iff (hbound : 0 < bound) {text : String} :
    readNumber bound text = .ok n ↔ WritesNumber text.toList n ∧ n < bound := by
  unfold readNumber
  split
  · rename_i hs
    constructor
    · intro h
      cases h
    · rintro ⟨⟨sign, digits, hsplit, -, hne, -⟩, -⟩
      rw [hs] at hsplit
      exact absurd (List.append_eq_nil_iff.mp hsplit.symm).2 hne
  · rename_i hs
    constructor
    · intro h
      cases h
    · rintro ⟨⟨sign, digits, hsplit, rfl | rfl, hne, hall, -⟩, -⟩
      · rw [hs, List.nil_append] at hsplit
        exact absurd (hall '+' (by simp [← hsplit])) not_isDigit_plus
      · rw [hs] at hsplit
        exact absurd (List.cons.inj hsplit).2.symm hne
  · rename_i digits hne hs
    rw [readDigits_eq_ok_iff hbound]
    constructor
    · rintro ⟨hall, hn, hlt⟩
      exact ⟨⟨['+'], digits, hs, Or.inr rfl, by simpa using hne, hall, hn⟩, hlt⟩
    · rintro ⟨⟨sign, digits', hsplit, rfl | rfl, -, hall, hn⟩, hlt⟩
      · rw [hs, List.nil_append] at hsplit
        exact absurd (hall '+' (by simp [← hsplit])) not_isDigit_plus
      · rw [hs] at hsplit
        obtain rfl := (List.cons.inj hsplit).2
        exact ⟨hall, hn, hlt⟩
  · rename_i hempty _ hplus
    rw [readDigits_eq_ok_iff hbound]
    constructor
    · rintro ⟨hall, hn, hlt⟩
      exact ⟨⟨[], text.toList, rfl, Or.inl rfl, hempty, hall, hn⟩, hlt⟩
    · rintro ⟨⟨sign, digits, hsplit, rfl | rfl, -, hall, hn⟩, hlt⟩
      · rw [hsplit]
        exact ⟨hall, hn, hlt⟩
      · exact absurd hsplit (hplus digits)

theorem readNumber_toString (hn : n < bound) : readNumber bound (toString n) = .ok n := by
  apply (readNumber_eq_ok_iff (Nat.lt_of_le_of_lt (Nat.zero_le n) hn)).mpr
  refine ⟨⟨[], Nat.toDigits 10 n, ?_, Or.inl rfl, Nat.toDigits_ne_nil, ?_, ?_⟩, hn⟩
  · rw [Nat.toString_eq_ofList_toDigits, String.toList_ofList, List.nil_append]
  · intro c hc
    exact Nat.isDigit_of_mem_toDigits (by decide) (by decide) hc
  · exact Nat.ofDigitChars_ten_toDigits.symm

end SingleShot.Text
