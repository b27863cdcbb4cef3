import Mathlib.Data.List.DropRight
import SingleShot.Proofs.Duration.Reading

/-!
# Printed durations read again

The printed form of a duration is one term: the whole units, the rest as a fraction without zeros
at the end, and the name of the unit. Reading multiplies both parts out again, within the bounds
of a word and without a remainder.

* `scaled_fractionDigits`: the digits of a fraction amount to what they were printed for.
* `exists_takes`: each unit for printing is a unit for reading, of the same size.
* `read_text`: a duration is read back from its printed form, so no two are printed alike.
-/

namespace SingleShot.Duration

variable {offset : List Char → Nat} {places rest : Nat} {d : Duration}

/-! ## Fractions -/

/-- The digits of a number with zeros in front, in so many places. -/
def placedDigits (places n : Nat) : List Char :=
  (Nat.toDigits 10 n).leftpad places '0'

theorem isDigit_placedDigits (places n : Nat) : ∀ c ∈ placedDigits places n, c.isDigit = true := by
  intro c hc
  rcases List.mem_append.mp hc with hzero | hdigit
  · rw [List.eq_of_mem_replicate hzero]
    decide
  · exact isDigit_toDigits n c hdigit

theorem ofDigitChars_placedDigits (places n : Nat) :
    Nat.ofDigitChars 10 (placedDigits places n) 0 = n := by
  rw [placedDigits, List.leftpad, Nat.ofDigitChars_append, Nat.ofDigitChars_replicate_zero,
    Nat.mul_zero, Nat.ofDigitChars_ten_toDigits]

theorem length_placedDigits {n : Nat} (hplaces : 0 < places) (hlt : n < powerOfTen places) :
    (placedDigits places n).length = places := by
  have hlength : (Nat.toDigits 10 n).length ≤ places :=
    (Nat.length_toDigits_le_iff (by decide) hplaces).mpr hlt
  rw [placedDigits, List.length_leftpad]
  exact Nat.max_eq_left hlength

/-- What the digits of a fraction leave out are zeros at the end. -/
theorem exists_placedDigits_eq (places rest : Nat) :
    ∃ zeros, placedDigits places rest = fractionDigits places rest ++ List.replicate zeros '0' := by
  have hsplit : fractionDigits places rest ++ (placedDigits places rest).rtakeWhile (· = '0')
      = placedDigits places rest :=
    List.rdropWhile_append_rtakeWhile
  have hzeros : ∀ c ∈ (placedDigits places rest).rtakeWhile (· = '0'), c = '0' := by
    intro c hc
    exact of_decide_eq_true (List.mem_rtakeWhile_imp (p := (· = '0')) hc)
  rw [List.eq_replicate_of_mem hzeros] at hsplit
  exact ⟨_, hsplit.symm⟩

theorem isDigit_fractionDigits (places rest : Nat) :
    ∀ c ∈ fractionDigits places rest, c.isDigit = true := by
  obtain ⟨zeros, hsplit⟩ := exists_placedDigits_eq places rest
  intro c hc
  exact isDigit_placedDigits places rest c (hsplit ▸ List.mem_append_left _ hc)

theorem length_fractionDigits_le (hplaces : 0 < places) (hlt : rest < powerOfTen places) :
    (fractionDigits places rest).length ≤ places := by
  obtain ⟨zeros, hsplit⟩ := exists_placedDigits_eq places rest
  have hlength := length_placedDigits hplaces hlt
  rw [hsplit, List.length_append] at hlength
  omega

theorem powerOfTen_add (m n : Nat) : powerOfTen (m + n) = powerOfTen m * powerOfTen n :=
  Nat.pow_add 10 m n

theorem powerOfTen_le {n : Nat} (hn : n ≤ 9) : powerOfTen n ≤ 1000000000 :=
  Nat.pow_le_pow_right (by decide) hn

/-- The digits of a fraction amount to what they were printed for. -/
theorem scaled_fractionDigits (hplaces : 0 < places) (hlt : rest < powerOfTen places) :
    powerOfTen places * Nat.ofDigitChars 10 (fractionDigits places rest) 0
      = powerOfTen (fractionDigits places rest).length * rest := by
  obtain ⟨zeros, hsplit⟩ := exists_placedDigits_eq places rest
  have hlength := length_placedDigits hplaces hlt
  have hvalue := ofDigitChars_placedDigits places rest
  rw [hsplit, List.length_append, List.length_replicate] at hlength
  rw [hsplit, Nat.ofDigitChars_append, Nat.ofDigitChars_replicate_zero] at hvalue
  have hpower := powerOfTen_add (fractionDigits places rest).length zeros
  rw [hlength] at hpower
  rw [hpower, Nat.mul_assoc]
  exact congrArg _ hvalue

theorem fractionDigits_ne_nil (hplaces : 0 < places) (hlt : rest < powerOfTen places)
    (hrest : rest ≠ 0) : fractionDigits places rest ≠ [] := by
  intro hnil
  have hvalue := scaled_fractionDigits hplaces hlt
  rw [hnil] at hvalue
  exact hrest (by simpa [powerOfTen] using hvalue.symm)

/-- A fraction of a unit comes out as the nanoseconds that it was printed for. -/
theorem scaled?_fractionDigits (hplaces : 0 < places) (hmost : places ≤ 9)
    (hlt : rest < powerOfTen places) :
    (Amount.nanos (powerOfTen places)).scaled?
        (Nat.ofDigitChars 10 (fractionDigits places rest) 0)
        (powerOfTen (fractionDigits places rest).length)
      = some (.nanos rest) := by
  have hvalue := scaled_fractionDigits hplaces hlt
  have hlength := length_fractionDigits_le hplaces hlt
  generalize fractionDigits places rest = digits at hvalue hlength ⊢
  have hdigits : powerOfTen digits.length ≤ 1000000000 :=
    powerOfTen_le (Nat.le_trans hlength hmost)
  have hrest : rest ≤ 1000000000 := Nat.le_trans (Nat.le_of_lt hlt) (powerOfTen_le hmost)
  have hword : powerOfTen digits.length * rest < wordBound :=
    Nat.lt_of_le_of_lt (Nat.mul_le_mul hdigits hrest) (by decide)
  simp only [Amount.scaled?, hvalue, hword, Nat.mul_mod_right, and_self, if_true, Option.map_some,
    Nat.mul_div_cancel_left rest (powerOfTen_pos digits.length)]

/-! ## Units -/

/-- A unit for reading takes up what is printed of a duration in a unit for printing. -/
structure Takes (unit : TimeUnit) (printed : PrintUnit) (d : Duration) : Prop where
  found : unit? printed.name = some unit
  isName : IsName printed.name.toList
  /-- So many whole units are added as the nanoseconds that they come to. -/
  whole : ∀ n, n * powerOfTen printed.exponent ≤ d.nanos →
    n < wordBound ∧ ∃ amount, unit.whole.scaled? n 1 = some amount ∧
      zero.add? amount = ofNanos? (n * powerOfTen printed.exponent)
  fraction : 0 < printed.exponent → unit.fraction = some (.nanos (powerOfTen printed.exponent))
  most : printed.exponent ≤ 9

theorem zero_add?_seconds (n : Nat) : zero.add? (.seconds n) = ofNanos? (n * nanosPerSecond) := by
  rw [add?, show zero.nanos = 0 from rfl, Nat.zero_add]

theorem zero_add?_nanos {n : Nat} (hn : n < wordBound) : zero.add? (.nanos n) = ofNanos? n := by
  rw [add?, show zero.subsecond = 0 from rfl, show zero.nanos = 0 from rfl, Nat.zero_add,
    if_pos hn]

/-- A unit of nanoseconds is enough for less than a second. -/
theorem exists_scaled?_nanos {n exponent : Nat} (hd : d.nanos < 1000000000)
    (hn : n * powerOfTen exponent ≤ d.nanos) :
    n < wordBound ∧ ∃ amount, (Amount.nanos (powerOfTen exponent)).scaled? n 1 = some amount ∧
      zero.add? amount = ofNanos? (n * powerOfTen exponent) := by
  have hword : powerOfTen exponent * n < wordBound := by
    rw [Nat.mul_comm]
    exact Nat.lt_trans (Nat.lt_of_le_of_lt hn hd) (by decide)
  refine ⟨?_, .nanos (powerOfTen exponent * n), ?_, ?_⟩
  · exact Nat.lt_of_le_of_lt (Nat.le_mul_of_pos_left n (powerOfTen_pos exponent)) hword
  · simp [Amount.scaled?, hword, Nat.mod_one]
  · rw [zero_add?_nanos hword, Nat.mul_comm]

theorem exists_scaled?_seconds {n : Nat} (hn : n * nanosPerSecond ≤ d.nanos) :
    n < wordBound ∧ ∃ amount, (Amount.seconds 1).scaled? n 1 = some amount ∧
      zero.add? amount = ofNanos? (n * nanosPerSecond) := by
  have hword : n < wordBound :=
    Nat.lt_of_mul_lt_mul_right (Nat.lt_of_le_of_lt hn d.nanos_lt)
  exact ⟨hword, .seconds n, (scaled?_one hword).1, zero_add?_seconds n⟩

theorem isName_millis : IsName ['m', 's'] where
  ne_nil := List.cons_ne_nil _ _
  letters := List.forall_mem_cons.mpr ⟨by decide, isName_seconds.letters⟩
  no_number := List.forall_mem_cons.mpr ⟨by decide, isName_seconds.no_number⟩

theorem isName_micros : IsName ['µ', 's'] where
  ne_nil := List.cons_ne_nil _ _
  letters := List.forall_mem_cons.mpr ⟨by decide, isName_seconds.letters⟩
  no_number := List.forall_mem_cons.mpr ⟨by decide, isName_seconds.no_number⟩

/-- Every unit for printing is a unit for reading, of the same size. -/
theorem exists_takes (d : Duration) : ∃ unit, Takes unit d.printUnit d := by
  unfold printUnit
  split
  · exact ⟨_, rfl, isName_seconds, fun n hn => exists_scaled?_seconds hn, fun _ => rfl,
      Nat.le_refl 9⟩
  · rename_i hsecond
    have hd : d.nanos < 1000000000 := Nat.lt_of_not_le hsecond
    split
    · exact ⟨_, rfl, isName_millis, fun n hn => exists_scaled?_nanos hd hn, fun _ => rfl,
        by decide⟩
    · split
      · exact ⟨_, rfl, isName_micros, fun n hn => exists_scaled?_nanos hd hn, fun _ => rfl,
          by decide⟩
      · exact ⟨_, rfl, isName_nanos, fun n hn => exists_scaled?_nanos hd hn,
          fun h => absurd h (by decide), by decide⟩

/-! ## The printed form -/

theorem ofNanos?_of_le {n : Nat} (hn : n ≤ d.nanos) :
    ofNanos? n = some ⟨n, Nat.lt_of_le_of_lt hn d.nanos_lt⟩ :=
  dif_pos _

/-- The number that is printed for whole units and a rest. -/
def printedNumber (places whole rest : Nat) : Number :=
  ⟨whole, if rest = 0 then [] else fractionDigits places rest⟩

theorem pos_of_rest (hlt : rest < powerOfTen places) (hrest : rest ≠ 0) : 0 < places := by
  apply Nat.pos_of_ne_zero
  rintro rfl
  exact hrest (Nat.lt_one_iff.mp hlt)

theorem readNumber_printed {whole : Nat} {name : List Char} (hname : IsName name)
    (hmost : places ≤ 9) (hlt : rest < powerOfTen places) (hword : whole < wordBound) :
    readNumber offset (Nat.toDigits 10 whole ++ fractionText places rest ++ (name ++ []))
      = .ok (printedNumber places whole rest, name ++ []) := by
  have hdigits := isDigit_toDigits whole
  have hvalue : Nat.ofDigitChars 10 (Nat.toDigits 10 whole) 0 = whole :=
    Nat.ofDigitChars_ten_toDigits
  unfold fractionText printedNumber
  by_cases hrest : rest = 0
  · rw [if_pos hrest, if_pos hrest, List.append_nil,
      readNumber_whole hdigits hname (hvalue.symm ▸ hword), hvalue]
  · have hplaces := pos_of_rest hlt hrest
    have hbound : powerOfTen (fractionDigits places rest).length < wordBound :=
      Nat.lt_of_le_of_lt
        (powerOfTen_le (Nat.le_trans (length_fractionDigits_le hplaces hlt) hmost)) (by decide)
    rw [if_neg hrest, if_neg hrest,
      readNumber_fraction hdigits (fractionDigits_ne_nil hplaces hlt hrest)
        (isDigit_fractionDigits places rest) hname (hvalue.symm ▸ hword) hbound, hvalue]

/-- The whole units and the rest of a duration add up to it. -/
theorem addTerm_printed {unit : TimeUnit} {printed : PrintUnit} {whole : Nat}
    (htakes : Takes unit printed d) (hrest : rest < powerOfTen printed.exponent)
    (hsum : whole * powerOfTen printed.exponent + rest = d.nanos) :
    addTerm zero (printedNumber printed.exponent whole rest) printed.name = .ok d := by
  have hle : whole * powerOfTen printed.exponent ≤ d.nanos := hsum ▸ Nat.le_add_right _ _
  obtain ⟨-, amount, hscaled, hadd⟩ := htakes.whole whole hle
  rw [ofNanos?_of_le hle] at hadd
  unfold printedNumber
  by_cases hzero : rest = 0
  · rw [hzero, Nat.add_zero] at hsum
    simp only [addTerm, htakes.found, hscaled, hadd, hzero, Option.bind_some, if_true]
    exact congrArg Except.ok (Duration.ext hsum)
  · have hplaces := pos_of_rest hrest hzero
    have hne := fractionDigits_ne_nil hplaces hrest hzero
    have hpart := scaled?_fractionDigits hplaces htakes.most hrest
    have hsub : rest < nanosPerSecond := Nat.lt_of_lt_of_le hrest (powerOfTen_le htakes.most)
    have hbound : whole * powerOfTen printed.exponent + rest < wordBound * nanosPerSecond := by
      rw [hsum]
      exact d.nanos_lt
    have htotal : add? ⟨_, Nat.lt_of_le_of_lt hle d.nanos_lt⟩ (.nanos rest) = some ⟨_, hbound⟩ :=
      add?_nanos hsub hbound
    simp only [addTerm, htakes.found, hscaled, hadd, htakes.fraction hplaces, hzero, hne, hpart,
      Option.bind_some, Option.bind_eq_bind, if_false, htotal]
    exact congrArg Except.ok (Duration.ext hsum)

theorem toList_text (d : Duration) :
    d.text.toList
      = Nat.toDigits 10 (d.nanos / powerOfTen d.printUnit.exponent)
        ++ fractionText d.printUnit.exponent (d.nanos % powerOfTen d.printUnit.exponent)
        ++ d.printUnit.name.toList := by
  rw [text, String.toList_append, String.toList_ofList]

/-- The printed form begins with a digit. -/
theorem exists_text_eq_cons (d : Duration) :
    ∃ c s, d.text.toList = c :: s ∧ c.isDigit = true := by
  obtain ⟨c, s, hcons, hc⟩ :=
    exists_toDigits_eq_cons (d.nanos / powerOfTen d.printUnit.exponent)
  rw [toList_text, hcons, List.cons_append, List.cons_append]
  exact ⟨c, _, rfl, hc⟩

/-- The printed form is one word. -/
theorem isBlank_of_mem_text (d : Duration) : ∀ c ∈ d.text.toList, Text.isBlank c = false := by
  obtain ⟨unit, htakes⟩ := exists_takes d
  intro c hc
  rw [toList_text, List.mem_append, List.mem_append] at hc
  rcases hc with (hdigit | hfraction) | hname
  · exact isBlank_of_isDigit (isDigit_toDigits _ c hdigit)
  · unfold fractionText at hfraction
    split at hfraction
    · cases hfraction
    · rcases List.mem_cons.mp hfraction with rfl | hdigit
      · decide
      · exact isBlank_of_isDigit (isDigit_fractionDigits _ _ c hdigit)
  · have hnumber := (htakes.isName.no_number c hname).1
    rw [isNumberPart, Bool.or_eq_false_iff] at hnumber
    exact hnumber.2

/-- A duration is read back from its printed form. -/
theorem read_text (d : Duration) : read d.text = .ok d := by
  obtain ⟨unit, htakes⟩ := exists_takes d
  obtain ⟨letter, name, hname⟩ := List.exists_cons_of_ne_nil htakes.isName.ne_nil
  have hletter : letter ∈ d.printUnit.name.toList := hname ▸ List.mem_cons_self
  have hmem : letter ∈ d.text.toList := by
    rw [toList_text]
    exact List.mem_append_right _ hletter
  have hrest : d.nanos % powerOfTen d.printUnit.exponent < powerOfTen d.printUnit.exponent :=
    Nat.mod_lt _ (powerOfTen_pos _)
  obtain ⟨hword, -⟩ := htakes.whole _ (Nat.div_mul_le_self d.nanos _)
  obtain ⟨c, digits, hcons, hc⟩ :=
    exists_toDigits_eq_cons (d.nanos / powerOfTen d.printUnit.exponent)
  rw [read_eq_addTerms hmem (htakes.isName.no_number letter hletter).1]
  generalize (fun rest => width d.text.toList - width rest) = offset
  calc
    addTerms offset zero d.text.toList
      = addTerms offset zero
          ([] ++ (Nat.toDigits 10 (d.nanos / powerOfTen d.printUnit.exponent)
            ++ fractionText d.printUnit.exponent (d.nanos % powerOfTen d.printUnit.exponent)
            ++ (d.printUnit.name.toList ++ []))) := by
      rw [toList_text, List.nil_append, List.append_nil]
    _ = (addTerm zero _ (String.ofList d.printUnit.name.toList)).bind
          fun sum => addTerms offset sum [] :=
      addTerms_term (by simp) ⟨c, _, congrArg (· ++ _) hcons, hc⟩ htakes.isName endsName_nil
        (readNumber_printed htakes.isName htakes.most hrest hword)
    _ = addTerms offset d [] := by
      rw [String.ofList_toList, addTerm_printed htakes hrest (Nat.div_add_mod' _ _)]
      rfl
    _ = .ok d := addTerms_nil

/-- No two durations are printed alike. -/
theorem text_inj {d d' : Duration} (h : d.text = d'.text) : d = d' := by
  have hread := read_text d
  rw [h, read_text d'] at hread
  exact (Except.ok.inj hread).symm

end SingleShot.Duration
