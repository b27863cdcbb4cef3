import SingleShot.Duration.Reader

/-!
# Reading written terms

A text of terms is read term by term: `addTerms_term` says what one term does to the sum.
`read_secondsText` says that every duration is read from the form that gives its whole seconds
and the nanoseconds beyond them.
-/

namespace SingleShot.Duration

variable {offset : List Char → Nat} {sum : Duration} {blanks digits name rest : List Char}

/-! ## Characters -/

theorem isBlank_of_isDigit {c : Char} (h : c.isDigit = true) : Text.isBlank c = false := by
  have hlow : 48 ≤ c.toNat := by
    simp only [Char.isDigit, Bool.and_eq_true, decide_eq_true_eq] at h
    exact h.1
  have hhigh : c.toNat ≤ 57 := by
    simp only [Char.isDigit, Bool.and_eq_true, decide_eq_true_eq] at h
    exact h.2
  simp only [Text.isBlank, Text.blankRanges, List.any_cons, List.any_nil, Bool.or_eq_false_iff,
    Bool.and_eq_false_iff, decide_eq_false_iff_not]
  refine ⟨?_, ?_, ?_, ?_, ?_, ?_, ?_, ?_, ?_, ?_, trivial⟩ <;> omega

/-- The name of a unit: letters of units, none of which could go on with a number. -/
structure IsName (name : List Char) : Prop where
  ne_nil : name ≠ []
  letters : ∀ c ∈ name, isUnitLetter c = true
  no_number : ∀ c ∈ name, isNumberPart c = false ∧ c ≠ '.'

/-- What may follow a term: the end, or something that goes on with a number. -/
def EndsName (rest : List Char) : Prop :=
  ∀ c ∈ rest.head?, isUnitLetter c = false ∧ isNumberPart c = true

/-- What cannot go on with a number. -/
def EndsNumber (rest : List Char) : Prop :=
  ∀ c ∈ rest.head?, isNumberPart c = false

theorem IsName.endsNumber (hname : IsName name) (rest : List Char) : EndsNumber (name ++ rest) := by
  obtain ⟨c, name, rfl⟩ := List.exists_cons_of_ne_nil hname.ne_nil
  rintro _ ⟨⟩
  exact (hname.no_number c List.mem_cons_self).1

/-! ## Numbers and names -/

theorem leadingDigits_append (hdigits : ∀ c ∈ digits, c.isDigit = true) (hrest : EndsNumber rest) :
    leadingDigits (digits ++ rest) = digits := by
  have htake : (digits ++ rest).takeWhile isNumberPart = digits := by
    rw [List.takeWhile_append_of_pos fun c hc => by simp [isNumberPart, hdigits c hc]]
    cases rest with
    | nil => simp
    | cons c rest => rw [List.takeWhile_cons_of_neg (by simp [hrest c rfl]), List.append_nil]
  rw [leadingDigits, htake]
  exact List.filter_eq_self.mpr hdigits

theorem afterNumber_append (hdigits : ∀ c ∈ digits, c.isDigit = true) (hrest : EndsNumber rest) :
    afterNumber (digits ++ rest) = rest := by
  rw [afterNumber, List.dropWhile_append_of_pos fun c hc => by simp [isNumberPart, hdigits c hc]]
  cases rest with
  | nil => rfl
  | cons c rest => rw [List.dropWhile_cons_of_neg (by simp [hrest c rfl])]

theorem IsName.unitFollows (hname : IsName name) (rest : List Char) :
    unitFollows (name ++ rest) = true := by
  obtain ⟨c, name, rfl⟩ := List.exists_cons_of_ne_nil hname.ne_nil
  exact hname.letters c List.mem_cons_self

theorem readNumber_whole (hdigits : ∀ c ∈ digits, c.isDigit = true) (hname : IsName name)
    (hlt : Nat.ofDigitChars 10 digits 0 < wordBound) :
    readNumber offset (digits ++ (name ++ rest))
      = .ok (⟨Nat.ofDigitChars 10 digits 0, []⟩, name ++ rest) := by
  have hends := hname.endsNumber rest
  have hunit := hname.unitFollows rest
  unfold readNumber
  rw [leadingDigits_append hdigits hends, afterNumber_append hdigits hends,
    if_neg (Nat.not_le_of_lt hlt)]
  obtain ⟨c, name, rfl⟩ := List.exists_cons_of_ne_nil hname.ne_nil
  have hpoint := (hname.no_number c List.mem_cons_self).2
  rw [List.cons_append] at hunit
  simp [hpoint, hunit, pure, Except.pure]

theorem readFraction_digits {fraction : List Char} (hne : fraction ≠ [])
    (hdigits : ∀ c ∈ fraction, c.isDigit = true) (hname : IsName name)
    (hlt : powerOfTen fraction.length < wordBound) :
    readFraction offset (fraction ++ (name ++ rest)) = .ok fraction := by
  have hends := hname.endsNumber rest
  unfold readFraction
  rw [leadingDigits_append hdigits hends, afterNumber_append hdigits hends]
  dsimp only
  rw [if_neg (Nat.not_le_of_lt hlt), if_neg]
  simp [hname.unitFollows rest, hne]

/-- A number with a fraction. -/
theorem readNumber_fraction {fraction : List Char} (hdigits : ∀ c ∈ digits, c.isDigit = true)
    (hne : fraction ≠ []) (hfraction : ∀ c ∈ fraction, c.isDigit = true) (hname : IsName name)
    (hlt : Nat.ofDigitChars 10 digits 0 < wordBound)
    (hplaces : powerOfTen fraction.length < wordBound) :
    readNumber offset (digits ++ '.' :: fraction ++ (name ++ rest))
      = .ok (⟨Nat.ofDigitChars 10 digits 0, fraction⟩, name ++ rest) := by
  have hpoint : EndsNumber ('.' :: (fraction ++ (name ++ rest))) := by
    rintro _ ⟨⟩
    decide
  unfold readNumber
  rw [List.append_assoc, List.cons_append, leadingDigits_append hdigits hpoint,
    afterNumber_append hdigits hpoint, if_neg (Nat.not_le_of_lt hlt)]
  simp [readFraction_digits hne hfraction hname hplaces,
    afterNumber_append hfraction (hname.endsNumber rest), bind, Except.bind, pure, Except.pure]

theorem takeWhile_name (hname : IsName name) (hrest : EndsName rest) :
    (name ++ rest).takeWhile isUnitLetter = name := by
  rw [List.takeWhile_append_of_pos hname.letters]
  cases rest with
  | nil => simp
  | cons c rest => rw [List.takeWhile_cons_of_neg (by simp [(hrest c rfl).1]), List.append_nil]

theorem dropWhile_name (hname : IsName name) (hrest : EndsName rest) :
    (name ++ rest).dropWhile isUnitLetter = rest := by
  rw [List.dropWhile_append_of_pos hname.letters]
  cases rest with
  | nil => rfl
  | cons c rest => rw [List.dropWhile_cons_of_neg (by simp [(hrest c rfl).1])]

theorem readUnitName_name (hname : IsName name) (hrest : EndsName rest) :
    readUnitName offset (name ++ rest) = .ok (String.ofList name) := by
  unfold readUnitName
  rw [dropWhile_name hname hrest, takeWhile_name hname hrest]
  cases rest with
  | nil => rfl
  | cons c rest => simp [(hrest c rfl).2]

/-! ## Terms -/

/-- A term is added to the sum, and what follows it is read on. -/
theorem addTerms_term {number : List Char} {n : Number}
    (hblanks : ∀ c ∈ blanks, Text.isBlank c = true)
    (hstart : ∃ c s, number = c :: s ∧ c.isDigit = true) (hname : IsName name)
    (hrest : EndsName rest)
    (hnumber : readNumber offset (number ++ (name ++ rest)) = .ok (n, name ++ rest)) :
    addTerms offset sum (blanks ++ (number ++ (name ++ rest)))
      = (addTerm sum n (String.ofList name)).bind fun sum => addTerms offset sum rest := by
  obtain ⟨c, s, rfl, hc⟩ := hstart
  have hfirst : (blanks ++ (c :: s ++ (name ++ rest))).dropWhile Text.isBlank
      = c :: (s ++ (name ++ rest)) := by
    rw [List.dropWhile_append_of_pos hblanks, List.cons_append,
      List.dropWhile_cons_of_neg (by simp [isBlank_of_isDigit hc])]
  rw [List.cons_append] at hnumber
  rw [addTerms]
  split
  · rename_i hnil
    rw [hfirst] at hnil
    cases hnil
  · rename_i c' rest' hcons
    rw [hfirst] at hcons
    cases hcons
    rw [dif_pos hc]
    split
    · rename_i e herror
      rw [hnumber] at herror
      cases herror
    · rename_i n' fromUnit hok
      rw [hnumber] at hok
      cases hok
      rw [readUnitName_name hname hrest]
      simp only [dropWhile_name hname hrest]
      cases addTerm sum n (String.ofList name) with
      | error e => rfl
      | ok sum => rfl

theorem addTerms_nil : addTerms offset sum [] = .ok sum := by
  rw [addTerms]
  rfl

theorem scaled?_one {n : Nat} (hlt : n < wordBound) :
    (Amount.seconds 1).scaled? n 1 = some (.seconds n)
      ∧ (Amount.nanos 1).scaled? n 1 = some (.nanos n) := by
  simp [Amount.scaled?, hlt, Nat.mod_one]

theorem add?_seconds {n : Nat}
    (h : sum.nanos + n * nanosPerSecond < wordBound * nanosPerSecond) :
    sum.add? (.seconds n) = some ⟨sum.nanos + n * nanosPerSecond, h⟩ :=
  dif_pos h

theorem add?_nanos {n : Nat} (hn : n < nanosPerSecond)
    (h : sum.nanos + n < wordBound * nanosPerSecond) :
    sum.add? (.nanos n) = some ⟨sum.nanos + n, h⟩ := by
  have hsum : sum.subsecond < nanosPerSecond := Nat.mod_lt _ (by decide)
  have hadd : sum.subsecond + n < wordBound := by
    unfold nanosPerSecond wordBound at *
    omega
  rw [add?, if_pos hadd]
  exact dif_pos h

theorem isDigit_toDigits (n : Nat) : ∀ c ∈ Nat.toDigits 10 n, c.isDigit = true := by
  intro c hc
  exact Nat.isDigit_of_mem_toDigits (by decide) (by decide) hc

theorem exists_toDigits_eq_cons (n : Nat) :
    ∃ c s, Nat.toDigits 10 n = c :: s ∧ c.isDigit = true := by
  obtain ⟨c, s, hcons⟩ := List.exists_cons_of_ne_nil (Nat.toDigits_ne_nil (n := n) (b := 10))
  exact ⟨c, s, hcons, isDigit_toDigits n c (hcons ▸ List.mem_cons_self)⟩

/-- A whole number of a unit is added as the amount that it comes to. -/
theorem addTerms_whole {n : Nat} {unit : TimeUnit} {amount : Amount} {total : Duration}
    (hblanks : ∀ c ∈ blanks, Text.isBlank c = true) (hname : IsName name) (hrest : EndsName rest)
    (hlt : n < wordBound) (hunit : unit? (String.ofList name) = some unit)
    (hscaled : unit.whole.scaled? n 1 = some amount) (hadd : sum.add? amount = some total) :
    addTerms offset sum (blanks ++ (Nat.toDigits 10 n ++ (name ++ rest)))
      = addTerms offset total rest := by
  have hvalue : Nat.ofDigitChars 10 (Nat.toDigits 10 n) 0 = n := Nat.ofDigitChars_ten_toDigits
  have hterm : addTerm sum ⟨n, []⟩ (String.ofList name) = .ok total := by
    simp only [addTerm, hunit, hscaled, Option.bind_some, hadd, if_true]
  have hnumber : readNumber offset (Nat.toDigits 10 n ++ (name ++ rest))
      = .ok (⟨n, []⟩, name ++ rest) := by
    rw [readNumber_whole (isDigit_toDigits n) hname (hvalue.symm ▸ hlt), hvalue]
  rw [addTerms_term hblanks (exists_toDigits_eq_cons n) hname hrest hnumber, hterm]
  rfl

/-! ## Whole texts -/

/-- A text in which something else stands than digits and blanks is read term by term. -/
theorem read_eq_addTerms {s : String} {c : Char} (hc : c ∈ s.toList)
    (hnumber : isNumberPart c = false) :
    read s = addTerms (fun rest => width s.toList - width rest) zero s.toList := by
  rw [isNumberPart, Bool.or_eq_false_iff] at hnumber
  unfold read
  rw [if_neg, if_neg]
  · intro hall
    have hblank := List.all_eq_true.mp hall c hc
    rw [hnumber.2] at hblank
    cases hblank
  · rintro rfl
    rw [List.mem_singleton.mp hc] at hnumber
    exact absurd hnumber.1 (by decide)

theorem isName_seconds : IsName ['s'] where
  ne_nil := List.cons_ne_nil _ _
  letters := List.forall_mem_singleton.mpr (by decide)
  no_number := List.forall_mem_singleton.mpr (by decide)

theorem isName_nanos : IsName ['n', 's'] where
  ne_nil := List.cons_ne_nil _ _
  letters := List.forall_mem_cons.mpr ⟨by decide, isName_seconds.letters⟩
  no_number := List.forall_mem_cons.mpr ⟨by decide, isName_seconds.no_number⟩

theorem endsName_nil : EndsName [] := by
  intro c hc
  cases hc

/-- The whole seconds and the nanoseconds beyond them. -/
def secondsText (d : Duration) : String :=
  s!"{d.seconds}s {d.subsecond}ns"

theorem toList_secondsText (d : Duration) :
    d.secondsText.toList
      = Nat.toDigits 10 d.seconds ++ (['s'] ++
          ([' '] ++ (Nat.toDigits 10 d.subsecond ++ (['n', 's'] ++ [])))) := by
  have hseconds : ("s " : String).toList = ['s', ' '] := rfl
  have hnanos : ("ns" : String).toList = ['n', 's'] := rfl
  simp [secondsText, toString, hseconds, hnanos]

theorem read_secondsText (d : Duration) : read d.secondsText = .ok d := by
  have hsub : d.subsecond < nanosPerSecond := Nat.mod_lt _ (by decide)
  have hsum : zero.nanos + d.seconds * nanosPerSecond + d.subsecond = d.nanos := by
    rw [show zero.nanos = 0 from rfl, Nat.zero_add]
    exact Nat.div_add_mod' _ _
  have hbound := d.nanos_lt
  have hwhole : zero.nanos + d.seconds * nanosPerSecond < wordBound * nanosPerSecond := by
    omega
  have hword : d.subsecond < wordBound := Nat.lt_trans hsub (by decide)
  have hspace : EndsName ([' '] ++ (Nat.toDigits 10 d.subsecond ++ (['n', 's'] ++ []))) := by
    rintro c ⟨⟩
    decide
  rw [read_eq_addTerms (c := 's') (by simp [toList_secondsText]) (by decide)]
  generalize (fun rest => width d.secondsText.toList - width rest) = offset
  calc
    _ = addTerms offset zero ([] ++ (Nat.toDigits 10 d.seconds ++ (['s'] ++
          ([' '] ++ (Nat.toDigits 10 d.subsecond ++ (['n', 's'] ++ [])))))) := by
      rw [toList_secondsText, List.nil_append]
    _ = addTerms offset ⟨_, hwhole⟩
          ([' '] ++ (Nat.toDigits 10 d.subsecond ++ (['n', 's'] ++ []))) :=
      addTerms_whole (by simp) isName_seconds hspace d.seconds_lt rfl (scaled?_one d.seconds_lt).1
        (add?_seconds hwhole)
    _ = addTerms offset ⟨_, hsum ▸ hbound⟩ [] :=
      addTerms_whole (List.forall_mem_singleton.mpr (by decide)) isName_nanos endsName_nil hword
        rfl (scaled?_one hword).2 (add?_nanos hsub (hsum ▸ hbound))
    _ = .ok d := by
      rw [addTerms_nil]
      exact congrArg Except.ok (Duration.ext hsum)

end SingleShot.Duration
