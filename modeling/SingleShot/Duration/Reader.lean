import SingleShot.Duration.Unit
import SingleShot.Text.Blank
import SingleShot.Text.Quoted

/-!
# Reading durations

A written duration is a sum of terms, each a number and a unit: `1s 500ms`, `2.5h`, `1h30m`.
Blanks may stand between terms and even between digits. `Duration.read` adds the terms up and
names the first fault with its offset in bytes.
-/

namespace SingleShot.Duration

/-- Why a text is no duration. -/
inductive Fault
  | empty
  /-- A term begins with something else than a digit. -/
  | numberExpected (offset : Nat)
  | invalidCharacter (offset : Nat)
  /-- The number with this whole part has no unit. -/
  | unitNeeded (whole : Nat)
  | unknownUnit (name : String)
  /-- A number is too large, or a fraction of a unit is no whole number of nanoseconds or,
  for the larger units, of seconds. -/
  | notRepresentable
  deriving DecidableEq, Repr

/-- The wording of a fault. -/
def Fault.message : Fault → String
  | empty => "value was empty"
  | numberExpected offset => s!"expected number at {offset}"
  | invalidCharacter offset => s!"invalid character at {offset}"
  | unitNeeded whole => s!"time unit needed, for example {whole}sec or {whole}ms"
  | unknownUnit name =>
    s!"unknown time unit {Text.quoted name}, " ++
      "supported units: ns, us/µs, ms, sec, min, hours, days, weeks, months, years " ++
      "(and few variations)"
  | notRepresentable =>
    "number is too large or cannot be represented without a lack of precision " ++
      "(values below 1ns are not supported)"

/-- The number of bytes of a text. -/
def width : List Char → Nat
  | [] => 0
  | c :: s => c.utf8Size + width s

/-- A letter of a unit's name. -/
def isUnitLetter (c : Char) : Bool :=
  c.isAlpha || c = 'µ'

/-- What may stand among the digits of a number. -/
def isNumberPart (c : Char) : Bool :=
  c.isDigit || Text.isBlank c

/-- A number with the digits of its fraction. -/
structure Number where
  whole : Nat
  fraction : List Char

/-- The digits in the first stretch of digits and blanks. -/
def leadingDigits (s : List Char) : List Char :=
  (s.takeWhile isNumberPart).filter Char.isDigit

/-- What follows the first stretch of digits and blanks. -/
def afterNumber (s : List Char) : List Char :=
  s.dropWhile isNumberPart

/-- Whether a unit, or the end of the text, comes next. -/
def unitFollows : List Char → Bool
  | [] => true
  | c :: _ => isUnitLetter c

/-- The fraction's digits, from the text after its point. Both they and the power of ten that
they count must fit a word, for which the latter suffices. In case of fault, `offset` maps the
text from a place on to that place. -/
def readFraction (offset : List Char → Nat) (afterPoint : List Char) :
    Except Fault (List Char) :=
  let digits := leadingDigits afterPoint
  let rest := afterNumber afterPoint
  let place := if rest.length = afterPoint.length then offset ('.' :: afterPoint) else offset rest
  if wordBound ≤ powerOfTen digits.length then .error .notRepresentable
  else if !unitFollows rest || digits.isEmpty then .error (.invalidCharacter place)
  else .ok digits

/-- The number at the beginning of a text and what follows it. -/
def readNumber (offset : List Char → Nat) (s : List Char) :
    Except Fault (Number × List Char) := do
  let whole := Nat.ofDigitChars 10 (leadingDigits s) 0
  if wordBound ≤ whole then throw .notRepresentable
  match afterNumber s with
  | '.' :: afterPoint => return (⟨whole, ← readFraction offset afterPoint⟩, afterNumber afterPoint)
  | rest =>
    if unitFollows rest then return (⟨whole, []⟩, rest)
    else throw (.invalidCharacter (offset rest))

/-- The name of the unit at the beginning of a text. Only a blank, a digit or the end may
follow it. -/
def readUnitName (offset : List Char → Nat) (s : List Char) : Except Fault String :=
  match s.dropWhile isUnitLetter with
  | [] => .ok (String.ofList (s.takeWhile isUnitLetter))
  | c :: rest =>
    if isNumberPart c then .ok (String.ofList (s.takeWhile isUnitLetter))
    else .error (.invalidCharacter (offset (c :: rest)))

/-- A duration and one term more: first the whole part is added, then the fraction. -/
def addTerm (sum : Duration) (n : Number) (name : String) : Except Fault Duration :=
  match unit? name with
  | none => .error (if name = "" then .unitNeeded n.whole else .unknownUnit name)
  | some unit =>
    let withWhole := (unit.whole.scaled? n.whole 1).bind sum.add?
    let withFraction :=
      if n.fraction = [] then withWhole
      else do
        let numerator := Nat.ofDigitChars 10 n.fraction 0
        let part ← (← unit.fraction).scaled? numerator (powerOfTen n.fraction.length)
        (← withWhole).add? part
    match withFraction with
    | some d => .ok d
    | none => .error .notRepresentable

theorem length_dropWhile_le {α : Type} (p : α → Bool) (s : List α) :
    (s.dropWhile p).length ≤ s.length :=
  (List.dropWhile_sublist p).length_le

/-- A number that begins with a digit leaves less text. -/
theorem readNumber_length {offset : List Char → Nat} {c : Char} {s rest : List Char} {n : Number}
    (hc : c.isDigit = true) (h : readNumber offset (c :: s) = .ok (n, rest)) :
    rest.length < (c :: s).length := by
  have hs : (afterNumber (c :: s)).length ≤ s.length := by
    simp [afterNumber, isNumberPart, hc, length_dropWhile_le]
  unfold readNumber at h
  simp only [bind, Except.bind, pure, Except.pure, throw, throwThe, MonadExceptOf.throw] at h
  split at h
  · cases h
  · split at h
    · rename_i afterPoint hp
      rw [hp] at hs
      cases hf : readFraction offset afterPoint with
      | error e => simp [hf] at h
      | ok digits =>
        simp only [hf, Except.ok.injEq, Prod.mk.injEq] at h
        have := length_dropWhile_le isNumberPart afterPoint
        rw [← h.2]
        simp only [afterNumber, List.length_cons] at hs ⊢
        omega
    · split at h
      · simp only [Except.ok.injEq, Prod.mk.injEq] at h
        rw [← h.2, List.length_cons]
        omega
      · cases h

/-- Adds the terms of a text to a sum. -/
def addTerms (offset : List Char → Nat) (sum : Duration) (s : List Char) :
    Except Fault Duration :=
  match hs : s.dropWhile Text.isBlank with
  | [] => .ok sum
  | c :: rest =>
    if hc : c.isDigit then
      match hn : readNumber offset (c :: rest) with
      | .error e => .error e
      | .ok (n, fromUnit) =>
        match readUnitName offset fromUnit with
        | .error e => .error e
        | .ok name =>
          match addTerm sum n name with
          | .error e => .error e
          | .ok sum =>
            have : (fromUnit.dropWhile isUnitLetter).length < s.length :=
              calc
                _ ≤ fromUnit.length := length_dropWhile_le isUnitLetter fromUnit
                _ < (c :: rest).length := readNumber_length hc hn
                _ ≤ s.length := hs ▸ length_dropWhile_le Text.isBlank s
            addTerms offset sum (fromUnit.dropWhile isUnitLetter)
    else .error (.numberExpected (offset (c :: rest)))
termination_by s.length

/-- The duration that a text writes. A lone `0` needs no unit. -/
def read (s : String) : Except Fault Duration :=
  if s = "0" then .ok zero
  else if s.toList.all Text.isBlank then .error .empty
  else addTerms (fun rest => width s.toList - width rest) zero s.toList

end SingleShot.Duration
