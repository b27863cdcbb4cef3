import SingleShot.Word

/-!
# Durations

A length of time, exact to the nanosecond and below `2 ^ 64` seconds, and its printed form.

* `Duration.text` prints in the largest unit that the duration reaches, with every digit of
  the rest: `1.5s`, `30.5ms`, `0ns`.
-/

namespace SingleShot

/-- The number of nanoseconds in a second. -/
def nanosPerSecond : Nat :=
  1000000000

/-- A length of time in nanoseconds. Its number of seconds is a word. -/
@[ext]
structure Duration where
  nanos : Nat
  nanos_lt : nanos < wordBound * nanosPerSecond
  deriving DecidableEq

namespace Duration

/-- The duration of some nanoseconds, if it is within the bound. -/
def ofNanos? (n : Nat) : Option Duration :=
  if h : n < wordBound * nanosPerSecond then some ⟨n, h⟩ else none

def zero : Duration :=
  ⟨0, by decide⟩

/-- The whole seconds. -/
def seconds (d : Duration) : Nat :=
  d.nanos / nanosPerSecond

/-- The nanoseconds beyond the whole seconds. -/
def subsecond (d : Duration) : Nat :=
  d.nanos % nanosPerSecond

theorem seconds_lt (d : Duration) : d.seconds < wordBound :=
  Nat.div_lt_of_lt_mul (Nat.mul_comm _ _ ▸ d.nanos_lt)

/-- A unit of the printed form: its name, and the power of ten of nanoseconds that it has. -/
structure PrintUnit where
  name : String
  exponent : Nat

/-- The unit for printing: the largest that the duration reaches, or else the smallest. -/
def printUnit (d : Duration) : PrintUnit :=
  if 1000000000 ≤ d.nanos then ⟨"s", 9⟩
  else if 1000000 ≤ d.nanos then ⟨"ms", 6⟩
  else if 1000 ≤ d.nanos then ⟨"µs", 3⟩
  else ⟨"ns", 0⟩

/-- The digits after the point of `rest` after the point, without zeros at the end. -/
def fractionDigits (places rest : Nat) : List Char :=
  (((Nat.toDigits 10 rest).leftpad places '0').reverse.dropWhile (· = '0')).reverse

/-- A point and the fraction, or nothing if there is no rest. -/
def fractionText (places rest : Nat) : List Char :=
  if rest = 0 then [] else '.' :: fractionDigits places rest

/-- The printed form. -/
def text (d : Duration) : String :=
  let unit := d.printUnit
  let scale := powerOfTen unit.exponent
  String.ofList (Nat.toDigits 10 (d.nanos / scale) ++ fractionText unit.exponent (d.nanos % scale))
    ++ unit.name

end Duration

end SingleShot
