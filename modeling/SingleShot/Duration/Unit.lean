import SingleShot.Duration

/-!
# Units of written durations

The units that a written duration may use, with all their names, and the sum that a number of
units is added to. Whole seconds and nanoseconds are counted apart, each as a 64-bit word.
-/

namespace SingleShot.Duration

/-- An amount of time that a single word counts. -/
inductive Amount
  | nanos (n : Nat)
  | seconds (n : Nat)
  deriving DecidableEq, Repr

/-- A unit, with what one of it amounts to. For the fraction of a number the amount may be
counted more finely; a unit without a finer count takes no fraction. -/
structure TimeUnit where
  names : List String
  whole : Amount
  fraction : Option Amount

/-- A unit that is counted in the same amounts everywhere. -/
def TimeUnit.plain (names : List String) (amount : Amount) : TimeUnit :=
  ⟨names, amount, some amount⟩

/-- The units, from the smallest. A month is a twelfth of a year of 365.25 days. -/
def units : List TimeUnit :=
  [⟨["nanos", "nsec", "ns"], .nanos 1, none⟩,
    .plain ["usec", "us", "µs"] (.nanos 1000),
    .plain ["millis", "msec", "ms"] (.nanos 1000000),
    ⟨["seconds", "second", "secs", "sec", "s"], .seconds 1, some (.nanos 1000000000)⟩,
    ⟨["minutes", "minute", "min", "mins", "m"], .seconds 60, some (.nanos 60000000000)⟩,
    .plain ["hours", "hour", "hr", "hrs", "h"] (.seconds 3600),
    .plain ["days", "day", "d"] (.seconds 86400),
    .plain ["weeks", "week", "wk", "wks", "w"] (.seconds 604800),
    .plain ["months", "month", "M"] (.seconds 2630016),
    .plain ["years", "year", "yr", "yrs", "y"] (.seconds 31557600)]

/-- The unit of a name. -/
def unit? (name : String) : Option TimeUnit :=
  units.find? (·.names.contains name)

/-- `count / divisor` units of an amount, if that is a whole number and every step fits a word. -/
def Amount.scaled? (amount : Amount) (count divisor : Nat) : Option Amount :=
  let exact (n : Nat) : Option Nat :=
    if n * count < wordBound ∧ n * count % divisor = 0 then some (n * count / divisor) else none
  match amount with
  | .nanos n => (exact n).map .nanos
  | .seconds n => (exact n).map .seconds

/-- A duration and an amount more. Nanoseconds are added to those beyond the whole seconds. -/
def add? (d : Duration) : Amount → Option Duration
  | .nanos n => if d.subsecond + n < wordBound then ofNanos? (d.nanos + n) else none
  | .seconds n => ofNanos? (d.nanos + n * nanosPerSecond)

end SingleShot.Duration
