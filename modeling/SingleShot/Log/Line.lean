/-!
# Log lines

A log line has a level, the part of the program that writes it, and a text.
-/

namespace SingleShot.Log

/-- Levels, from the most to the least urgent. -/
inductive Level
  | error
  | warn
  | info
  | debug
  | trace
  deriving DecidableEq, Repr

namespace Level

/-- The name of a level. -/
def name : Level → String
  | error => "ERROR"
  | warn => "WARN"
  | info => "INFO"
  | debug => "DEBUG"
  | trace => "TRACE"

/-- How much is written when all levels up to this one are. -/
def verbosity : Level → Nat
  | error => 1
  | warn => 2
  | info => 3
  | debug => 4
  | trace => 5

end Level

/-- The parts of the program that write lines. -/
inductive Source
  | program
  | session
  | readiness
  | submission
  | channel
  deriving DecidableEq, Repr

/-- The name of a part in the log. -/
def Source.name : Source → String
  | program => "tx_bench"
  | session => "tx_bench::runner"
  | readiness => "tx_bench::readiness"
  | submission => "tx_bench::submit"
  | channel => "tx_bench::submit::grpc"

/-- A line of the log. -/
structure Line where
  level : Level
  source : Source
  text : String
  deriving DecidableEq

end SingleShot.Log
