import SingleShot.CommandLine.Switch
import SingleShot.Config
import SingleShot.Duration.Reader
import SingleShot.Text.Decimal

/-!
# Arguments

What a command line asks for, once it has been read, and the settings of the run that follow
from it. Values are kept as they were given: only `Arguments.config` trims the names of nodes.
-/

namespace SingleShot.CommandLine

/-- The values given on a command line, with the standard ones where nothing was given. -/
structure Arguments where
  addr : String
  size : Nat
  nodes : List String
  attemptTimeout : Duration
  retryInterval : Duration
  waitDeadline : Option Duration
  concurrentWait : Bool
  noAnsi : Bool
  deriving DecidableEq

namespace Arguments

/-- The peers among the nodes: their names without blanks around them, empty ones left out. -/
def peersOf (nodes : List String) : List String :=
  (nodes.map fun node => String.ofList (Text.trimmed node.toList)).filter (· ≠ "")

/-- The settings of the run. -/
def config (a : Arguments) : Config where
  target := a.addr
  size := a.size
  peers := peersOf a.nodes
  policy :=
    { attemptTimeout := a.attemptTimeout
      retryInterval := a.retryInterval
      deadline := a.waitDeadline
      mode := if a.concurrentWait then .concurrent else .sequential }

end Arguments

/-- What is wrong with a command line. -/
inductive ArgumentError
  /-- The target was not given. -/
  | missingTarget
  /-- A word that is no switch and no value. -/
  | unknown (word : String)
  | missingValue (setting : Setting)
  | invalidValue (setting : Setting) (value message : String)
  /-- A switch that may be given once was given again. -/
  | repeated (switch : Switch)
  /-- A value was attached to a switch that takes none. -/
  | unneededValue (switch : Switch) (value : String)
  deriving DecidableEq, Repr

/-- Why reading a command line ends without arguments. -/
inductive Stop
  | requested (r : Request)
  | failed (e : ArgumentError)
  deriving DecidableEq, Repr

/-! ## Texts that stand for what is not given -/

/-- The size that is read if none is given. -/
def standardSize : String :=
  toString Config.defaultSize

/-- The timeout of an attempt that is read if none is given. -/
def standardAttemptTimeout : String :=
  "1s"

/-- The pause between attempts that is read if none is given. -/
def standardRetryInterval : String :=
  "10ms"

/-! ## Values that have been given -/

/-- The values that have been given so far. -/
structure Given where
  addr : Option String
  size : Option Nat
  nodes : List String
  attemptTimeout : Option Duration
  retryInterval : Option Duration
  waitDeadline : Option Duration
  concurrentWait : Bool
  noAnsi : Bool
  deriving DecidableEq

namespace Given

/-- Nothing has been given. -/
def none : Given where
  addr := .none
  size := .none
  nodes := []
  attemptTimeout := .none
  retryInterval := .none
  waitDeadline := .none
  concurrentWait := false
  noAnsi := false

/-- Whether another occurrence of a setting would be one too many. -/
def isComplete (g : Given) : Setting → Bool
  | .addr => g.addr.isSome
  | .size => g.size.isSome
  | .nodes => false
  | .attemptTimeout => g.attemptTimeout.isSome
  | .retryInterval => g.retryInterval.isSome
  | .waitDeadline => g.waitDeadline.isSome

/-- Whether a flag has been given. -/
def hasFlag (g : Given) : Flag → Bool
  | .concurrentWait => g.concurrentWait
  | .noAnsi => g.noAnsi

/-- The nodes of one value, divided at its commas. -/
def nodesOf (value : String) : List String :=
  (value.toList.splitOn ',').map String.ofList

/-- The number of a value of the size. -/
def readSize (value : String) : Except ArgumentError Nat :=
  (Text.readNumber wordBound value).mapError fun fault => .invalidValue .size value fault.message

/-- The duration of a value of a setting. -/
def readDuration (s : Setting) (value : String) : Except ArgumentError Duration :=
  (Duration.read value).mapError fun fault => .invalidValue s value fault.message

/-- Takes up a value of a setting. -/
def store (g : Given) (s : Setting) (value : String) : Except ArgumentError Given :=
  match s with
  | .addr => .ok { g with addr := some value }
  | .size => (readSize value).map fun n => { g with size := some n }
  | .nodes => .ok { g with nodes := g.nodes ++ nodesOf value }
  | .attemptTimeout => (readDuration s value).map fun d => { g with attemptTimeout := some d }
  | .retryInterval => (readDuration s value).map fun d => { g with retryInterval := some d }
  | .waitDeadline => (readDuration s value).map fun d => { g with waitDeadline := some d }

/-- Takes up one occurrence of a setting: it must have a value, must not be one too many, and
the value must be well-formed, checked in this order. -/
def settle (g : Given) (s : Setting) (value : Option String) : Except ArgumentError Given :=
  match value with
  | .none => .error (.missingValue s)
  | some value =>
    if g.isComplete s then .error (.repeated (.setting s)) else g.store s value

/-- Takes up one occurrence of a flag. -/
def raise (g : Given) (f : Flag) : Except ArgumentError Given :=
  if g.hasFlag f then .error (.repeated (.flag f))
  else
    match f with
    | .concurrentWait => .ok { g with concurrentWait := true }
    | .noAnsi => .ok { g with noAnsi := true }

/-- What was given, or else what a standard text stands for. -/
def orStandard {α : Type} (given : Option α) (read : String → Except ArgumentError α)
    (text : String) : Except ArgumentError α :=
  match given with
  | some x => .ok x
  | .none => read text

/-- The arguments. For what was not given a standard text is read, if there is one. -/
def arguments (g : Given) : Except ArgumentError Arguments := do
  let size ← orStandard g.size readSize standardSize
  let attemptTimeout ←
    orStandard g.attemptTimeout (readDuration .attemptTimeout) standardAttemptTimeout
  let retryInterval ←
    orStandard g.retryInterval (readDuration .retryInterval) standardRetryInterval
  match g.addr with
  | .none => .error .missingTarget
  | some addr =>
    return {
      addr, size, attemptTimeout, retryInterval
      nodes := g.nodes
      waitDeadline := g.waitDeadline
      concurrentWait := g.concurrentWait
      noAnsi := g.noAnsi }

end Given

end SingleShot.CommandLine
