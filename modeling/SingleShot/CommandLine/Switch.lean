/-!
# Switches of the command line

What may be asked for on the command line: settings, which take a value, flags, which take
none, and the two requests for information. Each has one long name, `--size` for the size;
only the requests have a short form as well.
-/

namespace SingleShot.CommandLine

/-- What takes a value. -/
inductive Setting
  | addr
  | size
  | nodes
  | attemptTimeout
  | retryInterval
  | waitDeadline
  deriving DecidableEq, Repr

/-- What takes no value. -/
inductive Flag
  | concurrentWait
  | noAnsi
  deriving DecidableEq, Repr

/-- What is answered instead of a run. -/
inductive Request
  | help
  | version
  deriving DecidableEq, Repr

/-- Anything that a word with two dashes can name. -/
inductive Switch
  | setting (s : Setting)
  | flag (f : Flag)
  | request (r : Request)
  deriving DecidableEq, Repr

/-- The long name without its dashes. -/
def Setting.name : Setting → String
  | addr => "addr"
  | size => "size"
  | nodes => "nodes"
  | attemptTimeout => "attempt-timeout"
  | retryInterval => "retry-interval"
  | waitDeadline => "wait-deadline"

/-- How the value is called in messages. -/
def Setting.valueName : Setting → String
  | addr => "ADDR"
  | size => "SIZE"
  | nodes => "NODES"
  | attemptTimeout => "ATTEMPT_TIMEOUT"
  | retryInterval => "RETRY_INTERVAL"
  | waitDeadline => "WAIT_DEADLINE"

/-- The long name without its dashes. -/
def Flag.name : Flag → String
  | concurrentWait => "concurrent-wait"
  | noAnsi => "no-ansi"

/-- The long name without its dashes. -/
def Request.name : Request → String
  | help => "help"
  | version => "version"

/-- The letter of the short form. -/
def Request.letter : Request → Char
  | help => 'h'
  | version => 'V'

namespace Switch

/-- The long name without its dashes. -/
def name : Switch → String
  | setting s => s.name
  | flag f => f.name
  | request r => r.name

/-- How messages name a switch. -/
def label : Switch → String
  | setting s => s!"--{s.name} <{s.valueName}>"
  | flag f => s!"--{f.name}"
  | request r => s!"--{r.name}"

/-- All switches, in the order of the help. -/
def all : List Switch :=
  [setting .addr, setting .size, setting .nodes, setting .attemptTimeout,
    setting .retryInterval, setting .waitDeadline, flag .concurrentWait, flag .noAnsi,
    request .help, request .version]

/-- The switch of a name, which must be complete. -/
def ofName? (name : String) : Option Switch :=
  all.find? (·.name = name)

/-- Every switch is found by its name, so no two share one. -/
theorem ofName?_name (s : Switch) : ofName? s.name = some s := by
  rcases s with s | f | r
  · cases s <;> decide
  · cases f <;> decide
  · cases r <;> decide

end Switch

/-- The request of a letter. -/
def Request.ofLetter? (c : Char) : Option Request :=
  [help, version].find? (·.letter = c)

end SingleShot.CommandLine
